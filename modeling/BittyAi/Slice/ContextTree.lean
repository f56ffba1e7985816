/-
BittyAi.Slice.ContextTree — context trees of
`bitty-ai-slice/src/context_compiler.rs`: named slots in the order of their names, the
bytes of a stored tree, and the merge of two trees against a base.
-/
import BittyAi.Lib.EarlyExit
import BittyAi.Lib.SortedList
import BittyAi.Lib.Text
import BittyAi.Session.ContentHash

namespace BittyAi.Slice

open Lib Session

def maxSlotNameBytes : Nat := 256

inductive EntryKind where
  | blob
  | tree
  deriving DecidableEq

def EntryKind.asU8 : EntryKind → UInt8
  | .blob => 1
  | .tree => 2

structure TreeEntry where
  name : String
  hash : ContentHash
  kind : EntryKind
  sizeBytes : Nat
  deriving DecidableEq

inductive TreeFault where
  | magic
  | nameLength
  | payload
  | utf8
  | kindTag (tag : UInt8)
  deriving DecidableEq

/-- Rust `CompilerError`, as far as trees raise it. -/
inductive CompilerError where
  | oversizedSlotName (name : String) (max : Nat)
  | invalidSlotName (name : String)
  | corruptedTree (fault : TreeFault)
  deriving DecidableEq

def TreeEntry.new (name : String) (hash : ContentHash) (kind : EntryKind) (sizeBytes : Nat) :
    Except CompilerError TreeEntry := do
  let name := trim name
  refuseIf name.isEmpty (.invalidSlotName name)
  refuseIf (name.utf8ByteSize > maxSlotNameBytes) (.oversizedSlotName name maxSlotNameBytes)
  refuseIf (name.toList.any fun c => c.toNat < 0x20 || c.toNat = 0x7f) (.invalidSlotName name)
  return { name, hash, kind, sizeBytes }

/-! ## Trees -/

structure ContextTree where
  entries : List TreeEntry
  sorted : entries.Pairwise (·.name < ·.name)
  deriving DecidableEq

def insertEntry (entry : TreeEntry) : List TreeEntry → List TreeEntry
  | [] => [entry]
  | first :: rest =>
    if entry.name < first.name then entry :: first :: rest
    else if entry.name = first.name then entry :: rest
    else first :: insertEntry entry rest

theorem mem_insertEntry {entry e : TreeEntry} {entries : List TreeEntry}
    (h : e ∈ insertEntry entry entries) : e = entry ∨ e ∈ entries := by
  induction entries with
  | nil => simpa [insertEntry] using h
  | cons first rest ih =>
    unfold insertEntry at h
    split at h
    · simpa using h
    · split at h
      · rcases List.mem_cons.mp h with rfl | hrest
        · exact .inl rfl
        · exact .inr (List.mem_cons_of_mem _ hrest)
      · rcases List.mem_cons.mp h with rfl | hrest
        · exact .inr List.mem_cons_self
        · exact (ih hrest).imp_right (List.mem_cons_of_mem _)

theorem sorted_insertEntry {entry : TreeEntry} {entries : List TreeEntry}
    (h : entries.Pairwise (·.name < ·.name)) :
    (insertEntry entry entries).Pairwise (·.name < ·.name) := by
  induction entries with
  | nil => simp [insertEntry]
  | cons first rest ih =>
    obtain ⟨hfirst, hrest⟩ := List.pairwise_cons.mp h
    unfold insertEntry
    split
    next hlt =>
      refine List.pairwise_cons.mpr ⟨fun e he => ?_, h⟩
      rcases List.mem_cons.mp he with rfl | he
      · exact hlt
      · exact hlt.trans (hfirst e he)
    next hge =>
      split
      next heq => exact List.pairwise_cons.mpr ⟨fun e he => heq ▸ hfirst e he, hrest⟩
      next hne =>
        refine List.pairwise_cons.mpr ⟨fun e he => ?_, ih hrest⟩
        rcases mem_insertEntry he with rfl | he
        · exact lt_of_le_of_ne (not_lt.mp hge) (Ne.symm hne)
        · exact hfirst e he

namespace ContextTree

def empty : ContextTree := ⟨[], List.Pairwise.nil⟩

def insert (tree : ContextTree) (entry : TreeEntry) : ContextTree :=
  ⟨insertEntry entry tree.entries, sorted_insertEntry tree.sorted⟩

def get (tree : ContextTree) (name : String) : Option TreeEntry :=
  tree.entries.find? (·.name = name)

def names (tree : ContextTree) : List String := tree.entries.map (·.name)

def slotPayloadRefs (tree : ContextTree) : List (ContentHash × Bool) :=
  tree.entries.map fun entry => (entry.hash, entry.kind = .tree)

/-! ## Bytes -/

def magic : List UInt8 := utf8Bytes "tree:v1" ++ [0]

def entryBytes (entry : TreeEntry) : List UInt8 :=
  beBytes 4 entry.name.utf8ByteSize ++ (utf8Bytes entry.name ++ (entry.hash.bytes ++
    (entry.kind.asU8 :: beBytes 8 entry.sizeBytes)))

def canonicalBytes (tree : ContextTree) : List UInt8 := magic ++ tree.entries.flatMap entryBytes

def digest (tree : ContextTree) : ContentHash := ContentHash.compute tree.canonicalBytes

def parseEntry (bytes : List UInt8) : Except CompilerError (TreeEntry × List UInt8) := do
  refuseIf (bytes.length < 4) (.corruptedTree .nameLength)
  let nameLen := ofBeBytes (bytes.take 4)
  let rest := bytes.drop 4
  if h : rest.length < nameLen + 32 + 1 + 8 then .error (.corruptedTree .payload)
  else
    let name ← match String.fromUTF8? ⟨(rest.take nameLen).toArray⟩ with
      | some name => .ok name
      | none => .error (.corruptedTree .utf8)
    let hash : ContentHash := ⟨(rest.drop nameLen).take 32, by simp; omega⟩
    let kind ← match (rest.drop (nameLen + 32)).headD 0 with
      | 1 => .ok EntryKind.blob
      | 2 => .ok EntryKind.tree
      | tag => .error (.corruptedTree (.kindTag tag))
    let sizeBytes := ofBeBytes ((rest.drop (nameLen + 33)).take 8)
    let entry ← TreeEntry.new name hash kind sizeBytes
    return (entry, rest.drop (nameLen + 41))

/-- The entries of a tree, one after the other; each takes at least one byte, so the
number of bytes bounds the rounds. -/
def parseEntries : Nat → List UInt8 → ContextTree → Except CompilerError ContextTree
  | 0, _, tree => .ok tree
  | fuel + 1, bytes, tree =>
    if bytes.isEmpty then .ok tree
    else do
      let (entry, rest) ← parseEntry bytes
      parseEntries fuel rest (tree.insert entry)

def fromCanonicalBytes (bytes : List UInt8) : Except CompilerError ContextTree :=
  if magic.isPrefixOf bytes then parseEntries bytes.length (bytes.drop magic.length) empty
  else .error (.corruptedTree .magic)

end ContextTree

/-! ## Merge -/

structure SlotConflict where
  slot : String
  base : Option TreeEntry
  ours : Option TreeEntry
  theirs : Option TreeEntry
  deriving DecidableEq

structure TreeMergeResult where
  merged : ContextTree
  conflicts : List SlotConflict

namespace TreeMergeResult

def keep (result : TreeMergeResult) (entry : TreeEntry) : TreeMergeResult :=
  { result with merged := result.merged.insert entry }

def clash (result : TreeMergeResult) (conflict : SlotConflict) : TreeMergeResult :=
  { result with conflicts := result.conflicts ++ [conflict] }

end TreeMergeResult

/-- The body of the loop of `merge_3way`: one slot, as base, ours and theirs hold it. -/
def mergeSlot (key : String) (base ours theirs : Option TreeEntry) (result : TreeMergeResult) :
    TreeMergeResult :=
  match base, ours, theirs with
  | some b, some o, some t =>
    if o = b ∧ t = b then result.keep b
    else if t = b ∧ o ≠ b then result.keep o
    else if o = b ∧ t ≠ b then result.keep t
    else if o = t then result.keep o
    else result.clash ⟨key, base, ours, theirs⟩
  | none, some o, none => result.keep o
  | none, none, some t => result.keep t
  | none, some o, some t =>
    if o = t then result.keep o else result.clash ⟨key, base, ours, theirs⟩
  | some b, none, some t => if t = b then result else result.clash ⟨key, base, ours, theirs⟩
  | some b, some o, none => if o = b then result else result.clash ⟨key, base, ours, theirs⟩
  | some _, none, none => result
  | none, none, none => result.clash ⟨key, base, ours, theirs⟩

namespace ContextTree

def mergeSlots (base ours theirs : ContextTree) (keys : List String) (result : TreeMergeResult) :
    TreeMergeResult :=
  keys.foldl (fun result key =>
    mergeSlot key (base.get key) (ours.get key) (theirs.get key) result) result

def merge3way (base ours theirs : ContextTree) : TreeMergeResult :=
  mergeSlots base ours theirs (sortDedup (base.names ++ ours.names ++ theirs.names)) ⟨empty, []⟩

end ContextTree

end BittyAi.Slice
