/-
BittyAi.Slice.FragmentTransportTheorems — transport parts lose nothing and cannot be
mixed.
-/
import BittyAi.Slice.FragmentTransport

namespace BittyAi.Slice

open Lib FragmentTransportCursor List
open BittyAi.Runtime (Fragment StreamChunk maxFragmentBytes)

variable {Z : Type}

/-! ## Cutting between characters -/

section Cutting

variable {bytes : List UInt8}

theorem backOff_le (bytes : List UInt8) (stop : Nat) : backOff bytes stop ≤ stop := by
  induction stop with
  | zero => exact Nat.le_refl 0
  | succ stop ih =>
    rw [backOff]
    split
    · exact Nat.le_refl _
    · omega

theorem isBoundary_backOff (h : isBoundary bytes = true) (stop : Nat) :
    isBoundary (bytes.drop (backOff bytes stop)) = true := by
  induction stop with
  | zero => exact h
  | succ stop ih =>
    rw [backOff]
    split
    · assumption
    · exact ih

theorem le_backOff {at' stop : Nat} (hle : at' ≤ stop)
    (h : isBoundary (bytes.drop at') = true) : at' ≤ backOff bytes stop := by
  induction stop with
  | zero => exact hle
  | succ stop ih =>
    rw [backOff]
    split
    · exact hle
    · rename_i hinside
      refine ih (Nat.le_of_lt_succ (Nat.lt_of_le_of_ne hle ?_))
      rintro rfl
      exact hinside h

def slices (bytes : List UInt8) : Nat → List Nat → Option (List String)
  | _, [] => some []
  | start, stop :: ends =>
    (fromUtf8? ((bytes.take stop).drop start)).bind fun text =>
      (slices bytes stop ends).map (text :: ·)

theorem length_slices {start : Nat} {ends : List Nat} {texts : List String}
    (h : slices bytes start ends = some texts) : texts.length = ends.length := by
  induction ends generalizing start texts with
  | nil =>
    cases h
    rfl
  | cons stop ends ih =>
    simp only [slices, Option.bind_eq_some_iff, Option.map_eq_some_iff] at h
    obtain ⟨text, -, rest, hrest, rfl⟩ := h
    simp [ih hrest]

theorem next_cut {start stop : Nat} {c : Char} {cs : List Char} (hbytes : isBoundary bytes = true)
    (h : bytes.drop start = encode (c :: cs))
    (hstop : stop = backOff bytes (min (start + maxFragmentTextBytes) bytes.length)) :
    ∃ as bs, c :: cs = as ++ bs ∧ start < stop ∧ (encode as).length ≤ maxFragmentTextBytes ∧
      (bytes.take stop).drop start = encode as ∧ bytes.drop stop = encode bs := by
  have hsize : (String.utf8EncodeChar c).length = c.utf8Size := String.length_utf8EncodeChar c
  have hpos := c.utf8Size_pos
  have hsmall := c.utf8Size_le_four
  have hlength := congrArg length h
  rw [length_drop, encode_cons, length_append, hsize] at hlength
  have hnext : start + c.utf8Size ≤ stop := by
    have hbehind : isBoundary (bytes.drop (start + c.utf8Size)) = true := by
      rw [← drop_drop, h, encode_cons, ← hsize, drop_left]
      exact isBoundary_encode cs
    rw [hstop]
    refine le_backOff ?_ hbehind
    unfold maxFragmentTextBytes
    omega
  have hlimit : stop ≤ min (start + maxFragmentTextBytes) bytes.length := hstop ▸ backOff_le bytes _
  have hcut : bytes.drop stop = (bytes.drop start).drop (stop - start) := by
    rw [drop_drop]
    congr 1
    omega
  have hboundary : isBoundary ((bytes.drop start).drop (stop - start)) = true := by
    rw [← hcut, hstop]
    exact isBoundary_backOff hbytes _
  obtain ⟨as, bs, hcs, has, hbs⟩ :=
    encode_split (h.symm.trans (take_append_drop (stop - start) _).symm) hboundary
  refine ⟨as, bs, hcs, by omega, ?_, ?_, hcut.trans hbs.symm⟩
  · rw [has, length_take]
    omega
  · rw [drop_take, has]

theorem partEndsFrom_slices {turns start : Nat} {cs : List Char} (hbytes : isBoundary bytes = true)
    (h : bytes.drop start = encode cs) (hturns : bytes.length - start ≤ turns) :
    ∃ texts, slices bytes start (partEndsFrom bytes turns start) = some texts ∧
      texts.flatMap String.toList = cs ∧
      ∀ text ∈ texts, text.utf8ByteSize ≤ maxFragmentTextBytes := by
  induction turns generalizing start cs with
  | zero =>
    rw [drop_of_length_le (by omega), ← encode_nil, encode_inj] at h
    exact ⟨[], rfl, by simp [h], by simp⟩
  | succ turns ih =>
    cases cs with
    | nil =>
      have hend : ¬start < bytes.length := by
        have hlength := congrArg length h
        rw [length_drop, encode_nil, length_nil] at hlength
        omega
      rw [partEndsFrom, if_neg hend]
      exact ⟨[], rfl, rfl, by simp⟩
    | cons c cs =>
      obtain ⟨as, bs, hcs, hmove, hshort, hslice, hrest⟩ := next_cut hbytes h rfl
      have hmore : start < bytes.length := by
        by_contra hend
        rw [drop_of_length_le (Nat.not_lt.mp hend), ← encode_nil, encode_inj] at h
        cases h
      rw [partEndsFrom, if_pos hmore]
      generalize backOff bytes (min (start + maxFragmentTextBytes) bytes.length) = stop at *
      obtain ⟨texts, htexts, hconcat, hbound⟩ := ih hrest (by omega)
      have htext : fromUtf8? (encode as) = some (String.ofList as) := by
        rw [fromUtf8?_eq_some, utf8Bytes_eq_encode, String.toList_ofList]
      refine ⟨String.ofList as :: texts, ?_, ?_, forall_mem_cons.mpr ⟨?_, hbound⟩⟩
      · simp [slices, hslice, htext, htexts]
      · simp [hconcat, hcs]
      · rwa [← length_utf8Bytes, utf8Bytes_eq_encode, String.toList_ofList]

theorem partEnds_slices (text : String) :
    ∃ texts, slices (utf8Bytes text) 0 (partEnds text) = some texts ∧ texts ≠ [] ∧
      String.join texts = text ∧ ∀ piece ∈ texts, piece.utf8ByteSize ≤ maxFragmentTextBytes := by
  have hencode : (utf8Bytes text).drop 0 = encode text.toList := utf8Bytes_eq_encode text
  have hstart : isBoundary (utf8Bytes text) = true := by
    rw [utf8Bytes_eq_encode]
    exact isBoundary_encode _
  obtain ⟨texts, hslices, hconcat, hbound⟩ :=
    partEndsFrom_slices hstart hencode (Nat.le_refl (utf8Bytes text).length)
  have hjoin : String.join texts = text := by rw [← String.toList_inj, String.toList_join, hconcat]
  cases hends : partEndsFrom (utf8Bytes text) (utf8Bytes text).length 0 with
  | nil =>
    rw [hends] at hslices
    cases hslices
    obtain rfl : "" = text := hjoin
    exact ⟨[""], by decide +kernel, by simp, rfl, by simp⟩
  | cons stop ends =>
    have hsome : partEnds text = stop :: ends := by
      simp only [partEnds, hends]
      rfl
    rw [hends] at hslices
    rw [hsome]
    refine ⟨texts, hslices, ?_, hjoin, hbound⟩
    rintro rfl
    have hlength := length_slices hslices
    simp at hlength

end Cutting

/-! ## One fragment -/

section Splitting

variable {source : PartSource Z} {fragment : Fragment} {parts : List (TransportPart Z)}
variable {first : TransportPart Z} {count position : Nat}

theorem cutParts_eq {bytes : List UInt8} {index start : Nat} {ends : List Nat} {texts : List String}
    (h : slices bytes start ends = some texts) (hindex : index + ends.length ≤ u32Limit) :
    cutParts source bytes count index start ends =
      .ok ((texts.zipIdx index).map fun (text, i) => source.part count i text) := by
  induction ends generalizing index start texts with
  | nil =>
    cases h
    rfl
  | cons stop ends ih =>
    simp only [slices, Option.bind_eq_some_iff, Option.map_eq_some_iff] at h
    obtain ⟨text, htext, rest, hrest, rfl⟩ := h
    rw [length_cons] at hindex
    have hsmall : ¬index ≥ u32Limit := by omega
    have hmore := ih hrest (show index + 1 + ends.length ≤ u32Limit by omega)
    rw [cutParts, if_neg hsmall, htext]
    simp only [hmore]
    rfl

structure SplitOf (fragment : Fragment) (source : PartSource Z) (parts : List (TransportPart Z)) :
    Prop where
  pieces : ∃ texts : List String, texts ≠ [] ∧
    parts = (texts.zipIdx.map fun (text, i) => source.part texts.length i text) ∧
    utf8Bytes (String.join texts) = fragment.bytes ∧
    ∀ text ∈ texts, text.utf8ByteSize ≤ maxFragmentTextBytes
  few : parts.length < u32Limit
  numbered : source.firstSeq + (parts.length - 1) < u64Limit
  bounded : fragment.bytes.length ≤ maxFragmentBytes

theorem preSplitFragment_cases (fragment : Fragment) (source : PartSource Z) :
    (∃ error, preSplitFragment fragment source = .error (.refused error)) ∨
      ∃ parts, preSplitFragment fragment source = .ok parts ∧ SplitOf fragment source parts := by
  unfold preSplitFragment
  split
  · exact .inl ⟨_, rfl⟩
  cases htext : fromUtf8? fragment.bytes with
  | none => exact .inl ⟨_, rfl⟩
  | some text =>
    dsimp only
    split
    · exact .inl ⟨_, rfl⟩
    split
    · exact .inl ⟨_, rfl⟩
    obtain ⟨texts, hslices, hne, hjoin, hbound⟩ := partEnds_slices text
    have hlength := length_slices hslices
    refine .inr ⟨_, cutParts_eq hslices (by omega), ⟨texts, hne, ?_, ?_, hbound⟩, ?_, ?_, by omega⟩
    · rw [hlength]
    · rw [hjoin, fromUtf8?_eq_some.mp htext]
    · simp only [length_map, length_zipIdx]
      omega
    · simp only [length_map, length_zipIdx]
      omega

theorem SplitOf.getElem (h : SplitOf fragment source parts) {i : Nat} (hi : i < parts.length) :
    ∃ text : String, text.utf8ByteSize ≤ maxFragmentTextBytes ∧
      parts[i] = source.part parts.length i text := by
  obtain ⟨texts, -, rfl, -, hbound⟩ := h.pieces
  simp only [length_map, length_zipIdx] at hi
  refine ⟨texts[i], hbound _ (getElem_mem hi), ?_⟩
  simp [getElem_zipIdx]

theorem SplitOf.seqs (h : SplitOf fragment source parts) :
    parts.map (·.data.seq) = range' source.firstSeq parts.length := by
  refine ext_getElem (by simp) fun i hi _ => ?_
  rw [length_map] at hi
  obtain ⟨text, -, hpart⟩ := h.getElem hi
  simp [hpart, PartSource.part]

theorem SplitOf.length_pos (h : SplitOf fragment source parts) : 0 < parts.length := by
  obtain ⟨texts, hne, rfl, -⟩ := h.pieces
  simpa using length_pos_iff.mpr hne

/-! ### Putting together -/

theorem checkPart_eq_ok {part : TransportPart Z} : checkPart first count position part = .ok () ↔
      position < u32Limit ∧ (part.partIndex = position ∧
        part.isContinuation = decide (position > 0)) ∧ part.partCount = first.partCount ∧
      part.data.terminalId = first.data.terminalId ∧ part.data.generation = first.data.generation ∧
      part.sourceSeq = first.sourceSeq ∧ first.data.seq + position < u64Limit ∧
      part.data.seq = first.data.seq + position ∧
      part.data.text.utf8ByteSize ≤ maxFragmentTextBytes := by
  simp [checkPart]

theorem checkParts_ok {total : Nat}
    (h : ∀ i (hi : i < parts.length), checkPart first count (position + i) parts[i] = .ok ()) :
    ∃ sum, checkParts first count position total parts = .ok sum ∧
      sum ≤ total + (String.join (parts.map (·.data.text))).utf8ByteSize := by
  induction parts generalizing position total with
  | nil => exact ⟨total, rfl, Nat.le_add_right _ _⟩
  | cons part parts ih =>
    have hfirst := h 0 (by simp)
    have hrest : ∀ i (hi : i < parts.length),
        checkPart first count (position + 1 + i) parts[i] = .ok () := by
      intro i hi
      have hnext := h (i + 1) (by simpa using hi)
      rwa [show position + (i + 1) = position + 1 + i by omega] at hnext
    obtain ⟨sum, hsum, hle⟩ := ih hrest
    refine ⟨sum, ?_, ?_⟩
    · rw [checkParts]
      rw [Nat.add_zero, getElem_cons_zero] at hfirst
      rw [hfirst]
      exact hsum
    · rw [map_cons, String.join_cons, String.utf8ByteSize_append]
      omega

theorem checkPart_of_checkParts {total sum : Nat}
    (h : checkParts first count position total parts = .ok sum) :
    ∀ i (hi : i < parts.length), checkPart first count (position + i) parts[i] = .ok () := by
  induction parts generalizing position total with
  | nil => simp
  | cons part parts ih =>
    simp only [checkParts, bind_eq_ok] at h
    obtain ⟨_, hfirst, hrest⟩ := h
    intro i hi
    cases i with
    | zero => exact hfirst
    | succ i =>
      rw [show position + (i + 1) = position + 1 + i by omega]
      exact ih hrest i (by simpa using hi)

theorem reassemble_eq_ok {text : String} (h : reassemble parts = .ok text) :
    ∃ first rest, parts = first :: rest ∧ first.partCount = parts.length ∧
      ∀ i (hi : i < parts.length), checkPart first parts.length i parts[i] = .ok () := by
  cases parts with
  | nil => cases h
  | cons first rest =>
    rw [reassemble, reassembleExpected, if_neg (by simp)] at h
    split at h
    · cases h
    · rename_i hcount
      simp only [bind_eq_ok] at h
      obtain ⟨sum, hsum, -⟩ := h
      refine ⟨first, rest, rfl, not_not.mp hcount, fun i hi => ?_⟩
      simpa using checkPart_of_checkParts hsum i hi

theorem SplitOf.reassemble (h : SplitOf fragment source parts) :
    ∃ text, reassemble parts = .ok text ∧ utf8Bytes text = fragment.bytes := by
  have hjoin : utf8Bytes (String.join (parts.map (·.data.text))) = fragment.bytes := by
    obtain ⟨texts, -, rfl, hbytes, -⟩ := h.pieces
    rw [← hbytes]
    congr 2
    simp [PartSource.part, Function.comp_def]
  cases parts with
  | nil => exact absurd h.length_pos (by simp)
  | cons first rest =>
    obtain ⟨head, -, hhead⟩ := h.getElem h.length_pos
    rw [getElem_cons_zero] at hhead
    have hchecks : ∀ i (hi : i < (first :: rest).length),
        checkPart first (first :: rest).length (0 + i) (first :: rest)[i] = .ok () := by
      intro i hi
      obtain ⟨text, hshort, hpart⟩ := h.getElem hi
      have hfew := h.few
      have hnumbered := h.numbered
      rw [checkPart_eq_ok, hpart, hhead, Nat.zero_add]
      refine ⟨by omega, ⟨rfl, rfl⟩, rfl, rfl, rfl, rfl, ?_, rfl, hshort⟩
      simp only [PartSource.part]
      omega
    obtain ⟨sum, hsum, hle⟩ :
        ∃ sum, checkParts first (first :: rest).length 0 0 (first :: rest) = .ok sum ∧ _ :=
      checkParts_ok hchecks
    rw [← length_utf8Bytes, hjoin, Nat.zero_add] at hle
    have hcount : first.partCount = (first :: rest).length := by rw [hhead]; rfl
    have hsmall : ¬sum > maxFragmentBytes := Nat.not_lt.mpr (Nat.le_trans hle h.bounded)
    refine ⟨_, ?_, hjoin⟩
    rw [Slice.reassemble, reassembleExpected, if_neg (by simp), if_neg (by simp [hcount])]
    exact bind_eq_ok.mpr ⟨sum, hsum, bind_eq_ok.mpr ⟨(), refuseIf_eq_ok.mpr hsmall, rfl⟩⟩

end Splitting

/-! ## A run of one cursor -/

section Runs

variable {cursor : FragmentTransportCursor}

theorem mapChunk_cases (cursor : FragmentTransportCursor) (chunk : StreamChunk) (zone : Option Z) :
    (∃ error, cursor.mapChunk chunk zone = (.error (.refused error), cursor)) ∨
      ∃ parts, cursor.mapChunk chunk zone =
          (.ok parts, { cursor with nextSeq := cursor.nextSeq + parts.length }) ∧
        SplitOf chunk.fragment
          ⟨cursor.terminalId, cursor.generation, zone, chunk.seq, cursor.nextSeq⟩ parts := by
  unfold mapChunk preSplitChunk
  cases validateChunk chunk with
  | error error => exact .inl ⟨_, rfl⟩
  | ok _ =>
    rcases preSplitFragment_cases chunk.fragment
      ⟨cursor.terminalId, cursor.generation, zone, chunk.seq, cursor.nextSeq⟩ with
      ⟨error, herror⟩ | ⟨parts, hparts, hsplit⟩
    · simp only [herror]
      exact .inl ⟨_, rfl⟩
    · simp only [hparts]
      split
      · exact .inl ⟨_, rfl⟩
      · exact .inr ⟨parts, rfl, hsplit⟩

variable (chunks : List (StreamChunk × Option Z))

theorem mapChunks_answers :
    ∀ mapped ∈ cursor.mapChunks chunks,
      (∃ error, mapped.answer = .error (.refused error)) ∨
        ∃ parts source, mapped.answer = .ok parts ∧ SplitOf mapped.chunk.fragment source parts := by
  induction chunks generalizing cursor with
  | nil => simp [mapChunks]
  | cons head chunks ih =>
    obtain ⟨chunk, zone⟩ := head
    rcases mapChunk_cases cursor chunk zone with ⟨error, hmap⟩ | ⟨parts, hmap, hsplit⟩
    · simp only [mapChunks, hmap, forall_mem_cons]
      exact ⟨.inl ⟨error, rfl⟩, ih⟩
    · simp only [mapChunks, hmap, forall_mem_cons]
      exact ⟨.inr ⟨parts, _, rfl, hsplit⟩, ih⟩

theorem mapChunks_seqs :
    ((cursor.mapChunks chunks).flatMap (·.parts)).map (·.data.seq) =
      range' cursor.nextSeq ((cursor.mapChunks chunks).flatMap (·.parts)).length := by
  induction chunks generalizing cursor with
  | nil => rfl
  | cons head chunks ih =>
    obtain ⟨chunk, zone⟩ := head
    rcases mapChunk_cases cursor chunk zone with ⟨error, hmap⟩ | ⟨parts, hmap, hsplit⟩
    · simpa [mapChunks, hmap, MappedChunk.parts] using ih
    · have hrest := @ih { cursor with nextSeq := cursor.nextSeq + parts.length }
      simp only [mapChunks, hmap, MappedChunk.parts, flatMap_cons,
        map_append, length_append, hsplit.seqs] at hrest ⊢
      rw [hrest, range'_append_1]

theorem eq_of_seq {chunks : List (StreamChunk × Option Z)} {a b : TransportPart Z}
    (ha : a ∈ (cursor.mapChunks chunks).flatMap (·.parts))
    (hb : b ∈ (cursor.mapChunks chunks).flatMap (·.parts)) (h : a.data.seq = b.data.seq) :
    a = b := by
  have hnodup : (((cursor.mapChunks chunks).flatMap (·.parts)).map (·.data.seq)).Nodup := by
    rw [mapChunks_seqs]
    exact nodup_range'
  exact inj_on_of_nodup_map hnodup ha hb h

theorem drawn_of_reassemble {chunks : List (StreamChunk × Option Z)}
    {drawn : List (TransportPart Z)} {text : String}
    (hdrawn : ∀ part ∈ drawn, part ∈ (cursor.mapChunks chunks).flatMap (·.parts))
    (h : reassemble drawn = .ok text) :
    ∃ mapped ∈ cursor.mapChunks chunks, mapped.answer = .ok drawn := by
  obtain ⟨first, rest, hdrawn', hcount, hchecks⟩ := reassemble_eq_ok h
  obtain ⟨mapped, hmapped, hfirst⟩ := mem_flatMap.mp (hdrawn first (by simp [hdrawn']))
  refine ⟨mapped, hmapped, ?_⟩
  rcases mapChunks_answers chunks mapped hmapped with
    ⟨error, hanswer⟩ | ⟨parts, source, hanswer, hsplit⟩
  · simp [MappedChunk.parts, hanswer] at hfirst
  · rw [MappedChunk.parts, hanswer] at hfirst
    have hmem : ∀ part ∈ parts, part ∈ (cursor.mapChunks chunks).flatMap (·.parts) := by
      intro part hpart
      refine mem_flatMap.mpr ⟨mapped, hmapped, ?_⟩
      rwa [MappedChunk.parts, hanswer]
    obtain ⟨j, hj, hfirst⟩ := getElem_of_mem hfirst
    obtain ⟨head, -, hhead⟩ := hsplit.getElem hj
    rw [hfirst] at hhead
    have hdrawnPos : 0 < drawn.length := by simp [hdrawn']
    -- the first part has index 0, so the numbers of the chunk begin with it
    have hzero : drawn[0] = first := by simp [hdrawn']
    have hj0 : j = 0 := by
      have hindex := (checkPart_eq_ok.mp (hchecks 0 hdrawnPos)).2.1.1
      rwa [hzero, hhead] at hindex
    have hlength : drawn.length = parts.length := by
      rw [← hcount, hhead]
      rfl
    rw [hanswer]
    refine congrArg _ (ext_getElem hlength.symm fun i hi hi' => ?_)
    obtain ⟨piece, -, hpiece⟩ := hsplit.getElem hi
    refine eq_of_seq (hmem _ (getElem_mem hi)) (hdrawn _ (getElem_mem hi')) ?_
    have hseq := (checkPart_eq_ok.mp (hchecks i hi')).2.2.2.2.2.2.2.1
    rw [hseq, hpiece, hhead, hj0]
    rfl

/-- The numbers of emitted parts are consecutive; a refused chunk leaves a cursor as it is; an
accepted one is cut into short texts that are put together to its bytes; and parts that are put
together are those of one chunk. -/
theorem fragments_lossless_unmixable (cursor : FragmentTransportCursor)
    (chunks : List (StreamChunk × Option Z)) :
    let run := cursor.mapChunks chunks
    let emitted := run.flatMap (·.parts)
    emitted.map (·.data.seq) = range' cursor.nextSeq emitted.length ∧
    (∀ (c : FragmentTransportCursor) (chunk : StreamChunk) (zone : Option Z) (stop : TransportStop),
      (c.mapChunk chunk zone).1 = .error stop → (c.mapChunk chunk zone).2 = c ∧ stop ≠ .panicked) ∧
    (∀ mapped ∈ run, ∀ parts, mapped.answer = .ok parts →
      (∀ part ∈ parts, part.data.text.utf8ByteSize ≤ maxFragmentTextBytes) ∧
        ∃ text, reassemble parts = .ok text ∧ utf8Bytes text = mapped.chunk.fragment.bytes) ∧
    ∀ drawn : List (TransportPart Z), (∀ part ∈ drawn, part ∈ emitted) → ∀ text,
      reassemble drawn = .ok text → ∃ mapped ∈ run, mapped.answer = .ok drawn := by
  refine ⟨mapChunks_seqs chunks, ?_, ?_, fun drawn hdrawn text => drawn_of_reassemble hdrawn⟩
  · intro c chunk zone stop hstop
    rcases mapChunk_cases c chunk zone with ⟨error, hmap⟩ | ⟨parts, hmap, -⟩
    · rw [hmap] at hstop ⊢
      cases hstop
      exact ⟨rfl, by simp⟩
    · rw [hmap] at hstop
      cases hstop
  · intro mapped hmapped parts hparts
    rcases mapChunks_answers chunks mapped hmapped with
      ⟨error, hanswer⟩ | ⟨split, source, hanswer, hsplit⟩
    · rw [hanswer] at hparts
      cases hparts
    · rw [hanswer] at hparts
      cases hparts
      refine ⟨fun part hpart => ?_, hsplit.reassemble⟩
      obtain ⟨i, hi, rfl⟩ := getElem_of_mem hpart
      obtain ⟨text, hshort, hpart⟩ := hsplit.getElem hi
      rw [hpart]
      exact hshort

end Runs

end BittyAi.Slice
