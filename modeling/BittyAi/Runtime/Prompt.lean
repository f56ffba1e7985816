/-
BittyAi.Runtime.Prompt — prompt assembly of `bitty-ai-runtime/src/prompt.rs`:
five layers from the core contract to the runtime turn, validated, merged and
rendered to canonical bytes.

A layer contributes text and constraints. Denials add up, allow-sets and scopes
intersect, budgets take their minimum, and directives of one key go to the layer
of higher precedence. The dispatch gate that reads the result is `checkDispatch`
of `BittyAi.Runtime.Agent`.
-/
import BittyAi.Lib.EarlyExit
import BittyAi.Lib.Narrowing
import BittyAi.Lib.SortedList
import BittyAi.Runtime.Agent

namespace BittyAi.Runtime

open Lib

/-! ## Bounds -/

def maxLayerTextBytes : Nat := 16 * 1024
def maxDirectivesPerLayer : Nat := 32
def maxDirectiveKeyLen : Nat := 64
def maxDirectiveValueLen : Nat := 256
def maxToolEntriesPerLayer : Nat := 32
def maxScopesPerLayer : Nat := 16
def maxScopeLen : Nat := 128
def maxCoreVersionLen : Nat := 64
def maxBudgetCeilingBytes : Nat := 256 * 1024
def maxCanonicalBytes : Nat := 96 * 1024

/-- Rust `EMPTY_ALLOW_SET_SENTINEL`; no tool has this name. -/
def emptyAllowSetSentinel : String := "<empty allow-set>"

/-! ## Layers -/

/-- Rust `PromptLayer`, from the most stable to the most dynamic. -/
inductive PromptLayer where
  | coreContract
  | user
  | project
  | skillsProfile
  | runtimeTurn
  deriving DecidableEq

namespace PromptLayer

def rank : PromptLayer → Nat
  | coreContract => 0
  | user => 1
  | project => 2
  | skillsProfile => 3
  | runtimeTurn => 4

/-- Rust `PromptLayer::name`, which is also the section header. -/
def name : PromptLayer → String
  | coreContract => "core-contract"
  | user => "user"
  | project => "project"
  | skillsProfile => "skills-profile"
  | runtimeTurn => "runtime-turn"

def stableOrder : List PromptLayer := [coreContract, user, project, skillsProfile, runtimeTurn]

end PromptLayer

structure Directive where
  key : String
  value : String

def neverMergeDirectiveKeys : List String := ["agent.identity", "capability.grant"]

structure DirectiveOverride where
  key : String
  winningValue : String
  winningLayer : PromptLayer
  overriddenValue : String
  overriddenLayer : PromptLayer
  deriving DecidableEq

/-- The order of the audit record: by key, overridden rank and value, then winning
rank and value. -/
def DirectiveOverride.cmp (a b : DirectiveOverride) : Ordering :=
  (compare a.key b.key).then <| (compare a.overriddenLayer.rank b.overriddenLayer.rank).then <|
      (compare a.overriddenValue b.overriddenValue).then <|
        (compare a.winningLayer.rank b.winningLayer.rank).then
          (compare a.winningValue b.winningValue)

/-- A constraint that is `none` constrains nothing. -/
structure LayerInput where
  layer : PromptLayer
  text : String
  allowedTools : Option (List String) := none
  deniedTools : List String := []
  budgetCeilingBytes : Option Nat := none
  allowedScopes : Option (List String) := none
  directives : List Directive := []

structure PromptSnapshot where
  coreVersion : String
  layers : List LayerInput

structure AssembledSection where
  layer : PromptLayer
  text : String

/-- Rust `AssembledPrompt` with all its fields; it extends the two sets that the
dispatch gate reads. -/
structure FullPrompt extends AssembledPrompt where
  coreVersion : String
  sections : List AssembledSection
  effectiveBudgetCeilingBytes : Option Nat
  effectiveScopes : Option (List String)
  effectiveDirectives : List Directive
  mergeOverrides : List DirectiveOverride
  canonicalBytes : List UInt8

/-! ## Errors -/

/-- Rust `PromptError`, without the variants of the loaders. -/
inductive PromptError where
  | invalidCoreVersion (version : String)
  | duplicateLayer (layer : PromptLayer)
  | tooManyLayers (limit : Nat)
  | layerTextTooLarge (layer : PromptLayer) (limit actual : Nat)
  | invalidLayerText (layer : PromptLayer) (reason : String)
  | invalidToolName (name : String)
  | tooManyTools (layer : PromptLayer) (limit : Nat)
  | invalidScope (scope : String)
  | tooManyScopes (layer : PromptLayer) (limit : Nat)
  | invalidDirectiveKey (key : String)
  | invalidDirectiveValue (key : String)
  | tooManyDirectives (layer : PromptLayer) (limit : Nat)
  | invalidBudget (actual : Nat)
  | unresolvableConflict (key first second : String)
  | canonicalTooLarge (limit actual : Nat)
  | dispatch (error : DispatchError)

/-! ## Validation -/

/-- The shape shared by versions, scopes and keys: nonempty, bounded, a lower-case
letter first, then lower-case letters, digits and the `extra` bytes. -/
def lowerShape (limit : Nat) (extra : List UInt8) (text : String) : Bool :=
  !text.isEmpty && decide (text.utf8ByteSize ≤ limit) &&
    (utf8Bytes text).head?.any (fun b => 0x61 ≤ b && b ≤ 0x7a) &&
    (utf8Bytes text).all fun b =>
      (0x61 ≤ b && b ≤ 0x7a) || (0x30 ≤ b && b ≤ 0x39) || extra.contains b

def validateCoreVersion (version : String) : Except PromptError Unit :=
  if lowerShape maxCoreVersionLen [0x2d, 0x5f, 0x2e, 0x40] version then .ok ()
  else .error (.invalidCoreVersion version)

def validateScope (scope : String) : Except PromptError Unit :=
  if lowerShape maxScopeLen [0x5f, 0x2e, 0x2d] scope then .ok () else .error (.invalidScope scope)

def validateDirectiveKey (key : String) : Except PromptError Unit :=
  if lowerShape maxDirectiveKeyLen [0x5f, 0x2e, 0x2d] key &&
      !(key.toList.any fun c => c ∈ ['=', '\n', '\r', '\x00']) then .ok ()
  else .error (.invalidDirectiveKey key)

def validateDirectiveValue (key value : String) : Except PromptError Unit :=
  if value.utf8ByteSize ≤ maxDirectiveValueLen ∧
      (value.toList.any fun c => c ∈ ['\n', '\r', '\x00']) = false then .ok ()
  else .error (.invalidDirectiveValue key)

def validatePromptToolName (name : String) : Except PromptError Unit :=
  match validateToolName name with
  | .ok () => .ok ()
  | .error _ => .error (.invalidToolName name)

def validateBudgetCeiling (ceiling : Nat) : Except PromptError Unit :=
  if 1 ≤ ceiling ∧ ceiling ≤ maxBudgetCeilingBytes then .ok () else .error (.invalidBudget ceiling)

def validateLayerText (layer : PromptLayer) (text : String) : Except PromptError Unit :=
  if text.utf8ByteSize > maxLayerTextBytes then
    .error (.layerTextTooLarge layer maxLayerTextBytes text.utf8ByteSize)
  else if '\r' ∈ text.toList then
    .error (.invalidLayerText layer "text must use LF newlines only (no CR)")
  else if '\x00' ∈ text.toList then .error (.invalidLayerText layer "text must not contain NUL")
  else .ok ()

def containsUntrustedMarkers (text : List Char) : Bool :=
  ["[untrusted", "[/untrusted", "[ACTION OUTCOME]", "[OBSERVATION", "=== OBSERVATIONS ===",
    "delta/1"].any fun marker => decide (marker.toList <:+: text)

def carriesTailMarkers (text : List Char) : Bool :=
  containsUntrustedMarkers text || decide ("project-snapshot/1".toList <:+: text)

/-- A project layer may start with the marker of a verified snapshot, the runtime turn may carry
anything. -/
def validatePinnedLayerTrust (layer : PromptLayer) (text : String) : Except PromptError Unit :=
  let verified := "project-snapshot/1 ".toList
  let untrusted :=
    match layer with
    | .coreContract | .user | .skillsProfile => carriesTailMarkers text.toList
    | .project =>
      if verified <+: text.toList then carriesTailMarkers (text.toList.drop verified.length)
      else carriesTailMarkers text.toList
    | .runtimeTurn => false
  if untrusted then
    .error (.invalidLayerText layer
      "pinned layer accepts host-pinned bytes only; offer untrusted observations to RuntimeTurn tail")
  else .ok ()

def validateList {α : Type} (limit : Nat) (tooMany : PromptError)
    (check : α → Except PromptError Unit) (items : List α) : Except PromptError Unit :=
  if items.length > limit then .error tooMany else items.forM check

def LayerInput.validate (input : LayerInput) : Except PromptError Unit := do
  let tools := validateList maxToolEntriesPerLayer
    (.tooManyTools input.layer maxToolEntriesPerLayer) validatePromptToolName
  validateLayerText input.layer input.text
  validatePinnedLayerTrust input.layer input.text
  input.allowedTools.forM tools
  tools input.deniedTools
  input.budgetCeilingBytes.forM validateBudgetCeiling
  input.allowedScopes.forM <| validateList maxScopesPerLayer
    (.tooManyScopes input.layer maxScopesPerLayer) validateScope
  validateList maxDirectivesPerLayer (.tooManyDirectives input.layer maxDirectivesPerLayer)
    (fun directive => do
      validateDirectiveKey directive.key
      validateDirectiveValue directive.key directive.value) input.directives

/-- The loop of `PromptSnapshot::validate`; `seen` holds the ranks met so far. -/
def validateLayers (seen : List Nat) : List LayerInput → Except PromptError Unit
  | [] => .ok ()
  | input :: rest => do
    refuseIf (input.layer.rank ∈ seen) (.duplicateLayer input.layer)
    input.validate
    validateLayers (input.layer.rank :: seen) rest

def PromptSnapshot.validate (snapshot : PromptSnapshot) : Except PromptError Unit := do
  validateCoreVersion snapshot.coreVersion
  refuseIf (snapshot.layers.length > PromptLayer.stableOrder.length)
    (.tooManyLayers PromptLayer.stableOrder.length)
  validateLayers [] snapshot.layers

/-! ## Merging -/

def PromptSnapshot.ordered (snapshot : PromptSnapshot) : List LayerInput :=
  snapshot.layers.insertionSort fun a b => a.layer.rank ≤ b.layer.rank

def mergeSections (ordered : List LayerInput) : List AssembledSection :=
  PromptLayer.stableOrder.map fun layer =>
    ⟨layer, ((ordered.find? fun input => input.layer = layer).map (·.text)).getD ""⟩

def mergeDenied (ordered : List LayerInput) : List String :=
  sortDedup (ordered.flatMap (·.deniedTools))

def mergeAllowed (ordered : List LayerInput) : Option (List String) :=
  meetAll (ordered.map fun input => input.allowedTools.map sortDedup)

def mergeBudget (ordered : List LayerInput) : Option Nat :=
  lowest (ordered.map (·.budgetCeilingBytes))

def mergeScopes (ordered : List LayerInput) : Option (List String) :=
  meetAll (ordered.map fun input => input.allowedScopes.map sortDedup)

/-- What the directive loop has built: the value and layer of each key, and the
overrides recorded. -/
structure DirectiveMerge where
  byKey : List (String × String × PromptLayer)
  overrides : List DirectiveOverride

/-- One directive of one layer. Layers come by ascending rank, so the entry that is
already there has precedence. -/
def mergeDirective (layer : PromptLayer) (merge : DirectiveMerge) (directive : Directive) :
    Except PromptError DirectiveMerge :=
  match merge.byKey.lookup directive.key with
  | none => .ok { merge with byKey := merge.byKey ++ [(directive.key, directive.value, layer)] }
  | some (firstValue, firstLayer) =>
    if firstValue = directive.value then .ok merge
    else if directive.key ∈ neverMergeDirectiveKeys ∨ firstLayer = layer then
      .error (.unresolvableConflict directive.key firstValue directive.value)
    else
      .ok { merge with
        overrides := merge.overrides ++
          [⟨directive.key, firstValue, firstLayer, directive.value, layer⟩] }

def mergeDirectives (ordered : List LayerInput) : Except PromptError DirectiveMerge :=
  ordered.foldlM (fun merge input => input.directives.foldlM (mergeDirective input.layer) merge)
    ⟨[], []⟩

def DirectiveMerge.directives (merge : DirectiveMerge) : List Directive :=
  (merge.byKey.insertionSort fun a b => a.1 ≤ b.1).map fun entry => ⟨entry.1, entry.2.1⟩

def sortOverrides (overrides : List DirectiveOverride) : List DirectiveOverride :=
  overrides.insertionSort fun a b => a.cmp b ≠ .gt

/-! ## Canonical bytes -/

def constraintLines (label : String) : Option (List String) → List String
  | none => [label ++ "*\n"]
  | some items => items.map fun item => label ++ item ++ "\n"

/-- The text pieces `render_canonical` pushes, in order. -/
def canonicalLines (prompt : FullPrompt) : List String :=
  ["prompt/1\n", "core-version:" ++ prompt.coreVersion ++ "\n"] ++
  (prompt.sections.map fun part =>
    "[layer:" ++ part.layer.name ++ " len=" ++ toString part.text.utf8ByteSize ++ "]\n" ++
      part.text ++ "\n") ++
  ["[effective]\n"] ++
  constraintLines "allowed:" prompt.effectiveAllowedTools ++
  (prompt.effectiveDeniedTools.map fun tool => "denied:" ++ tool ++ "\n") ++
  constraintLines "budget:" (prompt.effectiveBudgetCeilingBytes.map fun ceiling =>
    [toString ceiling]) ++
  constraintLines "scope:" prompt.effectiveScopes ++
  (prompt.effectiveDirectives.map fun directive =>
    "directive:" ++ directive.key ++ "=" ++ directive.value ++ "\n") ++
  ((sortOverrides prompt.mergeOverrides).map fun item =>
    "override:" ++ item.key ++
      " winner:" ++ item.winningLayer.name ++
      " wlen=" ++ toString item.winningValue.utf8ByteSize ++ ":" ++ item.winningValue ++
      " overridden:" ++ item.overriddenLayer.name ++
      " olen=" ++ toString item.overriddenValue.utf8ByteSize ++ ":" ++ item.overriddenValue ++
      "\n") ++
  ["end\n"]

def renderCanonical (prompt : FullPrompt) : Except PromptError (List UInt8) :=
  let out := (canonicalLines prompt).flatMap utf8Bytes
  if out.length > maxCanonicalBytes then .error (.canonicalTooLarge maxCanonicalBytes out.length)
  else .ok out

/-! ## Assembly -/

def mergedPrompt (snapshot : PromptSnapshot) (merge : DirectiveMerge) : FullPrompt where
  coreVersion := snapshot.coreVersion
  sections := mergeSections snapshot.ordered
  effectiveAllowedTools := mergeAllowed snapshot.ordered
  effectiveDeniedTools := mergeDenied snapshot.ordered
  effectiveBudgetCeilingBytes := mergeBudget snapshot.ordered
  effectiveScopes := mergeScopes snapshot.ordered
  effectiveDirectives := merge.directives
  mergeOverrides := dedupAdjacent (sortOverrides merge.overrides)
  canonicalBytes := []

def assemblePrompt (snapshot : PromptSnapshot) : Except PromptError FullPrompt := do
  snapshot.validate
  refuseIf (mergeAllowed snapshot.ordered = some [])
    (.dispatch (.promptNotAllowed emptyAllowSetSentinel))
  let merge ← mergeDirectives snapshot.ordered
  let assembled := mergedPrompt snapshot merge
  let bytes ← renderCanonical assembled
  refuseIf (∃ ceiling ∈ assembled.effectiveBudgetCeilingBytes, bytes.length > ceiling)
    (.invalidBudget bytes.length)
  return { assembled with canonicalBytes := bytes }

end BittyAi.Runtime
