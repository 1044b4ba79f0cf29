import RalphVault.Store.Calls

/-!
# Implementation store — which errors a check raises

The validators raise `SchemaError` and its subclasses and nothing else.
`SchemaOnly` is a class, so that the fact is found for a composed check
from its parts.
-/

namespace RalphVault.Store

/-- `SchemaError` and its subclasses. -/
def Fault.schema : Fault → Bool
  | schemaError _ | futureSchemaError _ | redContentError _ => true
  | _ => false

theorem Fault.logical_of_schema {e : Fault} (h : e.schema = true) : e.logical = true := by
  cases e <;> simp_all [Fault.schema, Fault.logical]

/-- A check that fails only with `SchemaError` or a subclass. -/
class SchemaOnly (x : Check β) : Prop where
  schema : ∀ e, x = .error e → e.schema = true

namespace SchemaOnly

instance ok (b : β) : SchemaOnly (.ok b) := ⟨by simp⟩

instance pure (b : β) : SchemaOnly (Pure.pure b : Check β) := ⟨by simp [Pure.pure, Except.pure]⟩

instance schemaError (m : String) : SchemaOnly (.error (.schemaError m) : Check β) :=
  ⟨by rintro e ⟨⟩; rfl⟩

instance futureSchemaError (m : String) : SchemaOnly (.error (.futureSchemaError m) : Check β) :=
  ⟨by rintro e ⟨⟩; rfl⟩

instance bind (x : Check α) (f : α → Check β) [hx : SchemaOnly x] [hf : ∀ a, SchemaOnly (f a)] :
    SchemaOnly (x >>= f) where
  schema e h := by
    cases x with
    | error e' =>
        cases h
        exact hx.schema e rfl
    | ok a => exact (hf a).schema e h

/-- `bind` step by step, for the long checks of a record. -/
theorem seq {x : Check α} {f : α → Check β} (hx : SchemaOnly x) (hf : ∀ a, SchemaOnly (f a)) :
    SchemaOnly (x >>= f) :=
  inferInstance

theorem of_require (b : Bool) {f : Fault} (hf : f.schema = true) : SchemaOnly (require b f) :=
  ⟨fun _ h => (require_eq_error.mp h).2 ▸ hf⟩

instance require_schemaError (b : Bool) (m : String) : SchemaOnly (require b (.schemaError m)) :=
  of_require b rfl

instance require_redContentError (b : Bool) (m : String) :
    SchemaOnly (require b (.redContentError m)) :=
  of_require b rfl

/-! ## The checks of one value -/

section Checks

variable (env : Env)

instance rejectRed (j : Json) (label : String) : SchemaOnly (rejectRed env j label) := by
  unfold Store.rejectRed
  infer_instance

instance object (j : Json) (label : String) : SchemaOnly (object j label) := by
  unfold Store.object
  split <;> infer_instance

instance unknownKeys (d : Dict) (allowed : List Text) (label : String) :
    SchemaOnly (unknownKeys d allowed label) := by
  unfold Store.unknownKeys
  infer_instance

instance schemaVersion (d : Dict) (label : String) : SchemaOnly (schemaVersion d label) := by
  unfold Store.schemaVersion
  split
  · split <;> infer_instance
  · infer_instance

instance enum [Named β] (j : Json) (label : String) : SchemaOnly (enum j label : Check β) := by
  unfold Store.enum
  split
  · split <;> infer_instance
  · infer_instance

instance integer (j : Json) (label : String) (minimum : Nat) :
    SchemaOnly (integer j label minimum) := by
  unfold Store.integer
  split
  · split <;> infer_instance
  · infer_instance

instance boolean (j : Json) (label : String) : SchemaOnly (boolean j label) := by
  unfold Store.boolean
  split <;> infer_instance

instance text (j : Json) (label : String) (limit : Nat) (allowEmpty : Bool) :
    SchemaOnly (text env j label limit allowEmpty) := by
  unfold Store.text
  split <;> infer_instance

instance timestamp (j : Json) (label : String) (allowEmpty : Bool) :
    SchemaOnly (timestamp env j label allowEmpty) := by
  unfold Store.timestamp
  infer_instance

instance identifier (j : Json) (label : String) (allowEmpty : Bool) :
    SchemaOnly (identifier env j label allowEmpty) := by
  unfold Store.identifier
  split
  · split <;> infer_instance
  · infer_instance

instance planId (j : Json) (allowEmpty : Bool) : SchemaOnly (planId env j allowEmpty) := by
  unfold Store.planId
  split
  · split <;> infer_instance
  · infer_instance

instance hash (j : Json) (label : String) (allowEmpty : Bool) :
    SchemaOnly (hash j label allowEmpty) := by
  unfold Store.hash
  split
  · split <;> infer_instance
  · infer_instance

instance repoRelativePath (j : Json) (label : String) (allowEmpty : Bool) :
    SchemaOnly (repoRelativePath env j label allowEmpty) := by
  unfold Store.repoRelativePath
  split
  · split <;> infer_instance
  · infer_instance

instance storeRelativePath (j : Json) (label : String) :
    SchemaOnly (storeRelativePath env j label) := by
  unfold Store.storeRelativePath
  infer_instance

instance items (f : Json → String → Check β) [hf : ∀ j l, SchemaOnly (f j l)] (label : String)
    (i : Nat) (js : List Json) : SchemaOnly (items f label i js) := by
  induction js generalizing i with
  | nil =>
      unfold Store.items
      infer_instance
  | cons j js ih =>
      unfold Store.items
      infer_instance

instance boundedList (f : Json → String → Check β) [∀ j l, SchemaOnly (f j l)] (j : Json)
    (label : String) (n : Nat) : SchemaOnly (boundedList f j label n) := by
  unfold Store.boundedList
  split <;> infer_instance

instance textList (j : Json) (label : String) (m n : Nat) :
    SchemaOnly (textList env j label m n) := by
  unfold Store.textList
  infer_instance

instance pathList (j : Json) (label : String) (m : Nat) :
    SchemaOnly (pathList env j label m) := by
  unfold Store.pathList
  infer_instance

instance code (j : Json) (label : String) : SchemaOnly (code j label) := by
  unfold Store.code
  split <;> infer_instance

instance codeList (j : Json) (label : String) (m : Nat) : SchemaOnly (codeList j label m) := by
  unfold Store.codeList
  infer_instance

/-! ## The validators -/

instance git (j : Json) : SchemaOnly (git env j) := by
  unfold Store.git
  infer_instance

instance latestDecision (j : Json) (label : String) :
    SchemaOnly (latestDecision env j label) := by
  unfold Store.latestDecision
  split <;> infer_instance

instance gates (d : Dict) : SchemaOnly (gates d) := by
  induction d with
  | nil =>
      unfold Store.gates
      infer_instance
  | cons m d ih =>
      unfold Store.gates
      infer_instance

instance validation (j : Json) : SchemaOnly (validation j) := by
  unfold Store.validation
  infer_instance

instance decodeState (d : Dict) (expected : Option Text) :
    SchemaOnly (decodeState env d expected) := by
  unfold Store.decodeState
  repeat refine .seq inferInstance fun _ => ?_
  infer_instance

instance validateState (d : Dict) (expected : Option Text) (limit : Nat) :
    SchemaOnly (validateState env d expected limit) := by
  unfold Store.validateState
  infer_instance

instance patchField (k : Text) (f : Json → Check β) [∀ j, SchemaOnly (f j)] (d : Dict) :
    SchemaOnly (patchField k f d) := by
  unfold Store.patchField
  split <;> infer_instance

instance statePatch (j : Json) : SchemaOnly (statePatch env j) := by
  unfold Store.statePatch Store.decodePatch
  refine .seq inferInstance fun _ => .seq ?_ fun _ => inferInstance
  repeat refine .seq inferInstance fun _ => ?_
  infer_instance

instance decodeEvent (d : Dict) (expected : Option Text) (unplanned allowUnhashed : Bool) :
    SchemaOnly (decodeEvent env d expected unplanned allowUnhashed) := by
  unfold Store.decodeEvent
  repeat refine .seq inferInstance fun _ => ?_
  infer_instance

instance validateEvent (d : Dict) (expected : Option Text) (unplanned allowUnhashed : Bool) :
    SchemaOnly (validateEvent env d expected unplanned allowUnhashed) := by
  unfold Store.validateEvent
  infer_instance

instance decodePointer (j : Json) (label : String) : SchemaOnly (decodePointer env j label) := by
  unfold Store.decodePointer
  infer_instance

instance decodePointers (seen : List Text) (i : Nat) (js : List Json) :
    SchemaOnly (decodePointers env seen i js) := by
  induction js generalizing seen i with
  | nil =>
      unfold Store.decodePointers
      infer_instance
  | cons j js ih =>
      unfold Store.decodePointers
      infer_instance

instance pointerList (j : Json) : SchemaOnly (pointerList env j) := by
  unfold Store.pointerList
  split <;> infer_instance

instance validateManifest (d : Dict) : SchemaOnly (validateManifest env d) := by
  unfold Store.validateManifest
  infer_instance

/-! ## The operations -/

instance applyEntries (s : State) (d updates : Dict) : SchemaOnly (applyEntries s d updates) := by
  induction updates generalizing d with
  | nil =>
      unfold Store.applyEntries
      infer_instance
  | cons m updates ih =>
      unfold Store.applyEntries
      infer_instance

instance applyUpdate (s : State) (updates : Dict) (kind : EventKind) (summary next : Text) :
    SchemaOnly (applyUpdate s updates kind summary next) := by
  unfold Store.applyUpdate
  infer_instance

instance buildEvent (planId : Text) (s : State) (operation : Text) (kind : EventKind)
    (n : Narrative) (timestamp : Text) (sequence : Nat) (previous : Text) (patch : StatePatch)
    (payload : Json) :
    SchemaOnly (buildEvent env planId s operation kind n timestamp sequence previous patch
      payload) := by
  unfold Store.buildEvent
  infer_instance

instance stateAfterEvent (s : State) (e : Event) (timestamp : Text) :
    SchemaOnly (stateAfterEvent env s e timestamp) := by
  unfold Store.stateAfterEvent
  infer_instance

end Checks
end SchemaOnly

end RalphVault.Store
