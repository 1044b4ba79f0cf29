import RalphVault.Store.Operations

/-!
# Implementation store — files

The files of a store and the primitives of `implementation_store/io.py`
that read and write them. A file holds the JSON value its bytes decode to
(bytes that are no JSON at all behave like the value `null`, which no
validator accepts); what is written is the canonical JSON of a record, so
sizes are encoded sizes. Directories, permissions, links and lock files
are left out.
-/

namespace RalphVault.Store

/-! ## The state of a store -/

/-- The files of one plan: `state.json`, the complete lines of
`events.jsonl`, and whether an incomplete line follows them. -/
structure PlanFiles where
  snapshot : Option Json
  journal : List Json
  partialLine : Bool

def PlanFiles.empty : PlanFiles := ⟨none, [], false⟩

/-- The files of the store. -/
structure StoreFiles where
  manifest : Option Json
  plans : Text → PlanFiles

def StoreFiles.empty : StoreFiles := ⟨none, fun _ => .empty⟩

/-- Replace the files of one plan. -/
def StoreFiles.setPlan (st : StoreFiles) (planId : Text) (f : PlanFiles) : StoreFiles :=
  { st with plans := fun p => if p = planId then f else st.plans p }

@[simp] theorem StoreFiles.setPlan_plans (st : StoreFiles) (planId : Text) (f : PlanFiles) :
    (st.setPlan planId f).plans planId = f := by
  simp [setPlan]

@[simp] theorem StoreFiles.setPlan_manifest (st : StoreFiles) (planId : Text) (f : PlanFiles) :
    (st.setPlan planId f).manifest = st.manifest := rfl

theorem StoreFiles.setPlan_other (st : StoreFiles) {p planId : Text} (f : PlanFiles) (h : p ≠ planId) :
    (st.setPlan planId f).plans p = st.plans p := by
  simp [setPlan, h]

@[simp] theorem StoreFiles.setPlan_self (st : StoreFiles) (planId : Text) :
    st.setPlan planId (st.plans planId) = st := by
  cases st with
  | mk manifest plans =>
      simp only [setPlan, mk.injEq, true_and]
      funext p
      split
      · rename_i h
        rw [h]
      · rfl

@[simp] theorem StoreFiles.setPlan_setPlan (st : StoreFiles) (planId : Text) (f f' : PlanFiles) :
    (st.setPlan planId f).setPlan planId f' = st.setPlan planId f' := by
  simp only [setPlan, mk.injEq, true_and]
  funext p
  split <;> rfl

/-! ## Reading -/

/-- How `read_json` and `read_jsonl` report a failed validation. -/
def corrupt (message : String) : Fault → Fault
  | .futureSchemaError m => .futureSchemaError m
  | _ => .corruptRecordError message

/-- `read_json`. -/
def readJson (validator : Dict → Check β) (label : String) (limit : Nat) :
    Option Json → Check (Option β)
  | none => .ok none
  | some j =>
      if limit < Json.encodedSize j then
        .error (.storeIOError s!"{label} exceeds its read limit of {limit} bytes")
      else match object j label >>= validator with
        | .ok b => .ok (some b)
        | .error e => .error (corrupt s!"{label} is malformed; evidence was not changed" e)

/-- The size of a journal in bytes, one newline after each record. -/
def journalBytes (js : List Json) : Nat := (js.map fun j => Json.encodedSize j + 1).sum

/-- The records of `read_jsonl` from line `i` on. -/
def readJsonl (validator : Dict → Check β) (label : String) (maxRecords : Nat) :
    Nat → List Json → Check (List β)
  | _, [] => .ok []
  | i, j :: js =>
      match object j s!"{label} record" with
      | .error e => .error (corrupt s!"{label} record {i + 1} is malformed" e)
      | .ok d =>
          if maxRecords ≤ i then
            .error (.corruptRecordError s!"{label} exceeds the maximum of {maxRecords} records")
          else match validator d with
            | .error e => .error (corrupt s!"{label} record {i + 1} is malformed" e)
            | .ok b => do
                let bs ← readJsonl validator label maxRecords (i + 1) js
                pure (b :: bs)

/-- `append_jsonl`, as the new lines of the file `label`; `existing` is the
number of records read before. -/
def appendJsonl (label : String) (hardLimit totalHardLimit maxRecords : Nat) (js : List Json)
    (d : Dict) (existing : Nat) : Check (List Json) := do
  let size := Json.encodedSize (.obj d) + 1
  require (size ≤ hardLimit)
    (.storeIOError s!"append record exceeds hard limit of {hardLimit} UTF-8 bytes")
  require (journalBytes js + size ≤ totalHardLimit)
    (.storeIOError s!"{label} exceeds its journal limit of {totalHardLimit} bytes")
  require (existing < maxRecords)
    (.storeIOError s!"{label} exceeds its journal limit of {maxRecords} records")
  pure (js ++ [.obj d])

section Files

variable (env : Env)

/-- The events of the lines of `events.jsonl` from line `i` on. -/
def readRecords (planId : Text) (label : String) : Nat → List Json → Check (List Event) :=
  readJsonl (fun d => validateEvent env d (some planId) false false) label planJournalMaxRecords

/-- `except CorruptRecordError as exc: raise IntegrityError(str(exc))`. -/
def integrity : Fault → Fault
  | .corruptRecordError m => .integrityError m
  | e => e

/-- `_read_plan_events`. -/
def readPlanEvents (planId : Text) (f : PlanFiles) (rejectPartial : Bool) :
    Check (List Event) := do
  let plan := String.ofList planId
  require (journalBytes f.journal ≤ planJournalMaxBytes)
    (.storeIOError s!"events for {plan} exceeds its read limit of {planJournalMaxBytes} bytes")
  let es ← (readRecords env planId s!"events for {plan}" 0 f.journal).mapError integrity
  require (!(rejectPartial && f.partialLine))
    (.integrityError "plan journal has an incomplete final line; explicit repair is required")
  validateSequenceAndHashes env 1 [] es
  validateEventOwnership env es
  pure es

def readSnapshot (planId : Text) (label : String) (f : PlanFiles) : Check (Option State) :=
  readJson (fun d => validateState env d (some planId) stateHardLimitBytes) label
    stateHardLimitBytes f.snapshot

/-- `read_state`. -/
def readState (planId : Text) (f : PlanFiles) : Check (Option State) := do
  match ← readSnapshot env planId "state" f with
  | none => pure none
  | some s => do
      let es ← readPlanEvents env planId f false
      validateOwnership env s
      validateStateCursor s es
      pure (some s)

/-- A malformed snapshot is moved aside by `quarantine_file`. -/
def quarantineMalformed (f : PlanFiles) :
    Check (Option State) → PlanFiles × Check (Option State)
  | .error (.corruptRecordError _) => ({ f with snapshot := none }, .ok none)
  | r => (f, r)

/-- `_load_state_for_write`. -/
def loadStateForWrite (planId : Text) (f : PlanFiles) : PlanFiles × Check (Option State) :=
  let plan := String.ofList planId
  quarantineMalformed f (readSnapshot env planId s!"state for {plan}" f)

/-- `read_manifest`. -/
def readManifest (file : Option Json) : Check (Option Manifest) :=
  readJson (validateManifest env) "manifest" manifestHardLimitBytes file

/-- `_read_manifest_locked`: a malformed manifest is moved aside, and a
missing one is the empty manifest. -/
def readManifestLocked (file : Option Json) : Option Json × Check Manifest :=
  match readManifest env file with
  | .ok (some m) => (file, .ok m)
  | .ok none => (file, .ok ⟨repoIdentity env, 0, []⟩)
  | .error (.corruptRecordError _) => (none, .ok ⟨repoIdentity env, 0, []⟩)
  | .error e => (file, .error e)

/-! ## Writing -/

/-- Append an event to the journal of a plan. -/
def appendEvent (f : PlanFiles) (e : Event) (existing : Nat) : Check PlanFiles := do
  let journal ← appendJsonl "events.jsonl" eventHardLimitBytes planJournalMaxBytes
    planJournalMaxRecords f.journal e.toDict existing
  pure { f with journal := journal }

/-- `publish_json`, as the new content of the file. -/
def publishJson (d : Dict) (limit : Nat) : Check Json := do
  require (Json.encodedSize (.obj d) ≤ limit)
    (.storeIOError s!"snapshot exceeds hard limit of {limit} UTF-8 bytes")
  pure (.obj d)

def publishSnapshot (f : PlanFiles) (s : State) : Check PlanFiles := do
  let j ← publishJson s.toDict stateHardLimitBytes
  pure { f with snapshot := some j }

/-! ## The manifest pointer -/

/-- The pointer of a snapshot. -/
def pointerOf (s : State) : Pointer where
  planId := s.planId
  planPath := s.planPath
  statePath := txt ".local-notes/ralph/implementation/plans/" ++ s.planId ++ txt "/state.json"
  status := s.status
  branch := s.git.branch
  workspaceInstanceId := s.git.workspaceInstanceId
  semanticHash := s.semanticHash
  lastEventSequence := s.lastEventSequence

def findPointer (planId : Text) (ps : List Pointer) : Option Pointer :=
  ps.find? fun p => p.planId == planId

/-- `plans[found] = pointer`. -/
def setPointer (p : Pointer) : List Pointer → List Pointer
  | [] => []
  | q :: qs => if q.planId = p.planId then p :: qs else q :: setPointer p qs

/-- `_manifest_candidate`. -/
def manifestCandidate (current : Manifest) (s : State) (force : Bool) : Check (Manifest × Bool) :=
  let p := pointerOf s
  let publish (plans : List Pointer) (changed : Bool) : Check (Manifest × Bool) := do
    let m ← validateManifest env (Manifest.toDict
      { current with
        generation := current.generation + (if changed then 1 else 0)
        plans := plans })
    pure (m, changed)
  match findPointer s.planId current.plans with
  | none => publish (current.plans ++ [p]) true
  | some q =>
      -- a lower sequence never moves the pointer backwards
      if p.lastEventSequence < q.lastEventSequence then do
        let m ← validateManifest env current.toDict
        pure (m, false)
      else if q.status ≠ p.status ∨ (force = true ∧ q ≠ p) then
        publish (setPointer p current.plans) true
      else publish current.plans false

/-- `_publish_manifest_pointer_locked`: the manifest file after it and the
manifest. -/
def publishManifestPointer (file : Option Json) (current : Manifest) (s : State) (force : Bool) :
    Check (Option Json × Manifest) := do
  let (m, changed) ← manifestCandidate env current s force
  if changed then do
    let j ← publishJson m.toDict manifestHardLimitBytes
    pure (some j, m)
  else pure (file, m)

end Files
end RalphVault.Store
