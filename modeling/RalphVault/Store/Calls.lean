import RalphVault.Store.Files

/-!
# Implementation store — the calls

`register_plan`, `record_event` and `replay_plan` on the files of a
store. A call is cut where the source takes its lock and where it makes
something durable: first what it computes before the lock, then the
decision it takes under the lock, then one step for each file it writes.
The calls compose these pieces. A call that fails keeps the files it has
already written.
-/

namespace RalphVault.Store

structure StoreResult where
  changed : Bool
  operationId : Text
  eventId : Text
  state : Option State
  manifest : Option Manifest
  reason : Text

section Calls

variable (env : Env)

/-! ## Arguments -/

/-- `validate_plan_id` of `paths.py`. -/
def validatePlanId (t : Text) : Check Unit := do
  require (!t.isEmpty && t.length ≤ 180)
    (.storePathError "plan id is empty or exceeds the path limit")
  require (!t.contains (Char.ofNat 0) && !t.contains '\\' && !startsWith ['/'] t)
    (.storePathError "plan id contains an invalid path character")
  let parts := splitOn '/' t
  require (parts.length ≤ 8 && parts.all fun p => !(p.isEmpty || p == ['.'] || p == ['.', '.']))
    (.storePathError "plan id contains an invalid component")
  require (parts.all fun p => !startsWith ['~'] p && p.all fun c => 32 ≤ c.toNat)
    (.storePathError "plan id contains an invalid component")
  require (parts.all fun p =>
      !([txt "manifest.json", txt "manifest.lock", txt "unplanned-events.jsonl"].contains p))
    (.storePathError "plan id collides with a store file")

/-- `_operation_id`; `fresh` is the hexadecimal text of a new UUID. -/
def operationId (value : Option Text) (fresh : Text) : Check Text :=
  match value with
  | none => .ok (txt "op-" ++ fresh)
  | some t =>
      if t.isEmpty then .ok (txt "op-" ++ fresh)
      else identifier env (.str t) "operation_id" false

/-- The kinds `record_event` accepts. -/
def materialKind (kind : Text) : Check EventKind :=
  match (Named.members : List EventKind).find? fun k => name k == kind with
  | some k =>
      if k = .looseCommitRecorded then
        .error (.schemaError "unknown or out-of-scope material event kind")
      else .ok k
  | none => .error (.schemaError "unknown or out-of-scope material event kind")

/-! ## Under the plan lock -/

/-- The state a writer works on: the snapshot brought up to date with the
journal, whether it had to be recovered, and the journal. -/
def loadPlan (planId timestamp : Text) (f : PlanFiles) :
    PlanFiles × Check (Option (State × Bool) × List Event) :=
  let (f, loaded) := loadStateForWrite env planId f
  (f, do
    let snapshot ← loaded
    let es ← readPlanEvents env planId f true
    match snapshot, es with
    | none, [] => pure (none, [])
    | none, e :: es => do
        let s ← reconstructState env planId (e :: es) timestamp
        pure (some (s, true), e :: es)
    | some s, es => do
        validateOwnership env s
        let r ← reconcileState env s es timestamp
        pure (some r, es))

/-- `record_hash` of the last record. -/
def lastRecordHash (es : List Event) : Text :=
  match es.getLast? with
  | some e => e.recordHash
  | none => []

/-! ## Durable steps -/

/-- Append an event to the journal of a plan. -/
def appendStep (planId : Text) (e : Event) (existing : Nat) (st : StoreFiles) :
    Check StoreFiles := do
  let f ← appendEvent (st.plans planId) e existing
  pure (st.setPlan planId f)

/-- Replace the snapshot of a plan. -/
def snapshotStep (planId : Text) (s : State) (st : StoreFiles) : Check StoreFiles := do
  let f ← publishSnapshot (st.plans planId) s
  pure (st.setPlan planId f)

/-- `_publish_manifest_pointer`. -/
def pointerStep (s : State) (force : Bool) (st : StoreFiles) : StoreFiles × Check Manifest :=
  let (file, current) := readManifestLocked env st.manifest
  match current >>= fun m => publishManifestPointer env file m s force with
  | .error e => ({ st with manifest := file }, .error e)
  | .ok (file, m) => ({ st with manifest := file }, .ok m)

/-! ## `record_event` -/

structure RecordCall where
  planId : Text
  kind : Text
  operation : Option Text
  narrative : Narrative
  stateUpdate : Dict
  timestamp : Text
  provenance : Option Dict
  fresh : Text

/-- A call whose arguments passed the first checks. -/
structure RecordRequest where
  planId : Text
  kind : EventKind
  operation : Text
  narrative : Narrative
  stateUpdate : Dict
  timestamp : Text
  fields : Option Dict

/-- The provenance fields of a call that supplies provenance. -/
def suppliedProvenance : Option Dict → Check (Option Dict)
  | none => .ok none
  | some p => some <$> provenanceForStore env (some p)

def recordRequest (c : RecordCall) : Check RecordRequest := do
  validatePlanId c.planId
  let kind ← materialKind c.kind
  let operation ← operationId env c.operation c.fresh
  let fields ← suppliedProvenance env c.provenance
  pure ⟨c.planId, kind, operation, c.narrative, c.stateUpdate, c.timestamp, fields⟩

/-- The validated candidate of a call on a state. -/
def candidateState (r : RecordRequest) (s : State) : Check State := do
  let d ← applyUpdate s r.stateUpdate r.kind r.narrative.summary r.narrative.nextAction
  let candidate ← validateState env (d.update (r.fields.getD [])) (some r.planId)
    stateHardLimitBytes
  validateOwnership env candidate
  pure candidate

/-- What `record_event` does before it takes the plan lock. -/
def previewRecord (r : RecordRequest) (f : PlanFiles) : PlanFiles × Check Unit :=
  match readState env r.planId f with
  | .error (.corruptRecordError _) =>
      ({ f with snapshot := none }, .error (.storeError "plan is not registered"))
  | .error e => (f, .error e)
  | .ok none => (f, .error (.storeError "plan is not registered"))
  | .ok (some s) => (f, do
      let _ ← candidateState env r s
      pure ())

/-- What `record_event` decides under the lock: nothing but the recovered
snapshot is published, or an event is appended. -/
inductive RecordDecision where
  | settled (s : State) (recovered : Bool) (result : StoreResult)
  | append (before candidate : State) (event : Event)

/-- The event of a call at a place of the journal. -/
def recordedEvent (r : RecordRequest) (before candidate : State) (sequence : Nat)
    (previous : Text) : Check Event :=
  buildEvent env r.planId candidate r.operation r.kind r.narrative r.timestamp sequence previous
    (materialStatePatch before candidate)
    (recordOperationPayload r.kind r.narrative r.stateUpdate (r.fields.getD []))

def decideRecord (r : RecordRequest) (s : State) (recovered : Bool) (es : List Event) :
    Check RecordDecision := do
  let candidate ← candidateState env r s
  let _ ← recordedEvent env r s candidate 1 []
  match operationEvent es r.operation with
  | some existing => do
      let e ← recordedEvent env r s candidate existing.sequence existing.previousEventHash
      assertSameOperation existing e r.operation
      pure (.settled s recovered
        ⟨false, r.operation, existing.eventId, some s, none, txt "idempotent retry"⟩)
  | none =>
      if stateSemanticHash env candidate.toDict = stateSemanticHash env s.toDict then
        pure (.settled s recovered
          ⟨false, r.operation, [], some s, none, txt "semantic state unchanged"⟩)
      else do
        let e ← recordedEvent env r s candidate (es.length + 1) (lastRecordHash es)
        pure (.append s candidate e)

/-- The decision of `record_event` from the files of the plan. -/
def lockedRecord (r : RecordRequest) (f : PlanFiles) :
    PlanFiles × Check (RecordDecision × List Event) :=
  let (f, loaded) := loadPlan env r.planId r.timestamp f
  (f, do
    match ← loaded with
    | (none, _) => .error (.storeError "plan is not registered")
    | (some (s, recovered), es) => do
        let d ← decideRecord env r s recovered es
        pure (d, es))

/-- Publish the snapshot when it had to be recovered. -/
def recoverStep (planId : Text) (s : State) (recovered : Bool) (st : StoreFiles) :
    Check StoreFiles :=
  if recovered then snapshotStep planId s st else .ok st

/-- The manifest `record_event` returns: the published one when the status
changed, else the one on disk. -/
def manifestAfter (before next : State) (st : StoreFiles) :
    StoreFiles × Check (Option Manifest) :=
  if next.status = before.status then (st, readManifest env st.manifest)
  else
    let (st, m) := pointerStep env next false st
    (st, some <$> m)

/-- The durable steps of `record_event` after its decision to append. -/
def commitRecord (r : RecordRequest) (before candidate : State) (e : Event) (existing : Nat)
    (st : StoreFiles) : StoreFiles × Check StoreResult :=
  match appendStep r.planId e existing st with
  | .error err => (st, .error err)
  | .ok st =>
      match stateAfterEvent env candidate e r.timestamp >>= fun next =>
          (fun st => (next, st)) <$> snapshotStep r.planId next st with
      | .error err => (st, .error err)
      | .ok (next, st) =>
          let (st, m) := manifestAfter env before next st
          (st, (fun m => ⟨true, r.operation, e.eventId, some next, m, []⟩) <$> m)

/-- `record_event`. -/
def recordEvent (c : RecordCall) (st : StoreFiles) : StoreFiles × Check StoreResult :=
  match recordRequest env c with
  | .error err => (st, .error err)
  | .ok r =>
      match previewRecord env r (st.plans r.planId) with
      | (f, .error err) => (st.setPlan r.planId f, .error err)
      | (f, .ok ()) =>
          match lockedRecord env r f with
          | (f, .error err) => (st.setPlan r.planId f, .error err)
          | (f, .ok (.settled s recovered result, _)) =>
              match recoverStep r.planId s recovered (st.setPlan r.planId f) with
              | .error err => (st.setPlan r.planId f, .error err)
              | .ok st => (st, .ok result)
          | (f, .ok (.append before candidate e, es)) =>
              commitRecord env r before candidate e es.length (st.setPlan r.planId f)

/-! ## `register_plan` -/

structure RegisterCall where
  planId : Text
  planPath : Text
  operation : Option Text
  timestamp : Text
  provenance : Option Dict
  objective : Text
  phase : Text
  status : Text
  narrative : Narrative
  fresh : Text

/-- A registration whose initial snapshot is valid. -/
structure RegisterRequest where
  planId : Text
  operation : Text
  timestamp : Text
  narrative : Narrative
  initial : State

def registerRequest (c : RegisterCall) : Check RegisterRequest := do
  validatePlanId c.planId
  let operation ← operationId env c.operation c.fresh
  let fields ← provenanceForStore env c.provenance
  let initial ← newState env c.planId c.planPath c.timestamp
    ([(txt "status", .str c.status), (txt "objective", .str c.objective),
      (txt "phase", .str c.phase), (txt "next_action", .str c.narrative.nextAction)] ++ fields)
  pure ⟨c.planId, operation, c.timestamp, c.narrative, initial⟩

/-- The `started` event of a registration at a place of the journal. -/
def registrationEvent (r : RegisterRequest) (sequence : Nat) (previous : Text) : Check Event :=
  buildEvent env r.planId r.initial r.operation .started r.narrative r.timestamp sequence previous
    (fullStatePatch r.initial) (registrationOperationPayload r.initial r.narrative)

/-- What `register_plan` decides under its locks. -/
inductive RegisterDecision where
  | settled (s : State) (recovered : Bool) (eventId : Text)
  | append (next : State) (event : Event)

def decideRegister (r : RegisterRequest) (current : Manifest)
    (plan : Option (State × Bool)) (es : List Event) : Check RegisterDecision :=
  match plan with
  | some (s, recovered) =>
      match operationEvent es r.operation with
      | some existing => do
          let e ← registrationEvent env r existing.sequence existing.previousEventHash
          assertSameOperation existing e r.operation
          pure (.settled s recovered existing.eventId)
      | none => .error (.storeError "plan is already registered")
  | none => do
      let e ← registrationEvent env r 1 []
      let next ← stateAfterEvent env r.initial e r.timestamp
      -- the pointer is checked before anything is written
      let _ ← manifestCandidate env current next true
      pure (.append next e)

/-- Publish the pointer with the manifest read before. -/
def lockedPointerStep (current : Manifest) (s : State) (force : Bool) (st : StoreFiles) :
    StoreFiles × Check Manifest :=
  match publishManifestPointer env st.manifest current s force with
  | .error err => (st, .error err)
  | .ok (file, m) => ({ st with manifest := file }, .ok m)

/-- The durable steps of `register_plan` after its decision. -/
def commitRegister (r : RegisterRequest) (current : Manifest) (d : RegisterDecision)
    (st : StoreFiles) : StoreFiles × Check StoreResult :=
  match d with
  | .settled s recovered eventId =>
      match recoverStep r.planId s recovered st with
      | .error err => (st, .error err)
      | .ok st =>
          let (st, m) := lockedPointerStep env current s false st
          (st, (fun m => ⟨false, r.operation, eventId, some s, some m, txt "idempotent retry"⟩)
            <$> m)
  | .append next e =>
      match appendStep r.planId e 0 st with
      | .error err => (st, .error err)
      | .ok st =>
          match snapshotStep r.planId next st with
          | .error err => (st, .error err)
          | .ok st =>
              let (st, m) := lockedPointerStep env current next true st
              (st, (fun m => ⟨true, r.operation, e.eventId, some next, some m, []⟩) <$> m)

/-- `register_plan`. -/
def registerPlan (c : RegisterCall) (st : StoreFiles) : StoreFiles × Check StoreResult :=
  match registerRequest env c with
  | .error err => (st, .error err)
  | .ok r =>
      match readManifestLocked env st.manifest with
      | (file, .error err) => ({ st with manifest := file }, .error err)
      | (file, .ok current) =>
          let st := { st with manifest := file }
          match loadPlan env r.planId r.timestamp (st.plans r.planId) with
          | (f, .error err) => (st.setPlan r.planId f, .error err)
          | (f, .ok (plan, es)) =>
              match decideRegister env r current plan es with
              | .error err => (st.setPlan r.planId f, .error err)
              | .ok d => commitRegister env r current d (st.setPlan r.planId f)

/-! ## `replay_plan` -/

/-- `replay_plan`. -/
def replayPlan (planId timestamp : Text) (st : StoreFiles) : StoreFiles × Check StoreResult :=
  match validatePlanId planId with
  | .error err => (st, .error err)
  | .ok () =>
      match loadPlan env planId timestamp (st.plans planId) with
      | (f, .error err) => (st.setPlan planId f, .error err)
      | (f, .ok (none, _)) =>
          (st.setPlan planId f, .ok ⟨false, [], [], none, none, txt "no state to replay"⟩)
      | (f, .ok (some (s, false), _)) =>
          (st.setPlan planId f, .ok ⟨false, [], [], some s, none, txt "already current"⟩)
      | (f, .ok (some (s, true), _)) =>
          match snapshotStep planId s (st.setPlan planId f) with
          | .error err => (st.setPlan planId f, .error err)
          | .ok st =>
              (st, .ok ⟨true, s.lastOperationId, [], some s, none, txt "replayed journal"⟩)

end Calls
end RalphVault.Store
