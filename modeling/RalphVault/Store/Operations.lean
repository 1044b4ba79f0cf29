import RalphVault.Store.Records

/-!
# Implementation store — operations on records

The functions of `implementation_store/store.py` that compute on one
snapshot and one journal record, before anything is written: new
snapshots, updates, events, the snapshot after an event, and the
comparison of a retried operation with its stored record.
-/

namespace RalphVault.Store

/-- The truth value of a JSON value in Python. -/
def truthy : Json → Bool
  | .null => false
  | .bool b => b
  | .num n => n != 0
  | .str t => !t.isEmpty
  | .arr js => !js.isEmpty
  | .obj d => !d.isEmpty

def isText (t : Text) : Json → Bool
  | .str s => s == t
  | _ => false

section Operations

variable (env : Env)

/-! ## Provenance -/

/-- `_repo_identity`. -/
def repoIdentity : Text := txt "repo-" ++ (env.sha256 env.primaryRoot).take 24

/-- The `git` entry of `_provenance_fields`, `dict(source.get("git") or {})`. -/
def provenanceGit (source : Dict) : Check Dict :=
  match source.getD (txt "git") .null with
  | .obj g => .ok g
  | j => if truthy j then .error (.valueError "git provenance is not a mapping") else .ok []

/-- `_provenance_for_store`. -/
def provenanceForStore (provenance : Option Dict) : Check Dict := do
  let source := provenance.getD []
  let git ← provenanceGit source
  let supplied := git.getD (txt "repository_id") noText
  require (!truthy supplied || isText (repoIdentity env) supplied)
    (.storeError "Git provenance belongs to a different canonical repository")
  let origin := source.getD (txt "origin") (.str (txt "implementation-progress"))
  let intent := source.getD (txt "intent") (.str (txt "progress-maintenance"))
  require (isText (txt "implementation-progress") origin &&
      isText (txt "progress-maintenance") intent)
    (.storeError "implementation progress provenance has an invalid origin or intent")
  pure
    [(txt "git", .obj (git.set (txt "repository_id") (.str (repoIdentity env)))),
     (txt "writer_session_id", source.getD (txt "writer_session_id") noText),
     (txt "model_family", source.getD (txt "model_family") (nameJson ModelFamily.unknown)),
     (txt "model_source", source.getD (txt "model_source") (nameJson ModelSource.unknown)),
     (txt "model_verified", source.getD (txt "model_verified") (.bool false)),
     (txt "origin", origin),
     (txt "intent", intent)]

/-- `_validate_ownership`. -/
def validateOwnership (s : State) : Check Unit :=
  require (s.git.repositoryId.isEmpty || s.git.repositoryId == repoIdentity env)
    (.integrityError "state Git provenance belongs to a different canonical repository")

/-- `_validate_event_ownership`. -/
def validateEventOwnership (es : List Event) : Check Unit :=
  require (es.all fun e => e.git.repositoryId.isEmpty || e.git.repositoryId == repoIdentity env)
    (.integrityError "journal Git provenance belongs to a different canonical repository")

/-! ## Snapshots -/

/-- The dictionary `new_state` starts from. -/
def newStateBase (planId planPath now : Text) : Dict :=
  [(txt "schema_version", .num 1),
   (txt "plan_id", .str planId),
   (txt "plan_path", .str planPath),
   (txt "generation", .num 0),
   (txt "status", nameJson Status.planned),
   (txt "classification", nameJson Classification.green),
   (txt "phase", noText),
   (txt "objective", noText),
   (txt "latest_decision", .null),
   (txt "next_action", noText),
   (txt "open_blockers", .arr []),
   (txt "open_questions", .arr []),
   (txt "validation", .obj []),
   (txt "active_files", .arr []),
   (txt "last_operation_id", noText),
   (txt "last_event_sequence", .num 0),
   (txt "last_event_hash", noText),
   (txt "git", .obj []),
   (txt "writer_session_id", noText),
   (txt "model_family", nameJson ModelFamily.unknown),
   (txt "model_source", nameJson ModelSource.unknown),
   (txt "model_verified", .bool false),
   (txt "origin", .str (txt "implementation-progress")),
   (txt "intent", .str (txt "progress-maintenance")),
   (txt "created_at", .str now),
   (txt "updated_at", .str now)]

/-- `new_state`. -/
def newState (planId planPath now : Text) (fields : Dict) : Check State :=
  validateState env ((newStateBase planId planPath now).update fields) (some planId)
    stateHardLimitBytes

/-- The keys `_apply_update` refuses. -/
def derivedKeys : List Text :=
  [txt "schema_version", txt "plan_id", txt "semantic_hash", txt "generation",
   txt "last_operation_id", txt "last_event_sequence", txt "last_event_hash", txt "created_at",
   txt "updated_at"]

/-- A `git` update keeps the repository the state belongs to. -/
def gitUpdate (s : State) (g : Dict) : Dict :=
  if !s.git.repositoryId.isEmpty && (g.get? (txt "repository_id")).isNone then
    g.set (txt "repository_id") (.str s.git.repositoryId)
  else g

/-- The loop of `_apply_update` over the caller's update. -/
def applyEntries (s : State) : Dict → Dict → Check Dict
  | result, [] => .ok result
  | result, (k, v) :: rest => do
      let key := String.ofList k
      require (!derivedKeys.contains k)
        (.schemaError s!"{key} is derived and cannot be directly updated")
      let v' := match v with
        | .obj g => if k = txt "git" then .obj (gitUpdate s g) else v
        | _ => v
      applyEntries s (result.set k v') rest

/-- The status an event kind sets. -/
def kindStatus (kind : EventKind) (d : Dict) : Dict :=
  match kind with
  | .completed => d.set (txt "status") (nameJson Status.completed)
  | .reopened => d.set (txt "status") (nameJson Status.reopened)
  | .blockerOpened => d.set (txt "status") (nameJson Status.blocked)
  | .blockerResolved =>
      if isText (txt "blocked") (d.getD (txt "status") .null) then
        d.set (txt "status") (nameJson Status.active)
      else d
  | _ => d

/-- `_apply_update`. -/
def applyUpdate (s : State) (updates : Dict) (kind : EventKind) (summary nextAction : Text) :
    Check Dict := do
  let d ← applyEntries s (s.toDict.set (txt "semantic_hash") noText) updates
  let d := if nextAction.isEmpty then d else d.set (txt "next_action") (.str nextAction)
  let d := if kind = .decision ∧ summary ≠ [] then
      d.set (txt "latest_decision") (.obj (Decision.toDict ⟨txt "pending", summary⟩))
    else d
  pure (kindStatus kind d)

/-! ## Patches -/

/-- A value that differs from the one before. -/
def changed [DecidableEq β] (before after : β) : Option β :=
  if before = after then none else some after

/-- `_material_state_patch`. -/
def materialStatePatch (before after : State) : StatePatch where
  planPath := changed before.planPath after.planPath
  status := changed before.status after.status
  classification := changed before.classification after.classification
  phase := changed before.phase after.phase
  objective := changed before.objective after.objective
  latestDecision := changed before.latestDecision after.latestDecision
  nextAction := changed before.nextAction after.nextAction
  openBlockers := changed before.openBlockers after.openBlockers
  openQuestions := changed before.openQuestions after.openQuestions
  validation := changed before.validation after.validation
  activeFiles := changed before.activeFiles after.activeFiles
  git := changed before.git after.git
  modelFamily := changed before.modelFamily after.modelFamily
  modelSource := changed before.modelSource after.modelSource
  modelVerified := changed before.modelVerified after.modelVerified
  origin := changed before.origin after.origin
  intent := changed before.intent after.intent

/-- `_material_state_patch` with `include_all`. -/
def fullStatePatch (s : State) : StatePatch where
  planPath := some s.planPath
  status := some s.status
  classification := some s.classification
  phase := some s.phase
  objective := some s.objective
  latestDecision := some s.latestDecision
  nextAction := some s.nextAction
  openBlockers := some s.openBlockers
  openQuestions := some s.openQuestions
  validation := some s.validation
  activeFiles := some s.activeFiles
  git := some s.git
  modelFamily := some s.modelFamily
  modelSource := some s.modelSource
  modelVerified := some s.modelVerified
  origin := some s.origin
  intent := some s.intent

/-- `result.update(patch)`. -/
def StatePatch.apply (p : StatePatch) (s : State) : State :=
  { s with
    planPath := p.planPath.getD s.planPath
    status := p.status.getD s.status
    classification := p.classification.getD s.classification
    phase := p.phase.getD s.phase
    objective := p.objective.getD s.objective
    latestDecision := p.latestDecision.getD s.latestDecision
    nextAction := p.nextAction.getD s.nextAction
    openBlockers := p.openBlockers.getD s.openBlockers
    openQuestions := p.openQuestions.getD s.openQuestions
    validation := p.validation.getD s.validation
    activeFiles := p.activeFiles.getD s.activeFiles
    git := p.git.getD s.git
    modelFamily := p.modelFamily.getD s.modelFamily
    modelSource := p.modelSource.getD s.modelSource
    modelVerified := p.modelVerified.getD s.modelVerified
    origin := p.origin.getD s.origin
    intent := p.intent.getD s.intent }

/-! ## Events -/

/-- What a call says about itself. -/
structure Narrative where
  summary : Text
  reason : Text
  nextAction : Text
  references : List Text
  evidenceCodes : List Text

/-- The event identifier of `_build_event`. -/
def eventId (planId operation : Text) (kind : EventKind) (n : Narrative) (sequence : Nat) : Text :=
  txt "evt-" ++ (env.sha256 (Json.canonical (.obj
    [(txt "plan_id", .str planId), (txt "kind", nameJson kind),
     (txt "operation_id", .str operation), (txt "sequence", natJson sequence),
     (txt "summary", .str n.summary), (txt "reason", .str n.reason),
     (txt "next_action", .str n.nextAction), (txt "references", textsJson n.references),
     (txt "evidence_codes", textsJson n.evidenceCodes)]))).take 32

/-- The record `_build_event` validates first, without its hash. -/
def draftEvent (planId : Text) (s : State) (operation : Text) (kind : EventKind) (n : Narrative)
    (timestamp : Text) (sequence : Nat) (previous : Text) (patch : StatePatch) (payload : Json) :
    Event where
  sequence := sequence
  eventId := eventId env planId operation kind n sequence
  operationId := operation
  timestamp := timestamp
  kind := kind
  summary := n.summary
  reason := n.reason
  nextAction := n.nextAction
  status := s.status
  classification := s.classification
  phase := s.phase
  planId := planId
  planPath := s.planPath
  references := n.references
  evidenceCodes := n.evidenceCodes
  git := s.git
  writerSessionId := s.writerSessionId
  modelFamily := s.modelFamily
  modelSource := s.modelSource
  modelVerified := s.modelVerified
  origin := s.origin
  intent := s.intent
  statePatch := patch
  operationPayloadHash := digest env payload
  stateSemanticHash := operationStateHash env s.toDict
  previousEventHash := previous
  recordHash := []

/-- `_build_event`. -/
def buildEvent (planId : Text) (s : State) (operation : Text) (kind : EventKind) (n : Narrative)
    (timestamp : Text) (sequence : Nat) (previous : Text) (patch : StatePatch) (payload : Json) :
    Check Event := do
  let event := draftEvent env planId s operation kind n timestamp sequence previous patch payload
  let draft ← validateEvent env event.toDict (some planId) false true
  validateEvent env { event with recordHash := eventRecordHash env draft }.toDict (some planId)
    false false

/-- The snapshot `_state_after_event` validates. -/
def stateWithEvent (s : State) (e : Event) (timestamp : Text) : State :=
  let patched := e.statePatch.apply
    { s with
      semanticHash := []
      generation := s.generation + 1
      lastOperationId := e.operationId
      lastEventSequence := e.sequence
      lastEventHash := e.recordHash
      updatedAt := timestamp }
  { patched with
    status := e.status
    classification := e.classification
    phase := e.phase
    nextAction := e.nextAction
    planPath := if e.planPath.isEmpty then patched.planPath else e.planPath
    git := e.git
    writerSessionId := e.writerSessionId
    modelFamily := e.modelFamily
    modelSource := e.modelSource
    modelVerified := e.modelVerified
    origin := e.origin
    intent := e.intent
    latestDecision :=
      if e.kind = .decision then some ⟨e.eventId, e.summary⟩ else patched.latestDecision }

/-- `_state_after_event`. -/
def stateAfterEvent (s : State) (e : Event) (timestamp : Text) : Check State :=
  validateState env (stateWithEvent s e timestamp).toDict
    (some (if e.planId.isEmpty then s.planId else e.planId)) stateHardLimitBytes

/-! ## Retries -/

/-- `_operation_event_from_records`. -/
def operationEvent (es : List Event) (operation : Text) : Option Event :=
  es.find? fun e => e.operationId == operation

/-- What `_assert_same_operation` compares when a record has no payload
hash: the record without the fields it leaves out. -/
def Event.comparable (e : Event) : Event :=
  { e with
    eventId := [], timestamp := [], recordHash := [], stateSemanticHash := [],
    operationPayloadHash := [], status := .planned, classification := .green, phase := [],
    planPath := [], git := ⟨[], [], [], []⟩, writerSessionId := [], modelFamily := .unknown,
    modelSource := .unknown, modelVerified := false, origin := [], intent := [] }

/-- `_assert_same_operation`. -/
def assertSameOperation (existing candidate : Event) (operation : Text) : Check Unit :=
  let op := String.ofList operation
  let reused := Fault.idempotencyError s!"operation_id {op} was reused with a different payload"
  if !existing.operationPayloadHash.isEmpty && !candidate.operationPayloadHash.isEmpty then
    require (existing.operationPayloadHash == candidate.operationPayloadHash) reused
  else require (decide (existing.comparable = candidate.comparable)) reused

/-- `_record_operation_payload`. -/
def recordOperationPayload (kind : EventKind) (n : Narrative) (updates provenance : Dict) : Json :=
  .obj
    [(txt "kind", nameJson kind), (txt "summary", .str n.summary), (txt "reason", .str n.reason),
     (txt "next_action", .str n.nextAction), (txt "references", textsJson n.references),
     (txt "evidence_codes", textsJson n.evidenceCodes), (txt "state_update", .obj updates),
     (txt "provenance", .obj provenance)]

/-- `_registration_operation_payload`. -/
def registrationOperationPayload (s : State) (n : Narrative) : Json :=
  .obj
    [(txt "kind", nameJson EventKind.started), (txt "summary", .str n.summary),
     (txt "reason", .str n.reason), (txt "references", textsJson n.references),
     (txt "evidence_codes", textsJson n.evidenceCodes), (txt "plan_path", .str s.planPath),
     (txt "status", nameJson s.status), (txt "classification", nameJson s.classification),
     (txt "phase", .str s.phase), (txt "objective", .str s.objective),
     (txt "next_action", .str s.nextAction), (txt "git", .obj s.git.toDict),
     (txt "model_family", nameJson s.modelFamily), (txt "model_source", nameJson s.modelSource),
     (txt "model_verified", .bool s.modelVerified)]

/-! ## The journal -/

/-- `_validate_sequence_and_hashes` from sequence `n` with predecessor hash
`previous`. -/
def validateSequenceAndHashes (n : Nat) (previous : Text) : List Event → Check Unit
  | [] => .ok ()
  | e :: es => do
      require (e.sequence == n) (.integrityError s!"journal sequence gap at {n}")
      require (e.previousEventHash == previous)
        (.integrityError s!"journal previous hash mismatch at {n}")
      require (!e.recordHash.isEmpty && e.recordHash == eventRecordHash env e)
        (.integrityError s!"journal record hash mismatch at {n}")
      validateSequenceAndHashes (n + 1) e.recordHash es

/-- `_validate_state_cursor`. -/
def validateStateCursor (s : State) (es : List Event) : Check Unit := do
  require (s.lastEventSequence ≤ es.length)
    (.integrityError "state points beyond the end of its verified journal")
  if s.lastEventSequence = 0 then
    require s.lastEventHash.isEmpty
      (.integrityError "state has a hash without an applied journal sequence")
  else
    require ((es[s.lastEventSequence - 1]?).any (·.recordHash == s.lastEventHash))
      (.integrityError "state last_event_hash does not match its verified journal")

/-- Apply the events of a list one after another. -/
def applyEvents (timestamp : Text) : State → List Event → Check State
  | s, [] => .ok s
  | s, e :: es => do
      let next ← stateAfterEvent env s e timestamp
      applyEvents timestamp next es

/-- `_reconcile_state`: the state and whether it had to be recovered. -/
def reconcileState (s : State) (es : List Event) (timestamp : Text) : Check (State × Bool) := do
  validateStateCursor s es
  if s.lastEventSequence = es.length then pure (s, false)
  else
    let recovered ← applyEvents env timestamp s (es.drop s.lastEventSequence)
    let recovered ← validateState env recovered.toDict (some s.planId) stateHardLimitBytes
    pure (recovered, true)

/-- `_reconstruct_state`. -/
def reconstructState (planId : Text) (es : List Event) (timestamp : Text) : Check State :=
  match es with
  | [] => .error (.storeError "cannot reconstruct a plan without journal evidence")
  | first :: _ => do
      let s ← newState env planId first.planPath timestamp
        [(txt "status", nameJson first.status),
         (txt "classification", nameJson first.classification),
         (txt "phase", .str first.phase),
         (txt "git", .obj first.git.toDict),
         (txt "writer_session_id", .str first.writerSessionId),
         (txt "model_family", nameJson first.modelFamily),
         (txt "model_source", nameJson first.modelSource),
         (txt "model_verified", .bool first.modelVerified),
         (txt "origin", .str first.origin),
         (txt "intent", .str first.intent)]
      let s ← applyEvents env timestamp s es
      validateState env s.toDict (some planId) stateHardLimitBytes

end Operations
end RalphVault.Store
