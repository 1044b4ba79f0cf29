import RalphVault.Store.Schema

/-!
# Implementation store — records

State snapshots, journal events and the manifest: their typed form, the
JSON object each is written as, and the validators of
`implementation_store/schema.py` that read such an object. The hashes
are taken over the canonical JSON of the object.
-/

namespace RalphVault.Store

/-! ## Limits -/

def stateHardLimitBytes : Nat := 8 * 1024
def manifestHardLimitBytes : Nat := 8 * 1024
def eventHardLimitBytes : Nat := 4 * 1024
def unplannedEventHardLimitBytes : Nat := 4 * 1024
def planJournalMaxBytes : Nat := 8 * 1024 * 1024
def planJournalMaxRecords : Nat := 4096

/-! ## Validation maps -/

/-- The `validation` dictionary of a state. Two such dictionaries are equal
when they hold the same entries, so the entries are kept in key order. -/
abbrev ValidationMap := List (Text × GateResult)

def ValidationMap.ofEntries (es : List (Text × GateResult)) : ValidationMap :=
  SortedMap.ofList textLt es

/-! ## Record types -/

structure Git where
  branch : Text
  commit : Text
  workspaceInstanceId : Text
  repositoryId : Text
deriving DecidableEq

structure Decision where
  eventId : Text
  summary : Text
deriving DecidableEq

/-- A state snapshot, `state.json`. -/
structure State where
  planId : Text
  planPath : Text
  generation : Nat
  semanticHash : Text
  status : Status
  classification : Classification
  phase : Text
  objective : Text
  latestDecision : Option Decision
  nextAction : Text
  openBlockers : List Text
  openQuestions : List Text
  validation : ValidationMap
  activeFiles : List Text
  lastOperationId : Text
  lastEventSequence : Nat
  lastEventHash : Text
  git : Git
  writerSessionId : Text
  modelFamily : ModelFamily
  modelSource : ModelSource
  modelVerified : Bool
  origin : Text
  intent : Text
  createdAt : Text
  updatedAt : Text
deriving DecidableEq

/-- A `state_patch`: the fields of `STATE_PATCH_KEYS` that are present. -/
structure StatePatch where
  planPath : Option Text
  status : Option Status
  classification : Option Classification
  phase : Option Text
  objective : Option Text
  latestDecision : Option (Option Decision)
  nextAction : Option Text
  openBlockers : Option (List Text)
  openQuestions : Option (List Text)
  validation : Option ValidationMap
  activeFiles : Option (List Text)
  git : Option Git
  modelFamily : Option ModelFamily
  modelSource : Option ModelSource
  modelVerified : Option Bool
  origin : Option Text
  intent : Option Text
deriving DecidableEq

/-- A journal record, one line of `events.jsonl`. -/
structure Event where
  sequence : Nat
  eventId : Text
  operationId : Text
  timestamp : Text
  kind : EventKind
  summary : Text
  reason : Text
  nextAction : Text
  status : Status
  classification : Classification
  phase : Text
  planId : Text
  planPath : Text
  references : List Text
  evidenceCodes : List Text
  git : Git
  writerSessionId : Text
  modelFamily : ModelFamily
  modelSource : ModelSource
  modelVerified : Bool
  origin : Text
  intent : Text
  statePatch : StatePatch
  operationPayloadHash : Text
  stateSemanticHash : Text
  previousEventHash : Text
  recordHash : Text
deriving DecidableEq

/-- A discovery pointer of the manifest. -/
structure Pointer where
  planId : Text
  planPath : Text
  statePath : Text
  status : Status
  branch : Text
  workspaceInstanceId : Text
  semanticHash : Text
  lastEventSequence : Nat
deriving DecidableEq

/-- `manifest.json`. -/
structure Manifest where
  canonicalRepoIdentity : Text
  generation : Nat
  plans : List Pointer
deriving DecidableEq

/-! ## JSON objects -/

def natJson (n : Nat) : Json := .num n
def textsJson (ts : List Text) : Json := .arr (ts.map .str)
def nameJson [Named β] (b : β) : Json := .str (name b)
def validationJson (m : ValidationMap) : Json := .obj (m.map fun e => (e.1, nameJson e.2))

def Git.toDict (g : Git) : Dict :=
  [(txt "branch", .str g.branch), (txt "commit", .str g.commit),
   (txt "workspace_instance_id", .str g.workspaceInstanceId),
   (txt "repository_id", .str g.repositoryId)]

def Decision.toDict (d : Decision) : Dict :=
  [(txt "event_id", .str d.eventId), (txt "summary", .str d.summary)]

def decisionJson : Option Decision → Json
  | none => .null
  | some d => .obj d.toDict

def State.toDict (s : State) : Dict :=
  [(txt "schema_version", .num 1),
   (txt "plan_id", .str s.planId),
   (txt "plan_path", .str s.planPath),
   (txt "generation", natJson s.generation),
   (txt "semantic_hash", .str s.semanticHash),
   (txt "status", nameJson s.status),
   (txt "classification", nameJson s.classification),
   (txt "phase", .str s.phase),
   (txt "objective", .str s.objective),
   (txt "latest_decision", decisionJson s.latestDecision),
   (txt "next_action", .str s.nextAction),
   (txt "open_blockers", textsJson s.openBlockers),
   (txt "open_questions", textsJson s.openQuestions),
   (txt "validation", validationJson s.validation),
   (txt "active_files", textsJson s.activeFiles),
   (txt "last_operation_id", .str s.lastOperationId),
   (txt "last_event_sequence", natJson s.lastEventSequence),
   (txt "last_event_hash", .str s.lastEventHash),
   (txt "git", .obj s.git.toDict),
   (txt "writer_session_id", .str s.writerSessionId),
   (txt "model_family", nameJson s.modelFamily),
   (txt "model_source", nameJson s.modelSource),
   (txt "model_verified", .bool s.modelVerified),
   (txt "origin", .str s.origin),
   (txt "intent", .str s.intent),
   (txt "created_at", .str s.createdAt),
   (txt "updated_at", .str s.updatedAt)]

/-- The object of the members that are present. -/
def Dict.ofOptions (es : List (Text × Option Json)) : Dict :=
  es.filterMap fun e => e.2.map (e.1, ·)

def StatePatch.members (p : StatePatch) : List (Text × Option Json) :=
  [(txt "plan_path", p.planPath.map .str),
   (txt "status", p.status.map nameJson),
   (txt "classification", p.classification.map nameJson),
   (txt "phase", p.phase.map .str),
   (txt "objective", p.objective.map .str),
   (txt "latest_decision", p.latestDecision.map decisionJson),
   (txt "next_action", p.nextAction.map .str),
   (txt "open_blockers", p.openBlockers.map textsJson),
   (txt "open_questions", p.openQuestions.map textsJson),
   (txt "validation", p.validation.map validationJson),
   (txt "active_files", p.activeFiles.map textsJson),
   (txt "git", p.git.map fun g => .obj g.toDict),
   (txt "model_family", p.modelFamily.map nameJson),
   (txt "model_source", p.modelSource.map nameJson),
   (txt "model_verified", p.modelVerified.map .bool),
   (txt "origin", p.origin.map .str),
   (txt "intent", p.intent.map .str)]

def StatePatch.toDict (p : StatePatch) : Dict := Dict.ofOptions p.members

def Event.toDict (e : Event) : Dict :=
  [(txt "schema_version", .num 1),
   (txt "sequence", natJson e.sequence),
   (txt "event_id", .str e.eventId),
   (txt "operation_id", .str e.operationId),
   (txt "timestamp", .str e.timestamp),
   (txt "kind", nameJson e.kind),
   (txt "summary", .str e.summary),
   (txt "reason", .str e.reason),
   (txt "next_action", .str e.nextAction),
   (txt "status", nameJson e.status),
   (txt "classification", nameJson e.classification),
   (txt "phase", .str e.phase),
   (txt "plan_id", .str e.planId),
   (txt "plan_path", .str e.planPath),
   (txt "references", textsJson e.references),
   (txt "evidence_codes", textsJson e.evidenceCodes),
   (txt "git", .obj e.git.toDict),
   (txt "writer_session_id", .str e.writerSessionId),
   (txt "model_family", nameJson e.modelFamily),
   (txt "model_source", nameJson e.modelSource),
   (txt "model_verified", .bool e.modelVerified),
   (txt "origin", .str e.origin),
   (txt "intent", .str e.intent),
   (txt "state_patch", .obj e.statePatch.toDict),
   (txt "operation_payload_hash", .str e.operationPayloadHash),
   (txt "state_semantic_hash", .str e.stateSemanticHash),
   (txt "previous_event_hash", .str e.previousEventHash),
   (txt "record_hash", .str e.recordHash)]

def Pointer.toDict (p : Pointer) : Dict :=
  [(txt "plan_id", .str p.planId), (txt "plan_path", .str p.planPath),
   (txt "state_path", .str p.statePath), (txt "status", nameJson p.status),
   (txt "branch", .str p.branch), (txt "workspace_instance_id", .str p.workspaceInstanceId),
   (txt "semantic_hash", .str p.semanticHash),
   (txt "last_event_sequence", natJson p.lastEventSequence)]

def Manifest.toDict (m : Manifest) : Dict :=
  [(txt "schema_version", .num 1),
   (txt "canonical_repo_identity", .str m.canonicalRepoIdentity),
   (txt "generation", natJson m.generation),
   (txt "plans", .arr (m.plans.map fun p => .obj p.toDict))]

/-! ## Hashes -/

section Hashes

variable (env : Env)

/-- `digest`. -/
def digest (j : Json) : Text := txt "sha256:" ++ env.sha256 j.canonical

/-- The keys `state_semantic_hash` leaves out. -/
def observationalKeys : List Text :=
  [txt "semantic_hash", txt "generation", txt "last_operation_id", txt "last_event_sequence",
   txt "last_event_hash", txt "updated_at", txt "created_at", txt "writer_session_id",
   txt "writer_process_id"]

/-- `state_semantic_hash`. -/
def stateSemanticHash (d : Dict) : Text := digest env (.obj (d.without observationalKeys))

/-- `_operation_state_hash`. -/
def operationStateHash (d : Dict) : Text :=
  stateSemanticHash env (d.without
    [txt "semantic_hash", txt "generation", txt "last_operation_id", txt "last_event_sequence",
     txt "last_event_hash", txt "updated_at", txt "created_at", txt "writer_session_id"])

/-- `event_record_hash`. -/
def eventRecordHash (e : Event) : Text :=
  digest env (.obj (e.toDict.without [txt "record_hash"]))

end Hashes

/-! ## Validators -/

section Validators

variable (env : Env)

/-- `_git`. -/
def git (j : Json) : Check Git := do
  let obj ← object j "git"
  unknownKeys obj [txt "branch", txt "commit", txt "workspace_instance_id", txt "repository_id"]
    "git"
  let commit ← text env (obj.getD (txt "commit") (.str [])) "git.commit" 80 true
  require (commit.isEmpty || isCommit commit)
    (.schemaError "git.commit must be a hexadecimal Git commit")
  let branch ← text env (obj.getD (txt "branch") (.str [])) "git.branch" 240 true
  let workspace ← identifier env (obj.getD (txt "workspace_instance_id") (.str []))
    "git.workspace_instance_id" true
  let repository ← identifier env (obj.getD (txt "repository_id") (.str []))
    "git.repository_id" true
  pure ⟨branch, commit, workspace, repository⟩

/-- The `latest_decision` checks of a state and of a patch. -/
def latestDecision (j : Json) (label : String) : Check (Option Decision) :=
  match j with
  | .null => .ok none
  | j => do
      let obj ← object j label
      unknownKeys obj [txt "event_id", txt "summary"] label
      let eventId ← identifier env (obj.getD (txt "event_id") (.str [])) s!"{label}.event_id" true
      let summary ← text env (obj.getD (txt "summary") (.str [])) s!"{label}.summary" 400 true
      pure (some ⟨eventId, summary⟩)

/-- The members of a `validation` object. -/
def gates : Dict → Check (List (Text × GateResult))
  | [] => .ok []
  | (k, j) :: d => do
      require (isCode k) (.schemaError "validation keys must be bounded evidence codes")
      let key := String.ofList k
      let r ← enum j s!"validation.{key}"
      let rest ← gates d
      pure ((k, r) :: rest)

/-- `_validation`. -/
def validation (j : Json) : Check ValidationMap := do
  let obj ← object j "validation"
  require (obj.length ≤ 16) (.schemaError "validation has too many keys")
  let entries ← gates obj
  pure (ValidationMap.ofEntries entries)

/-- The keys of a state. -/
def stateKeys : List Text :=
  [txt "schema_version", txt "plan_id", txt "plan_path", txt "generation", txt "semantic_hash",
   txt "status", txt "classification", txt "phase", txt "objective", txt "latest_decision",
   txt "next_action", txt "open_blockers", txt "open_questions", txt "validation",
   txt "active_files", txt "last_operation_id", txt "last_event_sequence",
   txt "last_event_hash", txt "git", txt "writer_session_id", txt "model_family",
   txt "model_source", txt "model_verified", txt "origin", txt "intent", txt "created_at",
   txt "updated_at"]

def noText : Json := .str []

/-- The field checks of `validate_state`; `semanticHash` is the supplied
one. -/
def decodeState (d : Dict) (expected : Option Text) : Check State := do
  schemaVersion d "state"
  unknownKeys d stateKeys "state"
  let planId ← planId env (d.getD (txt "plan_id") .null) false
  require (expected.all (· == planId)) (.schemaError "state plan_id does not match its directory")
  let planPath ← repoRelativePath env (d.getD (txt "plan_path") noText) "plan_path" true
  let generation ← integer (d.getD (txt "generation") (.num 0)) "generation" 0
  let status ← enum (d.getD (txt "status") (nameJson Status.planned)) "status"
  let classification ←
    enum (d.getD (txt "classification") (nameJson Classification.green)) "classification"
  let phase ← text env (d.getD (txt "phase") noText) "phase" 160 true
  let objective ← text env (d.getD (txt "objective") noText) "objective" 480 true
  let nextAction ← text env (d.getD (txt "next_action") noText) "next_action" 400 true
  let decision ← latestDecision env (d.getD (txt "latest_decision") .null) "latest_decision"
  let blockers ← textList env (d.getD (txt "open_blockers") (.arr [])) "open_blockers" 8 400
  let questions ← textList env (d.getD (txt "open_questions") (.arr [])) "open_questions" 8 400
  let validation ← validation (d.getD (txt "validation") (.obj []))
  let activeFiles ← pathList env (d.getD (txt "active_files") (.arr [])) "active_files" 16
  let operation ← identifier env (d.getD (txt "last_operation_id") noText) "last_operation_id" true
  let sequence ← integer (d.getD (txt "last_event_sequence") (.num 0)) "last_event_sequence" 0
  let eventHash ← hash (d.getD (txt "last_event_hash") noText) "last_event_hash" true
  let git ← git env (d.getD (txt "git") (.obj []))
  let writer ← identifier env (d.getD (txt "writer_session_id") noText) "writer_session_id" true
  let family ← enum (d.getD (txt "model_family") (nameJson ModelFamily.unknown)) "model_family"
  let source ← enum (d.getD (txt "model_source") (nameJson ModelSource.unknown)) "model_source"
  let verified ← boolean (d.getD (txt "model_verified") (.bool false)) "model_verified"
  let origin ← text env (d.getD (txt "origin") (.str (txt "implementation-progress"))) "origin"
    80 false
  let intent ← text env (d.getD (txt "intent") (.str (txt "progress-maintenance"))) "intent"
    80 false
  let createdAt ← timestamp env (d.getD (txt "created_at") noText) "created_at" true
  let updatedAt ← timestamp env (d.getD (txt "updated_at") noText) "updated_at" true
  let semanticHash ← hash (d.getD (txt "semantic_hash") noText) "semantic_hash" true
  pure ⟨planId, planPath, generation, semanticHash, status, classification, phase, objective,
    decision, nextAction, blockers, questions, validation, activeFiles, operation, sequence,
    eventHash, git, writer, family, source, verified, origin, intent, createdAt, updatedAt⟩

/-- The state with its own semantic hash. -/
def State.rehashed (s : State) : State :=
  { s with semanticHash := stateSemanticHash env s.toDict }

/-- `validate_state`. -/
def validateState (d : Dict) (expected : Option Text) (hardLimit : Nat) : Check State := do
  let s ← decodeState env d expected
  let normalized := s.rehashed env
  require (s.semanticHash.isEmpty || s.semanticHash == normalized.semanticHash)
    (.schemaError "state semantic_hash does not match the state")
  rejectRed env (.obj normalized.toDict) "state"
  require (Json.encodedSize (.obj normalized.toDict) ≤ hardLimit)
    (.schemaError s!"state exceeds hard limit of {hardLimit} UTF-8 bytes")
  pure normalized

/-- One optional field of a patch. -/
def patchField (k : Text) (f : Json → Check β) (d : Dict) : Check (Option β) :=
  match d.get? k with
  | none => .ok none
  | some j => do
      let b ← f j
      pure (some b)

/-- `STATE_PATCH_KEYS`. -/
def statePatchKeys : List Text :=
  [txt "plan_path", txt "status", txt "classification", txt "phase", txt "objective",
   txt "latest_decision", txt "next_action", txt "open_blockers", txt "open_questions",
   txt "validation", txt "active_files", txt "git", txt "model_family", txt "model_source",
   txt "model_verified", txt "origin", txt "intent"]

/-- The field checks of `_state_patch`. -/
def decodePatch (d : Dict) : Check StatePatch := do
  require (d.length ≤ statePatchKeys.length) (.schemaError "state_patch contains too many fields")
  unknownKeys d statePatchKeys "state_patch"
  let planPath ← patchField (txt "plan_path")
    (fun j => repoRelativePath env j "state_patch.plan_path" true) d
  let status ← patchField (txt "status") (fun j => enum j "state_patch.status") d
  let classification ← patchField (txt "classification")
    (fun j => enum j "state_patch.classification") d
  let phase ← patchField (txt "phase") (fun j => text env j "state_patch.phase" 160 true) d
  let objective ← patchField (txt "objective")
    (fun j => text env j "state_patch.objective" 480 true) d
  let decision ← patchField (txt "latest_decision")
    (fun j => latestDecision env j "state_patch.latest_decision") d
  let nextAction ← patchField (txt "next_action")
    (fun j => text env j "state_patch.next_action" 400 true) d
  let blockers ← patchField (txt "open_blockers")
    (fun j => textList env j "state_patch.open_blockers" 8 400) d
  let questions ← patchField (txt "open_questions")
    (fun j => textList env j "state_patch.open_questions" 8 400) d
  let validation ← patchField (txt "validation") validation d
  let activeFiles ← patchField (txt "active_files")
    (fun j => pathList env j "state_patch.active_files" 16) d
  let git ← patchField (txt "git") (git env) d
  let family ← patchField (txt "model_family") (fun j => enum j "state_patch.model_family") d
  let source ← patchField (txt "model_source") (fun j => enum j "state_patch.model_source") d
  let verified ← patchField (txt "model_verified")
    (fun j => boolean j "state_patch.model_verified") d
  let origin ← patchField (txt "origin") (fun j => text env j "state_patch.origin" 80 false) d
  let intent ← patchField (txt "intent") (fun j => text env j "state_patch.intent" 80 false) d
  pure ⟨planPath, status, classification, phase, objective, decision, nextAction, blockers,
    questions, validation, activeFiles, git, family, source, verified, origin, intent⟩

/-- `_state_patch`. -/
def statePatch (j : Json) : Check StatePatch := do
  let d ← object j "state_patch"
  let p ← decodePatch env d
  rejectRed env (.obj p.toDict) "state_patch"
  pure p

/-- The keys of an event. -/
def eventKeys : List Text :=
  [txt "schema_version", txt "sequence", txt "event_id", txt "operation_id", txt "timestamp",
   txt "kind", txt "summary", txt "reason", txt "next_action", txt "status",
   txt "classification", txt "phase", txt "plan_id", txt "plan_path", txt "references",
   txt "evidence_codes", txt "git", txt "writer_session_id", txt "model_family",
   txt "model_source", txt "model_verified", txt "origin", txt "intent", txt "state_patch",
   txt "operation_payload_hash", txt "state_semantic_hash", txt "previous_event_hash",
   txt "record_hash"]

/-- The field checks of `validate_event`. -/
def decodeEvent (d : Dict) (expected : Option Text) (unplanned allowUnhashed : Bool) :
    Check Event := do
  schemaVersion d "event"
  unknownKeys d eventKeys "event"
  let sequence ← integer (d.getD (txt "sequence") (.num 0)) "sequence" 1
  let eventId ← identifier env (d.getD (txt "event_id") .null) "event_id" false
  let operationId ← identifier env (d.getD (txt "operation_id") .null) "operation_id" false
  let timestamp ← timestamp env (d.getD (txt "timestamp") .null) "timestamp" false
  let kind ← enum (d.getD (txt "kind") .null) "kind"
  require (!unplanned || kind == EventKind.looseCommitRecorded)
    (.schemaError "unplanned-events.jsonl accepts only loose_commit_recorded events")
  let planId ← planId env (d.getD (txt "plan_id") noText) unplanned
  require (expected.all (· == planId)) (.schemaError "event plan_id does not match its journal")
  let planPath ← repoRelativePath env (d.getD (txt "plan_path") noText) "plan_path" true
  let summary ← text env (d.getD (txt "summary") noText) "summary" 400 true
  let reason ← text env (d.getD (txt "reason") noText) "reason" 400 true
  let nextAction ← text env (d.getD (txt "next_action") noText) "next_action" 400 true
  let status ← enum (d.getD (txt "status") (nameJson Status.planned)) "status"
  let classification ←
    enum (d.getD (txt "classification") (nameJson Classification.green)) "classification"
  let phase ← text env (d.getD (txt "phase") noText) "phase" 160 true
  let references ← pathList env (d.getD (txt "references") (.arr [])) "references" 8
  let evidenceCodes ← codeList (d.getD (txt "evidence_codes") (.arr [])) "evidence_codes" 8
  let git ← git env (d.getD (txt "git") (.obj []))
  let writer ← identifier env (d.getD (txt "writer_session_id") noText) "writer_session_id" true
  let family ← enum (d.getD (txt "model_family") (nameJson ModelFamily.unknown)) "model_family"
  let source ← enum (d.getD (txt "model_source") (nameJson ModelSource.unknown)) "model_source"
  let verified ← boolean (d.getD (txt "model_verified") (.bool false)) "model_verified"
  let origin ← text env (d.getD (txt "origin") (.str (txt "implementation-progress"))) "origin"
    80 false
  let intent ← text env (d.getD (txt "intent") (.str (txt "progress-maintenance"))) "intent"
    80 false
  let patch ← statePatch env (d.getD (txt "state_patch") (.obj []))
  let payloadHash ← hash (d.getD (txt "operation_payload_hash") noText)
    "operation_payload_hash" true
  let stateHash ← hash (d.getD (txt "state_semantic_hash") noText) "state_semantic_hash" true
  let previous ← hash (d.getD (txt "previous_event_hash") noText) "previous_event_hash" true
  let recordHash ← hash (d.getD (txt "record_hash") noText) "record_hash" allowUnhashed
  require (allowUnhashed || !recordHash.isEmpty) (.schemaError "event record_hash is required")
  pure ⟨sequence, eventId, operationId, timestamp, kind, summary, reason, nextAction, status,
    classification, phase, planId, planPath, references, evidenceCodes, git, writer, family,
    source, verified, origin, intent, patch, payloadHash, stateHash, previous, recordHash⟩

/-- `validate_event`. -/
def validateEvent (d : Dict) (expected : Option Text) (unplanned allowUnhashed : Bool) :
    Check Event := do
  let e ← decodeEvent env d expected unplanned allowUnhashed
  rejectRed env (.obj e.toDict) "event"
  require (e.recordHash.isEmpty || e.recordHash == eventRecordHash env e)
    (.schemaError "event record_hash does not match the record")
  let limit := if unplanned then unplannedEventHardLimitBytes else eventHardLimitBytes
  require (Json.encodedSize (.obj e.toDict) ≤ limit)
    (.schemaError s!"event exceeds hard limit of {limit} UTF-8 bytes")
  pure e

/-- The checks of one manifest pointer. -/
def decodePointer (j : Json) (label : String) : Check Pointer := do
  let d ← object j label
  unknownKeys d [txt "plan_id", txt "plan_path", txt "state_path", txt "status", txt "branch",
    txt "workspace_instance_id", txt "semantic_hash", txt "last_event_sequence"] label
  let planId ← planId env (d.getD (txt "plan_id") .null) false
  let planPath ← repoRelativePath env (d.getD (txt "plan_path") noText) "manifest.plan_path" true
  let statePath ← storeRelativePath env (d.getD (txt "state_path") noText) "manifest.state_path"
  let status ← enum (d.getD (txt "status") (nameJson Status.planned)) "manifest.status"
  let branch ← text env (d.getD (txt "branch") noText) "manifest.branch" 240 true
  let workspace ← identifier env (d.getD (txt "workspace_instance_id") noText)
    "manifest.workspace_instance_id" true
  let semanticHash ← hash (d.getD (txt "semantic_hash") noText) "manifest.semantic_hash" true
  let sequence ← integer (d.getD (txt "last_event_sequence") (.num 0))
    "manifest.last_event_sequence" 0
  pure ⟨planId, planPath, statePath, status, branch, workspace, semanticHash, sequence⟩

/-- The pointers of a manifest, numbered from `i`; `seen` holds the plan
identifiers before. -/
def decodePointers (seen : List Text) : Nat → List Json → Check (List Pointer)
  | _, [] => .ok []
  | i, j :: js => do
      let p ← decodePointer env j s!"manifest.plans[{i}]"
      require (!seen.contains p.planId)
        (.schemaError "manifest contains duplicate plan pointers")
      let ps ← decodePointers (seen ++ [p.planId]) (i + 1) js
      pure (p :: ps)

/-- The `plans` of a manifest. -/
def pointerList (j : Json) : Check (List Pointer) :=
  match j with
  | .arr js => do
      require (js.length ≤ 64) (.schemaError "manifest plans must be a bounded list")
      decodePointers env [] 0 js
  | _ => .error (.schemaError "manifest plans must be a bounded list")

/-- `validate_manifest`. -/
def validateManifest (d : Dict) : Check Manifest := do
  schemaVersion d "manifest"
  unknownKeys d [txt "schema_version", txt "canonical_repo_identity", txt "generation",
    txt "plans"] "manifest"
  let identity ← identifier env (d.getD (txt "canonical_repo_identity") noText)
    "canonical_repo_identity" true
  let generation ← integer (d.getD (txt "generation") (.num 0)) "generation" 0
  let plans ← pointerList env (d.getD (txt "plans") (.arr []))
  let normalized : Manifest := ⟨identity, generation, plans⟩
  rejectRed env (.obj normalized.toDict) "manifest"
  require (Json.encodedSize (.obj normalized.toDict) ≤ manifestHardLimitBytes)
    (.schemaError s!"manifest exceeds hard limit of {manifestHardLimitBytes} UTF-8 bytes")
  pure normalized

end Validators
end RalphVault.Store
