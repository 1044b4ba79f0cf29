import Mathlib
import RalphVault.Hooks
import RalphVault.Context.Epochs
import RalphVault.Recency
import RalphVault.StateFile

/-!
# Maintenance — the queue

The queue of deferred maintenance jobs, `maintenance_queue.py`: one JSON
file a project, read and replaced under the queue's lock. A file is the
list of its jobs, or absent; `created_epoch` and the other clock values
are rationals. What the disk does to one call is an argument of the call
(`Reading`, `Publication`), and so is what each clock reading returns:
no two readings need agree.

Left out: the write metadata of a result, the event log of the runner,
and job records no call of this module has written.
-/

namespace RalphVault.Maintenance

open Store Recency StateFile
open Hooks (Platform ActiveContext)

/-- A value of `time.time()`. -/
abbrev Epoch := ℚ

/-! ## Settings -/

def defaultMaxAttempts : Nat := 3

/-- `OPERATION`. -/
def operationName : Text := txt "dream_and_vault_review"

/-- What `int` makes of the variables `RALPH_MAINTENANCE_*`, and the policy
version. -/
structure Environ where
  ttl : Option Int
  debounce : Option Int
  maxEntries : Option Int
  maxAttempts : Option Int
  lease : Option Int
  policyVersion : Option Text

/-- `_int_env`. -/
def intEnv (value : Option Int) (default minimum maximum : Int) : Int :=
  max minimum (min (value.getD default) maximum)

namespace Environ

/-- `queue_ttl_seconds`. -/
def queueTtlSeconds (v : Environ) : Int := intEnv v.ttl 604800 1 2592000

/-- `debounce_seconds`. -/
def debounceSeconds (v : Environ) : Int := intEnv v.debounce 60 0 86400

/-- `max_entries`. -/
def entryLimit (v : Environ) : Nat := (intEnv v.maxEntries 256 1 4096).toNat

/-- `max_attempts`. -/
def attemptLimit (v : Environ) : Nat := (intEnv v.maxAttempts defaultMaxAttempts 1 8).toNat

/-- `lease_seconds`. -/
def leaseSeconds (v : Environ) : Int := intEnv v.lease 30 1 900

end Environ

theorem intEnv_bounds (value : Option Int) (default : Int) {minimum maximum : Int}
    (h : minimum ≤ maximum) :
    minimum ≤ intEnv value default minimum maximum ∧
      intEnv value default minimum maximum ≤ maximum := by
  simp only [intEnv]
  omega

theorem Environ.one_le_entryLimit (v : Environ) : 1 ≤ v.entryLimit := by
  obtain ⟨h, -⟩ := intEnv_bounds v.maxEntries 256 (show (1 : Int) ≤ 4096 by decide)
  simp only [entryLimit]
  omega

theorem Environ.one_le_attemptLimit (v : Environ) : 1 ≤ v.attemptLimit := by
  obtain ⟨h, -⟩ :=
    intEnv_bounds v.maxAttempts (defaultMaxAttempts : Nat) (show (1 : Int) ≤ 8 by decide)
  simp only [attemptLimit]
  omega

/-! ## Jobs -/

inductive Status where
  | pending | leased | retryable | completed | deadLettered
deriving DecidableEq

def Status.name : Status → Text
  | .pending => txt "pending"
  | .leased => txt "leased"
  | .retryable => txt "retryable"
  | .completed => txt "completed"
  | .deadLettered => txt "dead_lettered"

/-- The fields of a job that are fixed when it is enqueued. -/
structure Descriptor where
  jobId : Text
  operation : Text
  projectId : Text
  projectSlug : Text
  workspaceRoot : Text
  workspaceInstanceId : Text
  sessionId : Text
  branch : Text
  sha : Text
  sourceGeneration : Text
  reasonCode : Text
  policyVersion : Text
  createdAt : Text
deriving DecidableEq

/-- A job as the queue file records it. -/
structure Job extends Descriptor where
  updatedAt : Text
  createdEpoch : Epoch
  updatedEpoch : Epoch
  status : Status
  attempts : Nat
  maxAttempts : Nat
  nextAttemptAt : Epoch
  leaseUntil : Epoch
  lastErrorCode : Text
deriving DecidableEq

/-- A job as `claim_jobs` hands it out. -/
structure MaintenanceJob extends Descriptor where
  updatedAt : Text
  status : Status
  attempts : Nat
  maxAttempts : Nat
  nextAttemptAt : Epoch
  leaseUntil : Epoch
  lastErrorCode : Text
deriving DecidableEq

/-- A queue file. -/
abbrev File := Option (List Job)

/-! ## What the host does during a call -/

structure Host where
  environ : Environ
  /-- Modification time and size of `handoffs/latest.md`. -/
  handoff : Option (Nat × Nat)
  /-- Modification time and size of `ledgers/learning-events.jsonl`. -/
  learning : Option (Nat × Nat)
  /-- `now_iso`. -/
  stamp : Text
  /-- The clock when `_descriptor` reads it. -/
  described : Epoch
  /-- The clock when the queue has been loaded. -/
  now : Epoch
  /-- The clock when `complete_job` reads it again. -/
  settled : Epoch
  safeRuntime : Bool
  locked : Bool
  reading : Reading
  publication : Publication

/-- `_load`: the file it leaves and the jobs it returns; `none` where it
raises, as it does on a file that exceeds `MAX_QUEUE_BYTES`. -/
abbrev load (reading : Reading) (file : File) : Option (File × List Job) :=
  StateFile.load [] reading file

/-! ## Retention -/

/-- `_timestamp(raw.get("updated_epoch")) or created`. -/
def Job.lastUpdate (j : Job) : Epoch :=
  if j.updatedEpoch = 0 then j.createdEpoch else j.updatedEpoch

/-- A job `_trim_jobs` does not skip. -/
def Job.unexpired (ttl : Int) (now : Epoch) (j : Job) : Bool :=
  j.createdEpoch ≠ 0 && now - max j.createdEpoch j.lastUpdate ≤ ttl

/-- `max(1, int(job.get("max_attempts", D) or D))`. -/
def Job.maximum (j : Job) : Nat :=
  max 1 (if j.maxAttempts = 0 then defaultMaxAttempts else j.maxAttempts)

/-- A lease that has run out is given up. -/
def Job.normalized (now : Epoch) (j : Job) : Job :=
  if j.status = .leased ∧ j.leaseUntil ≤ now then
    if j.maximum ≤ j.attempts then
      { j with
        status := .deadLettered
        nextAttemptAt := 0
        leaseUntil := 0
        lastErrorCode := txt "lease_attempts_exhausted" }
    else { j with status := .retryable, nextAttemptAt := now, leaseUntil := 0 }
  else j

/-- The jobs `_trim_jobs` sorts. -/
def surviving (v : Environ) (jobs : List Job) (now : Epoch) : List Job :=
  ((jobs.take (2 * v.entryLimit)).filter (·.unexpired v.queueTtlSeconds now)).map
    (·.normalized now)

/-- `_trim_jobs`. -/
def trimJobs (v : Environ) (jobs : List Job) (now : Epoch) : List Job :=
  mostRecent (·.updatedEpoch) v.entryLimit (surviving v jobs now)

/-! ## Descriptors -/

/-- `_safe_component`. -/
def safeComponent (p : Platform) (limit : Nat) (value : Text) : Text :=
  (value.map fun c =>
    if p.unicode.alnum c || (txt "._-:/").contains c then c else '_').take limit

/-- `_safe_identifier`. -/
def safeIdentifier (p : Platform) (value : Text) : Text :=
  let text := (value.map fun c =>
    if p.unicode.alnum c || (txt "._-").contains c then c else '_').take 80
  if text.isEmpty then txt "unknown" else text

/-- The generation a payload names. -/
def explicitGeneration (payload : Dict) : Json :=
  let keys := [txt "memory_generation", txt "memoryGeneration", txt "source_generation"]
  match (keys.map fun k => payload.getD k .null).find? Context.truthy with
  | some v => v
  | none => payload.getD (txt "generation") .null

def statText (relative : Text) : Option (Nat × Nat) → Text
  | some (mtime, size) => relative ++ txt ":" ++ decimalText mtime ++ txt ":" ++ decimalText size
  | none => relative ++ txt ":missing"

/-- `_source_generation`. -/
def sourceGeneration (p : Platform) (h : Host) (payload : Dict) : Text :=
  let material := match explicitGeneration payload with
    | .str t => if (Context.strip t).isEmpty then none else some ((Context.strip t).take 256)
    | _ => none
  let files := statText (txt "handoffs/latest.md") h.handoff ++ txt "|" ++
    statText (txt "ledgers/learning-events.jsonl") h.learning
  (p.sha256 (material.getD files)).take 24

/-- `_job_id`. -/
def jobIdOf (p : Platform) (context : ActiveContext) (generation policy : Text) : Text :=
  (p.sha256 ((txt "|").intercalate [operationName, context.projectId,
    context.workspaceInstanceId, context.branch, context.sha, generation, policy])).take 32

/-- `_descriptor`. -/
def descriptor (p : Platform) (h : Host) (context : ActiveContext) (reasonCode : Text)
    (payload : Dict) : Job :=
  let policy := safeComponent p 64 (h.environ.policyVersion.getD (txt "maintenance-v1"))
  let generation := sourceGeneration p h payload
  let reason := safeComponent p 64 reasonCode
  { jobId := jobIdOf p context generation policy
    operation := operationName
    projectId := safeIdentifier p context.projectId
    projectSlug := safeIdentifier p context.projectSlug
    workspaceRoot := context.workspaceRoot.take 240
    workspaceInstanceId := safeComponent p 64 context.workspaceInstanceId
    sessionId := safeComponent p 80 context.sessionId
    branch := safeComponent p 160 context.branch
    sha := safeComponent p 80 context.sha
    sourceGeneration := generation
    reasonCode := if reason.isEmpty then txt "interactive_hook" else reason
    policyVersion := policy
    createdAt := h.stamp
    updatedAt := h.stamp
    createdEpoch := h.described
    updatedEpoch := h.described
    status := .pending
    attempts := 0
    maxAttempts := h.environ.attemptLimit
    nextAttemptAt := h.described
    leaseUntil := 0
    lastErrorCode := [] }

/-! ## `enqueue_maintenance` -/

structure EnqueueResult where
  accepted : Bool
  deduplicated : Bool
  jobId : Text
  reason : Text
deriving DecidableEq

/-- An equivalent observation, made recently. -/
def Job.debounces (job item : Job) (cutoff : Epoch) : Bool :=
  item.operation == operationName && item.projectId == job.projectId &&
    item.workspaceInstanceId == job.workspaceInstanceId && item.branch == job.branch &&
    item.sha == job.sha && item.sourceGeneration == job.sourceGeneration &&
    item.policyVersion == job.policyVersion && cutoff ≤ item.createdEpoch

/-- What `enqueue_maintenance` finds against adding a job. -/
def deduplication (h : Host) (job : Job) (jobs : List Job) : Option EnqueueResult :=
  match jobs.find? fun item => item.jobId == job.jobId with
  -- every status counts as known, so an identifier is never queued twice
  | some existing => some ⟨false, true, job.jobId, txt "already_" ++ existing.status.name⟩
  | none =>
      match jobs.find? fun item => job.debounces item (h.now - h.environ.debounceSeconds) with
      | some item =>
          let known := if item.jobId.isEmpty then job.jobId else item.jobId
          some ⟨false, true, known, txt "debounced"⟩
      | none => none

/-- `enqueue_maintenance`. -/
def enqueueMaintenance (p : Platform) (h : Host) (context : ActiveContext) (reasonCode : Text)
    (payload : Dict) (file : File) : File × EnqueueResult :=
  let job := descriptor p h context reasonCode payload
  if !h.safeRuntime then (file, ⟨false, false, job.jobId, txt "unsafe_runtime"⟩)
  else if !h.locked then (file, ⟨false, false, job.jobId, txt "lock_unavailable"⟩)
  else match load h.reading file with
    | none => (file, ⟨false, false, job.jobId, txt "queue_write_failed"⟩)
    | some (file, loaded) =>
        let jobs := trimJobs h.environ loaded h.now
        match deduplication h job jobs with
        | some result => (file, result)
        | none =>
            let (file, returned) :=
              publish h.publication file (trimJobs h.environ (jobs ++ [job]) h.now)
            if returned then (file, ⟨true, false, job.jobId, txt "enqueued"⟩)
            else (file, ⟨false, false, job.jobId, txt "queue_write_failed"⟩)

/-! ## `claim_jobs` -/

/-- `_job_from_dict`. -/
def Job.handedOut (p : Platform) (j : Job) : MaintenanceJob :=
  { j with
    maxAttempts := max 1 j.maxAttempts
    lastErrorCode := safeComponent p 80 j.lastErrorCode }

/-- A job `claim_jobs` may hand out. -/
def Job.claimable (now : Epoch) (j : Job) : Bool :=
  (j.status == .pending || j.status == .retryable) && j.nextAttemptAt ≤ now

/-- The lease a claim writes; a lease of zero seconds means the default. -/
def Host.leaseEnd (h : Host) : Option Int → Epoch
  | some seconds =>
      h.now + (if seconds = 0 then h.environ.leaseSeconds else seconds : Int)
  | none => h.now + h.environ.leaseSeconds

def Job.leasedBy (h : Host) (lease : Option Int) (j : Job) : Job :=
  { j with
    status := .leased
    attempts := j.attempts + 1
    leaseUntil := h.leaseEnd lease
    updatedEpoch := h.now
    updatedAt := h.stamp }

/-- The loop of `claim_jobs`: the jobs it leaves and the jobs it claims, at
most `room` of them. -/
def claimLoop (p : Platform) (h : Host) (lease : Option Int) :
    Nat → List Job → List Job × List MaintenanceJob
  | _, [] => ([], [])
  | 0, raw :: rest => (raw :: rest, [])
  | room + 1, raw :: rest =>
      if raw.claimable h.now then
        let (left, claimed) := claimLoop p h lease room rest
        (raw.leasedBy h lease :: left, (raw.leasedBy h lease).handedOut p :: claimed)
      else
        let (left, claimed) := claimLoop p h lease (room + 1) rest
        (raw :: left, claimed)

/-- `claim_jobs`. -/
def claimJobs (p : Platform) (h : Host) (limit : Int) (lease : Option Int) (file : File) :
    File × List MaintenanceJob :=
  if !h.safeRuntime || !h.locked then (file, [])
  else match load h.reading file with
    | none => (file, [])
    | some (file, loaded) =>
        let jobs := trimJobs h.environ loaded h.now
        let (left, claimed) := claimLoop p h lease (max 1 (min limit 32)).toNat jobs
        if jobs ≠ loaded ∨ claimed ≠ [] then
          let (file, returned) := publish h.publication file left
          if returned then (file, claimed) else (file, [])
        else (file, claimed)

/-! ## `complete_job` -/

/-- The record of a job after its completion has been reported. -/
def Job.settledAs (p : Platform) (h : Host) (success : Bool) (errorCode : Text)
    (retryable : Bool) (j : Job) : Job :=
  let settled : Job :=
    if success then { j with status := .completed, lastErrorCode := [], leaseUntil := 0 }
    else if !retryable || j.maxAttempts ≤ j.attempts then
      { j with
        status := .deadLettered
        lastErrorCode := safeComponent p 80 errorCode
        leaseUntil := 0 }
    else
      { j with
        status := .retryable
        lastErrorCode := safeComponent p 80 errorCode
        nextAttemptAt := h.settled + (min 300 (2 ^ j.attempts) : Nat)
        leaseUntil := 0 }
  { settled with updatedEpoch := h.settled, updatedAt := h.stamp }

/-- The loop of `complete_job`: the first job of the identifier is settled;
`none` if there is none. -/
def settleLoop (jobId : Text) (settle : Job → Job) : List Job → Option (List Job)
  | [] => none
  | raw :: rest =>
      if raw.jobId == jobId then some (settle raw :: rest)
      else (settleLoop jobId settle rest).map (raw :: ·)

/-- `complete_job`. -/
def completeJob (p : Platform) (h : Host) (jobId : Text) (success : Bool) (errorCode : Text)
    (retryable : Bool) (file : File) : File × Bool :=
  if !h.safeRuntime || !h.locked then (file, false)
  else match load h.reading file with
    | none => (file, false)
    | some (file, loaded) =>
        let jobs := trimJobs h.environ loaded h.now
        match settleLoop jobId (·.settledAs p h success errorCode retryable) jobs with
        | none => (file, false)
        | some jobs => publish h.publication file jobs

/-! ## Calls -/

inductive Operation where
  | enqueue (context : ActiveContext) (reasonCode : Text) (payload : Dict)
  | claim (limit : Int) (lease : Option Int)
  | complete (jobId : Text) (success : Bool) (errorCode : Text) (retryable : Bool)

structure Call where
  host : Host
  operation : Operation

inductive Answer where
  | enqueued (result : EnqueueResult)
  | claimed (jobs : List MaintenanceJob)
  | completed (found : Bool)
deriving DecidableEq

/-- One call, from the file it finds to the file it leaves. -/
def Call.perform (p : Platform) (c : Call) (file : File) : File × Answer :=
  match c.operation with
  | .enqueue context reasonCode payload =>
      let (file, result) := enqueueMaintenance p c.host context reasonCode payload file
      (file, .enqueued result)
  | .claim limit lease =>
      let (file, jobs) := claimJobs p c.host limit lease file
      (file, .claimed jobs)
  | .complete jobId success errorCode retryable =>
      let (file, found) := completeJob p c.host jobId success errorCode retryable file
      (file, .completed found)

/-- The jobs a call hands out. -/
def Answer.handed : Answer → List MaintenanceJob
  | .claimed jobs => jobs
  | _ => []

end RalphVault.Maintenance
