import RalphVault.Advisor.Prompt

/-!
# Advisor — the ledger of agents

`agent_budget.py`: the counters of the workers and advisors of a task, the
decision whether another may start, and what a start records. A ledger is
normalized whenever it is read.

Left out: the constant fields of a ledger, its task signature and its
timestamps, which nothing reads.
-/

namespace RalphVault.Advisor

open Memory

def maxThreads : Nat := 2
def maxDepth : Nat := 1
def maxTaskJobs : Nat := 2
def maxTaskAdvisors : Nat := 1
def maxResultBytes : Nat := 4096
def maxPacketBytes : Nat := 4096

/-- `items[-n:]`. -/
def lastItems (n : Nat) (items : List α) : List α := items.drop (items.length - n)

/-! ## Models -/

inductive Family where
  | luna
  | terra
  | sol
  | unknown
deriving DecidableEq

/-- `classify_model`. -/
def classifyModel (p : Platform) (model : Text) : Family :=
  let normalized := (p.lower model).map fun c => if c = '_' || c = ' ' then '-' else c
  let isOf (name : Text) := normalized == name || contains (txt "gpt-5.6-" ++ name) normalized ||
    (txt "-" ++ name).isSuffixOf normalized
  if isOf (txt "sol") then .sol
  else if isOf (txt "luna") then .luna
  else if isOf (txt "terra") then .terra
  else .unknown

def progressReasonCode : Text := txt "local-deterministic-progress-maintenance"

/-- `is_progress_maintenance`. -/
def isProgressMaintenance (p : Platform) (origin intent : Text) : Bool :=
  p.lower (strip origin) == txt "implementation-progress" &&
    hyphenated (p.lower (strip intent)) == txt "progress-maintenance"

/-! ## Ledgers -/

structure Ledger where
  agentsStarted : Nat
  advisorsStarted : Nat
  workersStarted : Nat
  workerReservedJobs : Nat
  reservedJobs : Nat
  reasons : List Text
  failureFingerprints : List Text
  bytesSent : Nat
  bytesReceived : Nat
deriving DecidableEq

def Ledger.empty : Ledger := ⟨0, 0, 0, 0, 0, [], [], 0, 0⟩

section Ledgers

variable (p : Platform)

/-- `_safe_code`. -/
def safeCode (codePrefix t : Text) : Text :=
  let text := p.lower ((compactSpace t).take 96)
  if text.isEmpty then []
  else if text.all fun c => isAsciiLower c || isAsciiDigit c || (txt "_.:-").contains c then text
  else codePrefix ++ ['-'] ++ (p.sha256 text).take 24

/-- The last eight codes among some texts. -/
def safeCodes (codePrefix : Text) (ts : List Text) : List Text :=
  lastItems 8 ((ts.map (safeCode p codePrefix)).filter (!·.isEmpty))

/-- `normalize_ledger`. -/
def normalizeLedger (ledger : Option Ledger) : Ledger :=
  let source := ledger.getD .empty
  let agents := min source.agentsStarted (min maxThreads (maxDepth + maxTaskJobs - 1))
  let workerReserved := min source.workerReservedJobs maxTaskJobs
  { agentsStarted := agents
    advisorsStarted := min source.advisorsStarted maxTaskAdvisors
    workersStarted := min source.workersStarted maxTaskJobs
    workerReservedJobs := workerReserved
    reservedJobs :=
      min (max (min source.reservedJobs maxTaskJobs) workerReserved) (maxThreads - agents)
    reasons := safeCodes p (txt "reason") source.reasons
    failureFingerprints := safeCodes p (txt "failure") source.failureFingerprints
    bytesSent := min source.bytesSent (maxSubagentBriefBytes * maxTaskJobs)
    bytesReceived := min source.bytesReceived (maxResultBytes * maxTaskJobs) }

inductive Kind where
  | worker
  | advisor
deriving DecidableEq

structure BudgetDecision where
  allowed : Bool
  reason : Text
  remainingJobs : Nat
  remainingAdvisors : Nat
deriving DecidableEq

/-- The arguments of `budget_decision` beside the ledger. -/
structure SpawnRequest where
  kind : Kind
  sensitivity : Sensitivity
  executorModel : Text
  depth : Nat
  independent : Bool
  criticalReview : Bool
  failureFingerprints : List Text
  origin : Text
  intent : Text

/-- `budget_decision`. -/
def budgetDecision (ledger : Option Ledger) (r : SpawnRequest) : BudgetDecision :=
  let state := normalizeLedger p ledger
  let remainingAdvisors := maxTaskAdvisors - state.advisorsStarted
  let distinctFailures := (r.failureFingerprints.filter (!·.isEmpty)).eraseDups
  let failures := (state.failureFingerprints ++ distinctFailures).eraseDups
  let remainingJobs := maxTaskJobs - (state.agentsStarted + state.reservedJobs)
  if isProgressMaintenance p r.origin r.intent then ⟨false, progressReasonCode, 0, 0⟩
  else if r.sensitivity = .red then ⟨false, txt "red-local-only", 0, 0⟩
  else if r.depth ≥ maxDepth then ⟨false, txt "max-depth-reached", 0, remainingAdvisors⟩
  else if classifyModel p r.executorModel = .sol && r.kind = .advisor && !r.criticalReview then
    ⟨false, txt "sol-self-supervision-suppressed", 0, 0⟩
  else if failures.length = 1 then
    ⟨false, txt "inspect-first-failure-locally", 0, remainingAdvisors⟩
  else if remainingJobs = 0 then ⟨false, txt "task-job-budget-exhausted", 0, remainingAdvisors⟩
  else if r.kind = .advisor && remainingAdvisors = 0 then
    ⟨false, txt "advisor-budget-exhausted", remainingJobs, 0⟩
  else if !r.independent && r.kind = .worker then
    ⟨false, txt "independent-block-required", remainingJobs, remainingAdvisors⟩
  else ⟨true, txt "budget-available", remainingJobs, remainingAdvisors⟩

/-- `record_spawn`. -/
def recordSpawn (ledger : Option Ledger) (kind : Kind) (reason : Text) (bytesSent : Nat) :
    Ledger :=
  let state := normalizeLedger p ledger
  let code := safeCode p (txt "reason") reason
  { state with
    agentsStarted :=
      if state.agentsStarted < maxTaskJobs then state.agentsStarted + 1 else state.agentsStarted
    advisorsStarted := match kind with
      | .advisor => min maxTaskAdvisors (state.advisorsStarted + 1)
      | .worker => state.advisorsStarted
    workersStarted := match kind with
      | .advisor => state.workersStarted
      | .worker => min maxTaskJobs (state.workersStarted + 1)
    workerReservedJobs := match kind with
      | .advisor => state.workerReservedJobs
      | .worker => state.workerReservedJobs - 1
    reservedJobs := state.reservedJobs - 1
    reasons := if code.isEmpty then state.reasons else lastItems 8 (state.reasons ++ [code])
    bytesSent := min (maxSubagentBriefBytes * maxTaskJobs) (state.bytesSent + bytesSent) }

/-- `record_result`. -/
def recordResult (ledger : Option Ledger) (bytesReceived : Nat) : Ledger :=
  let state := normalizeLedger p ledger
  { state with
    bytesReceived := min (maxResultBytes * maxTaskJobs) (state.bytesReceived + bytesReceived) }

end Ledgers

/-! ## What the functions of a ledger leave alone -/

section Counters

variable {p : Platform} (l : Option Ledger)

@[simp] theorem normalizeLedger_agentsStarted :
    (normalizeLedger p l).agentsStarted = min (l.getD .empty).agentsStarted 2 := rfl

@[simp] theorem normalizeLedger_advisorsStarted :
    (normalizeLedger p l).advisorsStarted = min (l.getD .empty).advisorsStarted 1 := rfl

@[simp] theorem normalizeLedger_workersStarted :
    (normalizeLedger p l).workersStarted = min (l.getD .empty).workersStarted 2 := rfl

@[simp] theorem normalizeLedger_workerReservedJobs :
    (normalizeLedger p l).workerReservedJobs = min (l.getD .empty).workerReservedJobs 2 := rfl

/-- The reserved jobs as a ledger is read: what the started agents leave. -/
@[simp] theorem normalizeLedger_reservedJobs :
    (normalizeLedger p l).reservedJobs =
      min (max (min (l.getD .empty).reservedJobs 2) (min (l.getD .empty).workerReservedJobs 2))
        (2 - min (l.getD .empty).agentsStarted 2) := rfl

variable {reason : Text} {bytes : Nat}

@[simp] theorem recordSpawn_agentsStarted (kind : Kind) :
    (recordSpawn p l kind reason bytes).agentsStarted =
      min ((l.getD .empty).agentsStarted + 1) 2 := by
  show (if (normalizeLedger p l).agentsStarted < 2 then (normalizeLedger p l).agentsStarted + 1
    else (normalizeLedger p l).agentsStarted) = _
  rw [normalizeLedger_agentsStarted]
  split <;> omega

@[simp] theorem recordSpawn_advisor_advisorsStarted :
    (recordSpawn p l .advisor reason bytes).advisorsStarted = 1 := by
  show min 1 ((normalizeLedger p l).advisorsStarted + 1) = 1
  omega

@[simp] theorem recordSpawn_advisor_workersStarted :
    (recordSpawn p l .advisor reason bytes).workersStarted =
      min (l.getD .empty).workersStarted 2 := rfl

@[simp] theorem recordSpawn_worker_advisorsStarted :
    (recordSpawn p l .worker reason bytes).advisorsStarted =
      min (l.getD .empty).advisorsStarted 1 := rfl

@[simp] theorem recordSpawn_worker_workersStarted :
    (recordSpawn p l .worker reason bytes).workersStarted =
      min ((l.getD .empty).workersStarted + 1) 2 := by
  show min 2 (min (l.getD .empty).workersStarted 2 + 1) = _
  omega

@[simp] theorem recordResult_agentsStarted :
    (recordResult p l bytes).agentsStarted = min (l.getD .empty).agentsStarted 2 := rfl

@[simp] theorem recordResult_advisorsStarted :
    (recordResult p l bytes).advisorsStarted = min (l.getD .empty).advisorsStarted 1 := rfl

@[simp] theorem recordResult_workersStarted :
    (recordResult p l bytes).workersStarted = min (l.getD .empty).workersStarted 2 := rfl

/-- A worker that is allowed finds a job that is neither started nor
reserved. -/
theorem budgetDecision_allowed {r : SpawnRequest} (hallowed : (budgetDecision p l r).allowed = true) :
    r.sensitivity ≠ .red ∧
      (normalizeLedger p l).agentsStarted + (normalizeLedger p l).reservedJobs < maxTaskJobs := by
  unfold budgetDecision at hallowed
  dsimp only at hallowed
  split_ifs at hallowed with _ hred _ _ _ hjobs
  exact ⟨hred, by omega⟩

end Counters
end RalphVault.Advisor
