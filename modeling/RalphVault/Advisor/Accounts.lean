import RalphVault.Advisor.Routing

/-!
# Advisor — accounts

The part of the state of `sol_advisor.py` that counts: the consultation
budget, the phases consulted, the reservations of Sol phases and of workers,
and the ledger of agents. A reservation is a lease that is dropped when it
is too old.

Every function reads one clock, `now`. The counters the source repeats at
the top level of the state are those of the ledger.
-/

namespace RalphVault.Advisor

open Memory

def maxFailureFingerprints : Nat := 4
def maxConsultations : Nat := 2
def reservationLeaseSeconds : Int := 15 * 60

/-- `_bounded_text` of a text. -/
def bounded (limit : Nat) (t : Text) : Text := (strip t).take limit

/-! ## Reservations -/

structure PhaseReservation where
  fingerprint : Text
  reservedAt : Int
  spawnShape : Text
  invocationId : Text
  briefHash : Text

structure WorkerReservation where
  spawnShape : Text
  reservedAt : Int
  invocationId : Text
  briefHash : Text

/-- Whether a lease holds. -/
def leaseHolds (now reservedAt : Int) : Bool :=
  0 < reservedAt && reservedAt ≤ now + 120 && now - reservedAt ≤ reservationLeaseSeconds

/-- A phase reservation as it is read back, unless it is dropped. -/
def PhaseReservation.renew (now : Int) (r : PhaseReservation) : Option PhaseReservation :=
  if (bounded 64 r.fingerprint).isEmpty || !leaseHolds now r.reservedAt then none
  else some ⟨bounded 64 r.fingerprint, r.reservedAt, bounded 64 r.spawnShape,
    bounded 80 r.invocationId, bounded 64 r.briefHash⟩

/-- A worker reservation as it is read back, unless it is dropped. -/
def WorkerReservation.renew (now : Int) (r : WorkerReservation) : Option WorkerReservation :=
  if (bounded 64 r.spawnShape).isEmpty || !leaseHolds now r.reservedAt then none
  else some ⟨bounded 64 r.spawnShape, r.reservedAt, bounded 80 r.invocationId,
    bounded 64 r.briefHash⟩

def Phase.all : List Phase := [.plan, .stuck, .final]

/-- How many phases a map holds. -/
def countPhases {α : Type} (m : Phase → Option α) : Nat :=
  (Phase.all.filter fun phase => (m phase).isSome).length

/-- The reservations made for a payload. -/
def phaseReservation (p : Platform) (now : Int) (fingerprint : Text) (d : Payload) :
    PhaseReservation :=
  ⟨bounded 64 fingerprint, now, spawnShape p d, invocationId p d, spawnBriefHash p d⟩

def workerReservation (p : Platform) (now : Int) (d : Payload) : WorkerReservation :=
  ⟨spawnShape p d, now, invocationId p d, spawnBriefHash p d⟩

/-- `_worker_reservation_matches`. -/
def workerReservationMatches (p : Platform) (r : WorkerReservation) (d : Payload) : Bool :=
  if !(bounded 80 r.invocationId).isEmpty then invocationId p d == bounded 80 r.invocationId
  else
    (invocationId p d).isEmpty && !(spawnShape p d).isEmpty &&
      spawnShape p d == bounded 64 r.spawnShape && !(bounded 64 r.briefHash).isEmpty &&
      spawnBriefHash p d == bounded 64 r.briefHash

/-- `_reservation_matches_failure`. -/
def reservationMatchesFailure (p : Platform) (r : PhaseReservation) (d : Payload)
    (routingFingerprint : Text) : Bool :=
  let fingerprint := bounded 64 r.fingerprint
  if !routingFingerprint.isEmpty && fingerprint ≠ routingFingerprint then false
  else if !(bounded 80 r.invocationId).isEmpty then invocationId p d == bounded 80 r.invocationId
  else
    (invocationId p d).isEmpty && !fingerprint.isEmpty && !(spawnShape p d).isEmpty &&
      spawnShape p d == bounded 64 r.spawnShape && !(bounded 64 r.briefHash).isEmpty &&
      spawnBriefHash p d == bounded 64 r.briefHash

/-- Whether a start is that of a phase reservation. -/
def reservationStarts (p : Platform) (r : PhaseReservation) (d : Payload)
    (routingFingerprint : Text) : Bool :=
  let recorded := bounded 80 r.invocationId
  let shape := bounded 64 r.spawnShape
  r.fingerprint == routingFingerprint &&
    if recorded.isEmpty then !shape.isEmpty && shape == spawnShape p d
    else recorded == invocationId p d

/-! ## Accounts -/

structure Accounts where
  consultationBudget : Nat
  consultationCount : Nat
  budgetRemaining : Nat
  consultedFingerprints : List Text
  consultedPhases : Phase → Option Text
  phaseReservations : Phase → Option PhaseReservation
  workerReservations : List WorkerReservation
  agentBudget : Option Ledger

namespace Accounts

/-- The accounts of a new task. -/
def fresh : Accounts where
  consultationBudget := maxConsultations
  consultationCount := 0
  budgetRemaining := maxConsultations
  consultedFingerprints := []
  consultedPhases _ := none
  phaseReservations _ := none
  workerReservations := []
  agentBudget := none

/-- `_state_budget_remaining`. -/
def stateBudgetRemaining (a : Accounts) : Nat :=
  if a.consultationCount > a.consultationBudget then 0
  else min a.budgetRemaining (a.consultationBudget - a.consultationCount)

section Functions

variable (p : Platform) (now : Int)

/-- The ledger as every function reads it. -/
def ledger (a : Accounts) : Ledger := normalizeLedger p a.agentBudget

/-- `_normalize_phase_reservations`. -/
def normalizePhaseReservations (a : Accounts) : Accounts :=
  let kept := fun phase => (a.phaseReservations phase).bind (PhaseReservation.renew now)
  { a with
    phaseReservations := kept
    agentBudget := some { a.ledger p with
      reservedJobs := min maxTaskJobs ((a.ledger p).workerReservedJobs + countPhases kept) } }

/-- `_normalize_worker_reservations`. -/
def normalizeWorkerReservations (a : Accounts) : Accounts :=
  let kept := (a.workerReservations.filterMap (WorkerReservation.renew now)).take maxTaskJobs
  { a with
    workerReservations := kept
    agentBudget := some { a.ledger p with workerReservedJobs := kept.length } }

/-- What `ensure_state_shape` does to the accounts. -/
def ensureShape (a : Accounts) : Accounts :=
  let budget := min maxConsultations a.consultationBudget
  let count := min budget a.consultationCount
  let read := normalizePhaseReservations p now (normalizeWorkerReservations p now
    { a with
      consultedFingerprints :=
        lastItems maxFailureFingerprints (a.consultedFingerprints.filter (!isBlank ·))
      consultedPhases := fun phase => (a.consultedPhases phase).filter (!·.isEmpty) })
  { read with
    consultationBudget := budget
    consultationCount := count
    budgetRemaining := budget - count
    agentBudget := some (read.ledger p) }

/-! ### Reserving -/

/-- Why `reserve_sol_consultation` refuses, if it does. -/
def solRefusal (a : Accounts) (d : Payload) (phase : Phase) : Option Text :=
  if (a.consultedPhases phase).isSome then
    some (txt "A Sol consultation has already been started for this lifecycle phase.")
  else if (a.phaseReservations phase).isSome then
    some (txt "A Sol consultation is already reserved for this lifecycle phase.")
  else if a.stateBudgetRemaining = 0 then
    some (txt "Sol consultation budget is exhausted; do not create another advisor spawn.")
  else if (spawnShape p d).isEmpty && (invocationId p d).isEmpty then
    some (txt "Sol consultation reservation lacks a bounded spawn identity.")
  else none

/-- Whether a Sol phase can be reserved. -/
def SolAdmissible (a : Accounts) (d : Payload) (phase : Phase) : Prop :=
  a.consultedPhases phase = none ∧ a.phaseReservations phase = none ∧
    a.stateBudgetRemaining ≠ 0 ∧ ((spawnShape p d).isEmpty && (invocationId p d).isEmpty) = false

theorem solRefusal_eq_none {a : Accounts} {d : Payload} {phase : Phase} :
    solRefusal p a d phase = none ↔ a.SolAdmissible p d phase := by
  simp only [solRefusal, unless_eq_none, SolAdmissible, Bool.not_eq_true,
    Option.isSome_eq_false_iff, Option.isNone_iff_eq_none, and_true]

/-- `reserve_sol_consultation`, once the state is in shape. -/
def reserveSolConsultation (a : Accounts) (d : Payload) (phase : Phase) (fingerprint : Text) :
    (Bool × Text) × Accounts :=
  let a := normalizePhaseReservations p now a
  match solRefusal p a d phase with
  | some reason => ((false, reason), a)
  | none =>
      let ledger := a.ledger p
      ((true, []), { a with
        phaseReservations := Function.update a.phaseReservations phase
          (some (phaseReservation p now fingerprint d))
        agentBudget := some { ledger with
          reservedJobs := min maxTaskJobs (ledger.reservedJobs + 1)
          reasons := lastItems 8 (ledger.reasons ++ [txt "sol-advisor-reserved"]) } })

/-- Why `reserve_worker_spawn` refuses a worker, if it does, by the budget
and by the reservations there are. -/
def workerRefusal (a : Accounts) (d : Payload) (r : SpawnRequest) : Option Text :=
  let decision := budgetDecision p (some (a.ledger p)) r
  if !decision.allowed then some decision.reason
  else if (spawnShape p d).isEmpty then
    some (txt "Worker reservation lacks a bounded spawn identity.")
  else if a.workerReservations.any (workerReservationMatches p · d) then
    some (txt "An equivalent worker spawn is already reserved.")
  else none

/-- `reserve_worker_spawn`, once the state is in shape and the route is
eligible. -/
def reserveWorkerSpawn (a : Accounts) (d : Payload) (r : SpawnRequest) :
    (Bool × Text) × Accounts :=
  let a := normalizeWorkerReservations p now a
  match workerRefusal p a d r with
  | some reason => ((false, reason), a)
  | none =>
      let reservations :=
        lastItems maxTaskJobs (a.workerReservations ++ [workerReservation p now d])
      let a := normalizePhaseReservations p now { a with workerReservations := reservations }
      let ledger := a.ledger p
      ((true, []), { a with
        agentBudget := some { ledger with
          workerReservedJobs := reservations.length
          reservedJobs :=
            min maxTaskJobs (reservations.length + countPhases a.phaseReservations)
          reasons := lastItems 8 (ledger.reasons ++ [txt "worker-reserved"]) } })

/-! ### Starts and failures -/

/-- `reserved_phase_for_start`. -/
def reservedPhaseForStart (a : Accounts) (d : Payload) (routingFingerprint : Text) :
    Option Phase :=
  if routingFingerprint.isEmpty then none
  else match Phase.all.filter fun phase =>
      (a.phaseReservations phase).any (reservationStarts p · d routingFingerprint) with
    | [phase] => some phase
    | _ => none

/-- `_settle_worker_reservation`, with whether it has settled one. -/
def settleWorkerReservation (a : Accounts) (d : Payload) (started : Bool) : Bool × Accounts :=
  let a := normalizeWorkerReservations p now a
  if (a.workerReservations.filter (workerReservationMatches p · d)).length ≠ 1 then (false, a)
  else
    let remaining := a.workerReservations.filter (!workerReservationMatches p · d)
    let ledger := a.ledger p
    let ledger :=
      if started then
        recordSpawn p (some ledger) .worker (txt "terra-worker-started") (spawnBriefBytes d)
      else ledger
    let a := normalizePhaseReservations p now { a with workerReservations := remaining }
    (true, { a with
      agentBudget := some { ledger with
        workerReservedJobs := remaining.length
        reservedJobs := min maxTaskJobs (remaining.length + countPhases a.phaseReservations) } })

/-- `_release_failed_spawn_reservation`. -/
def releaseFailedSpawnReservation (a : Accounts) (d : Payload) (routingFingerprint : Text) :
    Accounts :=
  let a := normalizePhaseReservations p now a
  { a with
    phaseReservations := fun phase =>
      (a.phaseReservations phase).filter (!reservationMatchesFailure p · d routingFingerprint) }

/-- The reservation of a phase that starts, dropped. -/
def popReservation (a : Accounts) (phase : Phase) : Accounts :=
  let a := normalizePhaseReservations p now a
  { a with phaseReservations := Function.update a.phaseReservations phase none }

/-- Whether the advisor of a task, or its jobs, are used up. -/
def advisorsExhausted (a : Accounts) : Bool :=
  (a.ledger p).advisorsStarted ≥ 1 ||
    (a.ledger p).agentsStarted + (a.ledger p).reservedJobs ≥ 2

/-- An advisor that starts beyond a budget. -/
def exhaust (a : Accounts) : Accounts :=
  { a with
    budgetRemaining := 0
    agentBudget := if a.advisorsExhausted p then some (a.ledger p) else a.agentBudget }

/-- An advisor that starts, recorded. -/
def recordStart (a : Accounts) (phase : Phase) (fingerprint reason : Text) (bytes : Nat) :
    Accounts :=
  { a with
    consultedFingerprints :=
      lastItems maxFailureFingerprints (a.consultedFingerprints ++ [fingerprint])
    consultedPhases := Function.update a.consultedPhases phase (some fingerprint)
    consultationCount := a.consultationCount + 1
    budgetRemaining := a.consultationBudget - (a.consultationCount + 1)
    agentBudget := some (recordSpawn p (some (a.ledger p)) .advisor reason bytes) }

/-- The result of an advisor, received. -/
def recordReceived (a : Accounts) (bytes : Nat) : Accounts :=
  { a with agentBudget := some (recordResult p (some (a.ledger p)) bytes) }

end Functions
end Accounts
end RalphVault.Advisor
