import RalphVault.Advisor.Runs

/-!
# Advisor — where a task stands

The numbers of the accounts of a task, and what each operation does to
them. An operation on reservations changes none; a start changes those of
its kind.
-/

namespace RalphVault.Advisor

open Memory

/-- The consultation budget and the agents started, as every function reads
them. -/
@[ext] structure Standing where
  budget : Nat
  count : Nat
  remaining : Nat
  agents : Nat
  advisors : Nat
  workers : Nat

namespace Accounts

def standing (p : Platform) (a : Accounts) : Standing where
  budget := a.consultationBudget
  count := a.consultationCount
  remaining := a.budgetRemaining
  agents := (a.ledger p).agentsStarted
  advisors := (a.ledger p).advisorsStarted
  workers := (a.ledger p).workersStarted

section Operations

variable {p : Platform} {now : Int} {a : Accounts} {d : Payload}

@[simp] theorem standing_fresh : fresh.standing p = ⟨2, 0, 2, 0, 0, 0⟩ := rfl

/-- A ledger that counts the agents of the accounts as they are. -/
theorem standing_withLedger {b : Accounts} {l : Ledger} (hl : b.agentBudget = some l)
    (hbudget : b.consultationBudget = a.consultationBudget)
    (hcount : b.consultationCount = a.consultationCount)
    (hremaining : b.budgetRemaining = a.budgetRemaining)
    (hagents : l.agentsStarted = (a.ledger p).agentsStarted)
    (hadvisors : l.advisorsStarted = (a.ledger p).advisorsStarted)
    (hworkers : l.workersStarted = (a.ledger p).workersStarted) :
    b.standing p = a.standing p := by
  ext
  · exact hbudget
  · exact hcount
  · exact hremaining
  · simp [standing, ledger, hl, hagents]
  · simp [standing, ledger, hl, hadvisors]
  · simp [standing, ledger, hl, hworkers]

@[simp] theorem standing_normalizePhaseReservations :
    (a.normalizePhaseReservations p now).standing p = a.standing p :=
  standing_withLedger rfl rfl rfl rfl rfl rfl rfl

@[simp] theorem standing_normalizeWorkerReservations :
    (a.normalizeWorkerReservations p now).standing p = a.standing p :=
  standing_withLedger rfl rfl rfl rfl rfl rfl rfl

/-- Putting accounts in shape bounds the consultations and leaves the agents. -/
theorem standing_ensureShape :
    (a.ensureShape p now).standing p =
      { a.standing p with
        budget := min 2 a.consultationBudget
        count := min (min 2 a.consultationBudget) a.consultationCount
        remaining :=
          min 2 a.consultationBudget - min (min 2 a.consultationBudget) a.consultationCount } := by
  ext
  · rfl
  · rfl
  · rfl
  all_goals simp [standing, ensureShape, normalizePhaseReservations, normalizeWorkerReservations,
    ledger]

/-- A reservation of a Sol phase starts nothing. -/
@[simp] theorem standing_reserveSolConsultation {phase : Phase} {fingerprint : Text} :
    (a.reserveSolConsultation p now d phase fingerprint).2.standing p = a.standing p := by
  have hread : (a.normalizePhaseReservations p now).standing p = a.standing p :=
    standing_normalizePhaseReservations
  unfold reserveSolConsultation
  dsimp only
  split
  · exact hread
  · exact Eq.trans (b := (a.normalizePhaseReservations p now).standing p)
      (standing_withLedger rfl rfl rfl rfl rfl rfl rfl) hread

/-- A reservation of a worker starts nothing. -/
@[simp] theorem standing_reserveWorkerSpawn {r : SpawnRequest} :
    (a.reserveWorkerSpawn p now d r).2.standing p = a.standing p := by
  have hread : (a.normalizeWorkerReservations p now).standing p = a.standing p :=
    standing_normalizeWorkerReservations
  unfold reserveWorkerSpawn
  dsimp only
  split
  · exact hread
  · generalize lastItems maxTaskJobs _ = reservations
    have hagain := @standing_normalizePhaseReservations p now
      { a.normalizeWorkerReservations p now with workerReservations := reservations }
    exact Eq.trans (b := (normalizePhaseReservations p now { a.normalizeWorkerReservations p now with
      workerReservations := reservations }).standing p)
      (standing_withLedger rfl rfl rfl rfl rfl rfl rfl) (hagain.trans hread)

@[simp] theorem standing_releaseFailedSpawnReservation {fingerprint : Text} :
    (a.releaseFailedSpawnReservation p now d fingerprint).standing p = a.standing p :=
  @standing_normalizePhaseReservations p now a

@[simp] theorem standing_popReservation {phase : Phase} :
    (a.popReservation p now phase).standing p = a.standing p :=
  @standing_normalizePhaseReservations p now a

@[simp] theorem standing_recordReceived {bytes : Nat} :
    (a.recordReceived p bytes).standing p = a.standing p :=
  standing_withLedger rfl rfl rfl rfl (by simp [ledger]) (by simp [ledger]) (by simp [ledger])

/-- An advisor beyond a budget is not counted. -/
theorem standing_exhaust :
    (a.exhaust p).standing p = { a.standing p with remaining := 0 } := by
  unfold exhaust
  split_ifs
  · exact standing_withLedger (a := { a with budgetRemaining := 0 }) rfl rfl rfl rfl rfl rfl rfl
  · rfl

/-- A recorded advisor is one consultation and one agent more. -/
theorem standing_recordStart {phase : Phase} {fingerprint reason : Text} {bytes : Nat} :
    (a.recordStart p phase fingerprint reason bytes).standing p =
      { budget := a.consultationBudget
        count := a.consultationCount + 1
        remaining := a.consultationBudget - (a.consultationCount + 1)
        agents := min ((a.standing p).agents + 1) 2
        advisors := 1
        workers := (a.standing p).workers } := by
  ext
  · rfl
  · rfl
  · rfl
  all_goals simp [standing, recordStart, ledger]

/-- Settling a worker counts it when it has started, and changes nothing
else. -/
theorem standing_settleWorkerReservation {started : Bool} :
    (a.settleWorkerReservation p now d started).2.standing p =
      if (a.settleWorkerReservation p now d started).1 && started then
        { a.standing p with
          agents := min ((a.standing p).agents + 1) 2
          workers := min ((a.standing p).workers + 1) 2 }
      else a.standing p := by
  have hread : (a.normalizeWorkerReservations p now).standing p = a.standing p :=
    standing_normalizeWorkerReservations
  unfold settleWorkerReservation
  dsimp only
  by_cases hmatch : ((a.normalizeWorkerReservations p now).workerReservations.filter
      (workerReservationMatches p · d)).length ≠ 1
  · simp only [if_pos hmatch, Bool.false_and, Bool.false_eq_true, if_false]
    exact hread
  simp only [if_neg hmatch, Bool.true_and]
  cases started with
  | false =>
      exact Eq.trans (b := (a.normalizeWorkerReservations p now).standing p)
        (standing_withLedger rfl rfl rfl rfl rfl rfl rfl) hread
  | true =>
      rw [← hread]
      ext
      · rfl
      · rfl
      · rfl
      all_goals simp [standing, ledger]

end Operations
end Accounts
end RalphVault.Advisor
