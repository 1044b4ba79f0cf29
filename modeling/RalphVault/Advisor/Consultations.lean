import RalphVault.Advisor.Standing

/-!
# Advisor — the consultation budget

Within a task, the starts that are recorded stay within the consultation
budget, one for each phase at most. The counters are redundant, and reading
a state recomputes some of them; what carries the budget through a run is
that a recorded start is an advisor in the ledger, which only a new state
forgets.
-/

namespace RalphVault.Advisor

open Memory

section Records

variable (p : Platform)

/-- The phase whose start is recorded, if it is. -/
def StartOutcome.recordedPhase : StartOutcome → Option Phase
  | .recorded phase => some phase
  | _ => none

/-- The phase whose start an event records, if it does. -/
def startRecorded (s : Option State) : Event → Option Phase
  | .advisorStarted m d requireReservation =>
      (startOutcome p m d requireReservation
        (stateAtStart p m requireReservation s)).recordedPhase
  | _ => none

/-- The phases of the starts that a run records. -/
def recordedStarts (s : Option State) : List Event → List Phase
  | [] => []
  | e :: es => (startRecorded p s e).toList ++ recordedStarts (step p s e) es

end Records

/-! ## What an event does to the numbers of a task -/

section Numbers

variable {p : Platform} {m : Moment} {d : Payload} {s : Option State}

/-- The numbers of a state, or those of a missing one. -/
def standingOf (p : Platform) (s : Option State) : Standing := (accountsOf s).standing p

/-- A start that is recorded comes within both budgets. -/
theorem startOutcome_recorded {requireReservation : Bool} {s : State} {phase : Phase}
    (h : startOutcome p m d requireReservation s = .recorded phase) :
    startPhase p d requireReservation s = some phase ∧ s.consulted phase = false ∧
      (s.toAccounts.popReservation p m.now phase).advisorsExhausted p = false ∧
      s.consultationCount < s.consultationBudget := by
  unfold startOutcome at h
  split at h
  · cases h
  · rename_i found hfound
    dsimp only at h
    split_ifs at h with hanonymous hconsulted hexhausted
    obtain rfl : found = phase := by injection h
    simp only [Bool.or_eq_true, decide_eq_true_eq, not_or, not_le] at hexhausted
    exact ⟨hfound, by simpa using hconsulted, by simpa using hexhausted.1, hexhausted.2⟩

@[simp] theorem beforeStart_standing {requireReservation : Bool} {s : State} :
    (s.beforeStart p m requireReservation).toAccounts.standing p = s.toAccounts.standing p := by
  unfold State.beforeStart
  split_ifs
  · exact (Accounts.standing_normalizePhaseReservations).trans
      Accounts.standing_normalizePhaseReservations
  · rfl

/-- No advisor is in the ledger when a start is recorded. -/
theorem advisors_of_not_exhausted {a : Accounts} {now : Int} {phase : Phase}
    (h : (a.popReservation p now phase).advisorsExhausted p = false) :
    (a.standing p).advisors = 0 := by
  have hpopped : ((a.popReservation p now phase).standing p).advisors = 0 := by
    simp only [Accounts.advisorsExhausted, Bool.or_eq_false_iff, decide_eq_false_iff_not,
      not_le] at h
    exact Nat.lt_one_iff.mp h.1
  rwa [Accounts.standing_popReservation] at hpopped

end Numbers

/-! ## The invariant -/

/-- The budget is kept, and the recorded starts are advisors in the ledger. -/
structure Standing.Within (recorded : Nat) (w : Standing) : Prop where
  balance : w.count + w.remaining ≤ w.budget
  advisors : recorded ≤ w.advisors

namespace Standing.Within

section Operations

variable {p : Platform} {m : Moment} {d : Payload} {now : Int} {n : Nat} {a : Accounts}

theorem ensureShape (h : (a.standing p).Within n) :
    ((a.ensureShape p now).standing p).Within n := by
  rw [Accounts.standing_ensureShape]
  exact ⟨by simp only; omega, h.advisors⟩

theorem ensureStateShape {s : Option State} (h : (standingOf p s).Within n) :
    ((Advisor.ensureStateShape p m s).toAccounts.standing p).Within n := by
  rw [ensureStateShape_toAccounts]
  exact h.ensureShape

theorem settle {started : Bool} (h : (a.standing p).Within n) :
    ((a.settleWorkerReservation p now d started).2.standing p).Within n := by
  rw [Accounts.standing_settleWorkerReservation]
  split_ifs
  · exact ⟨h.balance, h.advisors⟩
  · exact h

theorem exhaust (h : (a.standing p).Within n) : ((a.exhaust p).standing p).Within n := by
  rw [Accounts.standing_exhaust]
  have hbalance := h.balance
  exact ⟨by simp only; omega, h.advisors⟩

/-- A start that is recorded uses a consultation that was left. -/
theorem recordStart {phase : Phase} {fingerprint reason : Text} {bytes : Nat}
    (hleft : a.consultationCount < a.consultationBudget) :
    ((a.recordStart p phase fingerprint reason bytes).standing p).Within 1 := by
  rw [Accounts.standing_recordStart]
  exact ⟨by simp only; omega, le_refl 1⟩

theorem popped {phase : Phase} (h : (a.standing p).Within n) :
    ((a.popReservation p now phase).standing p).Within n := by
  rwa [Accounts.standing_popReservation]

/-- An initialisation that keeps the task keeps the bounds. -/
theorem initializeTask {seen : Bool} {s : Option State}
    (hkeep : (Event.initialized m seen d).KeepsTask p) (h : (standingOf p s).Within n) :
    (standingOf p (Advisor.initializeTask p m seen d s)).Within n := by
  obtain ⟨hred, hboundary⟩ := hkeep
  rcases @initializeTask_cases p m d s seen with ⟨heq, -⟩ | ⟨hr, -⟩ | ⟨-, heq⟩ | ⟨t, rfl, -, heq⟩ |
    ⟨hnew, heq⟩
  · rwa [heq]
  · rw [hred] at hr
    cases hr
  · rw [heq]
    simp only [standingOf, accountsOf, continueTask_toAccounts]
    exact h.ensureStateShape.ensureShape
  · rw [heq]
    simp only [standingOf, accountsOf, continueTask_toAccounts]
    exact ensureShape h
  · rcases hnew with rfl | hb
    · rw [heq]
      exact h
    · rw [hboundary] at hb
      cases hb

theorem observeFailure {s : Option State} (h : (standingOf p s).Within n) :
    (standingOf p (Advisor.observeFailure p m d s)).Within n := by
  rcases @observeFailure_cases p m d s with heq | heq | ⟨-, heq⟩ | ⟨-, heq⟩ <;> rw [heq]
  · exact h
  · simp only [standingOf, accountsOf, Accounts.standing_releaseFailedSpawnReservation]
    exact h.ensureStateShape
  · simp only [standingOf, accountsOf, recordFailure_toAccounts]
    exact h.ensureStateShape
  · simp only [standingOf, accountsOf, routeStuck_toAccounts, recordFailure_toAccounts]
    exact h.ensureStateShape

/-- A start keeps the bounds, and counts if it is recorded. -/
theorem startAdvisor {requireReservation : Bool} {s : State}
    (h : (s.toAccounts.standing p).Within n) :
    ((Advisor.startAdvisor p m d requireReservation s).toAccounts.standing p).Within
      (n + (startOutcome p m d requireReservation s).recordedPhase.toList.length) := by
  unfold Advisor.startAdvisor
  cases houtcome : startOutcome p m d requireReservation s with
  | unmatched => exact h
  | anonymous phase => exact h
  | reused phase => exact h.popped
  | exhausted phase => exact h.popped.exhaust
  | recorded phase =>
      obtain ⟨-, -, hexhausted, hleft⟩ := startOutcome_recorded houtcome
      have hn : n = 0 := Nat.le_zero.mp (advisors_of_not_exhausted hexhausted ▸ h.advisors)
      subst hn
      exact recordStart hleft

theorem stateAtStart {requireReservation : Bool} {s : Option State}
    (h : (standingOf p s).Within n) :
    ((Advisor.stateAtStart p m requireReservation s).toAccounts.standing p).Within n := by
  rw [Advisor.stateAtStart, beforeStart_standing]
  exact h.ensureStateShape

end Operations
end Standing.Within

/-! ## Runs -/

section Runs

variable {p : Platform}

/-- What one event does to the bounds. -/
theorem Standing.Within.step {n : Nat} {s : Option State} {e : Event} (hkeep : e.KeepsTask p)
    (h : (standingOf p s).Within n) :
    (standingOf p (Advisor.step p s e)).Within (n + (startRecorded p s e).toList.length) := by
  cases e with
  | initialized m seen d => exact h.initializeTask hkeep
  | solReserved m d phase fingerprint =>
      rcases @reserveSol_cases p m d s phase fingerprint with ⟨heq, -⟩ | ⟨_, -, -, -, heq⟩
      · rw [Advisor.step, heq]
        exact h
      · simp only [Advisor.step, heq, standingOf, accountsOf,
          Accounts.standing_reserveSolConsultation]
        exact h.ensureStateShape
  | workerReserved m d =>
      rcases @reserveWorker_cases p m d s with ⟨heq, -⟩ | ⟨_, -, -, -, heq⟩
      · simp only [Advisor.step, heq, standingOf, accountsOf]
        exact h.ensureStateShape
      · simp only [Advisor.step, heq, standingOf, accountsOf, Accounts.standing_reserveWorkerSpawn]
        exact h.ensureStateShape
  | spawnSettled m d =>
      rcases @settleSpawn_cases p m d s with heq | heq | ⟨_, -, -, -, heq⟩
      · rw [Advisor.step, heq]
        exact h
      · simp only [Advisor.step, heq, standingOf, accountsOf]
        exact h.ensureStateShape
      · simp only [Advisor.step, heq, standingOf, accountsOf]
        exact h.ensureStateShape.settle
  | failureObserved m d => exact h.observeFailure
  | advisorStarted m d requireReservation => exact h.stateAtStart.startAdvisor
  | advisorCompleted m d requireMatch =>
      show ((markCompleted p m d requireMatch s).toAccounts.standing p).Within n
      rcases @markCompleted_toAccounts p m d s requireMatch with heq | heq <;> rw [heq]
      · exact h.ensureStateShape
      · rw [Accounts.standing_recordReceived]
        exact h.ensureStateShape
  | stopGuarded m => exact h.ensureStateShape

/-- What a run does to the bounds. -/
theorem Standing.Within.run {n : Nat} {s : Option State} {es : List Event}
    (hkeep : ∀ e ∈ es, e.KeepsTask p) (h : (standingOf p s).Within n) :
    (standingOf p (Advisor.run p s es)).Within (n + (recordedStarts p s es).length) := by
  induction es generalizing n s with
  | nil => exact h
  | cons e es ih =>
      have hstep := h.step (hkeep e List.mem_cons_self)
      have hrest := ih (fun f hf => hkeep f (List.mem_cons_of_mem _ hf)) hstep
      rw [recordedStarts, List.length_append, ← Nat.add_assoc]
      exact hrest

theorem TaskStart.within {s : Option State} (h : TaskStart p s) : (standingOf p s).Within 0 := by
  cases h <;> exact ⟨le_refl 2, le_refl 0⟩

/-- The ledger holds one advisor at most. -/
theorem advisors_le (a : Accounts) : (a.standing p).advisors ≤ 1 := by
  simp [Accounts.standing, Accounts.ledger]

/-- In every run of a task, the recorded starts stay within the consultation
budget and each phase is started once at most; and the consultations counted
and those remaining never exceed the budget. -/
theorem consultations_within_budget (p : Platform) (s : Option State) (hs : TaskStart p s)
    (es : List Event) (hkeep : ∀ e ∈ es, e.KeepsTask p) :
    (recordedStarts p s es).length ≤ maxConsultations ∧ (recordedStarts p s es).Nodup ∧
      ∀ t, run p s es = some t → t.consultationCount + t.budgetRemaining ≤ t.consultationBudget := by
  have hrun := hs.within.run hkeep
  have hone : (recordedStarts p s es).length ≤ 1 := by
    have hle := hrun.advisors.trans (advisors_le _)
    omega
  refine ⟨hone.trans (by decide), ?_, ?_⟩
  · match hstarts : recordedStarts p s es with
    | [] => exact List.nodup_nil
    | [phase] => exact List.nodup_singleton phase
    | _ :: _ :: _ =>
        rw [hstarts] at hone
        simp at hone
  · rintro t ht
    have hbalance := hrun.balance
    rw [ht] at hbalance
    exact hbalance

end Runs

/-! ## A consultation -/

/-- The fingerprint of the routing of a new task. -/
def newTaskFingerprint (d : Payload) : Text :=
  (beginTask Platform.ascii demoMoment d (promptText d) none).routingFingerprint

/-- A prompt, a reservation and its start, twice over. -/
def reviewRun : List Event :=
  let once : List Event :=
    [.initialized demoMoment false reviewPrompt,
     .solReserved demoMoment solSpawn (.str (txt "plan")) (newTaskFingerprint reviewPrompt),
     .advisorStarted demoMoment solSpawn true]
  once ++ once

theorem reviewRun_keepsTask : ∀ e ∈ reviewRun, e.KeepsTask Platform.ascii := by
  have hred : redPrompt Platform.ascii (promptText reviewPrompt) = false := by decide
  have hboundary : isTaskBoundary Platform.ascii reviewPrompt (promptText reviewPrompt) = false := by
    decide
  simp [reviewRun, Event.KeepsTask, hred, hboundary]

theorem consultations_within_budget_review :
    recordedStarts Platform.ascii none reviewRun = [.plan] ∧
      (recordedStarts Platform.ascii none reviewRun).Nodup :=
  ⟨by decide +kernel,
    (consultations_within_budget Platform.ascii none .missing reviewRun reviewRun_keepsTask).2.1⟩

/-! ## RED prompts -/

/-- The fingerprint of the routing of a RED prompt. -/
def redFingerprint : Text :=
  (recordRedLocalState Platform.ascii demoMoment secretPrompt (promptText secretPrompt)
    none).routingFingerprint

/-- A RED prompt, a reservation and its start. -/
def redRound : List Event :=
  [.initialized demoMoment false secretPrompt,
   .solReserved demoMoment solSpawn (.str (txt "plan")) redFingerprint,
   .advisorStarted demoMoment solSpawn true]

/-- A RED prompt without a task boundary renews the accounts, within one and
the same local task: of three reservations of the plan phase, all reach a
recorded start. -/
theorem red_prompt_renews_consultations :
    (∀ e ∈ redRound ++ redRound ++ redRound, e.NoBoundary Platform.ascii) ∧
      recordedStarts Platform.ascii none (redRound ++ redRound ++ redRound) =
        [.plan, .plan, .plan] ∧
      (run Platform.ascii none redRound).map State.taskId =
        (run Platform.ascii none (redRound ++ redRound ++ redRound)).map State.taskId := by
  refine ⟨?_, ?_, ?_⟩
  · have hnone : isTaskBoundary Platform.ascii secretPrompt (promptText secretPrompt) = false := by
      decide
    simp [redRound, Event.NoBoundary, hnone]
  · decide +kernel
  · decide +kernel

end RalphVault.Advisor
