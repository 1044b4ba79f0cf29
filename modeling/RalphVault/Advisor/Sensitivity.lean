import RalphVault.Advisor.Rerouting

/-!
# Advisor — sensitivity

The sensitivity of a task does not decrease, and a RED task is routed to no
subagent and grants no spawn, as long as a failure that routes carries no
task boundary of its own, and no Sol phase that could be reserved is asked
for while the task is RED: the reservation of a Sol phase does not look at
the sensitivity.
-/

namespace RalphVault.Advisor

open Memory

/-- The sensitivity of a state; a missing one is GREEN. -/
def sensitivityOfState : Option State → Sensitivity
  | some s => s.sensitivity
  | none => .green

section Conditions

variable (p : Platform)

/-- Whether an event is a spawn reservation that is granted. -/
def grants (s : Option State) : Event → Bool
  | .solReserved m d v fingerprint => (reserveSol p m d v fingerprint s).1.1
  | .workerReserved m d => (reserveWorker p m d s).1.1
  | _ => false

/-- Whether a Sol phase that is asked for could be reserved. -/
def SolReservable (s : Option State) (m : Moment) (d : Payload) (v : Value) (fingerprint : Text) :
    Prop :=
  fingerprint.isEmpty = false ∧ ∃ phase, normalizePhase p (some v) = some phase ∧
    ((ensureStateShape p m s).toAccounts.normalizePhaseReservations p m.now).SolAdmissible p d phase

/-- The condition under which an event keeps the sensitivity. An initialisation
has no task boundary. A failure that routes has none either, or states a
sensitivity that is no lower. And no Sol phase that could be reserved is
asked for while the task is RED. -/
def Event.KeepsSensitivity (s : Option State) : Event → Prop
  | .initialized _ _ d => isTaskBoundary p d (promptText d) = false
  | .failureObserved m d =>
      (routedFrom p s (.failureObserved m d)).isSome = true →
        isTaskBoundary p d (promptText d) = true →
          (sensitivityOfState s).rank ≤ (sensitivityOf p (promptText d) d).rank
  | .solReserved m d v fingerprint =>
      sensitivityOfState s = .red → ¬SolReservable p s m d v fingerprint
  | _ => True

/-- A run whose events all meet the condition. -/
def KeepsSensitivityRun (s : Option State) : List Event → Prop
  | [] => True
  | e :: es => e.KeepsSensitivity p s ∧ KeepsSensitivityRun (step p s e) es

/-- Whether a run grants a spawn while its task is RED. -/
def grantsWhileRed (s : Option State) : List Event → Bool
  | [] => false
  | e :: es => (sensitivityOfState s = .red && grants p s e) || grantsWhileRed (step p s e) es

end Conditions

/-! ## Routing -/

/-- The routing of a state is of its sensitivity, and a RED one has no route. -/
def State.Local (t : State) : Prop :=
  ∀ r, t.routing = some r → r.sensitivity = t.sensitivity ∧ (t.sensitivity = .red → r.route = .none)

section Steps

variable {p : Platform} {s : Option State} {e : Event} {t u : State}

theorem Local.routed (h : LeavesRouted p e u t) : t.Local := by
  intro r hr
  rw [h.routing] at hr
  obtain rfl := Option.some_inj.mp hr
  refine ⟨h.sensitivity.symm, fun hred => ?_⟩
  rw [h.sensitivity] at hred
  exact resolve_route_of_red hred

theorem Local.read (h : LeavesRead (ensureStateShape p e.moment s) t)
    (hlocal : ∀ t', s = some t' → t'.Local) : t.Local := by
  intro r hr
  rw [h.routing] at hr
  rw [h.sensitivity]
  cases s with
  | none => cases hr
  | some t' => exact hlocal t' rfl r hr

theorem sensitivity_ensureStateShape {m : Moment} :
    (ensureStateShape p m s).sensitivity = sensitivityOfState s := by
  cases s <;> rfl

/-- What is folded into an event is no lower than what the state had, without
a task boundary. -/
theorem rank_le_folded {d : Payload} {prompt : Text}
    (hboundary : isTaskBoundary p d prompt = false) :
    u.sensitivity.rank ≤ (foldedSensitivity p u d prompt).rank := by
  unfold foldedSensitivity
  dsimp only
  rw [hboundary, if_neg Bool.false_ne_true, Sensitivity.rank_join]
  refine le_trans ?_ (le_max_right _ _)
  cases u.routing with
  | none => exact le_rfl
  | some r =>
      simp only [Option.map_some, Option.elim_some, Sensitivity.rank_join]
      exact le_max_left _ _

/-- A task that an event continues is routed from a state of its own
sensitivity, and a RED prompt is routed as RED. -/
theorem routedFrom_sensitivity (hkeep : e.KeepsSensitivity p s) (h : routedFrom p s e = some u) :
    (sensitivityOfState s).rank ≤
      (foldedSensitivity p u e.payload (promptText e.payload)).rank := by
  cases e with
  | initialized m seen d =>
      refine le_trans ?_ (rank_le_folded hkeep)
      simp only [routedFrom, Event.KeepsSensitivity] at h hkeep
      rw [hkeep] at h
      split_ifs at h with hempty hred hseen
      · obtain rfl := Option.some_inj.mp h
        exact Sensitivity.rank_le_red _
      · obtain rfl := Option.some_inj.mp h
        refine le_of_eq (congrArg Sensitivity.rank ?_)
        exact (Eq.trans (b := (merged p m d (ensureStateShape p m s)).sensitivity) rfl
          (merge_sensitivity.trans sensitivity_ensureStateShape)).symm
      · contradiction
      · cases s with
        | none => exact Nat.zero_le _
        | some t =>
            obtain rfl := Option.some_inj.mp h
            refine le_of_eq (congrArg Sensitivity.rank ?_)
            exact (Eq.trans (b := (merged p m d t).sensitivity) rfl merge_sensitivity).symm
  | failureObserved m d =>
      have hrouted : (routedFrom p s (.failureObserved m d)).isSome = true := by rw [h]; rfl
      cases hboundary : isTaskBoundary p d (promptText d) with
      | true =>
          have hrank := hkeep hrouted hboundary
          simpa only [foldedSensitivity, Event.payload, hboundary, if_true] using hrank
      | false =>
          refine le_trans ?_ (rank_le_folded hboundary)
          simp only [routedFrom] at h
          split_ifs at h
          obtain rfl := Option.some_inj.mp h
          refine le_of_eq (congrArg Sensitivity.rank ?_)
          exact (Eq.trans (b := (recordFailure p (commandText d) (ensureStateShape p m s)).sensitivity)
            rfl (recordFailure_sensitivity.trans sensitivity_ensureStateShape)).symm
  | _ => cases h

/-- An event that meets the condition does not lower the sensitivity. -/
theorem rank_le_step (hkeep : e.KeepsSensitivity p s) :
    (sensitivityOfState s).rank ≤ (sensitivityOfState (step p s e)).rank := by
  cases hrouted : routedFrom p s e with
  | none =>
      rcases step_not_routed hrouted with heq | ⟨t, heq, hread⟩
      · rw [heq]
      · rw [heq]
        refine le_of_eq (congrArg Sensitivity.rank ?_)
        exact (hread.sensitivity.trans sensitivity_ensureStateShape).symm
  | some u =>
      obtain ⟨t, heq, hleaves⟩ := step_routed hrouted
      have hfolded := routedFrom_sensitivity hkeep hrouted
      rw [heq]
      show (sensitivityOfState s).rank ≤ t.sensitivity.rank
      rwa [hleaves.sensitivity]

/-- Every event leaves a routing of the state's own sensitivity. -/
theorem local_step (hlocal : ∀ t, s = some t → t.Local) :
    ∀ t, step p s e = some t → t.Local := by
  intro t ht
  cases hrouted : routedFrom p s e with
  | none =>
      rcases step_not_routed hrouted with heq | ⟨t', heq, hread⟩
      · exact hlocal t (heq ▸ ht)
      · obtain rfl := Option.some_inj.mp (heq.symm.trans ht)
        exact Local.read hread hlocal
  | some u =>
      obtain ⟨t', heq, hleaves⟩ := step_routed hrouted
      obtain rfl := Option.some_inj.mp (heq.symm.trans ht)
      exact Local.routed hleaves

/-! ## Grants -/

/-- A Sol phase is granted exactly when it can be reserved, whatever the
sensitivity. -/
theorem grants_sol_iff {m : Moment} {d : Payload} {v : Value} {fingerprint : Text} :
    grants p s (.solReserved m d v fingerprint) = true ↔ SolReservable p s m d v fingerprint := by
  rw [grants, SolReservable]
  rcases @reserveSol_cases p m d s v fingerprint with ⟨-, hrefused⟩ | ⟨phase, hphase, hempty, hanswer, -⟩
  · rw [hrefused]
    refine ⟨fun h => (by cases h), ?_⟩
    rintro ⟨hempty, phase, hphase, hadmissible⟩
    rw [reserveSol, hphase] at hrefused
    simp only [hempty, Bool.false_eq_true, if_false, Accounts.reserveSolConsultation,
      (Accounts.solRefusal_eq_none p).mpr hadmissible] at hrefused
    cases hrefused
  · rw [hanswer, Accounts.reserveSolConsultation]
    dsimp only
    split
    · rename_i reason hrefusal
      refine ⟨fun h => (by cases h), ?_⟩
      rintro ⟨-, phase', hphase', hadmissible⟩
      obtain rfl := Option.some_inj.mp (hphase.symm.trans hphase')
      rw [(Accounts.solRefusal_eq_none p).mpr hadmissible] at hrefusal
      cases hrefusal
    · rename_i hrefusal
      exact ⟨fun _ => ⟨hempty, phase, hphase, (Accounts.solRefusal_eq_none p).mp hrefusal⟩,
        fun _ => rfl⟩

/-- A worker is not granted to a RED task. -/
theorem grants_worker {m : Moment} {d : Payload} (h : grants p s (.workerReserved m d) = true) :
    sensitivityOfState s ≠ .red := by
  rw [grants] at h
  rcases @reserveWorker_cases p m d s with ⟨-, hrefused⟩ | ⟨routing, -, -, hanswer, -⟩
  · rw [hrefused] at h
    cases h
  · rw [hanswer, Accounts.reserveWorkerSpawn] at h
    dsimp only at h
    split at h
    · cases h
    · rename_i hrefusal
      simp only [Accounts.workerRefusal, unless_eq_none, Bool.not_eq_true', Bool.not_eq_false]
        at hrefusal
      have hred := (budgetDecision_allowed _ hrefusal.1).1
      rwa [workerRequest, sensitivity_ensureStateShape] at hred

/-- Under the condition no spawn is granted to a RED task. -/
theorem not_grants_red (hkeep : e.KeepsSensitivity p s) (hred : sensitivityOfState s = .red) :
    grants p s e = false := by
  rw [← Bool.not_eq_true]
  intro hgrants
  cases e with
  | solReserved m d v fingerprint => exact hkeep hred (grants_sol_iff.mp hgrants)
  | workerReserved m d => exact grants_worker hgrants hred
  | _ => cases hgrants

end Steps

/-! ## Runs -/

section Runs

variable {p : Platform}

theorem rank_le_run {s : Option State} {es : List Event} (hkeep : KeepsSensitivityRun p s es) :
    (sensitivityOfState s).rank ≤ (sensitivityOfState (run p s es)).rank := by
  induction es generalizing s with
  | nil => exact le_rfl
  | cons e es ih => exact (rank_le_step hkeep.1).trans (ih hkeep.2)

theorem local_run {s : Option State} {es : List Event} (hlocal : ∀ t, s = some t → t.Local) :
    ∀ t, run p s es = some t → t.Local := by
  induction es generalizing s with
  | nil => exact hlocal
  | cons e es ih => exact ih (local_step hlocal)

theorem grantsWhileRed_run {s : Option State} {es : List Event}
    (hkeep : KeepsSensitivityRun p s es) : grantsWhileRed p s es = false := by
  induction es generalizing s with
  | nil => rfl
  | cons e es ih =>
      rw [grantsWhileRed, ih hkeep.2, Bool.or_false, Bool.and_eq_false_iff]
      by_cases hred : sensitivityOfState s = .red
      · exact .inr (not_grants_red hkeep.1 hred)
      · exact .inl (by simpa using hred)

theorem keepsSensitivityRun_append {s : Option State} {es fs : List Event}
    (h : KeepsSensitivityRun p s (es ++ fs)) :
    KeepsSensitivityRun p s es ∧ KeepsSensitivityRun p (run p s es) fs := by
  induction es generalizing s with
  | nil => exact ⟨trivial, h⟩
  | cons e es ih => exact ⟨⟨h.1, (ih h.2).1⟩, (ih h.2).2⟩

theorem TaskStart.local {s : Option State} (h : TaskStart p s) : ∀ t, s = some t → t.Local := by
  cases h with
  | missing =>
      intro t ht
      cases ht
  | begun m d prompt s =>
      rintro t ht r hr
      obtain rfl := Option.some_inj.mp ht
      obtain rfl := Option.some_inj.mp hr
      exact ⟨rfl, resolve_route_of_red⟩
  | red m d prompt s =>
      rintro t ht r hr
      obtain rfl := Option.some_inj.mp ht
      obtain rfl := Option.some_inj.mp hr
      exact ⟨rfl, resolve_route_of_red⟩

/-- In every run of a task whose events meet the condition, the sensitivity
does not decrease, every routing of a RED state has no route, and no spawn is
granted while the task is RED. -/
theorem sensitivity_kept (p : Platform) (s : Option State) (hs : TaskStart p s)
    (es fs : List Event) (hkeep : KeepsSensitivityRun p s (es ++ fs)) :
    (sensitivityOfState (run p s es)).rank ≤ (sensitivityOfState (run p s (es ++ fs))).rank ∧
      (∀ t, run p s es = some t → t.sensitivity = .red →
        ∀ r, t.routing = some r → r.route = .none) ∧
      grantsWhileRed p s (es ++ fs) = false := by
  refine ⟨?_, fun t ht hred r hr => ?_, grantsWhileRed_run hkeep⟩
  · rw [run_append]
    exact rank_le_run (keepsSensitivityRun_append hkeep).2
  · exact (local_run hs.local t ht r hr).2 hred

end Runs
/-! ## A RED task, and a YELLOW one -/

def secretEvent : Event := .initialized demoMoment false secretPrompt

/-- A spawn that is asked for as a worker. -/
def workerAsked : Event := .workerReserved demoMoment solSpawn

theorem secretEvent_keepsSensitivity (s : Option State) :
    secretEvent.KeepsSensitivity Platform.ascii s := by
  show isTaskBoundary Platform.ascii secretPrompt (promptText secretPrompt) = false
  decide

theorem sensitivity_kept_red :
    sensitivityOfState (run Platform.ascii none [secretEvent]) = .red ∧
      grantsWhileRed Platform.ascii none ([secretEvent] ++ [workerAsked]) = false :=
  ⟨by decide, (sensitivity_kept Platform.ascii none .missing [secretEvent] [workerAsked]
    ⟨secretEvent_keepsSensitivity none, trivial, trivial⟩).2.2⟩

/-- The plan phase, asked for with the fingerprint of its routing. -/
def planAsked : Event :=
  .solReserved demoMoment solSpawn (.str (txt "plan"))
    (recordRedLocalState Platform.ascii demoMoment secretPrompt (promptText secretPrompt)
      none).routingFingerprint

/-- A high-impact prompt whose sensitivity is stated. -/
def yellowEvent : Event :=
  .initialized demoMoment false (reviewPrompt ++ [(txt "sensitivity", .str (txt "YELLOW"))])

/-- A command that failed, flagged as a task boundary. -/
def failedCommand (command : Text) : Event :=
  .failureObserved demoMoment [(txt "success", .bool false), (txt "command", .str command),
    (txt "new_task", .bool true)]

/-- Two commands that failed. -/
def failedCommands : List Event := [failedCommand (txt "make a"), failedCommand (txt "make b")]

/-- A RED task is granted a Sol phase. And two failures that are flagged as a
task boundary, which only an initialisation may accept, lower a YELLOW task
to GREEN. -/
theorem red_task_is_granted :
    sensitivityOfState (run Platform.ascii none [secretEvent]) = .red ∧
      grantsWhileRed Platform.ascii none [secretEvent, planAsked] = true ∧
      sensitivityOfState (run Platform.ascii none [yellowEvent]) = .yellow ∧
      sensitivityOfState (run Platform.ascii none (yellowEvent :: failedCommands)) = .green :=
  ⟨by decide +kernel, by decide +kernel, by decide +kernel, by decide +kernel⟩

end RalphVault.Advisor
