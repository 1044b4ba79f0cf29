import RalphVault.Advisor.State

/-!
# Advisor — runs

What hooks do to the state of a session, one locked section after another:
a run is any list of such sections, each at its own moment, so leases expire
as the moments pass. The two sections of `observe_failure` are two events,
between which other hooks may run.
-/

namespace RalphVault.Advisor

open Memory

/-- A locked section, with its moment and its payload. -/
inductive Event where
  | initialized (m : Moment) (seen : Bool) (d : Payload)
  | solReserved (m : Moment) (d : Payload) (phase : Value) (fingerprint : Text)
  | workerReserved (m : Moment) (d : Payload)
  | spawnSettled (m : Moment) (d : Payload)
  | failureObserved (m : Moment) (d : Payload)
  | advisorStarted (m : Moment) (d : Payload) (requireReservation : Bool)
  | advisorCompleted (m : Moment) (d : Payload) (requireMatch : Bool)
  | stopGuarded (m : Moment)

section Steps

variable (p : Platform)

/-- What a section leaves in the state file. -/
def step (s : Option State) : Event → Option State
  | .initialized m seen d => initializeTask p m seen d s
  | .solReserved m d phase fingerprint => (reserveSol p m d phase fingerprint s).2
  | .workerReserved m d => (reserveWorker p m d s).2
  | .spawnSettled m d => (settleSpawn p m d s).2
  | .failureObserved m d => observeFailure p m d s
  | .advisorStarted m d requireReservation => some (markStarted p m d requireReservation s)
  | .advisorCompleted m d requireMatch => some (markCompleted p m d requireMatch s)
  | .stopGuarded m => some (markStopGuard p m s)

def run (s : Option State) (es : List Event) : Option State := es.foldl (step p) s

@[simp] theorem run_nil (s : Option State) : run p s [] = s := rfl

@[simp] theorem run_cons (s : Option State) (e : Event) (es : List Event) :
    run p s (e :: es) = run p (step p s e) es := rfl

theorem run_append (s : Option State) (es fs : List Event) :
    run p s (es ++ fs) = run p (run p s es) fs := List.foldl_append

/-- An initialisation has no task boundary. -/
def Event.NoBoundary : Event → Prop
  | .initialized _ _ d => isTaskBoundary p d (promptText d) = false
  | _ => True

/-- An event that keeps the task: an initialisation has no task boundary, and
its prompt is not RED, so that it does not replace the state. -/
def Event.KeepsTask : Event → Prop
  | .initialized _ _ d =>
      redPrompt p (promptText d) = false ∧ isTaskBoundary p d (promptText d) = false
  | _ => True

/-- Where the run of a task begins: without a state, or with one that has just
been replaced. -/
inductive TaskStart : Option State → Prop where
  | missing : TaskStart none
  | begun (m : Moment) (d : Payload) (prompt : Text) (s : Option State) :
      TaskStart (some (beginTask p m d prompt s))
  | red (m : Moment) (d : Payload) (prompt : Text) (s : Option State) :
      TaskStart (some (recordRedLocalState p m d prompt s))

end Steps

/-! ## What a section leaves alone -/

section Frames

variable {p : Platform} {m : Moment} {d : Payload} {prompt : Text} {s : State}

@[simp] theorem stamp_toAccounts : (State.stamp p s).toAccounts = s.toAccounts := rfl
@[simp] theorem stamp_toEvidence : (State.stamp p s).toEvidence = s.toEvidence := rfl
@[simp] theorem stamp_routing : (State.stamp p s).routing = s.routing := rfl
@[simp] theorem stamp_sensitivity : (State.stamp p s).sensitivity = s.sensitivity := rfl

@[simp] theorem inShape_toAccounts {now : Int} :
    (s.inShape p now).toAccounts = s.toAccounts.ensureShape p now := rfl
@[simp] theorem inShape_toEvidence {now : Int} :
    (s.inShape p now).toEvidence = s.toEvidence.ensureShape := rfl
@[simp] theorem inShape_routing {now : Int} : (s.inShape p now).routing = s.routing := rfl
@[simp] theorem inShape_sensitivity {now : Int} :
    (s.inShape p now).sensitivity = s.sensitivity := rfl

@[simp] theorem reroute_toAccounts : (reroute p m d prompt s).toAccounts = s.toAccounts := rfl
@[simp] theorem reroute_toEvidence :
    (reroute p m d prompt s).toEvidence = captureRoutingEvidence p d s.toEvidence := rfl

section Merged

variable {complexity : Nat} {reasons : List Text} {highImpact explicitRequest : Bool}

@[simp] theorem merge_toAccounts :
    (mergeExistingState p m complexity reasons highImpact explicitRequest s).toAccounts =
      s.toAccounts.ensureShape p m.now := by
  unfold mergeExistingState
  dsimp only
  split_ifs <;> rfl

@[simp] theorem merge_toEvidence :
    (mergeExistingState p m complexity reasons highImpact explicitRequest s).toEvidence =
      s.toEvidence.ensureShape := by
  unfold mergeExistingState
  dsimp only
  split_ifs <;> rfl

@[simp] theorem merge_routing :
    (mergeExistingState p m complexity reasons highImpact explicitRequest s).routing =
      s.routing := by
  unfold mergeExistingState
  dsimp only
  split_ifs <;> rfl

@[simp] theorem merge_sensitivity :
    (mergeExistingState p m complexity reasons highImpact explicitRequest s).sensitivity =
      s.sensitivity := by
  unfold mergeExistingState
  dsimp only
  split_ifs <;> rfl

end Merged

/-- Continuing a task only puts its accounts in shape. -/
@[simp] theorem continueTask_toAccounts :
    (continueTask p m d prompt s).toAccounts = s.toAccounts.ensureShape p m.now := by
  simp [continueTask]

@[simp] theorem beginTask_toAccounts {s : Option State} :
    (beginTask p m d prompt s).toAccounts = .fresh := rfl

@[simp] theorem recordRed_toAccounts {s : Option State} :
    (recordRedLocalState p m d prompt s).toAccounts = .fresh := rfl

@[simp] theorem recordFailure_toAccounts {candidate : Text} :
    (recordFailure p candidate s).toAccounts = s.toAccounts := by
  unfold recordFailure
  dsimp only
  split_ifs <;> rfl

@[simp] theorem recordFailure_toEvidence {candidate : Text} :
    (recordFailure p candidate s).toEvidence = s.toEvidence := by
  unfold recordFailure
  dsimp only
  split_ifs <;> rfl

@[simp] theorem recordFailure_routing {candidate : Text} :
    (recordFailure p candidate s).routing = s.routing := by
  unfold recordFailure
  dsimp only
  split_ifs <;> rfl

@[simp] theorem recordFailure_sensitivity {candidate : Text} :
    (recordFailure p candidate s).sensitivity = s.sensitivity := by
  unfold recordFailure
  dsimp only
  split_ifs <;> rfl

@[simp] theorem routeStuck_toAccounts : (routeStuck p m d s).toAccounts = s.toAccounts := rfl
@[simp] theorem routeStuck_toEvidence :
    (routeStuck p m d s).toEvidence = captureRoutingEvidence p d s.toEvidence := rfl

end Frames

/-! ## Sections by what they do

The state in shape is the one every section works on. -/

/-- The accounts of a state, or those of a missing one. -/
def accountsOf : Option State → Accounts
  | some s => s.toAccounts
  | none => .fresh

section Inversion

variable {p : Platform} {m : Moment} {d : Payload} {s : Option State}

@[simp] theorem ensureStateShape_toAccounts :
    (ensureStateShape p m s).toAccounts = (accountsOf s).ensureShape p m.now := by
  cases s <;> rfl

/-- What an initialisation does. -/
theorem initializeTask_cases (seen : Bool) :
    (initializeTask p m seen d s = s ∧ promptText d = []) ∨
    (redPrompt p (promptText d) = true ∧
      initializeTask p m seen d s = some (recordRedLocalState p m d (promptText d) s)) ∨
    (isTaskBoundary p d (promptText d) = false ∧
      initializeTask p m seen d s =
        some (continueTask p m d (promptText d) (ensureStateShape p m s))) ∨
    (∃ t, s = some t ∧ isTaskBoundary p d (promptText d) = false ∧
      initializeTask p m seen d s = some (continueTask p m d (promptText d) t)) ∨
    ((s = none ∨ isTaskBoundary p d (promptText d) = true) ∧
      initializeTask p m seen d s = some (beginTask p m d (promptText d) s)) := by
  unfold initializeTask
  dsimp only
  split_ifs with hempty hred hseen hboundary
  · exact .inl ⟨rfl, by simpa using hempty⟩
  · exact .inr (.inl ⟨hred, rfl⟩)
  · simp only [Bool.and_eq_true, Bool.not_eq_true'] at hseen
    exact .inr (.inr (.inl ⟨hseen.2, rfl⟩))
  · refine .inr (.inr (.inr (.inr ⟨.inr hboundary, ?_⟩)))
    cases s <;> rfl
  · cases s with
    | none => exact .inr (.inr (.inr (.inr ⟨.inl rfl, rfl⟩)))
    | some t => exact .inr (.inr (.inr (.inl ⟨t, rfl, by simpa using hboundary, rfl⟩)))

/-- What a reservation of a Sol phase does: nothing without a phase and a
fingerprint. -/
theorem reserveSol_cases (v : Value) (fingerprint : Text) :
    (reserveSol p m d v fingerprint s).2 = s ∧ (reserveSol p m d v fingerprint s).1.1 = false ∨
    ∃ phase, normalizePhase p (some v) = some phase ∧ fingerprint.isEmpty = false ∧
      (reserveSol p m d v fingerprint s).1 =
        ((ensureStateShape p m s).toAccounts.reserveSolConsultation p m.now d phase
          fingerprint).1 ∧
      (reserveSol p m d v fingerprint s).2 = some { ensureStateShape p m s with
        toAccounts := ((ensureStateShape p m s).toAccounts.reserveSolConsultation p m.now d phase
          fingerprint).2 } := by
  unfold reserveSol
  cases hphase : normalizePhase p (some v) with
  | none => exact .inl ⟨rfl, rfl⟩
  | some phase =>
      dsimp only
      split_ifs with hempty
      · exact .inl ⟨rfl, rfl⟩
      · exact .inr ⟨phase, rfl, by simpa using hempty, rfl, rfl⟩

/-- What a reservation of a worker does: nothing on another route. -/
theorem reserveWorker_cases :
    ((reserveWorker p m d s).2 = some (ensureStateShape p m s) ∧
      (reserveWorker p m d s).1.1 = false) ∨
    ∃ routing, (ensureStateShape p m s).routing = some routing ∧
      routing.route = .terraImplementation ∧
      (reserveWorker p m d s).1 = ((ensureStateShape p m s).toAccounts.reserveWorkerSpawn p m.now d
        (workerRequest (ensureStateShape p m s) routing)).1 ∧
      (reserveWorker p m d s).2 = some { ensureStateShape p m s with
        toAccounts := ((ensureStateShape p m s).toAccounts.reserveWorkerSpawn p m.now d
          (workerRequest (ensureStateShape p m s) routing)).2 } := by
  unfold reserveWorker
  dsimp only
  split
  · rename_i routing hrouting
    split_ifs with hroute
    · exact .inr ⟨routing, hrouting, hroute, rfl, rfl⟩
    · exact .inl ⟨rfl, rfl⟩
  · exact .inl ⟨rfl, rfl⟩

/-- What the first section of `observe_failure` does. -/
theorem settleSpawn_cases :
    (settleSpawn p m d s).2 = s ∨
    (settleSpawn p m d s).2 = some (ensureStateShape p m s) ∨
    ∃ success, isNativeSpawn p d = true ∧ successFromPayload d = some success ∧
      (ensureStateShape p m s).routesWorker = true ∧
      (settleSpawn p m d s).2 = some { ensureStateShape p m s with
        toAccounts := ((ensureStateShape p m s).toAccounts.settleWorkerReservation p m.now d
          success).2 } := by
  unfold settleSpawn
  split
  · rename_i success hnative hsuccess
    dsimp only
    split_ifs with hroute
    · exact .inr (.inr ⟨success, hnative, hsuccess, hroute, rfl⟩)
    · exact .inr (.inl rfl)
  · exact .inl rfl

/-- What the second section of `observe_failure` does. -/
theorem observeFailure_cases :
    observeFailure p m d s = s ∨
    observeFailure p m d s = some { ensureStateShape p m s with
      toAccounts := (ensureStateShape p m s).toAccounts.releaseFailedSpawnReservation p m.now d
        (ensureStateShape p m s).routingFingerprint } ∨
    ((recordFailure p (commandText d) (ensureStateShape p m s)).turnsStuck = false ∧
      observeFailure p m d s = some (recordFailure p (commandText d) (ensureStateShape p m s))) ∨
    ((recordFailure p (commandText d) (ensureStateShape p m s)).turnsStuck = true ∧
      observeFailure p m d s =
        some (routeStuck p m d (recordFailure p (commandText d) (ensureStateShape p m s)))) := by
  unfold observeFailure
  dsimp only
  split_ifs with _ _ _ hstuck
  · exact .inl rfl
  · exact .inr (.inl rfl)
  · exact .inl rfl
  · exact .inr (.inr (.inr ⟨hstuck, rfl⟩))
  · exact .inr (.inr (.inl ⟨by simpa using hstuck, rfl⟩))

/-- A completion receives a result, or nothing. -/
theorem markCompleted_toAccounts (requireMatch : Bool) :
    (markCompleted p m d requireMatch s).toAccounts = (ensureStateShape p m s).toAccounts ∨
    (markCompleted p m d requireMatch s).toAccounts =
      (ensureStateShape p m s).toAccounts.recordReceived p (receivedBytes p d) := by
  unfold markCompleted
  dsimp only
  by_cases hmatch : (requireMatch &&
      !(hasCompletionEvidence d && completionMatchesActiveAdvisor p d (ensureStateShape p m s))) = true
  · exact .inl (by rw [if_pos hmatch])
  · exact .inr (by rw [if_neg hmatch])

end Inversion
/-! ## Payloads of a demonstration -/

/-- The spawn of a Sol advisor, reserved and started. -/
def solSpawn : Payload :=
  [(txt "tool_call_id", .str (txt "call-1")), (txt "model", .str (txt "gpt-5.6-sol")),
   (txt "agent_id", .str (txt "advisor-1"))]

def reviewPrompt : Payload :=
  [(txt "prompt", .str (txt "Review the architecture")), (txt "complexity", .int 8)]

/-- A prompt with a secret in it. -/
def secretPrompt : Payload := [(txt "prompt", .str (txt "password: hunter2hunter2"))]

end RalphVault.Advisor
