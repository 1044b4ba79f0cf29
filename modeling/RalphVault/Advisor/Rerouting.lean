import RalphVault.Advisor.Runs

/-!
# Advisor — routing events

Which events of a run route their task again, from which state, and what
that leaves: the evidence captured, the decision made, and the sensitivity
it carries. Every other event leaves all three as they are read.
-/

namespace RalphVault.Advisor

open Memory

def Event.moment : Event → Moment
  | .initialized m _ _ => m
  | .solReserved m _ _ _ => m
  | .workerReserved m _ => m
  | .spawnSettled m _ => m
  | .failureObserved m _ => m
  | .advisorStarted m _ _ => m
  | .advisorCompleted m _ _ => m
  | .stopGuarded m => m

def Event.payload : Event → Payload
  | .initialized _ _ d => d
  | .solReserved _ d _ _ => d
  | .workerReserved _ d => d
  | .spawnSettled _ d => d
  | .failureObserved _ d => d
  | .advisorStarted _ d _ => d
  | .advisorCompleted _ d _ => d
  | .stopGuarded _ => []

section Routed

variable (p : Platform)

/-- A state whose evidence has been captured. -/
def captured (d : Payload) (s : State) : State :=
  let s := capturePayloadOverrides p d s
  captureDelegationEvidence p d { s with toEvidence := captureRoutingEvidence p d s.toEvidence }

/-- A state that a prompt continues, before its evidence is captured. -/
def merged (m : Moment) (d : Payload) (s : State) : State :=
  mergeExistingState p m (classificationComplexity p m d) (impactReasons p (promptText d))
    (!(impactReasons p (promptText d)).isEmpty) (explicitRequest p (promptText d)) s

/-- A new task, its evidence captured. -/
def begun (m : Moment) (d : Payload) (s : Option State) : State :=
  let s := newTask p m d (promptText d) s
  captureDelegationEvidence p d { s with toEvidence := captureRoutingEvidence p d s.toEvidence }

/-- The state of a task that a failure has stuck. -/
def stuck (m : Moment) (d : Payload) (s : Option State) : State :=
  { recordFailure p (commandText d) (ensureStateShape p m s) with
    stuckEligible := true, phase := .stuck }

/-- The state an event routes from, if it routes. -/
def routedFrom (s : Option State) : Event → Option State
  | .initialized m seen d =>
      if (promptText d).isEmpty then none
      else if redPrompt p (promptText d) then
        some (redState p m ((s.bind State.sessionOverride).bind Override.again))
      else if seen && isContinuation p (promptText d) && !isTaskBoundary p d (promptText d) then
        some (captured p d (merged p m d (ensureStateShape p m s)))
      else match s with
        | some t =>
            if isTaskBoundary p d (promptText d) then some (begun p m d (some t))
            else some (captured p d (merged p m d t))
        | none => some (begun p m d none)
  | .failureObserved m d =>
      if successFromPayload d ≠ some false then none
      else if isNativeSpawn p d then none
      else if (commandText d).isEmpty || redPrompt p (commandText d) then none
      else if (recordFailure p (commandText d) (ensureStateShape p m s)).turnsStuck then
        some (captured p d (stuck p m d s))
      else none
  | _ => none

/-- What an event that routes leaves. -/
structure LeavesRouted (e : Event) (u t : State) : Prop where
  routing : t.routing = some (routingDecision p e.moment u e.payload (promptText e.payload))
  sensitivity : t.sensitivity = foldedSensitivity p u e.payload (promptText e.payload)
  evidence : t.toEvidence = u.toEvidence

/-- What an event that does not route leaves. -/
structure LeavesRead (u t : State) : Prop where
  routing : t.routing = u.routing
  sensitivity : t.sensitivity = u.sensitivity
  evidence : t.toEvidence = u.toEvidence

end Routed

section Steps

variable {p : Platform} {s : Option State} {e : Event}

theorem step_routed {u : State} (h : routedFrom p s e = some u) :
    ∃ t, step p s e = some t ∧ LeavesRouted p e u t := by
  cases e with
  | initialized m seen d =>
      simp only [routedFrom] at h
      simp only [step, initializeTask]
      split_ifs at h ⊢ with hempty hred hseen hboundary
      · obtain rfl := Option.some_inj.mp h
        exact ⟨_, rfl, rfl, rfl, rfl⟩
      · obtain rfl := Option.some_inj.mp h
        exact ⟨_, rfl, rfl, rfl, rfl⟩
      all_goals
        cases s <;> (obtain rfl := Option.some_inj.mp h; exact ⟨_, rfl, rfl, rfl, rfl⟩)
  | failureObserved m d =>
      simp only [routedFrom] at h
      simp only [step, observeFailure]
      split_ifs at h ⊢
      obtain rfl := Option.some_inj.mp h
      exact ⟨_, rfl, rfl, rfl, rfl⟩
  | _ => cases h

/-- An event that does not route leaves the state, or the state as it is
read. -/
theorem step_not_routed (h : routedFrom p s e = none) :
    step p s e = s ∨
      ∃ t, step p s e = some t ∧ LeavesRead (ensureStateShape p e.moment s) t := by
  cases e with
  | initialized m seen d =>
      simp only [routedFrom] at h
      simp only [step, initializeTask]
      split_ifs at h ⊢ with hempty
      · exact .inl rfl
      all_goals cases s <;> cases h
  | solReserved m d v fingerprint =>
      rcases @reserveSol_cases p m d s v fingerprint with ⟨heq, -⟩ | ⟨_, -, -, -, heq⟩
      · exact .inl heq
      · exact .inr ⟨_, heq, rfl, rfl, rfl⟩
  | workerReserved m d =>
      rcases @reserveWorker_cases p m d s with ⟨heq, -⟩ | ⟨_, -, -, -, heq⟩
      · exact .inr ⟨_, heq, rfl, rfl, rfl⟩
      · exact .inr ⟨_, heq, rfl, rfl, rfl⟩
  | spawnSettled m d =>
      rcases @settleSpawn_cases p m d s with heq | heq | ⟨_, -, -, -, heq⟩
      · exact .inl heq
      · exact .inr ⟨_, heq, rfl, rfl, rfl⟩
      · exact .inr ⟨_, heq, rfl, rfl, rfl⟩
  | failureObserved m d =>
      simp only [routedFrom] at h
      simp only [step, observeFailure]
      split_ifs at h ⊢
      · exact .inl rfl
      · exact .inr ⟨_, rfl, rfl, rfl, rfl⟩
      · exact .inl rfl
      · exact .inr ⟨_, rfl, recordFailure_routing, recordFailure_sensitivity,
          recordFailure_toEvidence⟩
  | advisorStarted m d requireReservation =>
      refine .inr ⟨_, rfl, ?_⟩
      simp only [markStarted, startAdvisor, stateAtStart, State.beforeStart]
      split <;> split_ifs <;> exact ⟨rfl, rfl, rfl⟩
  | advisorCompleted m d requireMatch =>
      refine .inr ⟨_, rfl, ?_⟩
      simp only [markCompleted]
      split_ifs <;> exact ⟨rfl, rfl, rfl⟩
  | stopGuarded m => exact .inr ⟨_, rfl, rfl, rfl, rfl⟩

end Steps
end RalphVault.Advisor
