import RalphVault.Advisor.Rerouting

/-!
# Advisor — hard gates

Once an event has stated that a hard gate failed, the gates stay failed
until the next task, as long as no later event makes the code forget it. The
flag that remembers the failure is cleared by a malformed value, and the
decision reads the payload itself, so an event that states passing gates is
harmless only while the flag stands and something else active analysis needs
is missing.
-/

namespace RalphVault.Advisor

open Memory

section Gates

variable (p : Platform)

/-- What a payload states of the hard gates, if it is well formed. -/
def statedGates (d : Payload) : Option Bool := parseBool p (payloadValue d hardGatesKeys)

/-- An event whose prompt does not replace the state by a RED one. -/
def Event.Captures : Event → Prop
  | .initialized _ _ d => redPrompt p (promptText d) = false
  | _ => True

/-- Neither the gates of a state pass nor does its routing allow active
analysis. -/
structure GatesFailed (t : State) : Prop where
  gates : t.hardGatesPass = false
  routing : ∀ r, t.routing = some r → r.activeAnalysisEligible = false

/-- What an event routes from allows active analysis but for the gates. -/
def ActiveButGates (e : Event) (u : State) : Prop :=
  let r := routingRequest p e.moment u e.payload (promptText e.payload)
  r.ActiveButGates ∧ r.progress p = false

/-- The condition under which an event keeps failed gates failed. It does not
begin a task, and if it routes and states passing gates, then the failure is
still remembered, it carries no flag of a task boundary, and something else
active analysis needs is missing. -/
def Event.KeepsGates (s : Option State) (e : Event) : Prop :=
  e.NoBoundary p ∧ ∀ u, routedFrom p s e = some u → e.Captures p →
    statedGates p e.payload = some true →
      (ensureStateShape p e.moment s).hardGatesFailed = some true ∧
        isTaskBoundary p e.payload [] = false ∧ ¬ActiveButGates p e u

/-- A run whose events all meet the condition. -/
def KeepsGatesRun (s : Option State) : List Event → Prop
  | [] => True
  | e :: es => e.KeepsGates p s ∧ KeepsGatesRun (step p s e) es

end Gates

/-! ## Evidence -/

section Captured

variable {p : Platform} {d : Payload} {e : Evidence}

/-- What is stored of the gates after an event: what it states, unless it
states passing gates against a remembered failure. -/
theorem captureHardGates_pass :
    (captureRoutingEvidence p d e).hardGatesPass =
      match payloadValue d hardGatesKeys with
      | none => e.hardGatesPass
      | some _ => statedGates p d == some true &&
          !(e.hardGatesFailed == some true && !isTaskBoundary p d []) := by
  unfold captureRoutingEvidence captureHardGates statedGates
  cases hvalue : payloadValue d hardGatesKeys with
  | none => rfl
  | some v =>
      cases hparsed : parseBool p (some v) with
      | none => simp [hparsed]
      | some b =>
          cases b with
          | false => simp [hparsed]
          | true =>
              cases isTaskBoundary p d [] <;> by_cases hfailed : e.hardGatesFailed = some true <;>
                simp [hparsed, hfailed]

/-- A decision takes the gates from its payload, and else from what is
stored. -/
theorem routingBool_gates (stored : Bool) :
    routingBool p d hardGatesKeys stored =
      match payloadValue d hardGatesKeys with
      | none => stored
      | some _ => statedGates p d == some true := by
  unfold routingBool statedGates
  cases hvalue : payloadValue d hardGatesKeys with
  | none => rfl
  | some v =>
      cases hparsed : parseBool p (some v) with
      | none => simp [hparsed]
      | some b => cases b <;> simp [hparsed]

theorem statedGates_of_missing (h : payloadValue d hardGatesKeys = none) :
    statedGates p d = none := by
  rw [statedGates, h]
  rfl

end Captured

/-! ## One event -/

section Steps

variable {p : Platform} {e : Event} {t u : State}

/-- The evidence a continued task is routed from is that of its payload, over
what was stored. -/
theorem routedFrom_evidence (hkeep : e.NoBoundary p) (hcaptures : e.Captures p)
    (h : routedFrom p (some t) e = some u) :
    ∃ stored : Evidence, u.toEvidence = captureRoutingEvidence p e.payload stored ∧
      stored.hardGatesPass = t.hardGatesPass ∧
      stored.hardGatesFailed = (ensureStateShape p e.moment (some t)).hardGatesFailed := by
  cases e with
  | initialized m seen d =>
      simp only [routedFrom, Event.NoBoundary, Event.Captures] at h hkeep hcaptures
      rw [hcaptures, hkeep] at h
      split_ifs at h with hempty hred
      · cases hred
      · obtain rfl := Option.some_inj.mp h
        refine ⟨(merged p m d (ensureStateShape p m (some t))).toEvidence, rfl, ?_, ?_⟩ <;>
          (rw [merged, merge_toEvidence]; rfl)
      · obtain rfl := Option.some_inj.mp h
        refine ⟨(merged p m d t).toEvidence, rfl, ?_, ?_⟩ <;> (rw [merged, merge_toEvidence]; rfl)
  | failureObserved m d =>
      simp only [routedFrom] at h
      split_ifs at h
      obtain rfl := Option.some_inj.mp h
      refine ⟨(recordFailure p (commandText d) (ensureStateShape p m (some t))).toEvidence, rfl,
        ?_, ?_⟩ <;> (rw [recordFailure_toEvidence]; rfl)
  | _ => cases h

/-- Where an event routes a task whose gates have failed, they are failed
afterwards exactly when the condition holds. -/
theorem gatesFailed_iff {t' : State} (hgates : t.hardGatesPass = false) (hkeep : e.NoBoundary p)
    (hcaptures : e.Captures p) (h : routedFrom p (some t) e = some u)
    (hleaves : LeavesRouted p e u t') :
    GatesFailed t' ↔ (statedGates p e.payload = some true →
      (ensureStateShape p e.moment (some t)).hardGatesFailed = some true ∧
        isTaskBoundary p e.payload [] = false ∧ ¬ActiveButGates p e u) := by
  obtain ⟨stored, hevidence, hpass, hfailed⟩ := routedFrom_evidence hkeep hcaptures h
  have hstored : t'.hardGatesPass = (captureRoutingEvidence p e.payload stored).hardGatesPass := by
    rw [← hevidence, ← hleaves.evidence]
  have hdecided : (∀ r, t'.routing = some r → r.activeAnalysisEligible = false) ↔
      ¬(routingBool p e.payload hardGatesKeys u.hardGatesPass = true ∧ ActiveButGates p e u) := by
    rw [hleaves.routing]
    simp only [Option.some.injEq, forall_eq', ← Bool.not_eq_true]
    exact not_congr resolve_activeAnalysisEligible
  have hread : u.hardGatesPass = (captureRoutingEvidence p e.payload stored).hardGatesPass := by
    rw [← hevidence]
  have hboth : GatesFailed t' ↔ t'.hardGatesPass = false ∧
      ∀ r, t'.routing = some r → r.activeAnalysisEligible = false :=
    ⟨fun hgates => ⟨hgates.gates, hgates.routing⟩, fun hgates => ⟨hgates.1, hgates.2⟩⟩
  rw [hboth, hdecided, hstored, captureHardGates_pass, routingBool_gates, hread,
    captureHardGates_pass, ← hfailed]
  cases hvalue : payloadValue e.payload hardGatesKeys with
  | none => simp [statedGates_of_missing hvalue, hpass, hgates]
  | some v =>
      by_cases hstated : statedGates p e.payload = some true
      · simp [hstated, and_assoc]
      · simp [hstated]

/-- A RED prompt is routed from the RED state. -/
theorem routedFrom_red {s : Option State} (hred : ¬e.Captures p) (h : routedFrom p s e = some u) :
    u.hardGatesPass = false ∧ foldedSensitivity p u e.payload (promptText e.payload) = .red := by
  cases e with
  | initialized m seen d =>
      simp only [Event.Captures, Bool.not_eq_false] at hred
      simp only [routedFrom, hred, if_true] at h
      split_ifs at h
      obtain rfl := Option.some_inj.mp h
      refine ⟨rfl, ?_⟩
      have hstated : sensitivityOf p (promptText d) d = .red := by simp [sensitivityOf, hred]
      simp only [foldedSensitivity, Event.payload, hstated]
      split_ifs
      · rfl
      · exact Sensitivity.eq_red_of_rank (by rw [Sensitivity.rank_join]; exact le_max_left _ _)
  | _ => exact absurd trivial hred

theorem gatesFailed_of_red {s : Option State} {t' : State} (hred : ¬e.Captures p)
    (h : routedFrom p s e = some u) (hleaves : LeavesRouted p e u t') : GatesFailed t' := by
  obtain ⟨hgates, hsensitivity⟩ := routedFrom_red hred h
  refine ⟨?_, fun r hr => ?_⟩
  · rw [← hgates, ← congrArg Evidence.hardGatesPass hleaves.evidence]
  · rw [hleaves.routing] at hr
    obtain rfl := Option.some_inj.mp hr
    rw [← Bool.not_eq_true]
    intro heligible
    exact (resolve_activeAnalysisEligible.mp heligible).2.1.1 hsensitivity

/-- An event that meets the condition keeps failed gates failed. -/
theorem GatesFailed.step (hfailed : GatesFailed t) (hkeep : e.KeepsGates p (some t)) :
    ∃ t', Advisor.step p (some t) e = some t' ∧ GatesFailed t' := by
  cases hrouted : routedFrom p (some t) e with
  | none =>
      rcases step_not_routed hrouted with heq | ⟨t', heq, hread⟩
      · exact ⟨t, heq, hfailed⟩
      · refine ⟨t', heq, ?_, ?_⟩
        · exact (congrArg Evidence.hardGatesPass hread.evidence).trans hfailed.gates
        · rw [hread.routing]
          exact hfailed.routing
  | some u =>
      obtain ⟨t', heq, hleaves⟩ := step_routed hrouted
      refine ⟨t', heq, ?_⟩
      by_cases hcaptures : e.Captures p
      · exact (gatesFailed_iff hfailed.gates hkeep.1 hcaptures hrouted hleaves).mpr
          (hkeep.2 u hrouted hcaptures)
      · exact gatesFailed_of_red hcaptures hrouted hleaves

/-- An event that is routed and states a failed gate leaves the gates failed,
whatever it found. -/
theorem gatesFailed_of_stated {s : Option State} (hstated : statedGates p e.payload = some false)
    (hcaptures : e.Captures p) (h : routedFrom p s e = some u) :
    ∃ t', Advisor.step p s e = some t' ∧ GatesFailed t' := by
  obtain ⟨t', heq, hleaves⟩ := step_routed h
  have hevidence : ∃ stored, u.toEvidence = captureRoutingEvidence p e.payload stored := by
    cases e with
    | initialized m seen d =>
        simp only [routedFrom, Event.Captures] at h hcaptures
        rw [hcaptures] at h
        split_ifs at h with hempty hred
        · cases hred
        · obtain rfl := Option.some_inj.mp h
          exact ⟨_, rfl⟩
        all_goals cases s <;> (obtain rfl := Option.some_inj.mp h; exact ⟨_, rfl⟩)
    | failureObserved m d =>
        simp only [routedFrom] at h
        split_ifs at h
        obtain rfl := Option.some_inj.mp h
        exact ⟨_, rfl⟩
    | _ => cases h
  obtain ⟨stored, hevidence⟩ := hevidence
  have hvalue : ∃ v, payloadValue e.payload hardGatesKeys = some v := by
    rw [← Option.isSome_iff_exists, ← Option.ne_none_iff_isSome]
    intro hmissing
    rw [statedGates_of_missing hmissing] at hstated
    cases hstated
  obtain ⟨v, hvalue⟩ := hvalue
  refine ⟨t', heq, ?_, fun r hr => ?_⟩
  · have hgates : t'.hardGatesPass = (captureRoutingEvidence p e.payload stored).hardGatesPass := by
      rw [← hevidence, ← hleaves.evidence]
    rw [hgates, captureHardGates_pass, hvalue, hstated]
    rfl
  · rw [hleaves.routing] at hr
    obtain rfl := Option.some_inj.mp hr
    rw [← Bool.not_eq_true]
    intro heligible
    have hpass : routingBool p e.payload hardGatesKeys u.hardGatesPass = true :=
      (resolve_activeAnalysisEligible.mp heligible).1
    rw [routingBool_gates, hvalue, hstated] at hpass
    cases hpass

end Steps

/-! ## Runs -/

/-- Failed gates stay failed over every run whose events meet the condition. -/
theorem GatesFailed.run {p : Platform} {t : State} {es : List Event} (hfailed : GatesFailed t)
    (hkeep : KeepsGatesRun p (some t) es) :
    ∃ t', Advisor.run p (some t) es = some t' ∧ GatesFailed t' := by
  induction es generalizing t with
  | nil => exact ⟨t, rfl, hfailed⟩
  | cons e es ih =>
      obtain ⟨t', heq, hnext⟩ := hfailed.step hkeep.1
      have hrest := hkeep.2
      rw [heq] at hrest
      rw [run_cons, heq]
      exact ih hnext hrest

/-- An event that does not state passing gates meets the condition. -/
theorem Event.KeepsGates.of_not_stated {p : Platform} {s : Option State} {e : Event}
    (hkeep : e.NoBoundary p) (hstated : statedGates p e.payload ≠ some true) : e.KeepsGates p s :=
  ⟨hkeep, fun _ _ _ h => absurd h hstated⟩

theorem KeepsGatesRun.single {p : Platform} {s : Option State} {e : Event}
    (h : e.KeepsGates p s) : KeepsGatesRun p s [e] := ⟨h, trivial⟩

/-- Once an event that routes has stated a failed hard gate, no later event
of a run that meets the condition leaves the gates passing, or a routing
under which active analysis is eligible. -/
theorem failed_gate_sticks (p : Platform) (s : Option State) (e : Event) (u : State)
    (hrouted : routedFrom p s e = some u) (hcaptures : e.Captures p)
    (hstated : statedGates p e.payload = some false) (es : List Event)
    (hkeep : KeepsGatesRun p (step p s e) es) :
    ∃ t, run p s (e :: es) = some t ∧ t.hardGatesPass = false ∧
      ∀ r, t.routing = some r → r.activeAnalysisEligible = false := by
  obtain ⟨t, heq, hfailed⟩ := gatesFailed_of_stated hstated hcaptures hrouted
  rw [heq] at hkeep
  obtain ⟨t', hrun, hgates⟩ := hfailed.run hkeep
  rw [run_cons, heq]
  exact ⟨t', hrun, hgates.gates, hgates.routing⟩

/-! ## A decision under gates -/

/-- A prompt with all that active analysis needs, and what it states of the
gates. -/
def gatedPrompt (gates : Value) : Payload :=
  [(txt "prompt", .str (txt "Validate this decision")), (txt "complexity", .int 9),
   (txt "intent", .str (txt "architecture")), (txt "active_analysis_enabled", .bool true),
   (txt "bounded_scope", .bool true), (txt "local_verification_available", .bool true),
   (txt "budget_class", .str (txt "small")), (txt "hard_gates_pass", gates)]

def gatedEvent (gates : Value) : Event := .initialized demoMoment false (gatedPrompt gates)

/-- An event whose hard gates are malformed. -/
def bogusEvent : Event := gatedEvent (.str (txt "bogus"))

/-- Whether the gates of a state pass, and whether active analysis is
eligible. -/
def gatesAndEligibility (s : Option State) : Option (Bool × Bool) :=
  s.map fun t => (t.hardGatesPass, t.routing.any (·.activeAnalysisEligible))

theorem gatedEvent_captures (gates : Value) : (gatedEvent gates).Captures Platform.ascii := by
  show redPrompt Platform.ascii (txt "Validate this decision") = false
  decide

theorem bogusEvent_noBoundary : bogusEvent.NoBoundary Platform.ascii := by
  show isTaskBoundary Platform.ascii bogusEvent.payload (promptText bogusEvent.payload) = false
  decide

theorem routedFrom_gatedEvent :
    routedFrom Platform.ascii none (gatedEvent (.bool false)) =
      some (begun Platform.ascii demoMoment (gatedPrompt (.bool false)) none) := by
  have hred : redPrompt Platform.ascii (promptText (gatedPrompt (.bool false))) = false :=
    gatedEvent_captures _
  have hempty : (promptText (gatedPrompt (.bool false))).isEmpty = false := by decide
  simp [routedFrom, gatedEvent, hred, hempty]

theorem gatedEvent_states_failure :
    statedGates Platform.ascii (gatedEvent (.bool false)).payload = some false := by
  decide

theorem bogusEvent_not_stated : statedGates Platform.ascii bogusEvent.payload ≠ some true := by
  decide

theorem failed_gate_sticks_malformed :
    ∃ t, run Platform.ascii none [gatedEvent (.bool false), bogusEvent] = some t ∧
      t.hardGatesPass = false ∧ ∀ r, t.routing = some r → r.activeAnalysisEligible = false :=
  failed_gate_sticks Platform.ascii none (gatedEvent (.bool false)) _ routedFrom_gatedEvent
    (gatedEvent_captures _) gatedEvent_states_failure [bogusEvent]
    (.single (.of_not_stated bogusEvent_noBoundary bogusEvent_not_stated))

theorem gatedEvent_noBoundary_true : (gatedEvent (.bool true)).NoBoundary Platform.ascii := by
  show isTaskBoundary Platform.ascii (gatedPrompt (.bool true))
    (promptText (gatedPrompt (.bool true))) = false
  decide

/-- After a failed gate and without a task boundary, an event that states a
passing one gets a decision with active analysis eligible, though the stored
gate stays failed; and after a malformed value it passes the stored gate as
well. -/
theorem stated_gate_reopens :
    statedGates Platform.ascii (gatedEvent (.bool false)).payload = some false ∧
      bogusEvent.NoBoundary Platform.ascii ∧ (gatedEvent (.bool true)).NoBoundary Platform.ascii ∧
      gatesAndEligibility (run Platform.ascii none
        [gatedEvent (.bool false), gatedEvent (.bool true)]) = some (false, true) ∧
      gatesAndEligibility (run Platform.ascii none
        [gatedEvent (.bool false), bogusEvent, gatedEvent (.bool true)]) = some (true, true) :=
  ⟨gatedEvent_states_failure, bogusEvent_noBoundary, gatedEvent_noBoundary_true,
    by decide +kernel, by decide +kernel⟩

end RalphVault.Advisor
