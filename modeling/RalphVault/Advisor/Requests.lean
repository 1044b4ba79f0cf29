import RalphVault.Advisor.Fingerprint
import RalphVault.Advisor.State

/-!
# Advisor — what is spawned

The last part of `resolve_subagent_routing`: the arguments of the spawn a
decision recommends. What each stage of the routing keeps of a lane gives what
every decision promises.
-/

namespace RalphVault.Advisor

open Memory

/-! ## Recommendations -/

/-- `RoutingDecision`, with what is spawned and the limits it states. -/
structure Recommendation extends RoutingDecision where
  model : Option Text
  mode : Text
  spawnArguments : Fields
  maxThreads : Nat
  maxDepth : Nat
  maxTaskJobs : Nat
  maxTaskAdvisors : Nat
  packetBudgetBytes : Nat

section Resolver

variable (p : Platform)

/-- `_spawn_arguments`. -/
def spawnArguments (route : Route) (model effort : Option Text) : Fields :=
  match model, effort with
  | some model, some effort =>
      if route = .none then []
      else [(txt "agent_type", .str (txt "default")), (txt "fork_context", .bool false),
        (txt "model", .str model), (txt "reasoning_effort", .str effort)]
  | _, _ => []

/-- Whether a request is local bookkeeping. -/
def RoutingRequest.isProgress (r : RoutingRequest) : Bool :=
  isProgressMaintenance p (routingOrigin p r.origin) (routingIntent p r.intent)

/-- `resolve_subagent_routing`, with what is spawned. -/
def RoutingRequest.recommend (r : RoutingRequest) : Except Text Recommendation :=
  (r.resolve p).map fun decision =>
    { decision with
      model := decision.route.model
      mode := decision.route.mode
      spawnArguments :=
        if r.isProgress p then []
        else Advisor.spawnArguments decision.route decision.route.model decision.effort
      maxThreads := Advisor.maxThreads
      maxDepth := Advisor.maxDepth
      maxTaskJobs := Advisor.maxTaskJobs
      maxTaskAdvisors := Advisor.maxTaskAdvisors
      packetBudgetBytes := maxPacketBytes }

end Resolver

/-! ## What the stages keep of a lane -/

/-- The rank of the highest effort for a complexity. -/
def ceilingRank (effective : Nat) : Nat :=
  (effortRank (solEfforts (max 8 (min effective 10)))).getD 0

/-- A lane that the policy may recommend: it has an effort unless it is none,
the effort is within the ceiling, and active analysis has passed its gates. -/
structure Lane.Proper (r : Request) (effective : Nat) (lane : Lane) : Prop where
  effort_isSome : lane.effort.isSome = true ↔ lane.route ≠ .none
  within : ∀ effort, lane.effort = some effort →
    ∃ rank, effortRank effort = some rank ∧ rank ≤ ceilingRank effective
  gated : lane.route = .solActiveAnalysis → activeAnalysisRejection r effective = none

theorem effortRank_solEfforts (n : Nat) : ∃ rank, effortRank (solEfforts n) = some rank ∧ 0 < rank := by
  unfold solEfforts
  split
  · exact ⟨2, by decide, by decide⟩
  · exact ⟨3, by decide, by decide⟩
  · exact ⟨1, by decide, by decide⟩

theorem effortRank_ceiling (effective : Nat) :
    effortRank (solEfforts (max 8 (min effective 10))) = some (ceilingRank effective) := by
  obtain ⟨rank, h, -⟩ := effortRank_solEfforts (max 8 (min effective 10))
  simp [ceilingRank, h]

theorem ceilingRank_pos (effective : Nat) : 0 < ceilingRank effective := by
  obtain ⟨rank, h, hpos⟩ := effortRank_solEfforts (max 8 (min effective 10))
  simpa [ceilingRank, h] using hpos

theorem solEffort_within {requested : Option Text} {effective : Nat} {gates : Bool} {effort : Text}
    (h : solEffort requested effective gates = .ok effort) :
    ∃ rank, effortRank effort = some rank ∧ rank ≤ ceilingRank effective := by
  unfold solEffort at h
  simp only [effortRank_ceiling, Option.getD_some] at h
  split at h
  · cases h
  · rename_i rank hrank
    split_ifs at h with hover
    cases h
    exact ⟨rank, hrank, Nat.le_of_not_gt hover⟩

section Stages

variable {p : Platform} {r : Request} {sel : Selection} {effective : Nat} {progress : Bool}
  {d : Draft}

theorem direct_proper {reason : Text} : (direct reason).Proper r effective where
  effort_isSome := by simp [direct]
  within := by simp [direct]
  gated := by simp [direct]

theorem terra_proper {reason : Text} :
    (Lane.mk .terraImplementation (some terraEffort) reason).Proper r effective where
  effort_isSome := by simp
  within := by
    intro effort h
    cases h
    exact ⟨1, by decide, ceilingRank_pos effective⟩
  gated := by simp

theorem advisor_proper {effort reason : Text}
    (h : ∃ rank, effortRank effort = some rank ∧ rank ≤ ceilingRank effective) :
    (Lane.mk .solAdvisor (some effort) reason).Proper r effective where
  effort_isSome := by simp
  within := by
    intro e he
    cases he
    exact h
  gated := by simp

theorem Lane.Proper.ite {c : Prop} [Decidable c] {a b : Lane} (ha : c → a.Proper r effective)
    (hb : ¬c → b.Proper r effective) : (if c then a else b).Proper r effective := by
  by_cases h : c
  · rw [if_pos h]
    exact ha h
  · rw [if_neg h]
    exact hb h

/-- The effort a complexity from 7 on asks for is the ceiling. -/
theorem ceiling_proper {level : Nat} {reason : Text} (h : level = max 8 (min effective 10)) :
    (Lane.mk .solAdvisor (some (solEfforts level)) reason).Proper r effective := by
  apply advisor_proper
  exact ⟨ceilingRank effective, h ▸ effortRank_ceiling effective, le_rfl⟩

theorem baseRoute_proper {intent : Text} : (baseRoute p r effective intent).Proper r effective := by
  unfold baseRoute
  refine .ite (fun _ => direct_proper) fun _ => .ite (fun _ => direct_proper) fun _ =>
    .ite (fun _ => direct_proper) fun _ => .ite (fun _ => ?_) fun _ => .ite (fun h78 => ?_) fun _ => ?_
  · exact .ite (fun _ => terra_proper) fun _ => direct_proper
  · refine .ite (fun _ => terra_proper) fun _ => .ite (fun _ => direct_proper) fun _ =>
      .ite (fun _ => ceiling_proper ?_) fun _ => direct_proper
    simp only [Bool.and_eq_true, decide_eq_true_eq] at h78
    omega
  · refine .ite (fun _ => terra_proper) fun _ => .ite (fun h9 => ?_) fun _ => direct_proper
    refine .ite (fun _ => direct_proper) fun _ => ceiling_proper ?_
    simp only [Bool.and_eq_true, decide_eq_true_eq] at h9
    omega

theorem ofName_ne_none {t : Text} {route : Route} (h : Route.ofName t = some route) :
    route ≠ .none := by
  rintro rfl
  have hmem : Route.none ∈ Route.supported := List.mem_of_find?_eq_some h
  revert hmem
  decide

/-- An override takes a lane the policy may recommend, or none. -/
theorem applyOverride_proper {o : Override} {activeOk : Bool} {lane : Lane}
    (hok : activeOk = true → activeAnalysisRejection r effective = none)
    (h : applyOverride o r effective activeOk = .ok lane) : lane.Proper r effective := by
  unfold applyOverride at h
  split at h
  · cases h
  rename_i route hroute
  have hne : route ≠ .none := by
    obtain ⟨name, -, hname⟩ := Option.bind_eq_some_iff.mp hroute
    exact ofName_ne_none hname
  split_ifs at h with hmodel hred hterra heffort hgates
  · cases h
    rw [hterra]
    exact terra_proper
  · obtain ⟨effort, heffort, hlane⟩ : ∃ effort,
        solEffort o.reasoningEffort effective r.hardGatesPass = .ok effort ∧
          (⟨route, some effort, txt "explicit-" ++ route.mode ++ txt "-override"⟩ : Lane) = lane := by
      cases hsol : solEffort o.reasoningEffort effective r.hardGatesPass with
      | error e =>
          rw [hsol] at h
          cases h
      | ok effort =>
          rw [hsol] at h
          cases h
          exact ⟨effort, rfl, rfl⟩
    subst hlane
    refine ⟨by simp [hne], ?_, ?_⟩
    · intro e he
      cases he
      exact solEffort_within heffort
    · intro hactive
      apply hok
      have hactive : route = .solActiveAnalysis := hactive
      simpa [hactive] using hgates

theorem overrideStage_proper (hrejection : d.rejection = activeAnalysisRejection r effective)
    (hd : d.lane.Proper r effective) :
    (overrideStage r sel effective progress d).lane.Proper r effective := by
  unfold overrideStage
  split
  · exact direct_proper
  · split
    · split
      · exact hd
      · rename_i o _ _ lane happlied
        apply applyOverride_proper _ happlied
        intro hok
        rwa [Option.isNone_iff_eq_none, hrejection] at hok
    · exact hd

/-! The later stages keep the lane or withdraw it. -/

theorem redStage_lane :
    (redStage r sel progress d).lane = d.lane ∨ ∃ reason, (redStage r sel progress d).lane = direct reason := by
  unfold redStage
  split
  · exact .inr ⟨_, rfl⟩
  · exact .inl rfl

theorem redStage_keeps_none (h : d.lane.route = .none) :
    (redStage r sel progress d).lane.route = .none := by
  unfold redStage
  split
  · rfl
  · exact h

theorem phaseStage_lane :
    (phaseStage p r d).lane = d.lane ∨ ∃ reason, (phaseStage p r d).lane = direct reason := by
  unfold phaseStage
  split_ifs
  · exact .inr ⟨_, rfl⟩
  · exact .inr ⟨_, rfl⟩
  · exact .inr ⟨_, rfl⟩
  · exact .inl rfl

theorem platformStage_lane :
    (platformStage r sel progress d).lane = d.lane ∨
      ∃ reason, (platformStage r sel progress d).lane = direct reason := by
  unfold platformStage
  split
  · exact .inr ⟨_, rfl⟩
  · exact .inl rfl

theorem Lane.Proper.of_kept {lane lane' : Lane} (h : lane.Proper r effective)
    (hkept : lane' = lane ∨ ∃ reason, lane' = direct reason) : lane'.Proper r effective := by
  obtain rfl | ⟨reason, rfl⟩ := hkept
  · exact h
  · exact direct_proper

theorem draft_proper {intent : Text} :
    (draft p r sel effective intent progress).lane.Proper r effective := by
  unfold draft
  apply Lane.Proper.of_kept _ platformStage_lane
  apply Lane.Proper.of_kept _ phaseStage_lane
  apply Lane.Proper.of_kept _ redStage_lane
  exact overrideStage_proper rfl baseRoute_proper

/-- What the phase policy asks of a lane. -/
structure Lane.Permitted (p : Platform) (r : Request) (lane : Lane) : Prop where
  substantial : lane.route ≠ .none → 3 < r.rawComplexity
  worker : lane.route = .terraImplementation → r.independentBlock = true
  supervision : lane.route.isSol = true → classifyModel p r.executor.model = .sol →
    r.criticalReview = true

theorem direct_permitted {reason : Text} : (direct reason).Permitted p r where
  substantial := by simp [direct]
  worker := by simp [direct]
  supervision := by simp [direct, Route.isSol]

theorem Lane.Permitted.of_kept {lane lane' : Lane} (h : lane.Permitted p r)
    (hkept : lane' = lane ∨ ∃ reason, lane' = direct reason) : lane'.Permitted p r := by
  obtain rfl | ⟨reason, rfl⟩ := hkept
  · exact h
  · exact direct_permitted

theorem phaseStage_permitted : (phaseStage p r d).lane.Permitted p r := by
  unfold phaseStage
  split_ifs with htrivial hworker hsol
  · exact direct_permitted
  · exact direct_permitted
  · exact direct_permitted
  · simp only [Bool.and_eq_true, decide_eq_true_eq, Bool.not_eq_true', not_and] at htrivial hworker hsol
    refine ⟨?_, ?_, ?_⟩
    · intro hne
      exact Nat.lt_of_not_le (htrivial (by simpa using hne))
    · intro hterra
      simpa using hworker hterra
    · intro his hfamily
      simpa using hsol ⟨his, hfamily⟩

theorem draft_permitted {intent : Text} :
    (draft p r sel effective intent progress).lane.Permitted p r := by
  unfold draft
  apply Lane.Permitted.of_kept _ platformStage_lane
  exact phaseStage_permitted

/-- Bookkeeping is never a model task. -/
theorem draft_route_of_progress {intent : Text} :
    (draft p r sel effective intent true).lane.route = .none := by
  apply platformStage_route_none
  apply phaseStage_route_none
  apply redStage_keeps_none
  exact overrideStage_progress

theorem platformStage_route_of_incapable (h : r.spawnModelEffort = false) :
    (platformStage r sel false d).lane.route = .none := by
  unfold platformStage
  split
  · rfl
  · rename_i hkept
    simpa [h] using hkept

theorem draft_route_of_incapable {intent : Text} (h : r.spawnModelEffort = false) :
    (draft p r sel effective intent progress).lane.route = .none := by
  cases progress with
  | true => exact draft_route_of_progress
  | false => exact platformStage_route_of_incapable h

end Stages

/-! ## What every decision promises -/

section Decisions

variable (p : Platform)

/-- `effective`: material work counts as complexity 4 at least. -/
def RoutingRequest.effective (r : RoutingRequest) : Int :=
  if r.rawComplexity ≤ 3 ∧ isMaterial p r.impactClass = true then 4 else r.rawComplexity

/-- The gates of active analysis. -/
structure RoutingRequest.AnalysisGates (r : RoutingRequest) : Prop where
  notRed : r.sensitivityName p ≠ txt "RED"
  complexity : 9 ≤ r.effective p
  capability : r.activeAnalysis = true
  bounded : r.boundedScope = true
  verifiable : r.localVerificationAvailable = true
  gates : r.hardGatesPass = true
  explicit : ∃ c cs, r.explicitClass = some (c :: cs)
  budget : 0 < r.remaining

/-- No route and nothing to spawn. -/
def Recommendation.Withheld (d : Recommendation) : Prop := d.route = .none ∧ d.spawnArguments = []

structure Recommendation.Sound (r : RoutingRequest) (d : Recommendation) : Prop where
  red : r.sensitivityName p = txt "RED" → d.Withheld
  progress : r.isProgress p = true → d.Withheld
  incapable : r.spawnModelEffort = false → d.Withheld
  trivial : r.rawComplexity ≤ 3 → d.Withheld
  worker : d.route = .terraImplementation → r.independentBlock = true
  supervision : d.route.isSol = true → classifyModel p (r.repositoryDefault.getD r.globalDefault).model = .sol →
    r.criticalReview = true
  analysis : d.route = .solActiveAnalysis ∨ d.activeAnalysisEligible = true → r.AnalysisGates p
  effort : ∀ effort, d.effort = some effort →
    ∃ rank, effortRank effort = some rank ∧ rank ≤ ceilingRank (r.effective p).toNat
  budget : d.spawnRequired = true → d.route.isSol = true → 0 < r.remaining
  arguments : d.spawnArguments = [] ↔ d.route = .none

end Decisions

section Soundness

variable {p : Platform} {r : RoutingRequest} {d : Recommendation}

theorem request_sensitivity_red : (r.request p).sensitivity = .red ↔ r.sensitivityName p = txt "RED" := by
  show (if r.sensitivityName p = txt "RED" then Sensitivity.red else .green) = .red ↔ _
  split_ifs with hred <;> simp [hred]

theorem request_effective (h : 1 ≤ r.rawComplexity) :
    (r.request p).effective = (r.effective p).toNat := by
  unfold Request.effective RoutingRequest.effective
  have hraw : (r.request p).rawComplexity ≤ 3 ↔ r.rawComplexity ≤ 3 := by
    show r.rawComplexity.toNat ≤ 3 ↔ _
    omega
  by_cases hlow : r.rawComplexity ≤ 3 ∧ isMaterial p r.impactClass = true
  · rw [if_pos hlow, if_pos]
    · rfl
    · simpa [hraw, RoutingRequest.request] using hlow
  · rw [if_neg hlow, if_neg]
    · rfl
    · simpa [hraw, RoutingRequest.request] using hlow

/-- The gates of the stages are those of the request. -/
theorem analysisGates_of_none (hraw : 1 ≤ r.rawComplexity)
    (h : activeAnalysisRejection (r.request p) (r.request p).effective = none) :
    r.AnalysisGates p := by
  obtain ⟨hgates, hred, hcomplexity, hcapability, hscope, hlocal, hclass, hremaining⟩ :=
    activeAnalysisRejection_eq_none.mp h
  rw [request_effective hraw] at hcomplexity
  refine ⟨mt request_sensitivity_red.mpr hred, by omega, hcapability, hscope, hlocal, hgates, ?_, ?_⟩
  · change (r.explicitClass.getD []).isEmpty = false at hclass
    match hexplicit : r.explicitClass, hclass with
    | some (c :: cs), _ => exact ⟨c, cs, rfl⟩
  · change 0 < r.remaining.toNat at hremaining
    omega

theorem spawnArguments_eq_nil {route : Route} {effort : Option Text}
    (h : effort.isSome = true ↔ route ≠ .none) :
    spawnArguments route route.model effort = [] ↔ route = .none := by
  cases route with
  | none => simp [spawnArguments, Route.model]
  | terraImplementation | solAdvisor | solActiveAnalysis =>
      obtain ⟨e, rfl⟩ := Option.isSome_iff_exists.mp (h.mpr (by simp))
      simp [spawnArguments, Route.model]

/-- A request is resolved exactly when its complexity is one of the ten. -/
theorem recommend_ok :
    (∃ d, r.recommend p = .ok d) ↔ 1 ≤ r.rawComplexity ∧ r.rawComplexity ≤ 10 := by
  constructor
  · rintro ⟨d, h⟩
    by_contra hraw
    rw [RoutingRequest.recommend, RoutingRequest.resolve, if_neg hraw] at h
    cases h
  · intro hraw
    rw [RoutingRequest.recommend, RoutingRequest.resolve, if_pos hraw]
    exact ⟨_, rfl⟩

/-- What a successful resolution is made of: the lane of the stages. -/
theorem recommend_lane (h : r.recommend p = .ok d) :
    1 ≤ r.rawComplexity ∧ d.route = (r.draft p).lane.route ∧
      d.effort = (r.draft p).lane.effort ∧
      d.activeAnalysisEligible = (r.draft p).rejection.isNone ∧
      (d.spawnRequired = true → d.route.isSol = true → 0 < r.remaining) ∧
      d.spawnArguments =
        if r.isProgress p then [] else spawnArguments d.route d.route.model d.effort := by
  have hraw := recommend_ok.mp ⟨d, h⟩
  rw [RoutingRequest.recommend, RoutingRequest.resolve, if_pos hraw] at h
  cases h
  refine ⟨hraw.1, rfl, rfl, rfl, ?_, rfl⟩
  intro hrequired hsol
  have hrequired : (!(r.request p).progress p &&
      (decide ((r.draft p).lane.route ≠ .none) &&
        (decide ((r.draft p).lane.route = .terraImplementation) ||
          decide (0 < r.remaining.toNat)))) = true := by
    rw [← Bool.and_assoc]
    exact hrequired
  have hsol : (r.draft p).lane.route.isSol = true := hsol
  simp only [Bool.and_eq_true, Bool.or_eq_true, decide_eq_true_eq] at hrequired
  obtain ⟨-, -, hterra | hpos⟩ := hrequired
  · rw [hterra] at hsol
    cases hsol
  · omega

theorem recommend_sound (h : r.recommend p = .ok d) : d.Sound p r := by
  obtain ⟨hraw, hroute, heffort, heligible, hbudget, harguments⟩ := recommend_lane h
  have hproper : (r.draft p).lane.Proper (r.request p) (r.request p).effective :=
    draft_proper
  have hpermitted : (r.draft p).lane.Permitted p (r.request p) :=
    draft_permitted
  have hprogress : r.isProgress p = true → d.route = .none := by
    intro hp
    have hp : (r.request p).progress p = true := hp
    rw [hroute, RoutingRequest.draft, hp]
    exact draft_route_of_progress
  have hempty : d.spawnArguments = [] ↔ d.route = .none := by
    have hself : spawnArguments d.route d.route.model d.effort = [] ↔ d.route = .none := by
      apply spawnArguments_eq_nil
      rw [hroute, heffort]
      exact hproper.effort_isSome
    rw [harguments]
    split
    · exact ⟨fun _ => hprogress (by assumption), fun _ => rfl⟩
    · exact hself
  have hwithheld (hnone : d.route = .none) : d.Withheld := ⟨hnone, hempty.mpr hnone⟩
  refine
    { red := fun hred => hwithheld ?_
      progress := fun hp => hwithheld (hprogress hp)
      incapable := fun hcapability => hwithheld ?_
      trivial := fun hlow => hwithheld ?_
      worker := fun hworker => ?_
      supervision := fun hsol hfamily => ?_
      analysis := fun hactive => ?_
      effort := fun effort he => ?_
      budget := hbudget
      arguments := hempty }
  · rw [hroute]
    exact draft_route_of_red (request_sensitivity_red.mpr hred)
  · rw [hroute]
    exact draft_route_of_incapable hcapability
  · rw [hroute]
    by_contra hne
    have hsubstantial : 3 < r.rawComplexity.toNat := hpermitted.substantial hne
    omega
  · exact hpermitted.worker (hroute ▸ hworker)
  · exact hpermitted.supervision (hroute ▸ hsol) hfamily
  · apply analysisGates_of_none hraw
    obtain hactive | heligible' := hactive
    · exact hproper.gated (hroute ▸ hactive)
    · rw [heligible, RoutingRequest.draft, draft_rejection, Option.isNone_iff_eq_none] at heligible'
      split at heligible'
      · cases heligible'
      · exact heligible'
  · have hwithin := hproper.within effort (heffort ▸ he)
    rwa [request_effective hraw] at hwithin

/-- A spawn below the depth limit is refused at the spawn boundary. -/
theorem budgetDecision_of_depth {ledger : Option Ledger} {s : SpawnRequest} (h : maxDepth ≤ s.depth) :
    (budgetDecision p ledger s).allowed = false := by
  unfold budgetDecision
  simp only [ge_iff_le, h, if_true]
  split
  · rfl
  · split <;> rfl

end Soundness

/-- Every request is either resolved to a sound decision or refused for its
complexity. The depth of a spawn is no part of a request: it is the budget at
the spawn boundary that enforces the limit a decision states. -/
theorem recommend_promises (p : Platform) (r : RoutingRequest) :
    match r.recommend p with
    | .ok d => d.Sound p r ∧ ∀ (ledger : Option Ledger) (s : SpawnRequest),
        d.maxDepth ≤ s.depth → (budgetDecision p ledger s).allowed = false
    | .error _ => ¬(1 ≤ r.rawComplexity ∧ r.rawComplexity ≤ 10) := by
  cases h : r.recommend p with
  | error e =>
      intro hraw
      obtain ⟨d, hd⟩ := recommend_ok.mpr hraw
      rw [h] at hd
      cases hd
  | ok d =>
      refine ⟨recommend_sound h, fun ledger s hdepth => budgetDecision_of_depth ?_⟩
      have hlimit : d.maxDepth = maxDepth := by
        rw [RoutingRequest.recommend, RoutingRequest.resolve, if_pos (recommend_ok.mp ⟨d, h⟩)] at h
        cases h
        rfl
      exact hlimit ▸ hdepth

/-- A session at the depth limit with an independent block of complexity 9. -/
def deepSession : State :=
  { State.blank Platform.ascii (txt "session") with
    complexity := 9
    independentBlock := true
    delegationDepth := maxDepth }

/-- The request of that session. -/
def deepRequest : RoutingRequest where
  rawComplexity := 9
  intent := txt "routine"
  impactClass := txt "none"
  sensitivity := txt "GREEN"
  repositoryDefault := none
  globalDefault := ⟨txt "gpt-5.6-luna", txt "max"⟩
  taskOverride := none
  sessionOverride := none
  currentEpoch := 0
  spawnModelEffort := true
  activeAnalysis := false
  remaining := 2
  explicitClass := none
  boundedScope := false
  localVerificationAvailable := false
  hardGatesPass := false
  independentBlock := true
  independentBlockCount := 0
  criticalReview := false
  failureFingerprints := []
  origin := []

/-- At the depth limit the router still recommends a worker. -/
theorem deep_session_is_routed : ∃ (m : Moment) (d : Recommendation),
    maxDepth ≤ deepSession.delegationDepth ∧
      deepRequest.request Platform.ascii = routingRequest Platform.ascii m deepSession [] [] ∧
      deepRequest.recommend Platform.ascii = .ok d ∧ ¬d.Withheld := by
  refine ⟨⟨0, txt "session", ⟨txt "gpt-5.6-luna", txt "max"⟩, txt "global", none⟩, _, le_rfl, rfl, rfl, ?_⟩
  rintro ⟨hnone, -⟩
  revert hnone
  decide +kernel

end RalphVault.Advisor
