import RalphVault.Advisor.Ledger

/-!
# Advisor — routing

`subagent_routing.py`: which lane a new subagent is recommended, if any. The
recommendation is decided in stages. A lane is proposed for the complexity
and the intent; an override may replace it; and each later stage may only
withdraw it.

Left out: the constant fields of a decision, the executor lanes that
`sol_advisor.py` never lets differ, and the `ValueError` for a complexity it
never passes.
-/

namespace RalphVault.Advisor

open Memory

/-! ## Lanes -/

inductive Route where
  | none
  | terraImplementation
  | solAdvisor
  | solActiveAnalysis
deriving DecidableEq

def terraModel : Text := txt "gpt-5.6-terra"
def solModel : Text := txt "gpt-5.6-sol"
def terraEffort : Text := txt "high"

namespace Route

def name : Route → Text
  | none => txt "none"
  | terraImplementation => txt "terra-implementation"
  | solAdvisor => txt "sol-advisor"
  | solActiveAnalysis => txt "sol-active-analysis"

/-- `SUPPORTED_ROUTES`. -/
def supported : List Route := [terraImplementation, solAdvisor, solActiveAnalysis]

def ofName (t : Text) : Option Route := supported.find? fun r => r.name == t

/-- The model of a lane. -/
def model : Route → Option Text
  | none => .none
  | terraImplementation => some terraModel
  | solAdvisor => some solModel
  | solActiveAnalysis => some solModel

/-- The mode of a lane. -/
def mode : Route → Text
  | none => txt "none"
  | terraImplementation => txt "implementation"
  | solAdvisor => txt "advisor"
  | solActiveAnalysis => txt "active-analysis"

def isSol : Route → Bool
  | solAdvisor => true
  | solActiveAnalysis => true
  | _ => false

end Route

/-- A route, its effort and the reason for it. -/
structure Lane where
  route : Route
  effort : Option Text
  reason : Text

/-- No subagent. -/
def direct (reason : Text) : Lane := ⟨.none, none, reason⟩

/-- `SOL_EFFORTS`. -/
def solEfforts : Nat → Text
  | 9 => txt "xhigh"
  | 10 => txt "max"
  | _ => txt "high"

/-- `EFFORT_RANK`. -/
def effortRank (effort : Text) : Option Nat :=
  SortedMap.get? effort [(txt "high", 1), (txt "xhigh", 2), (txt "max", 3)]

/-! ## Requests -/

structure ExecutorDefaults where
  model : Text
  reasoningEffort : Text

/-- `SubagentOverride`. -/
structure Override where
  model : Option Text
  reasoningEffort : Option Text
  route : Option Text
  expiresAt : Option Int

/-- `RoutingRequest`, with its capabilities and its budget. -/
structure Request where
  rawComplexity : Nat
  intent : Text
  origin : Text
  material : Bool
  sensitivity : Sensitivity
  executor : ExecutorDefaults
  taskOverride : Option Override
  sessionOverride : Option Override
  currentEpoch : Int
  spawnModelEffort : Bool
  activeAnalysis : Bool
  remaining : Nat
  explicitClass : Option Text
  boundedScope : Bool
  localVerificationAvailable : Bool
  hardGatesPass : Bool
  independentBlock : Bool
  independentBlockCount : Nat
  criticalReview : Bool
  failureFingerprints : List Text

/-- `RoutingDecision`. -/
structure Decision where
  rawComplexity : Nat
  effectiveComplexity : Nat
  intent : Text
  origin : Text
  material : Bool
  sensitivity : Sensitivity
  executor : ExecutorDefaults
  executorSource : Text
  route : Route
  effort : Option Text
  spawnRequired : Bool
  activeAnalysisEligible : Bool
  activeAnalysisRejection : Option Text
  overrideScope : Text
  overrideRequested : Fields
  overrideEffective : Fields
  overrideRejection : Option Text
  overrideRejections : Fields
  overrideExpiry : Option Int
  budgetRemaining : Nat
  workerBudget : Nat
  advisorBudget : Nat
  decisionFingerprint : Text
  reasonCode : Text

/-- `DEEP_INTENTS`. -/
def deepIntents : List Text :=
  [txt "architecture", txt "claim-adjudication", txt "debugging", txt "migration", txt "security",
   txt "spec-review", txt "high-impact-review"]

def textOr : Option Text → Value
  | some t => .str t
  | none => .null

def intOr : Option Int → Value
  | some n => .int n
  | none => .null

/-- The members of an override that it sets, sorted. -/
def Override.requested (o : Override) : Fields :=
  [(txt "model", o.model), (txt "reasoning_effort", o.reasoningEffort),
    (txt "route", o.route)].filterMap fun m => m.2.map fun t => (m.1, .str t)

def Override.expired (o : Override) (epoch : Int) : Bool := o.expiresAt.any (· ≤ epoch)

section Resolver

variable (p : Platform)

/-- `_intent`. -/
def routingIntent (t : Text) : Text :=
  let normalized := hyphenated (p.lower (strip t))
  (SortedMap.get? normalized
    [(txt "read-only", txt "routine"), (txt "review", txt "high-impact-review"),
     (txt "implementation-support", txt "implementation")]).getD
    (if normalized.isEmpty then txt "routine" else normalized)

/-- `_origin`. -/
def routingOrigin (t : Text) : Text :=
  let isHead (c : Char) := isAsciiLower c || isAsciiDigit c
  match hyphenated (p.lower (strip t)) with
  | [] => []
  | c :: u =>
      if isHead c && u.length ≤ 63 && u.all (fun c => isHead c || (txt "._:-").contains c) then
        c :: u
      else []

/-- `_base_route`. -/
def baseRoute (r : Request) (effective : Nat) (intent : Text) : Lane :=
  let suppressed := classifyModel p r.executor.model = .sol && !r.criticalReview
  let worker (reason : Text) : Lane := ⟨.terraImplementation, some terraEffort, reason⟩
  if r.sensitivity = .red then direct (txt "red-local-only")
  else if r.rawComplexity ≤ 3 then direct (txt "routine-luna-only")
  else if ((r.failureFingerprints.filter (!·.isEmpty)).eraseDups).length = 1 then
    direct (txt "inspect-first-failure-locally")
  else if 4 ≤ effective && effective ≤ 6 then
    if r.independentBlock && intent = txt "implementation" then worker (txt "independent-worker-4-6")
    else direct (txt "direct-4-6")
  else if 7 ≤ effective && effective ≤ 8 then
    if r.independentBlock && intent = txt "implementation" then worker (txt "independent-worker-7-8")
    else if suppressed then direct (txt "sol-self-supervision-suppressed")
    else if deepIntents.contains intent then
      ⟨.solAdvisor, some (solEfforts 8), txt "sol-advisor-7-8"⟩
    else direct (txt "direct-7-8")
  else if 9 ≤ effective && r.independentBlock then worker (txt "independent-worker-9-10")
  else if 9 ≤ effective && deepIntents.contains intent then
    if suppressed then direct (txt "sol-self-supervision-suppressed")
    else ⟨.solAdvisor, some (solEfforts (min effective 10)),
      txt "sol-advisor-" ++ decimalText effective⟩
  else direct (txt "intent-does-not-qualify-for-automatic-subagent")

/-! ## Overrides -/

/-- `_record_override_rejection`. -/
def recordOverrideRejection (existing : Fields) (scope : Text) (requested : Fields)
    (expiry : Option Int) (reason : Text) : Fields :=
  existing.set scope (.obj [(txt "requested", .obj requested), (txt "expires_at", intOr expiry),
    (txt "reason", .str reason)])

/-- The results of `_selected_override`. -/
structure Selection where
  override : Option Override
  scope : Text
  requested : Fields
  expiry : Option Int
  error : Option Text
  rejections : Fields

/-- `_selected_override`. -/
def selectedOverride (r : Request) : Selection :=
  let expired := txt "override-expired"
  match r.taskOverride with
  | some task =>
      if !task.expired r.currentEpoch then
        ⟨some task, txt "task", task.requested, task.expiresAt, none, []⟩
      else
        let rejected :=
          recordOverrideRejection [] (txt "task") task.requested task.expiresAt expired
        match r.sessionOverride with
        | some session =>
            if !session.expired r.currentEpoch then
              -- the expired task fact stays while the session policy applies
              ⟨some session, txt "session", session.requested, session.expiresAt, none, rejected⟩
            else
              ⟨none, txt "task", task.requested, task.expiresAt, some expired,
                recordOverrideRejection rejected (txt "session") session.requested
                  session.expiresAt expired⟩
        | none => ⟨none, txt "task", task.requested, task.expiresAt, some expired, rejected⟩
  | none =>
      match r.sessionOverride with
      | none => ⟨none, txt "none", [], none, none, []⟩
      | some session =>
          if session.expired r.currentEpoch then
            ⟨none, txt "session", session.requested, session.expiresAt, some expired,
              recordOverrideRejection [] (txt "session") session.requested session.expiresAt
                expired⟩
          else ⟨some session, txt "session", session.requested, session.expiresAt, none, []⟩

/-- `_active_analysis_status`: why active analysis is rejected, or none. -/
def activeAnalysisRejection (r : Request) (effective : Nat) : Option Text :=
  if r.sensitivity = .red then some (txt "red-local-only")
  else if effective < 9 then some (txt "active-analysis-requires-effective-complexity-9")
  else if !r.activeAnalysis then some (txt "active-analysis-capability-disabled")
  else if !r.boundedScope then some (txt "active-analysis-requires-bounded-scope")
  else if !r.localVerificationAvailable then
    some (txt "active-analysis-requires-local-verification")
  else if !r.hardGatesPass then some (txt "active-analysis-requires-hard-gates")
  else if (r.explicitClass.getD []).isEmpty then
    some (txt "active-analysis-requires-explicit-budget")
  else if r.remaining = 0 then some (txt "budget-exhausted")
  else none

/-- `_route_for_model`. -/
def routeForModel (model : Option Text) : Option Text :=
  if model = some terraModel then some Route.terraImplementation.name
  else if model = some solModel then some Route.solAdvisor.name
  else none

/-- `_sol_effort`. -/
def solEffort (requested : Option Text) (effective : Nat) (hardGatesPass : Bool) :
    Except Text Text :=
  let ceiling := solEfforts (max 8 (min effective 10))
  let effort := (requested.filter (!·.isEmpty)).getD ceiling
  match effortRank effort with
  | none => .error (txt "unsupported-sol-effort")
  | some rank =>
      let top := (effortRank ceiling).getD 0
      if rank > top then .error (txt "sol-effort-exceeds-effective-complexity")
      else if rank < top && !hardGatesPass then
        .error (txt "sol-effort-downgrade-requires-hard-gates")
      else .ok effort

/-- `_apply_override`. -/
def applyOverride (o : Override) (r : Request) (effective : Nat) (activeOk : Bool) :
    Except Text Lane :=
  match ((o.route.filter (!·.isEmpty)).orElse fun _ => routeForModel o.model).bind Route.ofName with
  | none => .error (txt "unsupported-subagent-override")
  | some route =>
      if o.model.isSome && o.model ≠ route.model then .error (txt "override-model-route-mismatch")
      else if r.sensitivity = .red then .error (txt "red-local-only")
      else if route = .terraImplementation then
        if o.reasoningEffort.isSome && o.reasoningEffort ≠ some terraEffort then
          .error (txt "terra-effort-must-be-high")
        else .ok ⟨route, some terraEffort, txt "explicit-terra-override"⟩
      else if route = .solActiveAnalysis && !activeOk then
        .error (txt "active-analysis-gates-not-met")
      else do
        let effort ← solEffort o.reasoningEffort effective r.hardGatesPass
        .ok ⟨route, some effort, txt "explicit-" ++ route.mode ++ txt "-override"⟩

/-! ## Stages -/

/-- What the stages have decided so far. -/
structure Draft where
  lane : Lane
  rejection : Option Text
  effectiveOverride : Fields
  overrideError : Option Text
  overrideRejections : Fields

/-- A stage that withdraws the lane. -/
def Draft.withdraw (d : Draft) (reason error : Text) : Draft :=
  { d with
    lane := direct reason
    effectiveOverride := []
    overrideError := some (d.overrideError.getD error) }

/-- The override, or the local bookkeeping that is never a model task. -/
def overrideStage (r : Request) (sel : Selection) (effective : Nat) (progress : Bool) (d : Draft) :
    Draft :=
  if progress then
    let reason := if r.sensitivity = .red then txt "red-local-only" else progressReasonCode
    { d with
      lane := direct reason
      rejection := some reason
      overrideError := if sel.requested.isEmpty then none else some progressReasonCode
      overrideRejections :=
        if sel.requested.isEmpty then []
        else recordOverrideRejection d.overrideRejections sel.scope sel.requested sel.expiry
          progressReasonCode }
  else match sel.override, d.overrideError with
    | some o, none =>
        match applyOverride o r effective d.rejection.isNone with
        | .error err =>
            { d with
              overrideError := some err
              overrideRejections := recordOverrideRejection d.overrideRejections sel.scope
                sel.requested o.expiresAt err }
        | .ok lane =>
            { d with
              lane := lane
              effectiveOverride := [(txt "model", textOr lane.route.model),
                (txt "reasoning_effort", textOr lane.effort), (txt "route", .str lane.route.name)] }
    | _, _ => d

/-- RED stays local. -/
def redStage (r : Request) (sel : Selection) (progress : Bool) (d : Draft) : Draft :=
  if r.sensitivity = .red && !progress then
    { d with
      lane := direct (txt "red-local-only")
      effectiveOverride := []
      overrideError :=
        if sel.requested.isEmpty then d.overrideError else some (txt "red-local-only")
      overrideRejections :=
        match sel.override with
        | some o =>
            if sel.requested.isEmpty then d.overrideRejections
            else recordOverrideRejection d.overrideRejections sel.scope sel.requested o.expiresAt
              (txt "red-local-only")
        | none => d.overrideRejections }
  else d

/-- The phase policy, to which overrides are subordinate. -/
def phaseStage (r : Request) (d : Draft) : Draft :=
  if d.lane.route ≠ .none && r.rawComplexity ≤ 3 then
    d.withdraw (txt "direct-1-3") (txt "complexity-band-does-not-delegate")
  else if d.lane.route = .terraImplementation && !r.independentBlock then
    d.withdraw (txt "independent-block-required") (txt "independent-block-required")
  else if d.lane.route.isSol && classifyModel p r.executor.model = .sol && !r.criticalReview then
    d.withdraw (txt "sol-self-supervision-suppressed") (txt "sol-self-supervision-suppressed")
  else d

/-- What the platform can spawn. -/
def platformStage (r : Request) (sel : Selection) (progress : Bool) (d : Draft) : Draft :=
  if !progress && d.lane.route ≠ .none && !r.spawnModelEffort then
    let unavailable := txt "platform-spawn-model-effort-unavailable"
    let withdrawn := d.withdraw unavailable unavailable
    { withdrawn with
      overrideRejections :=
        match sel.override with
        | some o => recordOverrideRejection d.overrideRejections sel.scope sel.requested
            o.expiresAt (withdrawn.overrideError.getD [])
        | none => d.overrideRejections }
  else d

/-- All stages. -/
def draft (r : Request) (sel : Selection) (effective : Nat) (intent : Text) (progress : Bool) :
    Draft :=
  let base : Draft :=
    { lane := baseRoute p r effective intent
      rejection := activeAnalysisRejection r effective
      effectiveOverride := []
      overrideError := sel.error
      overrideRejections := sel.rejections }
  platformStage r sel progress
    (phaseStage p r (redStage r sel progress (overrideStage r sel effective progress base)))

/-! ## The decision -/

/-- `repr` of the executor, as `default=str` writes it. -/
def ExecutorDefaults.text (e : ExecutorDefaults) : Text :=
  txt "ExecutorDefaults(model=" ++ reprText p.toHost e.model ++ txt ", reasoning_effort=" ++
    reprText p.toHost e.reasoningEffort ++ txt ")"

/-- `repr` of the capabilities. -/
def Request.capabilitiesText (r : Request) : Text :=
  let flag (b : Bool) := if b then txt "True" else txt "False"
  txt "RoutingCapabilities(spawn_model_effort=" ++ flag r.spawnModelEffort ++
    txt ", active_analysis=" ++ flag r.activeAnalysis ++ txt ")"

/-- `_fingerprint`: what the identity of a decision is taken from. -/
def fingerprintFields (r : Request) (sel : Selection) (effective : Nat) (intent origin : Text)
    (progress : Bool) (d : Draft) : Fields :=
  [(txt "raw", .int r.rawComplexity), (txt "effective", .int effective),
   (txt "origin", .str origin), (txt "intent", .str intent),
   (txt "impact", .str (if r.material then txt "material" else txt "none")),
   (txt "sensitivity", .str r.sensitivity.name), (txt "executor", .str (r.executor.text p)),
   (txt "route", .str d.lane.route.name), (txt "model", textOr d.lane.route.model),
   (txt "mode", .str d.lane.route.mode), (txt "effort", textOr d.lane.effort),
   (txt "scope", .str sel.scope), (txt "requested", .obj sel.requested),
   (txt "effective_override", .obj d.effectiveOverride),
   (txt "active_ok", .bool d.rejection.isNone), (txt "override_error", textOr d.overrideError),
   (txt "override_rejections", .obj d.overrideRejections),
   (txt "override_expiry", intOr sel.expiry), (txt "capabilities", .str r.capabilitiesText),
   (txt "explicit_budget", textOr r.explicitClass),
   (txt "independent_block", .bool r.independentBlock),
   (txt "independent_block_count", .int r.independentBlockCount),
   (txt "critical_review", .bool r.criticalReview),
   (txt "failure_fingerprints", textsValue r.failureFingerprints),
   (txt "progress_maintenance", .bool progress)]

/-- `resolve_subagent_routing`. `source` is the label of the executor. -/
def resolveSubagentRouting (r : Request) (source : Text) : Decision :=
  let effective := if r.rawComplexity ≤ 3 && r.material then 4 else r.rawComplexity
  let intent := routingIntent p r.intent
  let origin := routingOrigin p r.origin
  let sel := selectedOverride r
  let progress := isProgressMaintenance p origin intent
  let d := draft p r sel effective intent progress
  let spawnRequired := !progress && d.lane.route ≠ .none &&
    (d.lane.route = .terraImplementation || 0 < r.remaining)
  { rawComplexity := r.rawComplexity
    effectiveComplexity := effective
    intent := intent
    origin := origin
    material := r.material
    sensitivity := r.sensitivity
    executor := r.executor
    executorSource := source
    route := d.lane.route
    effort := d.lane.effort
    spawnRequired := spawnRequired
    activeAnalysisEligible := d.rejection.isNone
    activeAnalysisRejection := d.rejection
    overrideScope := sel.scope
    overrideRequested := sel.requested
    overrideEffective := d.effectiveOverride
    overrideRejection := d.overrideError
    overrideRejections := d.overrideRejections
    overrideExpiry := sel.expiry
    budgetRemaining := if progress then 0 else r.remaining
    workerBudget :=
      if d.lane.route = .terraImplementation && spawnRequired then maxTaskJobs else 0
    advisorBudget := if d.lane.route.isSol && spawnRequired then maxTaskAdvisors else 0
    decisionFingerprint :=
      (p.sha256 (p.compactJson (fingerprintFields p r sel effective intent origin progress d))).take
        16
    reasonCode :=
      if !progress && d.lane.route ≠ .none && r.remaining = 0 then txt "budget-exhausted"
      else d.lane.reason }

end Resolver

/-! ## What the stages keep -/

section Stages

variable {p : Platform} {r : Request} {sel : Selection} {progress : Bool} {d : Draft}

theorem phaseStage_route_none (h : d.lane.route = .none) : (phaseStage p r d).lane.route = .none := by
  simp [phaseStage, h, Route.isSol]

theorem platformStage_route_none (h : d.lane.route = .none) :
    (platformStage r sel progress d).lane.route = .none := by
  simp [platformStage, h]

theorem redStage_route_none (hred : r.sensitivity = .red) (h : progress = true → d.lane.route = .none) :
    (redStage r sel progress d).lane.route = .none := by
  cases progress with
  | true => simpa [redStage, hred] using h rfl
  | false => simp [redStage, hred, direct]

theorem overrideStage_progress {effective : Nat} :
    (overrideStage r sel effective true d).lane.route = .none := by
  simp [overrideStage, direct]

/-- A RED request gets no subagent. -/
theorem draft_route_of_red {effective : Nat} {intent : Text} (hred : r.sensitivity = .red) :
    (draft p r sel effective intent progress).lane.route = .none := by
  refine platformStage_route_none (phaseStage_route_none (redStage_route_none hred ?_))
  rintro rfl
  exact overrideStage_progress

/-! The later stages leave the judgement on active analysis alone. -/

@[simp] theorem phaseStage_rejection : (phaseStage p r d).rejection = d.rejection := by
  unfold phaseStage Draft.withdraw
  split_ifs <;> rfl

@[simp] theorem platformStage_rejection :
    (platformStage r sel progress d).rejection = d.rejection := by
  unfold platformStage Draft.withdraw
  split_ifs <;> rfl

@[simp] theorem redStage_rejection : (redStage r sel progress d).rejection = d.rejection := by
  unfold redStage
  split_ifs <;> rfl

theorem overrideStage_rejection {effective : Nat} :
    (overrideStage r sel effective progress d).rejection =
      if progress then
        some (if r.sensitivity = .red then txt "red-local-only" else progressReasonCode)
      else d.rejection := by
  unfold overrideStage
  cases progress with
  | true => rfl
  | false =>
      simp only [Bool.false_eq_true, if_false]
      split
      · split <;> rfl
      · rfl

theorem draft_rejection {effective : Nat} {intent : Text} :
    (draft p r sel effective intent progress).rejection =
      if progress then
        some (if r.sensitivity = .red then txt "red-local-only" else progressReasonCode)
      else activeAnalysisRejection r effective := by
  simp only [draft, platformStage_rejection, phaseStage_rejection, redStage_rejection,
    overrideStage_rejection]

end Stages

/-! ## What a decision says -/

/-- `effective_complexity`. -/
def Request.effective (r : Request) : Nat :=
  if r.rawComplexity ≤ 3 && r.material then 4 else r.rawComplexity

/-- What active analysis needs beside passing hard gates. -/
def Request.ActiveButGates (r : Request) : Prop :=
  r.sensitivity ≠ .red ∧ 9 ≤ r.effective ∧ r.activeAnalysis = true ∧ r.boundedScope = true ∧
    r.localVerificationAvailable = true ∧ (r.explicitClass.getD []).isEmpty = false ∧
    0 < r.remaining

theorem unless_eq_none {c : Prop} [Decidable c] {error : Text} {x : Option Text} :
    (if c then some error else x) = none ↔ ¬c ∧ x = none := by
  split <;> simp [*]

theorem activeAnalysisRejection_eq_none {r : Request} :
    activeAnalysisRejection r r.effective = none ↔ r.hardGatesPass = true ∧ r.ActiveButGates := by
  simp only [activeAnalysisRejection, unless_eq_none, Request.ActiveButGates,
    Bool.not_eq_true', Bool.not_eq_false, not_lt, Nat.pos_iff_ne_zero, Bool.not_eq_true, and_true]
  constructor
  · rintro ⟨hred, hcomplexity, hcapability, hscope, hlocal, hgates, hclass, hremaining⟩
    exact ⟨hgates, hred, hcomplexity, hcapability, hscope, hlocal, hclass, hremaining⟩
  · rintro ⟨hgates, hred, hcomplexity, hcapability, hscope, hlocal, hclass, hremaining⟩
    exact ⟨hred, hcomplexity, hcapability, hscope, hlocal, hgates, hclass, hremaining⟩

section Decisions

variable {p : Platform} {r : Request} {source : Text}

/-- Whether a request is local bookkeeping. -/
def Request.progress (p : Platform) (r : Request) : Bool :=
  isProgressMaintenance p (routingOrigin p r.origin) (routingIntent p r.intent)

@[simp] theorem resolve_sensitivity :
    (resolveSubagentRouting p r source).sensitivity = r.sensitivity := rfl

theorem resolve_route_of_red (h : r.sensitivity = .red) :
    (resolveSubagentRouting p r source).route = .none :=
  draft_route_of_red h

/-- Active analysis is eligible exactly when the hard gates pass and all else
it needs is there. -/
theorem resolve_activeAnalysisEligible :
    (resolveSubagentRouting p r source).activeAnalysisEligible = true ↔
      r.hardGatesPass = true ∧ r.ActiveButGates ∧ r.progress p = false := by
  have h : (resolveSubagentRouting p r source).activeAnalysisEligible =
      (if r.progress p then
        some (if r.sensitivity = .red then txt "red-local-only" else progressReasonCode)
      else activeAnalysisRejection r r.effective).isNone :=
    congrArg Option.isNone draft_rejection
  rw [h]
  cases hp : r.progress p with
  | true => simp
  | false =>
      rw [if_neg Bool.false_ne_true, Option.isNone_iff_eq_none, activeAnalysisRejection_eq_none]
      simp

end Decisions
end RalphVault.Advisor
