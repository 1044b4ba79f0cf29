import RalphVault.Advisor.Accounts

/-!
# Advisor — the state of a task

`sol_advisor.py`: the state of a session's task, kept in one file under a
lock, and the functions that change it. Each takes the state the lock gives
it, none when there is no file yet, and returns the state that is written.

Left out: the version and the task signature, which nothing here reads, the
text of a state file that is not one this code wrote, and a lock that cannot
be had, under which nothing is written.
-/

namespace RalphVault.Advisor

open Memory

/-- What a hook finds when it runs. -/
structure Moment where
  /-- `int(time.time())` -/
  now : Int
  /-- `safe_session_id` of the session -/
  session : Text
  /-- `_configured_executor_defaults`, and their label -/
  executor : ExecutorDefaults
  executorSource : Text
  /-- the complexity in `prompt-classification.json`, if it can be read -/
  classification : Option Int

/-- The evidence for routing, and whether a hard gate has failed. -/
structure Evidence where
  spawnModelEffortAvailable : Bool
  activeAnalysisEnabled : Bool
  boundedScope : Bool
  localVerificationAvailable : Bool
  hardGatesPass : Bool
  hardGatesFailed : Option Bool
  budgetClass : Option Text

/-- The verdicts of the advisors. -/
structure Verdicts where
  priorVerdictRef : Text
  priorVerdictFingerprint : Text
  priorVerdictPhase : Option Phase
  activeAdvisorRef : Text
  advisorReused : Bool
  advisorBudgetExhausted : Bool
  advisorStarted : Bool
  advisorCompleted : Bool
  lastConsultationPhase : Option Phase
  stopGuardIssued : Bool

structure State extends Accounts, Evidence, Verdicts where
  taskId : Text
  phase : Phase
  complexity : Nat
  highImpact : Bool
  impactReasons : List Text
  explicitRequest : Bool
  finalReviewEligible : Bool
  consultationEligible : Bool
  stuckEligible : Bool
  failureFingerprints : List Text
  decisionFingerprint : Text
  routing : Option Decision
  origin : Text
  intent : Text
  sensitivity : Sensitivity
  taskOverride : Option Override
  sessionOverride : Option Override
  independentBlock : Bool
  independentBlockCount : Nat
  criticalReview : Bool
  delegationDepth : Nat

def Verdicts.fresh : Verdicts := ⟨[], [], none, [], false, false, false, false, none, false⟩

section Functions

variable (p : Platform)

/-! ## Evidence -/

def spawnModelEffortKeys : List Text :=
  [txt "spawn_model_effort_available", txt "spawnModelEffortAvailable"]
def activeAnalysisKeys : List Text := [txt "active_analysis_enabled", txt "activeAnalysisEnabled"]
def boundedScopeKeys : List Text := [txt "bounded_scope", txt "boundedScope"]
def localVerificationKeys : List Text :=
  [txt "local_verification_available", txt "localVerificationAvailable"]
def hardGatesKeys : List Text := [txt "hard_gates_pass", txt "hardGatesPass"]
def budgetClassKeys : List Text := [txt "budget_class", txt "budgetClass"]

/-- `_routing_bool`, with what is stored; also what `_capture_routing_evidence`
stores of all evidence but the hard gates. -/
def routingBool (d : Payload) (keys : List Text) (stored : Bool) : Bool :=
  match payloadValue d keys with
  | none => stored
  | some v => (parseBool p (some v)).getD false

/-- The part of `_capture_routing_evidence` for the hard gates. -/
def captureHardGates (d : Payload) (e : Evidence) : Evidence :=
  match payloadValue d hardGatesKeys with
  | none => e
  | some v =>
      match parseBool p (some v) with
      | some false => { e with hardGatesPass := false, hardGatesFailed := some true }
      | some true =>
          if e.hardGatesFailed = some true && !isTaskBoundary p d [] then
            { e with hardGatesPass := false }
          else { e with hardGatesPass := true, hardGatesFailed := some false }
      | none => { e with hardGatesPass := false, hardGatesFailed := some false }

/-- `_capture_routing_evidence`. -/
def captureRoutingEvidence (d : Payload) (e : Evidence) : Evidence :=
  captureHardGates p d
    { e with
      spawnModelEffortAvailable :=
        routingBool p d spawnModelEffortKeys e.spawnModelEffortAvailable
      activeAnalysisEnabled := routingBool p d activeAnalysisKeys e.activeAnalysisEnabled
      boundedScope := routingBool p d boundedScopeKeys e.boundedScope
      localVerificationAvailable :=
        routingBool p d localVerificationKeys e.localVerificationAvailable
      budgetClass := match payloadValue d budgetClassKeys with
        | none => e.budgetClass
        | some v => orNone (boundedText 32 (some v)) }

/-! ## Overrides -/

/-- `_override`, from the members of one. -/
def Override.ofMembers (model effort route : Option Value) (expiry : Option Int) :
    Option Override :=
  let o : Override := ⟨orNone (boundedText 64 model), orNone (boundedText 16 effort),
    orNone (boundedText 48 route), expiry⟩
  if o.requested.isEmpty && o.expiresAt.isNone then none else some o

/-- `d.get(k, d.get(other))`. -/
def getOr (d : Fields) (k other : Text) : Option Value := (d.get? k).orElse fun _ => d.get? other

/-- `_override`. -/
def Override.ofValue : Value → Option Override
  | .obj d => Override.ofMembers (Fields.get? d (txt "model"))
      (getOr d (txt "reasoning_effort") (txt "effort")) (Fields.get? d (txt "route"))
      ((getOr d (txt "expires_at") (txt "expiresAt")).bind (asInt p))
  | _ => none

/-- `_override`, of an override that was stored. -/
def Override.again (o : Override) : Option Override :=
  Override.ofMembers (o.model.map .str) (o.reasoningEffort.map .str) (o.route.map .str) o.expiresAt

def taskOverrideKeys : List Text := [txt "task_subagent_override", txt "taskSubagentOverride"]
def sessionOverrideKeys : List Text :=
  [txt "session_subagent_override", txt "sessionSubagentOverride"]

/-- The override a payload carries, or else the one stored. -/
def overrideOf (d : Payload) (keys : List Text) (stored : Option Override) : Option Override :=
  match payloadValue d keys with
  | some v => Override.ofValue p v
  | none => stored

/-- `_capture_payload_overrides`. -/
def capturePayloadOverrides (d : Payload) (s : State) : State :=
  { s with
    taskOverride := overrideOf p d taskOverrideKeys s.taskOverride
    sessionOverride := overrideOf p d sessionOverrideKeys s.sessionOverride }

/-! ## Delegation -/

/-- The independent block of a payload: stated, or measurable and isolated. -/
def statedIndependent (d : Payload) : Option Bool :=
  match payloadValue d [txt "independent_block", txt "independentBlock", txt "independent_task",
    txt "independentTask"] with
  | some (.obj f) =>
      some ((parseBool p (getOr f (txt "measurable") (txt "measurable_success"))).getD false &&
        (parseBool p (getOr f (txt "isolated") (txt "independent"))).getD false)
  | v => parseBool p v

/-- `_capture_delegation_evidence`. -/
def captureDelegationEvidence (d : Payload) (s : State) : State :=
  { s with
    independentBlock := (statedIndependent p d).getD s.independentBlock
    independentBlockCount :=
      match payloadValue d [txt "independent_block_count", txt "independentBlockCount",
        txt "independent_jobs", txt "independentJobs"] with
      | some v => clamp 0 maxTaskJobs ((asInt p v).getD 0)
      | none => s.independentBlockCount
    criticalReview :=
      (parseBool p (payloadValue d [txt "critical_review", txt "criticalReview",
        txt "independent_review", txt "independentReview"])).getD s.criticalReview }

/-! ## Routing -/

/-- The sensitivity of an event, which a continuation must not lower. -/
def foldedSensitivity (s : State) (d : Payload) (prompt : Text) : Sensitivity :=
  let previous := (s.routing.map Decision.sensitivity).elim s.sensitivity s.sensitivity.join
  if isTaskBoundary p d prompt then sensitivityOf p prompt d
  else (sensitivityOf p prompt d).join previous

/-- The intent of an event: a short continuation must not erase it. -/
def foldedIntent (s : State) (d : Payload) (prompt : Text) : Text :=
  let intent := inferIntent p prompt d
  if intent = txt "routine" && s.intent ≠ txt "routine" then s.intent else intent

/-- The request `_routing_decision` makes. -/
def routingRequest (m : Moment) (s : State) (d : Payload) (prompt : Text) : Request where
  rawComplexity := max 1 (min 10 s.complexity)
  intent := foldedIntent p s d prompt
  origin :=
    match (payloadValue d [txt "origin", txt "task_origin", txt "taskOrigin"]).filter truthy with
    | some v => boundedText 64 (some v)
    | none => bounded 64 s.origin
  material := s.highImpact
  sensitivity := foldedSensitivity p s d prompt
  executor := m.executor
  taskOverride :=
    match overrideOf p d taskOverrideKeys (s.taskOverride.bind Override.again) with
    | some o => some o
    | none => if s.explicitRequest then some ⟨some solModel, none, some Route.solAdvisor.name, none⟩
      else none
  sessionOverride := overrideOf p d sessionOverrideKeys (s.sessionOverride.bind Override.again)
  currentEpoch := m.now
  spawnModelEffort := routingBool p d spawnModelEffortKeys s.spawnModelEffortAvailable
  activeAnalysis := routingBool p d activeAnalysisKeys s.activeAnalysisEnabled
  remaining := s.budgetRemaining
  explicitClass :=
    match payloadValue d budgetClassKeys with
    | some v => orNone (boundedText 32 (some v))
    | none => s.budgetClass.bind fun t => orNone (bounded 32 t)
  boundedScope := routingBool p d boundedScopeKeys s.boundedScope
  localVerificationAvailable := routingBool p d localVerificationKeys s.localVerificationAvailable
  hardGatesPass := routingBool p d hardGatesKeys s.hardGatesPass
  independentBlock := s.independentBlock
  independentBlockCount := min maxTaskJobs s.independentBlockCount
  criticalReview := s.criticalReview
  failureFingerprints := s.failureFingerprints.filter (!isBlank ·)

/-- `_routing_decision`. -/
def routingDecision (m : Moment) (s : State) (d : Payload) (prompt : Text) : Decision :=
  resolveSubagentRouting p (routingRequest p m s d prompt) m.executorSource

/-- `_refresh_routing`. -/
def refreshRouting (m : Moment) (d : Payload) (prompt : Text) (s : State) : State :=
  let routing := routingDecision p m s d prompt
  { s with
    routing := some routing
    finalReviewEligible := routing.route.isSol
    consultationEligible := routing.route ≠ .none && routing.spawnRequired
    origin := routing.origin
    intent := routing.intent
    sensitivity := routing.sensitivity }

/-! ## Fingerprints and shape -/

/-- `decision_fingerprint`. -/
def decisionFingerprint (s : State) : Text :=
  hashMaterial p [txt "decision", p.compactJson
    [(txt "task_id", .str s.taskId), (txt "complexity", .int s.complexity),
     (txt "intent", .str s.intent), (txt "sensitivity", .str s.sensitivity.name),
     (txt "high_impact", .bool s.highImpact), (txt "explicit_request", .bool s.explicitRequest),
     (txt "impact_reasons", textsValue (((s.impactReasons.filter (!·.isEmpty)).map p.lower).insertionSort
       fun t u => textLt u t = false)),
     (txt "failure_fingerprints", textsValue s.failureFingerprints),
     (txt "routing_fingerprint",
       .str ((s.routing.map Decision.decisionFingerprint).getD []))]]

def State.stamp (s : State) : State :=
  { s with decisionFingerprint := Advisor.decisionFingerprint p s }

/-- A state file that has no member yet. -/
def State.blank (session : Text) : State where
  toAccounts := .fresh
  toEvidence := ⟨true, false, false, false, false, none, none⟩
  toVerdicts := .fresh
  taskId := hashMaterial p [txt "legacy-task", session]
  phase := .plan
  complexity := 1
  highImpact := false
  impactReasons := []
  explicitRequest := false
  finalReviewEligible := false
  consultationEligible := false
  stuckEligible := false
  failureFingerprints := []
  decisionFingerprint := []
  routing := none
  origin := []
  intent := txt "routine"
  sensitivity := .green
  taskOverride := none
  sessionOverride := none
  independentBlock := false
  independentBlockCount := 0
  criticalReview := false
  delegationDepth := 0

/-- The evidence as it is read back: a false gate of a state without the
marker counts as failed. -/
def Evidence.ensureShape (e : Evidence) : Evidence :=
  { e with
    hardGatesFailed := some (e.hardGatesFailed.getD (e.hardGatesPass == false))
    budgetClass := e.budgetClass.bind fun t => orNone (bounded 32 t) }

/-- `ensure_state_shape` of a state there is. -/
def State.inShape (now : Int) (s : State) : State :=
  State.stamp p
    { s with
      toAccounts := s.toAccounts.ensureShape p now
      toEvidence := s.toEvidence.ensureShape
      activeAdvisorRef := bounded 64 s.activeAdvisorRef
      complexity := max 1 (min 10 s.complexity)
      impactReasons := ((s.impactReasons.filter (!isBlank ·)).map p.lower).take 4
      failureFingerprints := lastItems maxFailureFingerprints s.failureFingerprints
      origin := bounded 64 s.origin
      taskOverride := s.taskOverride.bind Override.again
      sessionOverride := s.sessionOverride.bind Override.again
      independentBlockCount := min maxTaskJobs s.independentBlockCount
      delegationDepth := min 1 s.delegationDepth }

/-- `ensure_state_shape`. -/
def ensureStateShape (m : Moment) (s : Option State) : State :=
  (s.getD (State.blank p m.session)).inShape p m.now

/-! ## Initialisation -/

/-- `merge_existing_state`. -/
def mergeExistingState (m : Moment) (complexity : Nat) (reasons : List Text)
    (highImpact explicitRequest : Bool) (s : State) : State :=
  let s := s.inShape p m.now
  let merged := State.stamp p
    { s with
      complexity := max 1 (min 10 (max s.complexity complexity))
      highImpact := s.highImpact || highImpact
      impactReasons :=
        ((SortedMap.ofList textLt ((((s.impactReasons.filter (!isBlank ·)) ++ reasons).map
          p.lower).map fun t => (t, ()))).map Prod.fst).take 4
      explicitRequest := s.explicitRequest || explicitRequest
      finalReviewEligible := s.finalReviewEligible || highImpact
      consultationEligible := s.consultationEligible || explicitRequest || highImpact }
  if merged.priorVerdictFingerprint ≠ merged.decisionFingerprint then
    { merged with advisorCompleted := false }
  else merged

/-- What an event that continues a task does to its state: its overrides, its
evidence, and the routing. -/
def reroute (m : Moment) (d : Payload) (prompt : Text) (s : State) : State :=
  let s := capturePayloadOverrides p d s
  let s := { s with toEvidence := captureRoutingEvidence p d s.toEvidence }
  refreshRouting p m d prompt (captureDelegationEvidence p d s)

/-- `classification_complexity`. -/
def classificationComplexity (m : Moment) (d : Payload) : Nat :=
  clamp 1 10 ((m.classification.orElse fun _ =>
    match d.get? (txt "complexity") with
    | some v => asInt p v
    | none => some 1).getD 1)

/-- The minimal state of a RED prompt, before it is routed. -/
def redState (m : Moment) (session : Option Override) : State :=
  { State.blank p m.session with
    toEvidence := ⟨false, false, false, false, false, none, none⟩
    taskId := hashMaterial p [txt "red-task", m.session]
    sensitivity := .red
    sessionOverride := session }

/-- `_record_red_local_state`. -/
def recordRedLocalState (m : Moment) (d : Payload) (prompt : Text) (s : Option State) : State :=
  State.stamp p (refreshRouting p m d prompt
    (redState p m ((s.bind State.sessionOverride).bind Override.again)))

/-- The state of a new task, before it is routed. -/
def newTask (m : Moment) (d : Payload) (prompt : Text) (s : Option State) : State :=
  let reasons := impactReasons p prompt
  { State.blank p m.session with
    toEvidence := ⟨true, false, false, false, false, some false, none⟩
    taskId := taskIdentity p m.session prompt
    complexity := classificationComplexity p m d
    highImpact := !reasons.isEmpty
    impactReasons := reasons
    explicitRequest := explicitRequest p prompt
    taskOverride := overrideOf p d taskOverrideKeys none
    sessionOverride :=
      (overrideOf p d sessionOverrideKeys none).orElse fun _ =>
        (s.bind State.sessionOverride).bind Override.again }

/-- The last section of `initialize`, when it begins a task. -/
def beginTask (m : Moment) (d : Payload) (prompt : Text) (s : Option State) : State :=
  let s := newTask p m d prompt s
  let s := { s with toEvidence := captureRoutingEvidence p d s.toEvidence }
  State.stamp p (refreshRouting p m d prompt (captureDelegationEvidence p d s))

/-- What `initialize` does to a state it keeps. -/
def continueTask (m : Moment) (d : Payload) (prompt : Text) (s : State) : State :=
  let reasons := impactReasons p prompt
  State.stamp p (reroute p m d prompt
    (mergeExistingState p m (classificationComplexity p m d) reasons (!reasons.isEmpty)
      (explicitRequest p prompt) s))

/-- `initialize`. `seen` is whether the read before the lock found a state. -/
def initializeTask (m : Moment) (seen : Bool) (d : Payload) (s : Option State) : Option State :=
  let prompt := promptText d
  if prompt.isEmpty then s
  else if redPrompt p prompt then some (recordRedLocalState p m d prompt s)
  else if seen && isContinuation p prompt && !isTaskBoundary p d prompt then
    some (continueTask p m d prompt (ensureStateShape p m s))
  else
    match s with
    | some s =>
        if isTaskBoundary p d prompt then some (beginTask p m d prompt (some s))
        else some (continueTask p m d prompt s)
    | none => some (beginTask p m d prompt none)

/-! ## Reservations -/

/-- `reserve_sol_consultation`. -/
def reserveSol (m : Moment) (d : Payload) (phase : Value) (fingerprint : Text)
    (s : Option State) : (Bool × Text) × Option State :=
  match normalizePhase p (some phase) with
  | none =>
      ((false,
        txt "Sol consultation reservation lacks a valid phase or decision fingerprint."), s)
  | some phase =>
      if fingerprint.isEmpty then
        ((false,
          txt "Sol consultation reservation lacks a valid phase or decision fingerprint."), s)
      else
        let s := ensureStateShape p m s
        let (answer, a) := s.toAccounts.reserveSolConsultation p m.now d phase fingerprint
        (answer, some { s with toAccounts := a })

/-- The arguments of `budget_decision` for a worker. -/
def workerRequest (s : State) (routing : Decision) : SpawnRequest where
  kind := .worker
  sensitivity := s.sensitivity
  executorModel := routing.executor.model
  depth := s.delegationDepth
  independent := s.independentBlock
  criticalReview := s.criticalReview
  failureFingerprints := s.failureFingerprints
  origin := if s.origin.isEmpty then routing.origin else s.origin
  intent := if s.intent.isEmpty then routing.intent else s.intent

/-- Whether the route of a state is that of a worker. -/
def State.routesWorker (s : State) : Bool := s.routing.any (·.route = .terraImplementation)

/-- `reserve_worker_spawn`. -/
def reserveWorker (m : Moment) (d : Payload) (s : Option State) : (Bool × Text) × Option State :=
  let s := ensureStateShape p m s
  match s.routing with
  | some routing =>
      if routing.route = .terraImplementation then
        let (answer, a) := s.toAccounts.reserveWorkerSpawn p m.now d (workerRequest s routing)
        (answer, some { s with toAccounts := a })
      else ((false, txt "Worker route is not eligible for this task."), some s)
  | none => ((false, txt "Worker route is not eligible for this task."), some s)

/-! ## Failures -/

def State.routingFingerprint (s : State) : Text :=
  (s.routing.map Decision.decisionFingerprint).getD []

/-- The first locked section of `observe_failure`: a native spawn of a worker
is settled. With whether the call ends there. -/
def settleSpawn (m : Moment) (d : Payload) (s : Option State) : Bool × Option State :=
  match isNativeSpawn p d, successFromPayload d with
  | true, some success =>
      let s := ensureStateShape p m s
      if s.routesWorker then
        (true, some { s with
          toAccounts := (s.toAccounts.settleWorkerReservation p m.now d success).2 })
      else (false, some s)
  | _, _ => (false, s)

/-- A failure of a command, recorded. -/
def recordFailure (candidate : Text) (s : State) : State :=
  let fingerprint := (p.sha256 candidate).take 16
  let failures :=
    if s.failureFingerprints.contains fingerprint then s.failureFingerprints
    else (s.failureFingerprints ++ [fingerprint]).take maxFailureFingerprints
  let s := State.stamp p { s with failureFingerprints := failures }
  if s.priorVerdictFingerprint ≠ s.decisionFingerprint then { s with advisorCompleted := false }
  else s

/-- Whether failures have made a task stuck, so that it is routed again. -/
def State.turnsStuck (s : State) : Bool := s.highImpact && 2 ≤ s.failureFingerprints.length

/-- What `observe_failure` does to a task that its failures have stuck. -/
def routeStuck (m : Moment) (d : Payload) (s : State) : State :=
  let s := State.stamp p (reroute p m d (promptText d)
    { s with stuckEligible := true, phase := .stuck })
  { s with consultationEligible := s.routing.any fun r => r.route.isSol && r.spawnRequired }

/-- The second locked section of `observe_failure`. -/
def observeFailure (m : Moment) (d : Payload) (s : Option State) : Option State :=
  let candidate := commandText d
  if successFromPayload d ≠ some false then s
  else if isNativeSpawn p d then
    let s := ensureStateShape p m s
    some { s with
      toAccounts :=
        s.toAccounts.releaseFailedSpawnReservation p m.now d s.routingFingerprint }
  else if candidate.isEmpty || redPrompt p candidate then s
  else
    let s := recordFailure p candidate (ensureStateShape p m s)
    some (if s.turnsStuck then routeStuck p m d s else s)

/-! ## Advisors -/

/-- `phase_from_payload`. -/
def phaseFromPayload (d : Payload) (s : State) : Phase := (namedPhase p d).getD s.phase

/-- What becomes of an advisor that starts. -/
inductive StartOutcome where
  /-- no reservation, or more than one, is that of the start -/
  | unmatched
  /-- the start does not say who starts -/
  | anonymous (phase : Phase)
  | reused (phase : Phase)
  | exhausted (phase : Phase)
  | recorded (phase : Phase)
deriving DecidableEq

/-- The state in which a start is judged: its reservations are read twice when
one of them is required. -/
def State.beforeStart (m : Moment) (requireReservation : Bool) (s : State) : State :=
  if requireReservation then
    { s with
      toAccounts :=
        (s.toAccounts.normalizePhaseReservations p m.now).normalizePhaseReservations p m.now }
  else s

/-- The phase of a start. -/
def startPhase (d : Payload) (requireReservation : Bool) (s : State) : Option Phase :=
  if requireReservation then s.toAccounts.reservedPhaseForStart p d s.routingFingerprint
  else some (phaseFromPayload p d s)

/-- Whether an equivalent consultation was recorded before. -/
def State.consulted (s : State) (phase : Phase) : Bool :=
  s.consultedFingerprints.contains s.decisionFingerprint || (s.consultedPhases phase).isSome

def startOutcome (m : Moment) (d : Payload) (requireReservation : Bool) (s : State) :
    StartOutcome :=
  match startPhase p d requireReservation s with
  | none => .unmatched
  | some phase =>
      let popped := s.toAccounts.popReservation p m.now phase
      if requireReservation && (advisorReference p d).isEmpty then .anonymous phase
      else if s.consulted phase then .reused phase
      else if popped.advisorsExhausted p || popped.consultationBudget ≤ popped.consultationCount then
        .exhausted phase
      else .recorded phase

/-- What `mark_advisor` keeps of every advisor that starts, whatever becomes of
it. -/
def State.started (m : Moment) (d : Payload) (phase : Phase) (s : State) : State :=
  { s with
    toAccounts := s.toAccounts.popReservation p m.now phase
    phase := phase
    advisorStarted := true
    activeAdvisorRef := advisorReference p d }

/-- `mark_advisor`, of an advisor that starts, once its reservation is known. -/
def startAdvisor (m : Moment) (d : Payload) (requireReservation : Bool) (s : State) : State :=
  match startOutcome p m d requireReservation s with
  | .unmatched => s
  | .anonymous phase => { s with phase := phase }
  | .reused phase =>
      { s.started p m d phase with advisorReused := true, lastConsultationPhase := some phase }
  | .exhausted phase =>
      { s.started p m d phase with
        toAccounts := (s.toAccounts.popReservation p m.now phase).exhaust p
        advisorBudgetExhausted := true }
  | .recorded phase =>
      let reason := (s.routing.map Decision.reasonCode).getD []
      { s.started p m d phase with
        toAccounts := (s.toAccounts.popReservation p m.now phase).recordStart p phase
          s.decisionFingerprint (if reason.isEmpty then txt "sol-advisor" else reason)
          (spawnBriefBytes d)
        advisorCompleted := false
        advisorReused := false
        advisorBudgetExhausted := false
        lastConsultationPhase := some phase }

/-- The state a start finds. -/
def stateAtStart (m : Moment) (requireReservation : Bool) (s : Option State) : State :=
  (ensureStateShape p m s).beforeStart p m requireReservation

/-- `mark_advisor`, of an advisor that starts. -/
def markStarted (m : Moment) (d : Payload) (requireReservation : Bool) (s : Option State) :
    State :=
  startAdvisor p m d requireReservation (stateAtStart p m requireReservation s)

/-- `completion_matches_active_advisor`. -/
def completionMatchesActiveAdvisor (d : Payload) (s : State) : Bool :=
  !(bounded 64 s.activeAdvisorRef).isEmpty && s.advisorStarted &&
    advisorReference p d == bounded 64 s.activeAdvisorRef

/-- The bytes an advisor returned. -/
def receivedBytes (d : Payload) : Nat :=
  let text (k : Text) := (((d.get? k).filter truthy).map (pyStr p.toHost))
  min (utf8Len ((text (txt "result")).getD ((text (txt "output")).getD []))) maxPacketBytes

/-- `mark_advisor`, of an advisor that completes. -/
def markCompleted (m : Moment) (d : Payload) (requireMatch : Bool) (s : Option State) : State :=
  let s := ensureStateShape p m s
  let phase := phaseFromPayload p d s
  if requireMatch && !(hasCompletionEvidence d && completionMatchesActiveAdvisor p d s) then s
  else
    let reference := advisorReference p d
    { s with
      toAccounts := s.toAccounts.recordReceived p (receivedBytes p d)
      phase := phase
      advisorCompleted := true
      priorVerdictFingerprint := s.decisionFingerprint
      priorVerdictPhase := some phase
      priorVerdictRef := if reference.isEmpty then s.priorVerdictRef else reference
      advisorReused := false
      activeAdvisorRef := [] }

/-- `mark_stop_guard`. -/
def markStopGuard (m : Moment) (s : Option State) : State :=
  { ensureStateShape p m s with phase := .final, stopGuardIssued := true }

end Functions

def demoMoment : Moment :=
  ⟨1000, txt "s", ⟨txt "gpt-5.6-luna", txt "max"⟩, txt "fallback", none⟩

end RalphVault.Advisor
