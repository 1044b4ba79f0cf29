import RalphVault.Advisor.Routing

/-!
# Advisor — the identity of a decision

`resolve_subagent_routing` for every request, not only those of the advisor:
any complexity, any sensitivity, any budget. The fingerprint of a decision
is meant to leave out how many consultations remain.
-/

namespace RalphVault.Advisor

open Memory

/-- `RoutingRequest`, as its callers fill it in. -/
structure RoutingRequest where
  rawComplexity : Int
  intent : Text
  impactClass : Text
  sensitivity : Text
  repositoryDefault : Option ExecutorDefaults
  globalDefault : ExecutorDefaults
  taskOverride : Option Override
  sessionOverride : Option Override
  currentEpoch : Int
  spawnModelEffort : Bool
  activeAnalysis : Bool
  remaining : Int
  explicitClass : Option Text
  boundedScope : Bool
  localVerificationAvailable : Bool
  hardGatesPass : Bool
  independentBlock : Bool
  independentBlockCount : Int
  criticalReview : Bool
  failureFingerprints : List Text
  origin : Text

/-- A decision with the sensitivity its request names. -/
structure RoutingDecision extends Decision where
  sensitivityName : Text

section Resolver

variable (p : Platform)

/-- `_impact`. -/
def isMaterial (impact : Text) : Bool :=
  [txt "material", txt "high", txt "high-impact"].contains (hyphenated (p.lower (strip impact)))

namespace RoutingRequest

def sensitivityName (r : RoutingRequest) : Text := p.upper (strip r.sensitivity)

/-- The request as the stages of the resolver read it. Every sensitivity but
RED is the same to them, and every budget that is used up. -/
def request (r : RoutingRequest) : Request where
  rawComplexity := r.rawComplexity.toNat
  intent := r.intent
  origin := r.origin
  material := isMaterial p r.impactClass
  sensitivity := if r.sensitivityName p = txt "RED" then .red else .green
  executor := r.repositoryDefault.getD r.globalDefault
  taskOverride := r.taskOverride
  sessionOverride := r.sessionOverride
  currentEpoch := r.currentEpoch
  spawnModelEffort := r.spawnModelEffort
  activeAnalysis := r.activeAnalysis
  remaining := r.remaining.toNat
  explicitClass := r.explicitClass
  boundedScope := r.boundedScope
  localVerificationAvailable := r.localVerificationAvailable
  hardGatesPass := r.hardGatesPass
  independentBlock := r.independentBlock
  independentBlockCount := r.independentBlockCount.toNat
  criticalReview := r.criticalReview
  failureFingerprints := r.failureFingerprints

/-- The label of the executor. -/
def executorSource (r : RoutingRequest) : Text :=
  if r.repositoryDefault.isSome then txt "repository" else txt "global"

/-- The draft of the decision. -/
def draft (r : RoutingRequest) : Draft :=
  let q := r.request p
  Advisor.draft p q (selectedOverride q) q.effective (routingIntent p q.intent) (q.progress p)

/-- The arguments of `_fingerprint`. -/
def material (r : RoutingRequest) : Fields :=
  let q := r.request p
  let fields := fingerprintFields p q (selectedOverride q) q.effective (routingIntent p q.intent)
    (routingOrigin p q.origin) (q.progress p) (r.draft p)
  (fields.set (txt "sensitivity") (.str (r.sensitivityName p))).set
    (txt "independent_block_count") (.int r.independentBlockCount)

/-- The digest of `_fingerprint`. -/
def digest (fields : Fields) : Text := (p.sha256 (p.compactJson fields)).take 16

/-- `resolve_subagent_routing`. -/
def resolve (r : RoutingRequest) : Except Text RoutingDecision :=
  if 1 ≤ r.rawComplexity ∧ r.rawComplexity ≤ 10 then
    let decision := resolveSubagentRouting p (r.request p) r.executorSource
    .ok { decision with
      decisionFingerprint := digest p (r.material p)
      sensitivityName := r.sensitivityName p }
  else .error (txt "raw_complexity must be between 1 and 10")

/-- `decision_fingerprint`. -/
def fingerprint (r : RoutingRequest) : Except Text Text :=
  (r.resolve p).map (·.decisionFingerprint)

/-- The same request with another budget. -/
def withRemaining (r : RoutingRequest) (n : Int) : RoutingRequest := { r with remaining := n }

end RoutingRequest
end Resolver

/-! ## What of the budget the stages see -/

section Budget

variable {p : Platform} {q : Request}

/-- What active analysis needs beside a consultation that remains. -/
def Request.ActiveButBudget (p : Platform) (q : Request) : Prop :=
  q.progress p = false ∧ q.sensitivity ≠ .red ∧ 9 ≤ q.effective ∧ q.activeAnalysis = true ∧
    q.boundedScope = true ∧ q.localVerificationAvailable = true ∧ q.hardGatesPass = true ∧
    (q.explicitClass.getD []).isEmpty = false

/-- The budget is asked only when all else is there. -/
theorem activeAnalysisRejection_remaining (n m : Nat)
    (h : ¬q.ActiveButBudget p ∧ q.progress p = false ∨ (n = 0 ↔ m = 0)) :
    activeAnalysisRejection { q with remaining := n } q.effective =
      activeAnalysisRejection { q with remaining := m } q.effective := by
  rcases h with ⟨h, hprogress⟩ | h
  · unfold activeAnalysisRejection
    simp only [Request.ActiveButBudget, hprogress, true_and, not_and] at h
    split_ifs with hred hcomplexity hactive hscope hlocal hgates hclass
    all_goals try rfl
    all_goals
      have hopen := h hred (Nat.not_lt.mp hcomplexity) (by simpa using hactive)
        (by simpa using hscope) (by simpa using hlocal) (by simpa using hgates)
      exact absurd (by simpa using hclass) hopen
  · simp only [activeAnalysisRejection, h]

/-- The stages see of the budget only whether it rejects active analysis. -/
theorem draft_remaining {sel : Selection} {intent : Text} {progress : Bool} (n m : Nat)
    (h : progress = false → activeAnalysisRejection { q with remaining := n } q.effective =
      activeAnalysisRejection { q with remaining := m } q.effective) :
    draft p { q with remaining := n } sel q.effective intent progress =
      draft p { q with remaining := m } sel q.effective intent progress := by
  cases progress with
  | true => rfl
  | false =>
      rw [draft, draft, h rfl]
      rfl

end Budget

namespace RoutingRequest

section Budget

variable {p : Platform} {r : RoutingRequest}

/-- What active analysis needs beside a consultation that remains. -/
def ActiveButBudget (p : Platform) (r : RoutingRequest) : Prop :=
  r.rawComplexity ≤ 10 ∧ (r.request p).ActiveButBudget p

theorem draft_withRemaining {n m : Int} (h : ¬(r.request p).ActiveButBudget p ∨ (0 < n ↔ 0 < m)) :
    (r.withRemaining n).draft p = (r.withRemaining m).draft p := by
  refine draft_remaining (q := r.request p) n.toNat m.toNat fun hprogress =>
    activeAnalysisRejection_remaining (p := p) n.toNat m.toNat ?_
  rcases h with h | h
  · exact .inl ⟨h, hprogress⟩
  · exact .inr (by omega)

theorem material_withRemaining {n m : Int}
    (h : (r.withRemaining n).draft p = (r.withRemaining m).draft p) :
    (r.withRemaining n).material p = (r.withRemaining m).material p := by
  simp only [material, h]
  rfl

/-- The flag of the fingerprint that the budget reaches. -/
theorem material_activeOk :
    (r.material p).get? (txt "active_ok") = some (.bool (r.draft p).rejection.isNone) := by
  simp only [material, Fields.get?_set]
  rfl

theorem draft_rejection_isNone (h : (r.request p).ActiveButBudget p) (n : Int) :
    ((r.withRemaining n).draft p).rejection.isNone = decide (0 < n) := by
  obtain ⟨hprogress, hred, hcomplexity, hactive, hscope, hlocal, hgates, hclass⟩ := h
  have heq : ((r.withRemaining n).draft p).rejection =
      activeAnalysisRejection { r.request p with remaining := n.toNat } (r.request p).effective :=
    draft_rejection.trans (if_neg (ne_true_of_eq_false hprogress))
  rw [heq]
  by_cases hn : 0 < n
  · rw [decide_eq_true hn, Option.isNone_iff_eq_none]
    refine (activeAnalysisRejection_eq_none (r := { r.request p with remaining := n.toNat })).mpr ?_
    exact ⟨hgates, hred, hcomplexity, hactive, hscope, hlocal, hclass, by simpa using hn⟩
  · rw [decide_eq_false hn, ← Bool.not_eq_true, Option.isNone_iff_eq_none]
    intro hnone
    obtain ⟨-, -, -, -, -, -, -, hremaining⟩ :=
      (activeAnalysisRejection_eq_none (r := { r.request p with remaining := n.toNat })).mp hnone
    exact hn (by simpa using hremaining)

theorem fingerprint_eq (h : 1 ≤ r.rawComplexity ∧ r.rawComplexity ≤ 10) :
    r.fingerprint p = .ok (digest p (r.material p)) := by
  simp [fingerprint, resolve, h, Except.map]

theorem fingerprint_error (h : ¬(1 ≤ r.rawComplexity ∧ r.rawComplexity ≤ 10)) :
    r.fingerprint p = .error (txt "raw_complexity must be between 1 and 10") := by
  simp only [fingerprint, resolve, if_neg h]
  rfl

end Budget

/-- **When the budget stays out of the identity of a decision**: always,
unless active analysis lacks nothing but a consultation and just one of the
two budgets has one. -/
theorem fingerprint_budget_iff (p : Platform) (r : RoutingRequest) (n m : Int)
    (hdigest : digest p ((r.withRemaining n).material p) = digest p ((r.withRemaining m).material p) →
      (r.withRemaining n).material p = (r.withRemaining m).material p) :
    (r.withRemaining n).fingerprint p = (r.withRemaining m).fingerprint p ↔
      ¬r.ActiveButBudget p ∨ (0 < n ↔ 0 < m) := by
  by_cases hvalid : 1 ≤ r.rawComplexity ∧ r.rawComplexity ≤ 10
  · rw [fingerprint_eq (r := r.withRemaining n) hvalid, fingerprint_eq (r := r.withRemaining m) hvalid,
      Except.ok.injEq]
    constructor
    · intro heq
      by_cases hopen : r.ActiveButBudget p
      · have hflag := congrArg (fun d => Fields.get? d (txt "active_ok")) (hdigest heq)
        simp only [material_activeOk, draft_rejection_isNone hopen.2, Option.some.injEq,
          Value.bool.injEq, decide_eq_decide] at hflag
        exact .inr hflag
      · exact .inl hopen
    · intro h
      have hdraft : ¬(r.request p).ActiveButBudget p ∨ (0 < n ↔ 0 < m) :=
        h.imp_left fun hclosed hopen => hclosed ⟨hvalid.2, hopen⟩
      rw [material_withRemaining (draft_withRemaining hdraft)]
  · rw [fingerprint_error (r := r.withRemaining n) hvalid,
      fingerprint_error (r := r.withRemaining m) hvalid]
    refine iff_of_true rfl (.inl fun hopen => hvalid ⟨?_, hopen.1⟩)
    have hcomplexity : 9 ≤ (r.request p).effective := hopen.2.2.2.1
    by_contra hlow
    have hzero : (r.request p).rawComplexity = 0 := Int.toNat_eq_zero.mpr (by omega)
    have heffective : (r.request p).effective ≤ 4 := by
      unfold Request.effective
      split <;> omega
    omega

/-- A migration for which active analysis is open. -/
def analysisRequest : RoutingRequest where
  rawComplexity := 9
  intent := txt "migration"
  impactClass := txt "none"
  sensitivity := txt "GREEN"
  repositoryDefault := none
  globalDefault := ⟨txt "gpt-5.6-luna", txt "max"⟩
  taskOverride := none
  sessionOverride := none
  currentEpoch := 0
  spawnModelEffort := true
  activeAnalysis := true
  remaining := 2
  explicitClass := some (txt "active")
  boundedScope := true
  localVerificationAvailable := true
  hardGatesPass := true
  independentBlock := false
  independentBlockCount := 0
  criticalReview := false
  failureFingerprints := []
  origin := []

/-- The last consultation of a migration gives it a new identity. -/
theorem last_consultation_changes_fingerprint :
    (analysisRequest.withRemaining 1).fingerprint Platform.ascii ≠
      (analysisRequest.withRemaining 0).fingerprint Platform.ascii := by
  decide +kernel

theorem fingerprint_budget_iff_migration :
    (analysisRequest.withRemaining 1).fingerprint Platform.ascii =
        (analysisRequest.withRemaining 0).fingerprint Platform.ascii ↔
      ¬analysisRequest.ActiveButBudget Platform.ascii ∨ ((0 : Int) < 1 ↔ (0 : Int) < 0) :=
  fingerprint_budget_iff Platform.ascii analysisRequest 1 0 fun heq =>
    absurd heq (by decide +kernel)

end RoutingRequest
end RalphVault.Advisor
