import RalphVault.Store.Faults
import RalphVault.Store.Host
import RalphVault.Store.Runs

/-!
# Implementation store — retries

What a call gets that comes again under the operation identifier of a
call that changed the plan, after any run of successful calls. The stored
event decides the answer by its payload hash, but only after the update
was applied to the plan as it is by then.
-/

namespace RalphVault.Store

variable {env : Env}

/-- What the payload hash of a call is taken over. -/
def RecordRequest.payload (r : RecordRequest) : Json :=
  recordOperationPayload r.kind r.narrative r.stateUpdate (r.fields.getD [])

/-- The update of a call is valid on a state: the candidate passes, and so
does the event built from it, once as a first record and once in the place
of the stored one. -/
def StillValid (env : Env) (r : RecordRequest) (s : State) (existing : Event) : Prop :=
  ∃ candidate, candidateState env r s = .ok candidate ∧
    (∃ e, recordedEvent env r s candidate 1 [] = .ok e) ∧
    ∃ e, recordedEvent env r s candidate existing.sequence existing.previousEventHash = .ok e

/-- The arguments of a call are accepted, and its update is valid on the
plan as it is now, next to the event stored under its identifier. -/
def StillAccepted (env : Env) (c : RecordCall) (f : PlanFiles) : Prop :=
  ∃ r s es existing, recordRequest env c = .ok r ∧ Current env r.planId f s es ∧
    operationEvent es r.operation = some existing ∧ StillValid env r s existing

/-! ## A call on a current plan -/

theorem recordEvent_rejected {c : RecordCall} {st : StoreFiles} {err : Fault}
    (h : recordRequest env c = .error err) : recordEvent env c st = (st, .error err) := by
  simp only [recordEvent, h]

/-- On a current plan the store decides once on the candidate and once on
the journal. -/
theorem recordEvent_current {c : RecordCall} {r : RecordRequest} {st : StoreFiles} {s : State}
    {es : List Event} (hr : recordRequest env c = .ok r)
    (h : Current env r.planId (st.plans r.planId) s es) :
    recordEvent env c st = match decideRecord env r s false es with
      | .error err => (st, .error err)
      | .ok (.settled _ _ result) => (st, .ok result)
      | .ok (.append before candidate e) => commitRecord env r before candidate e es.length st := by
  simp only [recordEvent, hr, previewRecord, h.readState]
  cases hc : candidateState env r s with
  | error err => simp [decideRecord, hc, bind, Except.bind]
  | ok candidate =>
      simp only [bind, Except.bind, pure, Except.pure, lockedRecord_current h]
      cases hd : decideRecord env r s false es with
      | error err => simp only [Functor.map, Except.map, StoreFiles.setPlan_self]
      | ok d =>
          cases d with
          | append before candidate e =>
              simp only [Functor.map, Except.map, StoreFiles.setPlan_self]
          | settled t b result =>
              obtain ⟨-, rfl⟩ := decideRecord_settled_state hd
              simp only [Functor.map, Except.map, StoreFiles.setPlan_self, recoverStep,
                Bool.false_eq_true, if_false]

/-- What a call answers that finds its operation in the journal. -/
def retryAnswer (env : Env) (r : RecordRequest) (s : State) (existing : Event) :
    Check StoreResult := do
  let candidate ← candidateState env r s
  let _ ← recordedEvent env r s candidate 1 []
  let e ← recordedEvent env r s candidate existing.sequence existing.previousEventHash
  assertSameOperation existing e r.operation
  pure ⟨false, r.operation, existing.eventId, some s, none, txt "idempotent retry"⟩

/-- A retry finds its record and never appends. -/
theorem recordEvent_retry {c : RecordCall} {r : RecordRequest} {st : StoreFiles} {s : State}
    {es : List Event} {existing : Event} (hr : recordRequest env c = .ok r)
    (h : Current env r.planId (st.plans r.planId) s es)
    (hfound : operationEvent es r.operation = some existing) :
    recordEvent env c st = (st, retryAnswer env r s existing) := by
  rw [recordEvent_current hr h]
  simp only [decideRecord, retryAnswer, hfound, bind, Except.bind, pure, Except.pure]
  cases candidateState env r s with
  | error err => rfl
  | ok candidate =>
      simp only
      cases recordedEvent env r s candidate 1 [] with
      | error err => rfl
      | ok _ =>
          simp only
          cases recordedEvent env r s candidate existing.sequence existing.previousEventHash with
          | error err => rfl
          | ok e =>
              simp only
              cases assertSameOperation existing e r.operation <;> rfl

/-! ## The stored event -/

theorem digest_ne_nil (j : Json) : (digest env j).isEmpty = false := by
  rw [List.isEmpty_eq_false_iff]
  exact isHash_ne_nil (isHash_digest env j)

theorem recordedEvent_payloadHash {r : RecordRequest} {s candidate : State} {n : Nat}
    {previous : Text} {e : Event} (hc : candidateState env r s = .ok candidate)
    (h : recordedEvent env r s candidate n previous = .ok e) :
    e.operationPayloadHash = digest env r.payload := by
  rw [(recordedEvent_built (candidateState_valid hc).1.fields h).1]
  rfl

theorem recordedEvent_operation {r : RecordRequest} {s candidate : State} {n : Nat}
    {previous : Text} {e : Event} (hc : candidateState env r s = .ok candidate)
    (h : recordedEvent env r s candidate n previous = .ok e) : e.operationId = r.operation := by
  rw [(recordedEvent_built (candidateState_valid hc).1.fields h).1]
  rfl

theorem recordRequest_operation {c : RecordCall} {r : RecordRequest}
    (h : recordRequest env c = .ok r) : operationId env c.operation c.fresh = .ok r.operation := by
  simp only [recordRequest, bind_eq_ok, pure, Except.pure, Except.ok.injEq] at h
  obtain ⟨_, -, kind, -, op, hop, fields, -, rfl⟩ := h
  exact hop

/-- Two records with payload hashes are one operation when the hashes
agree. -/
theorem assertSameOperation_iff {existing e : Event} {j j' : Json} {operation : Text}
    (h : existing.operationPayloadHash = digest env j)
    (h' : e.operationPayloadHash = digest env j') :
    assertSameOperation existing e operation = if digest env j = digest env j' then .ok () else
      .error (.idempotencyError
        s!"operation_id {String.ofList operation} was reused with a different payload") := by
  simp only [assertSameOperation, h, h', digest_ne_nil, Bool.not_false, Bool.and_self, if_true,
    require, beq_iff_eq]

theorem operationEvent_first {es tail : List Event} {e : Event} {operation : Text}
    (hfresh : operationEvent es operation = none) (he : e.operationId = operation) :
    operationEvent ((es ++ [e]) ++ tail) operation = some e := by
  simp only [operationEvent] at hfresh ⊢
  simp [List.find?_append, hfresh, he]

/-! ## Errors of a retry -/

theorem not_schema_idempotency (m : String) : (Fault.idempotencyError m).schema ≠ true :=
  Bool.false_ne_true

theorem candidateState_error {r : RecordRequest} {s : State} {m : String} :
    candidateState env r s ≠ .error (.idempotencyError m) := by
  intro h
  simp only [candidateState] at h
  cases hd : applyUpdate s r.stateUpdate r.kind r.narrative.summary r.narrative.nextAction with
  | error e =>
      rw [hd] at h
      cases h
      exact not_schema_idempotency m (SchemaOnly.schema _ hd)
  | ok d =>
      rw [hd] at h
      simp only [bind, Except.bind] at h
      split at h
      · rename_i e hv
        cases h
        exact not_schema_idempotency m (SchemaOnly.schema _ hv)
      · split at h
        · rename_i e ho
          cases h
          simp [validateOwnership, require_eq_error] at ho
        · cases h

theorem recordedEvent_error {r : RecordRequest} {s candidate : State} {n : Nat} {previous : Text}
    {m : String} : recordedEvent env r s candidate n previous ≠ .error (.idempotencyError m) := by
  intro h
  unfold recordedEvent at h
  exact not_schema_idempotency m (SchemaOnly.schema _ h)

theorem provenanceGit_error {source : Dict} {m : String}  :
    provenanceGit source ≠ .error (.idempotencyError m) := by
  intro h
  unfold provenanceGit at h
  split at h
  · simp at h
  · split at h <;> simp at h

/-- Neither the arguments of a call nor its provenance are a conflict. -/
theorem recordRequest_error {c : RecordCall} {m : String} :
    recordRequest env c ≠ .error (.idempotencyError m) := by
  intro h
  simp only [recordRequest, bind_eq_error, pure, Except.pure, reduceCtorEq, and_false, or_false,
    exists_false] at h
  rcases h with h | ⟨_, -, h | ⟨kind, -, h | ⟨op, -, h⟩⟩⟩
  · simp [validatePlanId, bind_eq_error, require_eq_error] at h
  · unfold materialKind at h
    split at h
    · split at h <;> simp at h
    · simp at h
  · unfold operationId at h
    split at h
    · simp at h
    · split at h
      · simp at h
      · exact not_schema_idempotency m (SchemaOnly.schema _ h)
  · cases hp : c.provenance with
    | none => simp [suppliedProvenance, hp] at h
    | some p =>
        rw [hp] at h
        cases hs : provenanceForStore env (some p) with
        | ok d => simp [suppliedProvenance, hs, Functor.map, Except.map] at h
        | error err =>
            simp only [suppliedProvenance, hs, Functor.map, Except.map, Except.error.injEq] at h
            subst h
            simp only [provenanceForStore, bind_eq_error, require_eq_error, pure, Except.pure,
              reduceCtorEq, and_false, exists_false, or_false] at hs
            exact provenanceGit_error hs

/-! ## The answer to a retry -/

/-- Where the update is still valid, the payload hash decides. -/
theorem retryAnswer_of_valid {r : RecordRequest} {s : State} {existing : Event} {j : Json}
    (hexisting : existing.operationPayloadHash = digest env j) (h : StillValid env r s existing) :
    retryAnswer env r s existing =
      if digest env j = digest env r.payload then
        .ok ⟨false, r.operation, existing.eventId, some s, none, txt "idempotent retry"⟩
      else .error (.idempotencyError
        s!"operation_id {String.ofList r.operation} was reused with a different payload") := by
  obtain ⟨candidate, hc, ⟨e₁, he₁⟩, e, he⟩ := h
  have hsame : assertSameOperation existing e r.operation = _ :=
    assertSameOperation_iff hexisting (recordedEvent_payloadHash hc he)
  simp only [retryAnswer, hc, he₁, he, hsame, bind, Except.bind, pure, Except.pure]
  by_cases heq : digest env j = digest env r.payload
  · simp only [if_pos heq]
  · simp only [if_neg heq]

/-- Where it is not, a check of the update fails before the stored event is
looked at. -/
theorem retryAnswer_of_invalid {r : RecordRequest} {s : State} {existing : Event}
    (h : ¬ StillValid env r s existing) :
    ∃ err, retryAnswer env r s existing = .error err ∧ ∀ m, err ≠ .idempotencyError m := by
  simp only [retryAnswer, bind, Except.bind]
  cases hc : candidateState env r s with
  | error err => exact ⟨err, rfl, fun m hm => candidateState_error (hm ▸ hc)⟩
  | ok candidate =>
      simp only
      cases he₁ : recordedEvent env r s candidate 1 [] with
      | error err => exact ⟨err, rfl, fun m hm => recordedEvent_error (hm ▸ he₁)⟩
      | ok e₁ =>
          simp only
          cases he : recordedEvent env r s candidate existing.sequence
              existing.previousEventHash with
          | error err => exact ⟨err, rfl, fun m hm => recordedEvent_error (hm ▸ he)⟩
          | ok e => exact absurd ⟨candidate, hc, ⟨e₁, he₁⟩, e, he⟩ h

theorem Current.unique {planId : Text} {f : PlanFiles} {s s' : State} {es es' : List Event}
    (h : Current env planId f s es) (h' : Current env planId f s' es') : s = s' ∧ es = es' := by
  have hload := (h.loadPlan []).symm.trans (h'.loadPlan [])
  simp only [Prod.mk.injEq, Except.ok.injEq, Option.some.injEq, and_true, true_and] at hload
  exact hload

/-- Two calls say the same: their payloads have one canonical text. -/
def SamePayload (env : Env) (c c' : RecordCall) : Prop :=
  ∃ r r', recordRequest env c = .ok r ∧ recordRequest env c' = .ok r' ∧
    r.payload.canonical = r'.payload.canonical

/-- No collision between the payload hashes of two calls. -/
def NoCollision (env : Env) (c c' : RecordCall) : Prop :=
  ∀ r r', recordRequest env c = .ok r → recordRequest env c' = .ok r' →
    digest env r.payload = digest env r'.payload → r.payload.canonical = r'.payload.canonical

/-- What a repeated call must answer: an identical one the event it made,
any other one a conflict. -/
structure Answers (same : Prop) (res : StoreResult) (answer : Check StoreResult) : Prop where
  identical : same → ∃ res', answer = .ok res' ∧ res'.changed = false ∧
    res'.operationId = res.operationId ∧ res'.eventId = res.eventId
  different : ¬ same → ∃ m, answer = .error (.idempotencyError m)

/-- **Retries.** After any run of successful calls, a call under the
identifier of one that changed the plan writes nothing, and it answers as
it must exactly when its update is still valid on the plan. -/
theorem recordEvent_repeated_iff {c c' : RecordCall} {st st₁ st₂ : StoreFiles} {res : StoreResult}
    (h : recordEvent env c st = (st₁, .ok res)) (hchanged : res.changed = true)
    (hlater : Later env st₁ st₂) (hplan : c'.planId = c.planId)
    (hoperation : operationId env c'.operation c'.fresh = .ok res.operationId)
    (hdigest : NoCollision env c c') :
    (recordEvent env c' st₂).1 = st₂ ∧
      (Answers (SamePayload env c c') res (recordEvent env c' st₂).2 ↔
        StillAccepted env c' (st₂.plans c.planId)) := by
  obtain ⟨r, s, candidate, es, e, next, hr, hrec, m, hres⟩ := recordEvent_changed h hchanged
  have hrplan := recordRequest_planId hr
  have hrop : r.operation = res.operationId := by rw [hres]
  obtain ⟨s₂, tail, hcurrent⟩ := hlater.current hrec.current
  cases hr' : recordRequest env c' with
  | error err =>
      rw [recordEvent_rejected hr']
      refine ⟨rfl, ?_, ?_⟩
      · intro hanswers
        have hdiff : ¬ SamePayload env c c' := by
          rintro ⟨_, r', -, hr'', -⟩
          rw [hr'] at hr''
          cases hr''
        obtain ⟨m, hm⟩ := hanswers.different hdiff
        cases hm
        exact absurd hr' recordRequest_error
      · rintro ⟨r', _, _, _, hr'', -⟩
        rw [hr'] at hr''
        cases hr''
  | ok r' =>
      have hplan' : r'.planId = r.planId := by rw [recordRequest_planId hr', hplan, hrplan]
      have hop' : r'.operation = res.operationId := by
        have := recordRequest_operation hr'
        rw [hoperation] at this
        exact (Except.ok.inj this).symm
      have hfound : operationEvent ((es ++ [e]) ++ tail) r'.operation = some e := by
        rw [hop', ← hrop]
        exact operationEvent_first hrec.fresh (recordedEvent_operation hrec.updated hrec.built)
      rw [← hplan'] at hcurrent
      rw [recordEvent_retry hr' hcurrent hfound]
      refine ⟨rfl, ?_⟩
      have haccepted : StillAccepted env c' (st₂.plans c.planId) ↔ StillValid env r' s₂ e := by
        rw [← hrplan, ← hplan']
        constructor
        · rintro ⟨r'', s', es', existing, hr'', hcurrent', hfound', hvalid⟩
          rw [hr'] at hr''
          cases hr''
          obtain ⟨rfl, rfl⟩ := hcurrent.unique hcurrent'
          rw [hfound] at hfound'
          cases hfound'
          exact hvalid
        · intro hvalid
          exact ⟨r', s₂, _, e, hr', hcurrent, hfound, hvalid⟩
      have hsame : SamePayload env c c' ↔ digest env r.payload = digest env r'.payload := by
        constructor
        · rintro ⟨r₁, r₂, hr₁, hr₂, hcanonical⟩
          rw [hr] at hr₁
          rw [hr'] at hr₂
          cases hr₁
          cases hr₂
          simp only [digest, hcanonical]
        · intro heq
          exact ⟨r, r', hr, hr', hdigest r r' hr hr' heq⟩
      have hpayload := recordedEvent_payloadHash hrec.updated hrec.built
      rw [haccepted]
      constructor
      · intro hanswers
        by_contra hinvalid
        obtain ⟨err, herr, hne⟩ := retryAnswer_of_invalid hinvalid
        by_cases heq : SamePayload env c c'
        · obtain ⟨res', hres', -⟩ := hanswers.identical heq
          rw [herr] at hres'
          cases hres'
        · obtain ⟨m, hm⟩ := hanswers.different heq
          rw [herr] at hm
          exact hne m (Except.error.inj hm)
      · intro hvalid
        rw [retryAnswer_of_valid hpayload hvalid]
        constructor
        · intro heq
          rw [if_pos (hsame.mp heq)]
          exact ⟨_, rfl, rfl, hop', by rw [hres]⟩
        · intro hne
          rw [if_neg fun heq => hne (hsame.mpr heq)]
          exact ⟨_, rfl⟩

end RalphVault.Store
