import RalphVault.Store.System

/-!
# Implementation store — the fold of a journal

`_state_after_event` over the events of a journal, each at its own
timestamp, starting from the state `register_plan` makes. `record_event`
applies its event to the candidate and not to the snapshot before it: the
patch of the event makes the two the same.
-/

namespace RalphVault.Store

section Folds

variable (env : Env)

/-- `_state_after_event` over a journal, in sequence order. -/
def foldEvents : State → List Event → Check State
  | s, [] => .ok s
  | s, e :: es => do
      let next ← stateAfterEvent env s e e.timestamp
      foldEvents next es

/-- A snapshot is the fold of a journal that starts with a registration of
its plan. -/
def FoldsTo (p : Text) (es : List Event) (s : State) : Prop :=
  ∃ c r first rest, registerRequest env c = .ok r ∧ r.planId = p ∧
    registrationEvent env r 1 [] = .ok first ∧ es = first :: rest ∧
    foldEvents env r.initial es = .ok s

/-- A snapshot is the fold of a journal, with its cursor at the end. -/
structure Folded (p : Text) (es : List Event) (s : State) : Prop where
  folds : FoldsTo env p es s
  sequence : s.lastEventSequence = es.length
  hash : s.lastEventHash = lastRecordHash es

end Folds

variable {env : Env}

theorem foldEvents_snoc {es : List Event} {e : Event} :
    ∀ {s : State}, foldEvents env s (es ++ [e]) =
      foldEvents env s es >>= fun t => stateAfterEvent env t e e.timestamp := by
  induction es with
  | nil =>
      intro s
      simp only [List.nil_append, foldEvents, bind, Except.bind]
      cases stateAfterEvent env s e e.timestamp <;> rfl
  | cons d es ih =>
      intro s
      simp only [List.cons_append, foldEvents, bind, Except.bind]
      cases stateAfterEvent env s d d.timestamp with
      | error err => rfl
      | ok next => exact ih

theorem FoldsTo.snoc {p : Text} {es : List Event} {e : Event} {s next : State}
    (h : FoldsTo env p es s) (hnext : stateAfterEvent env s e e.timestamp = .ok next) :
    FoldsTo env p (es ++ [e]) next := by
  obtain ⟨c, r, first, rest, hr, hplan, hfirst, hes, hfold⟩ := h
  refine ⟨c, r, first, rest ++ [e], hr, hplan, hfirst, by rw [hes, List.cons_append], ?_⟩
  rw [foldEvents_snoc, hfold]
  exact hnext

/-! ## What an update cannot touch -/

theorem applyEntries_derived {s : State} {updates : Dict} :
    ∀ {d d' : Dict}, applyEntries s d updates = .ok d' → ∀ k ∈ derivedKeys, k ∉ updates.keys := by
  induction updates with
  | nil =>
      intro d d' _ k _ hk
      cases hk
  | cons m updates ih =>
      intro d d' h k hk hmem
      obtain ⟨k', v⟩ := m
      simp only [applyEntries, bind_eq_ok, require_eq_ok, Bool.not_eq_true'] at h
      obtain ⟨_, hk', h⟩ := h
      rw [Dict.keys, List.map_cons, List.mem_cons] at hmem
      rcases hmem with rfl | hmem
      · simp [hk] at hk'
      · exact ih h k hk hmem

/-- The generation and the creation time of a validated state are members
of its dictionary. -/
theorem decodeState_origin {d : Dict} {expected : Option Text} {t : State}
    (h : decodeState env d expected = .ok t) :
    d.getD (txt "generation") (.num 0) = natJson t.generation ∧
      d.getD (txt "created_at") noText = .str t.createdAt := by
  simp only [decodeState, bind_eq_ok, integer_eq_ok, text_eq_ok, timestamp, pure, Except.pure,
    Except.ok.injEq] at h
  obtain ⟨_, -, _, -, plan, -, _, -, path, -, gen, hgen, status, -, cls, -, phase, -, h⟩ := h
  obtain ⟨objective, -, next, -, decision, -, blockers, -, questions, -, gates, -, h⟩ := h
  obtain ⟨files, -, op, -, seq, -, ehash, -, git, -, writer, -, family, -, source, -, h⟩ := h
  obtain ⟨verified, -, origin, -, intent, -, created, hcreated, updated, -, shash, -, rfl⟩ := h
  exact ⟨hgen.1, hcreated.1⟩

/-- The candidate of a call is of the same origin as the state before it. -/
theorem candidateState_origin {c : RecordCall} {r : RecordRequest} {s candidate : State}
    (hr : recordRequest env c = .ok r) (h : candidateState env r s = .ok candidate) :
    candidate.generation = s.generation ∧ candidate.createdAt = s.createdAt := by
  obtain ⟨d, t, hd, ht, rfl⟩ := candidateState_dict h
  have hkept : ∀ k ∈ [txt "generation", txt "created_at"],
      (d.update (r.fields.getD [])).get? k = s.toDict.get? k := by
    intro k hk
    have hfields : k ∉ (r.fields.getD []).keys := by
      refine recordRequest_fields hr ?_
      revert hk
      revert k
      decide
    rw [Dict.get?_update_of_not_mem hfields]
    have hentries := hd
    simp only [applyUpdate, bind_eq_ok] at hentries
    obtain ⟨d', hd', -⟩ := hentries
    simp only [List.mem_cons, List.not_mem_nil, or_false] at hk
    rcases hk with rfl | rfl
    · exact applyUpdate_frame hd (applyEntries_derived hd' _ (by decide)) (by decide)
        (.inr (by decide)) (.inr (by decide)) (.inr (by decide))
    · exact applyUpdate_frame hd (applyEntries_derived hd' _ (by decide)) (by decide)
        (.inr (by decide)) (.inr (by decide)) (.inr (by decide))
  obtain ⟨hgen, hcreated⟩ := decodeState_origin ht
  rw [Dict.getD, hkept _ (by decide)] at hgen hcreated
  exact ⟨(natJson_inj hgen).symm, (Json.str.inj hcreated).symm⟩

/-! ## The event of a call -/

/-- **The event of a call leads to the same snapshot** from the state before
the call as from its candidate. -/
theorem recordedEvent_fold {c : RecordCall} {r : RecordRequest} {s candidate : State}
    {es : List Event} {e : Event} (hr : recordRequest env c = .ok r) (hs : s.planId = r.planId)
    (hc : candidateState env r s = .ok candidate)
    (he : recordedEvent env r s candidate (es.length + 1) (lastRecordHash es) = .ok e) :
    stateAfterEvent env s e e.timestamp = stateAfterEvent env candidate e r.timestamp := by
  have hcandidate := candidateState_valid hc
  obtain ⟨hgen, hcreated⟩ := candidateState_origin hr hc
  obtain ⟨hbuilt, -⟩ := recordedEvent_built hcandidate.1.fields he
  have htime : e.timestamp = r.timestamp := by
    rw [hbuilt]
    rfl
  have hsame : stateWithEvent s e r.timestamp = stateWithEvent candidate e r.timestamp := by
    rw [hbuilt]
    simp only [stateWithEvent, builtEvent, draftEvent, StatePatch.apply, materialStatePatch,
      changed_getD, changed_getD_before]
    rw [hgen, hcreated, hs, hcandidate.2]
  rw [htime, stateAfterEvent, hsame, stateAfterEvent, hs, hcandidate.2]

/-- The snapshot of a call that appends folds its journal. -/
theorem Folded.record {c : RecordCall} {r : RecordRequest} {s candidate next : State}
    {es : List Event} {e : Event} (h : Folded env r.planId es s)
    (hr : recordRequest env c = .ok r) (hs : s.planId = r.planId)
    (hc : candidateState env r s = .ok candidate)
    (he : recordedEvent env r s candidate (es.length + 1) (lastRecordHash es) = .ok e)
    (hnext : stateAfterEvent env candidate e r.timestamp = .ok next) :
    Folded env r.planId (es ++ [e]) next := by
  have hext := recordedEvent_extends hc he
  have hcandidate := candidateState_valid hc
  obtain ⟨heq, -⟩ := (stateAfterEvent_eq_ok hcandidate.1.fields hext.valid.fields
    (recordedEvent_timestamp hcandidate.1.fields he) (by rw [hext.plan, hcandidate.2])).mp hnext
  rw [← recordedEvent_fold hr hs hc he] at hnext
  refine ⟨h.folds.snoc hnext, ?_, ?_⟩
  · rw [heq, List.length_append]
    exact hext.sequence
  · rw [heq, lastRecordHash, List.getLast?_concat]
    rfl

/-- The snapshot of a registration folds its first record. -/
theorem Folded.register {c : RegisterCall} {r : RegisterRequest} {e : Event} {next : State}
    (hr : registerRequest env c = .ok r) (he : registrationEvent env r 1 [] = .ok e)
    (hnext : stateAfterEvent env r.initial e r.timestamp = .ok next) :
    Folded env r.planId [e] next := by
  have hext := registrationEvent_extends hr he
  obtain ⟨heq, -⟩ := registrationEvent_next_eq hr he hnext
  obtain ⟨htime, -⟩ := registrationEvent_timestamp (registerRequest_valid hr).1.fields he
  refine ⟨⟨c, r, e, [], hr, rfl, he, rfl, ?_⟩, ?_, ?_⟩
  · rw [foldEvents, htime, hnext]
    rfl
  · rw [heq]
    exact hext.sequence
  · rw [heq]
    rfl

end RalphVault.Store
