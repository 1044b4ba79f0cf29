import RalphVault.Store.Host
import RalphVault.Store.Transition

/-!
# Implementation store — the material fields of a snapshot

What `record_event` does to the fields a caller can see. The snapshot is
rebuilt from the candidate, the event and the patch of the event; the
main result says exactly when that gives the candidate back.
-/

namespace RalphVault.Store

/-! ## Dictionaries under updates -/

namespace Dict

theorem get?_update_of_not_mem {k : Text} {e : Dict} (h : k ∉ e.keys) :
    ∀ d : Dict, get? k (update d e) = get? k d := by
  induction e with
  | nil => exact fun _ => rfl
  | cons m e ih =>
      intro d
      obtain ⟨k', v⟩ := m
      simp only [keys, List.map_cons, List.mem_cons, not_or] at h
      have hrest := ih h.2 (set k' v d)
      rw [get?_set, if_neg (Ne.symm h.1)] at hrest
      exact hrest

end Dict

theorem kindStatus_get? {k : Text} (h : k ≠ txt "status") (kind : EventKind) (d : Dict) :
    (kindStatus kind d).get? k = d.get? k := by
  cases kind <;> simp only [kindStatus] <;>
    first
      | rfl
      | (rw [Dict.get?_set, if_neg (Ne.symm h)])
      | (split
         · rw [Dict.get?_set, if_neg (Ne.symm h)]
         · rfl)

/-- The kinds that set the status. -/
def setsStatus (kind : EventKind) : Bool :=
  kind = .completed || kind = .reopened || kind = .blockerOpened || kind = .blockerResolved

theorem kindStatus_of_not_setsStatus {kind : EventKind} (h : setsStatus kind = false) (d : Dict) :
    kindStatus kind d = d := by
  cases kind <;> simp_all [kindStatus, setsStatus]

/-- Except for `git`, the update ends up in the dictionary as it is. -/
theorem applyEntries_update {s : State} {k : Text} (hgit : k ≠ txt "git") {updates : Dict} :
    ∀ {d d₀ d' : Dict}, d.get? k = d₀.get? k → applyEntries s d updates = .ok d' →
      d'.get? k = (d₀.update updates).get? k := by
  induction updates with
  | nil =>
      intro d d₀ d' hsame hd
      cases hd
      exact hsame
  | cons m updates ih =>
      intro d d₀ d' hsame hd
      obtain ⟨k', v⟩ := m
      simp only [applyEntries, bind_eq_ok] at hd
      obtain ⟨_, -, hd⟩ := hd
      refine ih ?_ hd
      simp only [Dict.get?_set]
      by_cases hk : k' = k
      · rw [if_pos hk, if_pos hk]
        cases v <;> simp only [hk, if_neg hgit]
      · rw [if_neg hk, if_neg hk, hsame]

theorem applyEntries_get? {s : State} {k : Text} {updates : Dict} (h : k ∉ updates.keys) :
    ∀ {d d' : Dict}, applyEntries s d updates = .ok d' → d'.get? k = d.get? k := by
  induction updates with
  | nil =>
      intro d d' hd
      cases hd
      rfl
  | cons m updates ih =>
      intro d d' hd
      obtain ⟨k', v⟩ := m
      simp only [Dict.keys, List.map_cons, List.mem_cons, not_or] at h
      simp only [applyEntries, bind_eq_ok] at hd
      obtain ⟨_, -, hd⟩ := hd
      rw [ih h.2 hd, Dict.get?_set, if_neg (Ne.symm h.1)]

/-! ## What a call names -/

/-- The fields a call names: those of the state update, those its kind and
its texts set, and those of its provenance. -/
def RecordRequest.named (r : RecordRequest) : List Text :=
  r.stateUpdate.keys ++ (r.fields.getD []).keys ++
    (if r.narrative.nextAction.isEmpty then [] else [txt "next_action"]) ++
    (if r.kind = .decision ∧ r.narrative.summary ≠ [] then [txt "latest_decision"] else []) ++
    (if setsStatus r.kind then [txt "status"] else [])

/-- The state with the caller's update written into it. -/
def RecordRequest.written (r : RecordRequest) (s : State) : Dict := s.toDict.update r.stateUpdate

/-- Whether the identifier of the decision is filled in by the store. -/
def RecordRequest.linksDecision (r : RecordRequest) : Bool :=
  r.kind = .decision && !r.narrative.summary.isEmpty

theorem RecordRequest.linksDecision_iff {r : RecordRequest} :
    r.linksDecision = true ↔ r.kind = .decision ∧ r.narrative.summary ≠ [] := by
  simp [linksDecision]

/-- The fields a caller can name: those of a patch, and the writer. -/
def materialKeys : List Text := txt "writer_session_id" :: statePatchKeys

section Candidate

variable {env : Env} {r : RecordRequest} {s candidate : State}

theorem candidateState_valid (h : candidateState env r s = .ok candidate) :
    candidate.Valid env stateHardLimitBytes ∧ candidate.planId = r.planId := by
  simp only [candidateState, bind_eq_ok, pure, Except.pure, Except.ok.injEq] at h
  obtain ⟨d, -, c, hc, _, -, rfl⟩ := h
  obtain ⟨hvalid, hplan, -⟩ := validateState_sound env hc
  exact ⟨hvalid, (hplan _ rfl).symm⟩

theorem applyUpdate_nextAction {updates d : Dict} {kind : EventKind} {summary next : Text}
    (h : applyUpdate s updates kind summary next = .ok d) :
    d.get? (txt "next_action") =
      if next = [] then (s.toDict.update updates).get? (txt "next_action")
      else some (.str next) := by
  simp only [applyUpdate, bind_eq_ok, pure, Except.pure, Except.ok.injEq] at h
  obtain ⟨entries, hentries, rfl⟩ := h
  have hentry : entries.get? (txt "next_action") =
      (s.toDict.update updates).get? (txt "next_action") := by
    refine applyEntries_update (by decide) ?_ hentries
    rw [Dict.get?_set, if_neg (by decide)]
  have hkind : ∀ d, (kindStatus kind d).get? (txt "next_action") = d.get? (txt "next_action") :=
    kindStatus_get? (by decide) kind
  have hdecision : ∀ (d : Dict) (j : Json),
      (if kind = .decision ∧ summary ≠ [] then d.set (txt "latest_decision") j else d).get?
        (txt "next_action") = d.get? (txt "next_action") := by
    intro d j
    split
    · rw [Dict.get?_set, if_neg (by decide)]
    · rfl
  rw [hkind, hdecision]
  by_cases hnext : next = []
  · simp only [hnext, List.isEmpty_nil, if_true, hentry]
  · rw [if_neg (by simpa using hnext), if_neg hnext, Dict.get?_set, if_pos rfl]

theorem applyUpdate_decision {updates d : Dict} {kind : EventKind} {summary next : Text}
    (h : applyUpdate s updates kind summary next = .ok d) :
    d.get? (txt "latest_decision") =
      if kind = .decision ∧ summary ≠ [] then some (decisionJson (some ⟨txt "pending", summary⟩))
      else (s.toDict.update updates).get? (txt "latest_decision") := by
  simp only [applyUpdate, bind_eq_ok, pure, Except.pure, Except.ok.injEq] at h
  obtain ⟨entries, hentries, rfl⟩ := h
  have hentry : entries.get? (txt "latest_decision") =
      (s.toDict.update updates).get? (txt "latest_decision") := by
    refine applyEntries_update (by decide) ?_ hentries
    rw [Dict.get?_set, if_neg (by decide)]
  rw [kindStatus_get? (by decide)]
  by_cases hd : kind = .decision ∧ summary ≠ []
  · rw [if_pos hd, if_pos hd, Dict.get?_set, if_pos rfl]
    rfl
  · rw [if_neg hd, if_neg hd]
    split
    · exact hentry
    · rw [Dict.get?_set, if_neg (by decide), hentry]

/-- What the call does not name is still the member of the state. -/
theorem applyUpdate_frame {updates d : Dict} {kind : EventKind} {summary next k : Text}
    (h : applyUpdate s updates kind summary next = .ok d) (hupdate : k ∉ updates.keys)
    (hhash : k ≠ txt "semantic_hash") (hnext : next = [] ∨ k ≠ txt "next_action")
    (hdecision : ¬ (kind = .decision ∧ summary ≠ []) ∨ k ≠ txt "latest_decision")
    (hstatus : setsStatus kind = false ∨ k ≠ txt "status") :
    d.get? k = s.toDict.get? k := by
  simp only [applyUpdate, bind_eq_ok, pure, Except.pure, Except.ok.injEq] at h
  obtain ⟨entries, hentries, rfl⟩ := h
  have hbase : entries.get? k = s.toDict.get? k := by
    rw [applyEntries_get? hupdate hentries, Dict.get?_set, if_neg (Ne.symm hhash)]
  have hkind : ∀ d, (kindStatus kind d).get? k = d.get? k := by
    intro d
    rcases hstatus with hsets | hne
    · rw [kindStatus_of_not_setsStatus hsets]
    · exact kindStatus_get? hne kind d
  have hwithNext : (if next.isEmpty = true then entries
      else entries.set (txt "next_action") (.str next)).get? k = s.toDict.get? k := by
    by_cases hempty : next = []
    · rw [if_pos (by simpa using hempty), hbase]
    · rw [if_neg (by simpa using hempty), Dict.get?_set,
        if_neg (Ne.symm (hnext.resolve_left hempty)), hbase]
  rw [hkind]
  by_cases hd : kind = .decision ∧ summary ≠ []
  · rw [if_pos hd, Dict.get?_set, if_neg (Ne.symm (hdecision.resolve_left (not_not_intro hd))),
      hwithNext]
  · rw [if_neg hd, hwithNext]

/-- The dictionary a candidate is read from: the updated state, and the
provenance fields over it. -/
theorem candidateState_dict (h : candidateState env r s = .ok candidate) :
    ∃ d t, applyUpdate s r.stateUpdate r.kind r.narrative.summary r.narrative.nextAction = .ok d ∧
      decodeState env (d.update (r.fields.getD [])) (some r.planId) = .ok t ∧
      candidate = t.rehashed env := by
  simp only [candidateState, bind_eq_ok, pure, Except.pure, Except.ok.injEq] at h
  obtain ⟨d, hd, c, hc, _, -, rfl⟩ := h
  obtain ⟨-, -, t, ht, rfl⟩ := validateState_sound env hc
  exact ⟨d, t, hd, ht, rfl⟩

/-- A member of a dictionary that is the member of a well-formed state is
read back as it is. -/
theorem decodeState_member {d : Dict} {expected : Option Text} {t : State}
    (h : decodeState env d expected = .ok t) (hs : s.FieldsOk env) {k : Text}
    (hk : k ∈ materialKeys) (hd : d.get? k = s.toDict.get? k) :
    t.toDict.get? k = s.toDict.get? k := by
  have hget : ∀ {k : Text} {j : Json} (dflt : Json), d.get? k = s.toDict.get? k →
      s.toDict.get? k = some j → d.getD k dflt = j := by
    intro k j dflt h1 h2
    rw [Dict.getD, h1, h2]
    rfl
  simp only [decodeState, bind_eq_ok, planId_eq_ok, repoRelativePath_eq_ok, text_eq_ok,
    identifier_eq_ok, textList_eq_ok, pathList_eq_ok, hash_eq_ok, timestamp, require_eq_ok,
    enum_eq_ok, boolean_eq_ok, pure, Except.pure, Except.ok.injEq] at h
  obtain ⟨_, -, _, -, plan, -, _, -, path, hpath, gen, -, status, hstatus, cls, hcls, h⟩ := h
  obtain ⟨phase, hphase, objective, hobjective, next, hnext, decision, hdecision, h⟩ := h
  obtain ⟨blockers, hblockers, questions, hquestions, gates, hgates, files, hfiles, h⟩ := h
  obtain ⟨op, -, seq, -, ehash, -, git, hgit, writer, hwriter, family, hfamily, h⟩ := h
  obtain ⟨source, hsource, verified, hverified, origin, horigin, intent, hintent, created, -, h⟩ := h
  obtain ⟨updated, -, shash, -, rfl⟩ := h
  simp only [materialKeys, statePatchKeys, List.mem_cons, List.not_mem_nil, or_false] at hk
  rcases hk with rfl | rfl | rfl | rfl | rfl | rfl | rfl | rfl | rfl | rfl | rfl | rfl | rfl |
    rfl | rfl | rfl | rfl | rfl
  · exact congrArg some (hwriter.1.symm.trans (hget _ hd rfl))
  · exact congrArg some (hpath.1.symm.trans (hget _ hd rfl))
  · exact congrArg some (hstatus.symm.trans (hget _ hd rfl))
  · exact congrArg some (hcls.symm.trans (hget _ hd rfl))
  · exact congrArg some (hphase.1.symm.trans (hget _ hd rfl))
  · exact congrArg some (hobjective.1.symm.trans (hget _ hd rfl))
  · rw [hget _ hd rfl] at hdecision
    have hread := (latestDecision_codec env "latest_decision").complete hs.decision
    rw [Except.ok.inj (hdecision.symm.trans hread)]
    rfl
  · exact congrArg some (hnext.1.symm.trans (hget _ hd rfl))
  · exact congrArg some (hblockers.1.symm.trans (hget _ hd rfl))
  · exact congrArg some (hquestions.1.symm.trans (hget _ hd rfl))
  · rw [hget _ hd rfl] at hgates
    have hread := validation_codec.complete hs.validation
    rw [Except.ok.inj (hgates.symm.trans hread)]
    rfl
  · exact congrArg some (hfiles.1.symm.trans (hget _ hd rfl))
  · rw [hget _ hd rfl] at hgit
    have hread := (git_codec env).complete hs.git
    rw [Except.ok.inj (hgit.symm.trans hread)]
    rfl
  · exact congrArg some (hfamily.symm.trans (hget _ hd rfl))
  · exact congrArg some (hsource.symm.trans (hget _ hd rfl))
  · exact congrArg some (hverified.symm.trans (hget _ hd rfl))
  · exact congrArg some (horigin.1.symm.trans (hget _ hd rfl))
  · exact congrArg some (hintent.1.symm.trans (hget _ hd rfl))

/-- The hash of a snapshot is none of the material members. -/
theorem rehashed_get? (t : State) {k : Text} (hk : k ∈ materialKeys) :
    (t.rehashed env).toDict.get? k = t.toDict.get? k := by
  simp only [materialKeys, statePatchKeys, List.mem_cons, List.not_mem_nil, or_false] at hk
  rcases hk with rfl | rfl | rfl | rfl | rfl | rfl | rfl | rfl | rfl | rfl | rfl | rfl | rfl |
    rfl | rfl | rfl | rfl | rfl <;> rfl

/-- **Frame of an update**: the candidate keeps every material field the
call does not name. -/
theorem candidateState_frame (h : candidateState env r s = .ok candidate) (hs : s.FieldsOk env)
    {k : Text} (hk : k ∈ materialKeys) (hnamed : k ∉ r.named) :
    candidate.toDict.get? k = s.toDict.get? k := by
  obtain ⟨d, t, hd, ht, rfl⟩ := candidateState_dict h
  simp only [RecordRequest.named, List.mem_append, not_or] at hnamed
  obtain ⟨⟨⟨⟨hupdate, hfields⟩, hnext⟩, hdecision⟩, hstatus⟩ := hnamed
  rw [rehashed_get? t hk]
  refine decodeState_member ht hs hk ?_
  rw [Dict.get?_update_of_not_mem hfields]
  refine applyUpdate_frame hd hupdate ?_ ?_ ?_ ?_
  · rintro rfl
    exact absurd hk (by decide)
  · by_cases hempty : r.narrative.nextAction = []
    · exact .inl hempty
    · rw [if_neg (by simpa using hempty), List.mem_singleton] at hnext
      exact .inr hnext
  · by_cases hlinks : r.kind = .decision ∧ r.narrative.summary ≠ []
    · rw [if_pos hlinks, List.mem_singleton] at hdecision
      exact .inr hdecision
    · exact .inl hlinks
  · by_cases hsets : setsStatus r.kind = true
    · rw [if_pos hsets, List.mem_singleton] at hstatus
      exact .inr hstatus
    · exact .inl (by simpa using hsets)

theorem decodeState_nextAction {d : Dict} {expected : Option Text} {t : State}
    (h : decodeState env d expected = .ok t) :
    d.getD (txt "next_action") noText = .str t.nextAction ∧
      latestDecision env (d.getD (txt "latest_decision") .null) "latest_decision" =
        .ok t.latestDecision := by
  simp only [decodeState, bind_eq_ok, text_eq_ok, pure, Except.pure, Except.ok.injEq] at h
  obtain ⟨_, -, _, -, plan, -, _, -, path, -, gen, -, status, -, cls, -, phase, -, h⟩ := h
  obtain ⟨objective, -, next, hnext, decision, hdecision, blockers, -, questions, -, h⟩ := h
  obtain ⟨gates, -, files, -, op, -, seq, -, ehash, -, git, -, writer, -, family, -, h⟩ := h
  obtain ⟨source, -, verified, -, origin, -, intent, -, created, -, updated, -, shash, -, rfl⟩ := h
  exact ⟨hnext.1, hdecision⟩

theorem provenanceForStore_keys {p : Option Dict} {f : Dict} (h : provenanceForStore env p = .ok f) :
    f.keys = [txt "git", txt "writer_session_id", txt "model_family", txt "model_source",
      txt "model_verified", txt "origin", txt "intent"] := by
  simp only [provenanceForStore, bind_eq_ok, pure, Except.pure, Except.ok.injEq] at h
  obtain ⟨g, -, _, -, _, -, rfl⟩ := h
  rfl

theorem recordRequest_fields {c : RecordCall} (h : recordRequest env c = .ok r) {k : Text}
    (hk : k ∉ [txt "git", txt "writer_session_id", txt "model_family", txt "model_source",
      txt "model_verified", txt "origin", txt "intent"]) : k ∉ (r.fields.getD []).keys := by
  simp only [recordRequest, bind_eq_ok, pure, Except.pure, Except.ok.injEq] at h
  obtain ⟨_, -, kind, -, op, -, fields, hfields, rfl⟩ := h
  cases hp : c.provenance with
  | none =>
      rw [hp] at hfields
      cases hfields
      simp [Dict.keys]
  | some p =>
      rw [hp] at hfields
      simp only [suppliedProvenance, map_eq_ok] at hfields
      obtain ⟨f, hf, rfl⟩ := hfields
      rw [Option.getD_some, provenanceForStore_keys hf]
      exact hk

/-- The next action of a candidate: the one the call gives, or else what the
updated state says. -/
theorem candidateState_nextAction {c : RecordCall} (hr : recordRequest env c = .ok r)
    (h : candidateState env r s = .ok candidate) :
    if r.narrative.nextAction = [] then
      (r.written s).getD (txt "next_action") noText = .str candidate.nextAction
    else candidate.nextAction = r.narrative.nextAction := by
  obtain ⟨d, t, hd, ht, rfl⟩ := candidateState_dict h
  have hread := (decodeState_nextAction ht).1
  rw [Dict.getD, Dict.get?_update_of_not_mem (recordRequest_fields hr (by decide)),
    applyUpdate_nextAction hd] at hread
  by_cases hempty : r.narrative.nextAction = []
  · rw [if_pos hempty] at hread ⊢
    exact hread
  · rw [if_neg hempty] at hread ⊢
    exact (Json.str.inj hread).symm

/-- The decision of a candidate: the given one under its provisional
identifier, or else what the updated state says. -/
theorem candidateState_decision {c : RecordCall} (hr : recordRequest env c = .ok r)
    (h : candidateState env r s = .ok candidate) :
    if r.linksDecision then
      candidate.latestDecision = some ⟨txt "pending", r.narrative.summary⟩
    else latestDecision env ((r.written s).getD (txt "latest_decision") .null) "latest_decision" =
      .ok candidate.latestDecision := by
  obtain ⟨d, t, hd, ht, rfl⟩ := candidateState_dict h
  have hread := (decodeState_nextAction ht).2
  rw [Dict.getD, Dict.get?_update_of_not_mem (recordRequest_fields hr (by decide)),
    applyUpdate_decision hd] at hread
  by_cases hlinks : r.linksDecision = true
  · rw [if_pos hlinks]
    rw [if_pos (RecordRequest.linksDecision_iff.mp hlinks), Option.getD_some] at hread
    simp only [decisionJson, latestDecision, object, bind_eq_ok, Except.ok.injEq,
      exists_eq_left', identifier_eq_ok, text_eq_ok, pure, Except.pure] at hread
    obtain ⟨_, -, id, ⟨hid, -⟩, summary, ⟨hsum, -⟩, hd⟩ := hread
    have hid : txt "pending" = id := Json.str.inj hid
    have hsum : r.narrative.summary = summary := Json.str.inj hsum
    rw [hid, hsum]
    exact hd.symm
  · rw [if_neg hlinks]
    rw [if_neg fun hd => hlinks (RecordRequest.linksDecision_iff.mpr hd)] at hread
    exact hread

end Candidate

/-! ## Inverting a call -/

section Calls

variable {env : Env}

theorem readSnapshot_valid {planId : Text} {label : String} {f : PlanFiles} {s : State}
    (h : readSnapshot env planId label f = .ok (some s)) :
    s.Valid env stateHardLimitBytes ∧ s.planId = planId := by
  unfold readSnapshot at h
  cases hf : f.snapshot with
  | none => simp [readJson, hf] at h
  | some j =>
      simp only [readJson, hf] at h
      split at h
      · simp at h
      · cases hv : object j label >>= fun d =>
            validateState env d (some planId) stateHardLimitBytes with
        | error e => simp [hv] at h
        | ok b =>
            rw [hv] at h
            cases h
            simp only [bind_eq_ok] at hv
            obtain ⟨d, -, hd⟩ := hv
            obtain ⟨hvalid, hplan, -⟩ := validateState_sound env hd
            exact ⟨hvalid, (hplan _ rfl).symm⟩

theorem quarantineMalformed_ok {f : PlanFiles} {r : Check (Option State)} {s : State}
    (h : (quarantineMalformed f r).2 = .ok (some s)) : r = .ok (some s) := by
  unfold quarantineMalformed at h
  split at h
  · simp at h
  · exact h

theorem reconcileState_valid {s t : State} {es : List Event} {timestamp : Text} {b : Bool}
    (hs : s.Valid env stateHardLimitBytes) (h : reconcileState env s es timestamp = .ok (t, b)) :
    t.Valid env stateHardLimitBytes ∧ t.planId = s.planId := by
  simp only [reconcileState, bind_eq_ok] at h
  obtain ⟨_, -, h⟩ := h
  split at h
  · cases h
    exact ⟨hs, rfl⟩
  · simp only [bind_eq_ok, pure, Except.pure, Except.ok.injEq, Prod.mk.injEq] at h
    obtain ⟨u, -, v, hv, rfl, rfl⟩ := h
    obtain ⟨hvalid, hplan, -⟩ := validateState_sound env hv
    exact ⟨hvalid, (hplan _ rfl).symm⟩

theorem reconstructState_valid {planId : Text} {es : List Event} {timestamp : Text} {t : State}
    (h : reconstructState env planId es timestamp = .ok t) :
    t.Valid env stateHardLimitBytes ∧ t.planId = planId := by
  cases es with
  | nil => simp [reconstructState] at h
  | cons e es =>
      simp only [reconstructState, bind_eq_ok] at h
      obtain ⟨s, -, u, -, hv⟩ := h
      obtain ⟨hvalid, hplan, -⟩ := validateState_sound env hv
      exact ⟨hvalid, (hplan _ rfl).symm⟩

/-- The state a writer works on is a validated snapshot of the plan. -/
theorem loadPlan_valid {planId timestamp : Text} {f f' : PlanFiles} {s : State} {b : Bool}
    {es : List Event} (h : loadPlan env planId timestamp f = (f', .ok (some (s, b), es))) :
    s.Valid env stateHardLimitBytes ∧ s.planId = planId := by
  simp only [loadPlan, Prod.mk.injEq, bind_eq_ok] at h
  obtain ⟨-, snapshot, hsnapshot, es', -, h⟩ := h
  cases snapshot with
  | none =>
      cases es' with
      | nil => simp [pure, Except.pure] at h
      | cons e es' =>
          simp only [bind_eq_ok, pure, Except.pure, Except.ok.injEq, Prod.mk.injEq,
            Option.some.injEq] at h
          obtain ⟨t, ht, ⟨rfl, -⟩, -⟩ := h
          exact reconstructState_valid ht
  | some t =>
      simp only [bind_eq_ok, pure, Except.pure, Except.ok.injEq, Prod.mk.injEq,
        Option.some.injEq] at h
      obtain ⟨_, -, ⟨u, b'⟩, hr, heq, -⟩ := h
      cases heq
      have ht := readSnapshot_valid (quarantineMalformed_ok hsnapshot)
      have hs := reconcileState_valid ht.1 hr
      exact ⟨hs.1, hs.2.trans ht.2⟩

/-- What happens in a call that changes the plan: the state and the journal
it finds, its candidate, the event it appends and the snapshot it
publishes. -/
structure Recorded (env : Env) (r : RecordRequest) (f f' : PlanFiles) (s candidate : State)
    (es : List Event) (e : Event) (next : State) : Prop where
  loaded : ∃ f₁ b f₂, loadPlan env r.planId r.timestamp f = (f₁, .ok (some (s, b), es)) ∧
    appendEvent f₁ e es.length = .ok f₂ ∧ f' = { f₂ with snapshot := some (.obj next.toDict) }
  updated : candidateState env r s = .ok candidate
  fresh : operationEvent es r.operation = none
  built : recordedEvent env r s candidate (es.length + 1) (lastRecordHash es) = .ok e
  applied : stateAfterEvent env candidate e r.timestamp = .ok next

theorem decideRecord_append {r : RecordRequest} {s before candidate : State} {b : Bool}
    {es : List Event} {e : Event}
    (h : decideRecord env r s b es = .ok (.append before candidate e)) :
    before = s ∧ candidateState env r s = .ok candidate ∧
      operationEvent es r.operation = none ∧
      recordedEvent env r s candidate (es.length + 1) (lastRecordHash es) = .ok e := by
  simp only [decideRecord, bind_eq_ok] at h
  obtain ⟨c, hc, _, -, h⟩ := h
  split at h
  · simp [bind_eq_ok, pure, Except.pure] at h
  · rename_i hfresh
    split at h
    · simp [pure, Except.pure] at h
    · simp only [bind_eq_ok, pure, Except.pure, Except.ok.injEq, RecordDecision.append.injEq] at h
      obtain ⟨e', he, rfl, rfl, rfl⟩ := h
      exact ⟨rfl, hc, hfresh, he⟩

theorem decideRecord_settled {r : RecordRequest} {s t : State} {b b' : Bool} {es : List Event}
    {res : StoreResult} (h : decideRecord env r s b es = .ok (.settled t b' res)) :
    res.changed = false := by
  simp only [decideRecord, bind_eq_ok] at h
  obtain ⟨c, hc, _, -, h⟩ := h
  split at h
  · simp only [bind_eq_ok, pure, Except.pure, Except.ok.injEq, RecordDecision.settled.injEq] at h
    obtain ⟨_, -, _, -, -, -, rfl⟩ := h
    rfl
  · split at h
    · simp only [pure, Except.pure, Except.ok.injEq, RecordDecision.settled.injEq] at h
      obtain ⟨-, -, rfl⟩ := h
      rfl
    · simp [bind_eq_ok, pure, Except.pure] at h

theorem lockedRecord_ok {r : RecordRequest} {f f' : PlanFiles} {d : RecordDecision}
    {es : List Event} (h : lockedRecord env r f = (f', .ok (d, es))) :
    ∃ s b, loadPlan env r.planId r.timestamp f = (f', .ok (some (s, b), es)) ∧
      decideRecord env r s b es = .ok d := by
  unfold lockedRecord at h
  cases hload : loadPlan env r.planId r.timestamp f with
  | mk f₁ loaded =>
      simp only [hload, Prod.mk.injEq, bind_eq_ok] at h
      obtain ⟨rfl, ⟨plan, es'⟩, hloaded, h⟩ := h
      cases plan with
      | none => simp at h
      | some sb =>
          obtain ⟨s, b⟩ := sb
          simp only [bind_eq_ok, pure, Except.pure, Except.ok.injEq, Prod.mk.injEq] at h
          obtain ⟨d', hd, rfl, rfl⟩ := h
          exact ⟨s, b, by rw [hloaded], hd⟩

theorem previewRecord_ok {r : RecordRequest} {f f' : PlanFiles}
    (h : previewRecord env r f = (f', .ok ())) : f' = f := by
  unfold previewRecord at h
  split at h <;> simp_all

theorem appendStep_ok {planId : Text} {e : Event} {n : Nat} {st st' : StoreFiles}
    (h : appendStep planId e n st = .ok st') :
    ∃ f, appendEvent (st.plans planId) e n = .ok f ∧ st' = st.setPlan planId f := by
  simp only [appendStep, bind_eq_ok, pure, Except.pure, Except.ok.injEq] at h
  obtain ⟨f, hf, rfl⟩ := h
  exact ⟨f, hf, rfl⟩

/-- A published snapshot is the file's new content. -/
theorem snapshotStep_ok {planId : Text} {s : State} {st st' : StoreFiles}
    (h : snapshotStep planId s st = .ok st') :
    st' = st.setPlan planId { st.plans planId with snapshot := some (.obj s.toDict) } := by
  simp only [snapshotStep, publishSnapshot, publishJson, bind_eq_ok, pure, Except.pure,
    Except.ok.injEq] at h
  obtain ⟨_, ⟨_, ⟨_, -, rfl⟩, rfl⟩, rfl⟩ := h
  rfl

theorem pointerStep_plans (s : State) (force : Bool) (st : StoreFiles) :
    (pointerStep env s force st).1.plans = st.plans := by
  unfold pointerStep
  split
  split <;> rfl

theorem manifestAfter_plans (before next : State) (st : StoreFiles) :
    (manifestAfter env before next st).1.plans = st.plans := by
  unfold manifestAfter
  split
  · rfl
  · exact pointerStep_plans next false st

/-- **Inversion of a changing call.** -/
theorem recordEvent_changed {c : RecordCall} {st st' : StoreFiles} {res : StoreResult}
    (h : recordEvent env c st = (st', .ok res)) (hchanged : res.changed = true) :
    ∃ r s candidate es e next, recordRequest env c = .ok r ∧
      Recorded env r (st.plans r.planId) (st'.plans r.planId) s candidate es e next ∧
      ∃ m, res = ⟨true, r.operation, e.eventId, some next, m, []⟩ := by
  unfold recordEvent at h
  cases hreq : recordRequest env c with
  | error err => simp [hreq] at h
  | ok r =>
      simp only [hreq] at h
      split at h
      · simp at h
      · rename_i f hpreview
        have hf := previewRecord_ok hpreview
        subst hf
        split at h
        · simp at h
        · -- a settled call reports no change
          rename_i f' s b result es hlocked
          obtain ⟨s', b', -, hd⟩ := lockedRecord_ok hlocked
          have hsettled := decideRecord_settled hd
          split at h
          · simp at h
          · simp only [Prod.mk.injEq, Except.ok.injEq] at h
            rw [← h.2, hsettled] at hchanged
            exact absurd hchanged (by decide)
        · rename_i f' before candidate e es hlocked
          obtain ⟨s, b, hload, hd⟩ := lockedRecord_ok hlocked
          obtain ⟨rfl, hc, hfresh, he⟩ := decideRecord_append hd
          unfold commitRecord at h
          split at h
          · simp at h
          · rename_i st₁ happend
            obtain ⟨f₂, hf₂, rfl⟩ := appendStep_ok happend
            rw [StoreFiles.setPlan_plans] at hf₂
            split at h
            · simp at h
            · rename_i next st₂ hnext
              simp only [bind_eq_ok, map_eq_ok, Prod.mk.injEq] at hnext
              obtain ⟨next', hafter, st₃, hsnap, rfl, rfl⟩ := hnext
              simp only [Prod.mk.injEq, map_eq_ok] at h
              obtain ⟨hst, m, -, hres⟩ := h
              refine ⟨r, before, candidate, es, e, next', rfl,
                ⟨⟨f', b, f₂, hload, hf₂, ?_⟩, hc, hfresh, he, hafter⟩, m, hres.symm⟩
              rw [← hst, manifestAfter_plans, snapshotStep_ok hsnap, StoreFiles.setPlan_plans,
                StoreFiles.setPlan_plans]

end Calls

/-! ## The material fields after a call -/

/-- The material part of a snapshot: everything but the cursor, and without
the identifier of the decision when `unlinked`. -/
def State.material (unlinked : Bool) (s : State) : State :=
  { s with
    generation := 0
    lastOperationId := []
    lastEventSequence := 0
    lastEventHash := []
    updatedAt := []
    semanticHash := []
    latestDecision :=
      if unlinked then s.latestDecision.map fun d => { d with eventId := [] }
      else s.latestDecision }

/-- The published snapshot has the material fields of the candidate, and a
field the call does not name has its previous value. -/
structure KeepsMaterial (r : RecordRequest) (s candidate next : State) : Prop where
  same : next.material r.linksDecision = candidate.material r.linksDecision
  unnamed : ∀ k ∈ materialKeys, k ∉ r.named → next.toDict.get? k = s.toDict.get? k

/-- The call gives a next action, or the updated state has none to lose. -/
def CarriesNextAction (r : RecordRequest) (s : State) : Prop :=
  r.narrative.nextAction ≠ [] ∨ (r.written s).getD (txt "next_action") noText = noText

/-- A decision without a summary loses nothing only where the updated state
already holds just that decision. -/
def CarriesDecision (env : Env) (r : RecordRequest) (s : State) (sequence : Nat) : Prop :=
  r.kind = .decision → r.narrative.summary = [] →
    latestDecision env ((r.written s).getD (txt "latest_decision") .null) "latest_decision" =
      .ok (some ⟨eventId env r.planId r.operation r.kind r.narrative sequence, []⟩)

section Frame

variable {env : Env}

theorem recordedEvent_built {r : RecordRequest} {s candidate : State} {n : Nat} {previous : Text}
    {e : Event} (hc : candidate.FieldsOk env)
    (h : recordedEvent env r s candidate n previous = .ok e) :
    e = builtEvent env r.planId candidate r.operation r.kind r.narrative r.timestamp n previous
        (materialStatePatch s candidate)
        (recordOperationPayload r.kind r.narrative r.stateUpdate (r.fields.getD [])) ∧
      e.Valid env :=
  buildEvent_sound env hc (materialStatePatch_fields hc) h

theorem material_get? {k : Text} {b : Bool} (s : State) (hk : k ∈ materialKeys)
    (hb : k = txt "latest_decision" → b = false) :
    (s.material b).toDict.get? k = s.toDict.get? k := by
  simp only [materialKeys, statePatchKeys, List.mem_cons, List.not_mem_nil, or_false] at hk
  rcases hk with rfl | rfl | rfl | rfl | rfl | rfl | rfl | rfl | rfl | rfl | rfl | rfl | rfl |
    rfl | rfl | rfl | rfl | rfl
  case inr.inr.inr.inr.inr.inr.inl =>
    rw [hb rfl]
    rfl
  all_goals rfl

/-- The next snapshot of a call, computed: the candidate, with the texts of
the call in the place of its next action and decision. -/
theorem stateWithEvent_recorded (r : RecordRequest) (s candidate : State) (n : Nat)
    (previous timestamp : Text) (payload : Json) :
    let e := builtEvent env r.planId candidate r.operation r.kind r.narrative timestamp n previous
      (materialStatePatch s candidate) payload
    stateWithEvent candidate e timestamp =
      { candidate with
        semanticHash := []
        generation := candidate.generation + 1
        lastOperationId := r.operation
        lastEventSequence := n
        lastEventHash := e.recordHash
        updatedAt := timestamp
        nextAction := r.narrative.nextAction
        latestDecision :=
          if r.kind = .decision then
            some ⟨eventId env r.planId r.operation r.kind r.narrative n, r.narrative.summary⟩
          else candidate.latestDecision } := by
  simp only [stateWithEvent, builtEvent, draftEvent, StatePatch.apply, materialStatePatch,
    changed_getD]
  simp only [State.mk.injEq, true_and, and_true, and_self]
  cases candidate.planPath <;> rfl

theorem material_rehashed (b : Bool) (s : State) :
    (s.rehashed env).material b = s.material b := rfl

theorem material_next_iff {r : RecordRequest} {candidate : State} {n : Nat} {h t : Text}
    {g q : Nat} (hdecision : r.linksDecision = true →
      candidate.latestDecision = some ⟨txt "pending", r.narrative.summary⟩) :
    State.material r.linksDecision
      { candidate with
        semanticHash := []
        generation := g
        lastOperationId := r.operation
        lastEventSequence := q
        lastEventHash := h
        updatedAt := t
        nextAction := r.narrative.nextAction
        latestDecision :=
          if r.kind = .decision then
            some ⟨eventId env r.planId r.operation r.kind r.narrative n, r.narrative.summary⟩
          else candidate.latestDecision } = candidate.material r.linksDecision ↔
      r.narrative.nextAction = candidate.nextAction ∧
        (r.kind = .decision → r.narrative.summary = [] → candidate.latestDecision =
          some ⟨eventId env r.planId r.operation r.kind r.narrative n, []⟩) := by
  simp only [State.material, State.mk.injEq, true_and, and_true]
  by_cases hlinks : r.linksDecision = true
  · obtain ⟨hkind, hsummary⟩ := RecordRequest.linksDecision_iff.mp hlinks
    simp [hlinks, hkind, hsummary, hdecision hlinks]
  · by_cases hkind : r.kind = .decision
    · have hsummary : r.narrative.summary = [] := by
        simpa [RecordRequest.linksDecision, hkind] using hlinks
      simp only [hlinks, hkind, hsummary, if_true, Bool.false_eq_true, if_false, forall_const]
      constructor
      · rintro ⟨hd, hnext⟩
        exact ⟨hnext, hd.symm⟩
      · rintro ⟨hnext, hd⟩
        exact ⟨hd.symm, hnext⟩
    · simp [hlinks, hkind]

theorem carriesNextAction_iff {c : RecordCall} {r : RecordRequest} {s candidate : State}
    (hr : recordRequest env c = .ok r) (h : candidateState env r s = .ok candidate) :
    r.narrative.nextAction = candidate.nextAction ↔ CarriesNextAction r s := by
  have hnext := candidateState_nextAction hr h
  by_cases hempty : r.narrative.nextAction = []
  · rw [if_pos hempty] at hnext
    simp only [CarriesNextAction, hempty, ne_eq, not_true, false_or]
    rw [hnext, noText, Json.str.injEq]
    exact eq_comm
  · rw [if_neg hempty] at hnext
    simp only [CarriesNextAction, hnext, ne_eq, hempty, not_false_iff, true_or]

theorem carriesDecision_iff {c : RecordCall} {r : RecordRequest} {s candidate : State} {n : Nat}
    (hr : recordRequest env c = .ok r) (h : candidateState env r s = .ok candidate) :
    (r.kind = .decision → r.narrative.summary = [] → candidate.latestDecision =
        some ⟨eventId env r.planId r.operation r.kind r.narrative n, []⟩) ↔
      CarriesDecision env r s n := by
  have hdecision := candidateState_decision hr h
  refine imp_congr_right fun hkind => imp_congr_right fun hsummary => ?_
  have hlinks : ¬ r.linksDecision = true := by
    rw [RecordRequest.linksDecision_iff]
    exact fun hlinks => hlinks.2 hsummary
  rw [if_neg hlinks] at hdecision
  rw [hdecision, Except.ok.injEq]

/-- What a changing call keeps, from what happens in it. -/
theorem Recorded.keeps_material_iff {c : RecordCall} {r : RecordRequest} {f f' : PlanFiles}
    {s candidate next : State} {es : List Event} {e : Event} (hr : recordRequest env c = .ok r)
    (hrec : Recorded env r f f' s candidate es e next) :
    KeepsMaterial r s candidate next ↔
      CarriesNextAction r s ∧ CarriesDecision env r s (es.length + 1) := by
  obtain ⟨f₁, b, f₂, hload, -, -⟩ := hrec.loaded
  have hs := loadPlan_valid hload
  have hc := candidateState_valid hrec.updated
  obtain ⟨hbuilt, hvalid⟩ := recordedEvent_built hc.1.fields hrec.built
  have htime : TextOk env 64 true r.timestamp := by
    have := hvalid.fields.timestamp.weaken
    rw [hbuilt] at this
    exact this
  have hplan : e.planId = candidate.planId := by
    rw [hbuilt, hc.2]
    rfl
  have hnext := (stateAfterEvent_eq_ok hc.1.fields hvalid.fields htime hplan).mp hrec.applied
  have hmaterial : next.material r.linksDecision = candidate.material r.linksDecision ↔
      CarriesNextAction r s ∧ CarriesDecision env r s (es.length + 1) := by
    rw [hnext.1, material_rehashed, hbuilt, stateWithEvent_recorded, material_next_iff,
      carriesNextAction_iff hr hrec.updated, carriesDecision_iff hr hrec.updated]
    intro hlinks
    have hdecision := candidateState_decision hr hrec.updated
    rw [if_pos hlinks] at hdecision
    exact hdecision
  constructor
  · intro hkeeps
    exact hmaterial.mp hkeeps.same
  · intro hcarries
    have hsame := hmaterial.mpr hcarries
    refine ⟨hsame, ?_⟩
    intro k hk hnamed
    have hlink : k = txt "latest_decision" → r.linksDecision = false := by
      rintro rfl
      by_contra hlinks
      rw [Bool.not_eq_false, RecordRequest.linksDecision_iff] at hlinks
      exact hnamed (by simp [RecordRequest.named, hlinks.1, hlinks.2])
    rw [← material_get? next hk hlink, hsame, material_get? candidate hk hlink]
    exact candidateState_frame hrec.updated hs.1.fields hk hnamed

/-- **What a changing call keeps.** The published snapshot has the material
fields of the candidate exactly when the call carries its next action and
its decision. -/
theorem recordEvent_keeps_material_iff {c : RecordCall} {st st' : StoreFiles} {res : StoreResult}
    (h : recordEvent env c st = (st', .ok res)) (hchanged : res.changed = true) :
    ∃ r s candidate es e next, recordRequest env c = .ok r ∧
      Recorded env r (st.plans r.planId) (st'.plans r.planId) s candidate es e next ∧
      (KeepsMaterial r s candidate next ↔
        CarriesNextAction r s ∧ CarriesDecision env r s (es.length + 1)) := by
  obtain ⟨r, s, candidate, es, e, next, hr, hrec, -⟩ := recordEvent_changed h hchanged
  exact ⟨r, s, candidate, es, e, next, hr, hrec, hrec.keeps_material_iff hr⟩

/-! A plan with a next action. -/

def phaseTable : DigestTable where
  rows :=
    [(8298, txt "6588117f7b5162325520a43670f6b2f80d50e9aa09f820f57274904a22ddfaf2"),
     (84659, txt "03123a331b5f8ec85d62e4c6f6c6987ddbfa5bdee73fc13ff88457474ca9067e"),
     (145837, txt "9f9ca8641299c88d76b7a796a72cbe1e205252b2bb748fb10fec7d19d3035540"),
     (174798, txt "5b811daf9ec49b2460556a59659cba643c88e94a6ad54f7f5355290d6ad4e9ab"),
     (189233, txt "0c063a444da6d6ec4e8cb6d8f6300678c58a030632251256c035ec0910a9f8c2"),
     (346084, txt "ff03a951270b905fe1f450484f1b8e3164d295c2e0f204bcd8f6aeba2eb23163"),
     (638791, txt "269bf405100f4bab1ddce223b5849eb99202eb2c1dd2e0f24c7be99319369348"),
     (663251, txt "fd60c821fa7ca3e1bf3f5c7c2d66d94f69dfa73a4c29004b6573a88513d6b0d0"),
     (671134, txt "04094bad475e664ace2df0769c3bca9c0a34d5942aac8290372291a970846740"),
     (701255, txt "a6f329b2bea60ec5d43407e12cd6be9783fdba1369ea663808e898f9294ed081"),
     (771703, txt "54cfee54aafb8e57053fb8b48d27e6fb09b068da47aea472214ea834f06cb17a"),
     (799699, txt "88e32f0e6d1bc35a787e335cbf6086329585f5c8c3966cfea88e74acabf92fb2")]
  digests := by decide +kernel

def phaseHost : Env := .host phaseTable

def phaseRegistration : RegisterCall := .of (txt "p") [] (txt "op-register") [] (txt "run tests")

def phasePlan : StoreFiles × Check StoreResult := registerPlan phaseHost phaseRegistration .empty

set_option maxRecDepth 100000 in
theorem phasePlan_runs : (changes phasePlan &&
    (phasePlan.1.plans (txt "p")).journal.length == 1 &&
    (phasePlan.1.plans (txt "p")).snapshot.isSome) = true := by
  decide +kernel

theorem phasePlan_changes : changes phasePlan = true := by
  have hruns := phasePlan_runs
  simp only [Bool.and_eq_true] at hruns
  exact hruns.1.1

end Frame

end RalphVault.Store
