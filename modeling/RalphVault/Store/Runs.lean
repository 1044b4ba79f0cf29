import RalphVault.Store.Journal

/-!
# Implementation store — runs of calls

A store evolves by calls on any of its plans. The lemmas say what one
call leaves alone and that a call that succeeds keeps a current plan
current; from them, by induction, what a whole run of successful calls
keeps: the journal of a plan only grows, and its snapshot follows it.
-/

namespace RalphVault.Store

/-- A call of the store. -/
inductive Call where
  | register (c : RegisterCall)
  | record (c : RecordCall)
  | replay (planId timestamp : Text)

def Call.planId : Call → Text
  | register c => c.planId
  | record c => c.planId
  | replay p _ => p

section Runs

variable (env : Env)

def Call.run (call : Call) (st : StoreFiles) : StoreFiles × Check StoreResult :=
  match call with
  | register c => registerPlan env c st
  | record c => recordEvent env c st
  | replay p t => replayPlan env p t st

/-- `st'` follows `st` by successful calls. -/
inductive Later : StoreFiles → StoreFiles → Prop where
  | refl (st : StoreFiles) : Later st st
  | step {st₀ st st' : StoreFiles} {res : StoreResult} (h : Later st₀ st) (call : Call)
      (hok : call.run env st = (st', .ok res)) : Later st₀ st'

end Runs

variable {env : Env}

/-! ## Frames -/

theorem recordRequest_planId {c : RecordCall} {r : RecordRequest}
    (h : recordRequest env c = .ok r) : r.planId = c.planId := by
  simp only [recordRequest, bind_eq_ok, pure, Except.pure, Except.ok.injEq] at h
  obtain ⟨_, -, _, -, _, -, _, -, rfl⟩ := h
  rfl

theorem registerRequest_planId {c : RegisterCall} {r : RegisterRequest}
    (h : registerRequest env c = .ok r) : r.planId = c.planId := by
  simp only [registerRequest, bind_eq_ok, pure, Except.pure, Except.ok.injEq] at h
  obtain ⟨_, -, _, -, _, -, _, -, rfl⟩ := h
  rfl

theorem recoverStep_ok {planId : Text} {s : State} {b : Bool} {st st' : StoreFiles}
    (h : recoverStep planId s b st = .ok st') :
    (b = false ∧ st' = st) ∨ (b = true ∧
      st' = st.setPlan planId { st.plans planId with snapshot := some (.obj s.toDict) }) := by
  unfold recoverStep at h
  cases b with
  | false =>
      simp only [Bool.false_eq_true, if_false, Except.ok.injEq] at h
      exact .inl ⟨rfl, h.symm⟩
  | true => exact .inr ⟨rfl, snapshotStep_ok h⟩

theorem recoverStep_other {planId p : Text} {s : State} {b : Bool} {st st' : StoreFiles}
    (h : recoverStep planId s b st = .ok st') (hp : p ≠ planId) : st'.plans p = st.plans p := by
  rcases recoverStep_ok h with ⟨-, rfl⟩ | ⟨-, rfl⟩
  · rfl
  · exact st.setPlan_other _ hp

theorem lockedPointerStep_plans (current : Manifest) (s : State) (force : Bool)
    (st : StoreFiles) : (lockedPointerStep env current s force st).1.plans = st.plans := by
  unfold lockedPointerStep
  split <;> rfl

theorem commitRecord_other {r : RecordRequest} {before candidate : State} {e : Event} {n : Nat}
    {st : StoreFiles} {p : Text} (hp : p ≠ r.planId) :
    (commitRecord env r before candidate e n st).1.plans p = st.plans p := by
  unfold commitRecord
  split
  · rfl
  · rename_i st₁ happend
    obtain ⟨f, -, rfl⟩ := appendStep_ok happend
    split
    · exact st.setPlan_other _ hp
    · rename_i next st₂ hnext
      simp only [bind_eq_ok, map_eq_ok, Prod.mk.injEq] at hnext
      obtain ⟨_, -, st₃, hsnap, rfl, rfl⟩ := hnext
      rw [manifestAfter_plans, snapshotStep_ok hsnap, StoreFiles.setPlan_other _ _ hp,
        StoreFiles.setPlan_other _ _ hp]

theorem commitRegister_other {r : RegisterRequest} {m : Manifest} {d : RegisterDecision}
    {st : StoreFiles} {p : Text} (hp : p ≠ r.planId) :
    (commitRegister env r m d st).1.plans p = st.plans p := by
  cases d with
  | settled s b id =>
      simp only [commitRegister]
      split
      · rfl
      · rename_i st₁ hrecover
        rw [lockedPointerStep_plans]
        exact recoverStep_other hrecover hp
  | append next e =>
      simp only [commitRegister]
      split
      · rfl
      · rename_i st₁ happend
        obtain ⟨f, -, rfl⟩ := appendStep_ok happend
        split
        · exact st.setPlan_other _ hp
        · rename_i st₂ hsnap
          rw [lockedPointerStep_plans, snapshotStep_ok hsnap, StoreFiles.setPlan_other _ _ hp,
            StoreFiles.setPlan_other _ _ hp]

/-- **Frame of a call**: the files of every other plan stay as they are. -/
theorem Call.run_other (call : Call) (st : StoreFiles) {p : Text} (hp : p ≠ call.planId) :
    (call.run env st).1.plans p = st.plans p := by
  cases call with
  | record c =>
      simp only [run, recordEvent]
      split
      · rfl
      · rename_i r hr
        have hpr : p ≠ r.planId := by
          rw [recordRequest_planId hr]
          exact hp
        split
        · exact st.setPlan_other _ hpr
        · split
          · exact st.setPlan_other _ hpr
          · split
            · exact st.setPlan_other _ hpr
            · rename_i st₁ hrecover
              exact (recoverStep_other hrecover hpr).trans (st.setPlan_other _ hpr)
          · rw [commitRecord_other hpr]
            exact st.setPlan_other _ hpr
  | register c =>
      simp only [run, registerPlan]
      split
      · rfl
      · rename_i r hr
        have hpr : p ≠ r.planId := by
          rw [registerRequest_planId hr]
          exact hp
        split
        · rfl
        · split
          · exact StoreFiles.setPlan_other _ _ hpr
          · split
            · exact StoreFiles.setPlan_other _ _ hpr
            · rw [commitRegister_other hpr]
              exact StoreFiles.setPlan_other _ _ hpr
  | replay q t =>
      have hq : p ≠ q := hp
      simp only [run, replayPlan]
      split
      · rfl
      · split
        · exact st.setPlan_other _ hq
        · exact st.setPlan_other _ hq
        · exact st.setPlan_other _ hq
        · split
          · exact st.setPlan_other _ hq
          · rename_i st₁ hsnap
            rw [snapshotStep_ok hsnap, StoreFiles.setPlan_other _ _ hq]
            exact st.setPlan_other _ hq

/-! ## Current plans along a run -/

/-- The event a call appends continues the journal it found. -/
theorem recordedEvent_extends {r : RecordRequest} {s candidate : State} {es : List Event}
    {e : Event} (hc : candidateState env r s = .ok candidate)
    (h : recordedEvent env r s candidate (es.length + 1) (lastRecordHash es) = .ok e) :
    Extends env r.planId es e := by
  have hvalid := candidateState_valid hc
  obtain ⟨hbuilt, he⟩ := recordedEvent_built hvalid.1.fields h
  have howned : Owned env candidate.git := by
    simp only [candidateState, bind_eq_ok, pure, Except.pure, Except.ok.injEq] at hc
    obtain ⟨_, -, c, -, _, howned, rfl⟩ := hc
    exact validateOwnership_iff.mp howned
  refine ⟨he, ?_, ?_, ?_, ?_⟩ <;> rw [hbuilt]
  · rfl
  · rfl
  · rfl
  · exact howned

theorem loadPlan_reads {planId timestamp : Text} {f f' : PlanFiles} {plan : Option (State × Bool)}
    {es : List Event} (h : loadPlan env planId timestamp f = (f', .ok (plan, es))) :
    Reads env planId f' es := by
  simp only [loadPlan, Prod.mk.injEq, bind_eq_ok] at h
  obtain ⟨rfl, snapshot, -, es', hes, h⟩ := h
  cases snapshot with
  | none =>
      cases es' with
      | nil =>
          simp only [pure, Except.pure, Except.ok.injEq, Prod.mk.injEq] at h
          rw [← h.2]
          exact hes
      | cons e es' =>
          simp only [bind_eq_ok, pure, Except.pure, Except.ok.injEq, Prod.mk.injEq] at h
          obtain ⟨_, -, -, rfl⟩ := h
          exact hes
  | some s =>
      simp only [bind_eq_ok, pure, Except.pure, Except.ok.injEq, Prod.mk.injEq] at h
      obtain ⟨_, -, _, -, -, rfl⟩ := h
      exact hes

/-- The timestamp of a call whose event was built is a valid one. -/
theorem recordedEvent_timestamp {r : RecordRequest} {s candidate : State} {n : Nat}
    {previous : Text} {e : Event} (hc : candidate.FieldsOk env)
    (h : recordedEvent env r s candidate n previous = .ok e) : TextOk env 64 true r.timestamp := by
  obtain ⟨hbuilt, he⟩ := recordedEvent_built hc h
  have htime : e.timestamp = r.timestamp := by
    rw [hbuilt]
    rfl
  rw [← htime]
  exact he.fields.timestamp.weaken

/-- The snapshot a changing call publishes, computed. -/
theorem Recorded.next_eq {r : RecordRequest} {f f' : PlanFiles} {s candidate next : State}
    {es : List Event} {e : Event} (h : Recorded env r f f' s candidate es e next) :
    next = (stateWithEvent candidate e r.timestamp).rehashed env ∧
      next.Fits env stateHardLimitBytes := by
  have hc := candidateState_valid h.updated
  have he := recordedEvent_extends h.updated h.built
  refine (stateAfterEvent_eq_ok hc.1.fields he.valid.fields
    (recordedEvent_timestamp hc.1.fields h.built) ?_).mp h.applied
  rw [he.plan, hc.2]

/-- **A changing call leaves its plan current**, with its event at the end
of the journal. -/
theorem Recorded.current {r : RecordRequest} {f f' : PlanFiles} {s candidate next : State}
    {es : List Event} {e : Event} (h : Recorded env r f f' s candidate es e next) :
    Current env r.planId f' next (es ++ [e]) := by
  obtain ⟨f₁, b, f₂, hload, happend, rfl⟩ := h.loaded
  have hc := candidateState_valid h.updated
  have he := recordedEvent_extends h.updated h.built
  obtain ⟨hnext, hfits⟩ := h.next_eq
  have hfields : next.FieldsOk env := by
    rw [hnext]
    exact (stateWithEvent_fields hc.1.fields he.valid.fields
      (recordedEvent_timestamp hc.1.fields h.built)).rehashed env
  refine ⟨rfl, ⟨hfields, by rw [hnext]; rfl, hfits⟩, ?_, ?_, ?_, ?_, ?_⟩
  · rw [hnext]
    exact hc.2
  · rw [hnext]
    exact he.owned
  · exact ((loadPlan_reads hload).snoc he happend).withSnapshot _
  · rw [hnext, List.length_append]
    exact he.sequence
  · rw [hnext, lastRecordHash, List.getLast?_concat]
    rfl

/-- A call on a current plan that settles writes nothing to the plan. -/
theorem lockedRecord_current {r : RecordRequest} {f : PlanFiles} {s : State} {es : List Event}
    (h : Current env r.planId f s es) :
    lockedRecord env r f = (f, (fun d => (d, es)) <$> decideRecord env r s false es) := by
  simp only [lockedRecord, h.loadPlan]
  congr 1

/-- A settled decision hands back the state it was taken on. -/
theorem decideRecord_settled_state {r : RecordRequest} {s t : State} {b b' : Bool}
    {es : List Event} {res : StoreResult}
    (h : decideRecord env r s b es = .ok (.settled t b' res)) : t = s ∧ b' = b := by
  simp only [decideRecord, bind_eq_ok] at h
  obtain ⟨c, hc, _, -, h⟩ := h
  split at h
  · simp only [bind_eq_ok, pure, Except.pure, Except.ok.injEq, RecordDecision.settled.injEq] at h
    obtain ⟨_, -, _, -, rfl, rfl, -⟩ := h
    exact ⟨rfl, rfl⟩
  · split at h
    · simp only [pure, Except.pure, Except.ok.injEq, RecordDecision.settled.injEq] at h
      exact ⟨h.1.symm, h.2.1.symm⟩
    · simp [bind_eq_ok, pure, Except.pure] at h

theorem recordEvent_keeps_current {c : RecordCall} {st st' : StoreFiles} {res : StoreResult}
    {s : State} {es : List Event} (h : Current env c.planId (st.plans c.planId) s es)
    (hok : recordEvent env c st = (st', .ok res)) :
    ∃ s' tail, Current env c.planId (st'.plans c.planId) s' (es ++ tail) := by
  by_cases hchanged : res.changed = true
  · obtain ⟨r, t, candidate, es', e, next, hr, hrec, -⟩ := recordEvent_changed hok hchanged
    have hplan := recordRequest_planId hr
    obtain ⟨f₁, b, f₂, hload, -, -⟩ := hrec.loaded
    rw [← hplan] at h
    rw [h.loadPlan] at hload
    have hes : es = es' := by
      simp only [Prod.mk.injEq, Except.ok.injEq] at hload
      exact hload.2.2
    refine ⟨next, [e], ?_⟩
    rw [← hplan, hes]
    exact hrec.current
  · have hsame : st' = st := by
      unfold recordEvent at hok
      split at hok
      · simp at hok
      · rename_i r hr
        rw [← recordRequest_planId hr] at h
        split at hok
        · simp at hok
        · rename_i f hpreview
          have hf := previewRecord_ok hpreview
          subst hf
          rw [lockedRecord_current h] at hok
          split at hok
          · simp at hok
          · rename_i f' t b result es' hlocked
            simp only [Prod.mk.injEq, map_eq_ok] at hlocked
            obtain ⟨rfl, d, hd, rfl, -⟩ := hlocked
            obtain ⟨-, rfl⟩ := decideRecord_settled_state hd
            simp only [StoreFiles.setPlan_self, recoverStep, Bool.false_eq_true, if_false,
              Prod.mk.injEq] at hok
            exact hok.1.symm
          · -- a call that appends reports a change
            rename_i f' before candidate e es' hlocked
            exfalso
            unfold commitRecord at hok
            split at hok
            · simp at hok
            · split at hok
              · simp at hok
              · simp only [Prod.mk.injEq, map_eq_ok] at hok
                obtain ⟨-, _, -, rfl⟩ := hok
                exact hchanged rfl
    exact ⟨s, [], by rw [hsame, List.append_nil]; exact h⟩

theorem registerPlan_keeps_current {c : RegisterCall} {st st' : StoreFiles} {res : StoreResult}
    {s : State} {es : List Event} (h : Current env c.planId (st.plans c.planId) s es)
    (hok : registerPlan env c st = (st', .ok res)) :
    Current env c.planId (st'.plans c.planId) s es := by
  unfold registerPlan at hok
  split at hok
  · simp at hok
  · rename_i r hr
    have hplan := registerRequest_planId hr
    rw [← hplan] at h ⊢
    split at hok
    · simp at hok
    · rename_i file m _
      simp only [h.loadPlan] at hok
      split at hok
      · simp at hok
      · rename_i d hd
        cases d with
        | append next e =>
            simp only [decideRegister] at hd
            split at hd
            · simp [bind_eq_ok, pure, Except.pure] at hd
            · simp at hd
        | settled t b id =>
            have hb : b = false := by
              simp only [decideRegister] at hd
              split at hd
              · simp only [bind_eq_ok, pure, Except.pure, Except.ok.injEq,
                  RegisterDecision.settled.injEq] at hd
                obtain ⟨_, -, _, -, -, hb, -⟩ := hd
                exact hb.symm
              · simp at hd
            subst hb
            simp only [commitRegister, recoverStep, Bool.false_eq_true, if_false,
              Prod.mk.injEq] at hok
            rw [← hok.1, lockedPointerStep_plans, StoreFiles.setPlan_plans]
            exact h

theorem replayPlan_keeps_current {p t : Text} {st st' : StoreFiles} {res : StoreResult}
    {s : State} {es : List Event} (h : Current env p (st.plans p) s es)
    (hok : replayPlan env p t st = (st', .ok res)) : Current env p (st'.plans p) s es := by
  unfold replayPlan at hok
  split at hok
  · simp at hok
  · simp only [h.loadPlan, StoreFiles.setPlan_self, Prod.mk.injEq] at hok
    rw [← hok.1]
    exact h

/-- One successful call keeps a plan current; its journal may have grown. -/
theorem Call.run_keeps_current {call : Call} {st st' : StoreFiles} {res : StoreResult}
    {p : Text} {s : State} {es : List Event} (h : Current env p (st.plans p) s es)
    (hok : call.run env st = (st', .ok res)) :
    ∃ s' tail, Current env p (st'.plans p) s' (es ++ tail) := by
  by_cases hp : p = call.planId
  · subst hp
    cases call with
    | register c =>
        simp only [planId, run] at h hok ⊢
        exact ⟨s, [], by rw [List.append_nil]; exact registerPlan_keeps_current h hok⟩
    | record c =>
        simp only [planId, run] at h hok ⊢
        exact recordEvent_keeps_current h hok
    | replay q t =>
        simp only [planId, run] at h hok ⊢
        exact ⟨s, [], by rw [List.append_nil]; exact replayPlan_keeps_current h hok⟩
  · have hother : (call.run env st).1.plans p = st.plans p := call.run_other st hp
    rw [hok] at hother
    exact ⟨s, [], by rw [List.append_nil, hother]; exact h⟩

/-- **Runs keep plans current**: after any run of successful calls the
journal of the plan has the earlier one as a prefix. -/
theorem Later.current {st st' : StoreFiles} {p : Text} {s : State} {es : List Event}
    (hlater : Later env st st') (h : Current env p (st.plans p) s es) :
    ∃ s' tail, Current env p (st'.plans p) s' (es ++ tail) := by
  induction hlater with
  | refl => exact ⟨s, [], by rw [List.append_nil]; exact h⟩
  | step _ call hok ih =>
      obtain ⟨s', tail, hcurrent⟩ := ih
      obtain ⟨s'', tail', hnext⟩ := Call.run_keeps_current hcurrent hok
      exact ⟨s'', tail ++ tail', by rw [← List.append_assoc]; exact hnext⟩

end RalphVault.Store
