import RalphVault.Store.Retry
import RalphVault.Store.System

/-!
# Implementation store — calls that fail

A call that is rejected should leave the files as they were.
`register_plan` checks the snapshot and the pointer it is about to
publish before it appends; `record_event` appends first. The main result
says exactly which calls leave the files alone when they fail.
-/

namespace RalphVault.Store

variable {env : Env}

/-- A call that fails for a logical reason leaves every file as it was. -/
def FailsClean (env : Env) (call : Call) (st : StoreFiles) : Prop :=
  ∀ err, (call.run env st).2 = .error err → err.logical = true → (call.run env st).1 = st

/-- A pointer to a snapshot would be accepted by the manifest as it is. -/
def PointerAccepted (env : Env) (st : StoreFiles) (s : State) (force : Bool) : Prop :=
  ∃ o m, readManifest env st.manifest = .ok o ∧
    manifestCandidate env (currentManifest env o) s force = .ok m

/-- What `record_event` does not check before it appends: that the snapshot
after its event is valid, and, where the status changes, that the manifest
takes the pointer. -/
def RecordPreflight (env : Env) (r : RecordRequest) (st : StoreFiles) : Prop :=
  ∀ s b es candidate e f,
    (previewRecord env r (st.plans r.planId)).2 = .ok () →
    (loadPlan env r.planId r.timestamp (st.plans r.planId)).2 = .ok (some (s, b), es) →
    decideRecord env r s b es = .ok (.append s candidate e) →
    appendEvent (st.plans r.planId) e es.length = .ok f →
    ∃ next, stateAfterEvent env candidate e r.timestamp = .ok next ∧
      (next.status ≠ s.status → PointerAccepted env st next false)

/-- What `register_plan` does not check before it publishes a recovered
snapshot: that the manifest takes its pointer. -/
def RegisterPreflight (env : Env) (r : RegisterRequest) (st : StoreFiles) : Prop :=
  ∀ o s es id, readManifest env st.manifest = .ok o →
    (loadPlan env r.planId r.timestamp (st.plans r.planId)).2 = .ok (some (s, true), es) →
    decideRegister env r (currentManifest env o) (some (s, true)) es = .ok (.settled s true id) →
    PointerAccepted env st s false

def Preflight (env : Env) (st : StoreFiles) : Call → Prop
  | .record c => ∀ r, recordRequest env c = .ok r → RecordPreflight env r st
  | .register c => ∀ r, registerRequest env c = .ok r → RegisterPreflight env r st
  | .replay _ _ => True

/-! ## Steps that cannot fail -/

theorem snapshotStep_valid {p : Text} {s : State} (h : s.Valid env stateHardLimitBytes)
    (st : StoreFiles) :
    snapshotStep p s st =
      .ok (st.setPlan p { st.plans p with snapshot := some (.obj s.toDict) }) := by
  simp [snapshotStep, publishSnapshot, publishJson, h.fits.bounded, bind, Except.bind, pure,
    Except.pure]

theorem publishManifestPointer_of_candidate {file : Option Json} {current : Manifest}
    {s : State} {force : Bool} {r : Manifest × Bool}
    (h : manifestCandidate env current s force = .ok r) :
    ∃ file', publishManifestPointer env file current s force = .ok (file', r.1) := by
  obtain ⟨m, b⟩ := r
  have hm := (manifestCandidate_ok h).1
  unfold publishManifestPointer
  rw [h]
  cases b with
  | false => exact ⟨file, rfl⟩
  | true =>
      refine ⟨some (.obj m.toDict), ?_⟩
      simp [bind, Except.bind, publishJson, hm.bounded, pure, Except.pure]

instance (current : Manifest) (s : State) (force : Bool) :
    SchemaOnly (manifestCandidate env current s force) := by
  unfold manifestCandidate
  simp only
  split
  · infer_instance
  · split
    · infer_instance
    · split <;> infer_instance

/-! ## What a failing call leaves -/

theorem effect_eq_error {r : StoreFiles × Check α} {st : StoreFiles} {u : Check Unit}
    (h : effect r = (st, u)) {err : Fault} : r.2 = .error err ↔ u = .error err := by
  obtain ⟨st', x⟩ := r
  simp only [effect, Prod.mk.injEq] at h
  obtain ⟨-, rfl⟩ := h
  cases x <;> simp [Functor.map, Except.map]

/-- The script decides. -/
theorem failsClean_iff {call : Call} {st : StoreFiles} :
    FailsClean env call st ↔
      ∀ err, (call.execute env st).2 = .error err → err.logical = true →
        (call.execute env st).1 = st := by
  have heffect := @Call.run_effect env call st
  have hfst : (call.run env st).1 = (call.execute env st).1 := by
    rw [← heffect]
    rfl
  simp only [FailsClean, hfst]
  refine forall_congr' fun err => ?_
  rw [@effect_eq_error _ _ (call.execute env st).1 (call.execute env st).2 heffect]

/-- A run of a script that fails leaves the files as they were. -/
def Clean (st : StoreFiles) (r : StoreFiles × Check Unit) : Prop :=
  ∀ err, r.2 = .error err → err.logical = true → r.1 = st

theorem Clean.ok {st st' : StoreFiles} : Clean st (st', .ok ()) := by
  intro err h
  cases h

theorem Clean.unchanged {st : StoreFiles} {u : Check Unit} : Clean st (st, u) :=
  fun _ _ _ => rfl

/-- A failure after the append is not clean. -/
theorem not_clean_of_append {p : Text} {e : Event} {st st' : StoreFiles} {f : PlanFiles} {n : Nat}
    {err : Fault} (hf : appendEvent (st.plans p) e n = .ok f)
    (hjournal : (st'.plans p).journal = f.journal) (herr : err.logical = true) :
    ¬ Clean st (st', .error err) := by
  intro h
  have hsame : st' = st := h err rfl herr
  rw [hsame, (appendEvent_ok hf).1] at hjournal
  have hlen := congrArg List.length hjournal
  simp at hlen

theorem pointerStep_accepted {s : State} {force : Bool} {st : StoreFiles}
    (h : PointerAccepted env st s force) (hfiles : ManifestOk env st.manifest) :
    ∃ st' m, pointerStep env s force st = (st', .ok m) := by
  obtain ⟨o, m, ho, hm⟩ := h
  obtain ⟨o', ho', hread⟩ := hfiles.readsLocked
  rw [ho] at ho'
  cases ho'
  obtain ⟨file, hp⟩ := @publishManifestPointer_of_candidate env st.manifest _ _ _ _ hm
  refine ⟨{ st with manifest := file }, m.1, ?_⟩
  simp only [pointerStep, hread, bind, Except.bind, hp]

theorem pointerStep_refused {s : State} {force : Bool} {st : StoreFiles}
    (h : ¬ PointerAccepted env st s force) (hfiles : ManifestOk env st.manifest) :
    ∃ err, pointerStep env s force st = (st, .error err) ∧ err.logical = true := by
  obtain ⟨o, ho, hread⟩ := hfiles.readsLocked
  cases hm : manifestCandidate env (currentManifest env o) s force with
  | ok m => exact absurd ⟨o, m, ho, hm⟩ h
  | error err =>
      refine ⟨err, ?_, Fault.logical_of_schema (SchemaOnly.schema _ hm)⟩
      simp only [pointerStep, hread, bind, Except.bind, publishManifestPointer, hm]

/-- The script of an append is clean exactly when what it publishes after
the append is accepted. -/
theorem append_clean_iff {r : RecordRequest} {st : StoreFiles} {s candidate : State} {e : Event}
    {n : Nat} (hfiles : FilesOk env st)
    (hnext : ∀ next, stateAfterEvent env candidate e r.timestamp = .ok next →
      next.Valid env stateHardLimitBytes) :
    Clean st (execScript env r.planId (RecordDecision.script env r n (.append s candidate e)) st) ↔
      ∀ f, appendEvent (st.plans r.planId) e n = .ok f →
        ∃ next, stateAfterEvent env candidate e r.timestamp = .ok next ∧
          (next.status ≠ s.status → PointerAccepted env st next false) := by
  simp only [RecordDecision.script]
  rw [execScript_append]
  cases happend : appendEvent (st.plans r.planId) e n with
  | error err =>
      simp only [appendStep, happend, bind, Except.bind, reduceCtorEq, false_implies,
        implies_true, iff_true]
      exact .unchanged
  | ok f =>
      simp only [appendStep, happend, bind, Except.bind, pure, Except.pure, Except.ok.injEq,
        forall_eq']
      cases hafter : stateAfterEvent env candidate e r.timestamp with
      | error err =>
          simp only [reduceCtorEq, false_and, exists_false, iff_false, execScript_last]
          exact not_clean_of_append happend (by simp)
            (Fault.logical_of_schema (SchemaOnly.schema _ hafter))
      | ok next =>
          simp only [Except.ok.injEq, exists_eq_left']
          rw [execScript_snapshot, snapshotStep_valid (hnext next hafter)]
          simp only [execScript_last, StoreFiles.setPlan_plans, StoreFiles.setPlan_setPlan]
          by_cases hstatus : next.status = s.status
          · obtain ⟨o, ho, -⟩ := hfiles.manifest.readsLocked
            simp only [hstatus, if_true, ne_eq, not_true, false_implies, iff_true, Durable.exec,
              StoreFiles.setPlan_manifest, ho, effect_ok]
            exact .ok
          · simp only [hstatus, if_false, ne_eq, not_false_iff, true_implies, Durable.exec]
            constructor
            · intro hclean
              by_contra hrefused
              obtain ⟨err, herr, hlogical⟩ := @pointerStep_refused env _ _
                (st.setPlan r.planId { f with snapshot := some (.obj next.toDict) })
                hrefused hfiles.manifest
              rw [herr] at hclean
              exact not_clean_of_append happend (by simp) hlogical hclean
            · intro haccepted
              obtain ⟨st', m, hst'⟩ := @pointerStep_accepted env _ _
                (st.setPlan r.planId { f with snapshot := some (.obj next.toDict) })
                haccepted hfiles.manifest
              rw [hst']
              exact .ok

theorem record_execute {c : RecordCall} {r : RecordRequest} {st : StoreFiles}
    (hfiles : FilesOk env st) (hr : recordRequest env c = .ok r) :
    (Call.record c).execute env st =
      match (previewRecord env r (st.plans r.planId)).2 with
      | .error err => (st, .error err)
      | .ok () => match (lockedRecord env r (st.plans r.planId)).2 with
        | .error err => (st, .error err)
        | .ok (d, es) => execScript env r.planId (d.script env r es.length) st := by
  have hsnapshot := hfiles.snapshot r.planId
  simp only [Call.execute, Call.preview, Call.locked, hr, Call.planId, ← recordRequest_planId hr,
    hsnapshot.previewRecord, StoreFiles.setPlan_self]
  cases (previewRecord env r (st.plans r.planId)).2 with
  | error err => rfl
  | ok u =>
      simp only [hsnapshot.lockedRecord, StoreFiles.setPlan_self]
      cases (lockedRecord env r (st.plans r.planId)).2 with
      | error err => rfl
      | ok d => rfl

theorem lockedRecord_decision {r : RecordRequest} {f : PlanFiles} {s : State} {b : Bool}
    {es : List Event} (h : (loadPlan env r.planId r.timestamp f).2 = .ok (some (s, b), es)) :
    (lockedRecord env r f).2 = (fun d => (d, es)) <$> decideRecord env r s b es := by
  simp only [lockedRecord, h, bind, Except.bind, pure, Except.pure]
  cases decideRecord env r s b es <;> rfl

theorem recordEvent_failsClean_iff {c : RecordCall} {r : RecordRequest} {st : StoreFiles}
    (hfiles : FilesOk env st) (hr : recordRequest env c = .ok r) :
    FailsClean env (.record c) st ↔ RecordPreflight env r st := by
  have hexec := record_execute hfiles hr
  have hsnapshot := (hfiles.snapshot r.planId).lockedRecord
  rw [failsClean_iff]
  constructor
  · intro hclean s b es candidate e f hpreview hload hd
    have hlocked : (lockedRecord env r (st.plans r.planId)).2 =
        .ok (.append s candidate e, es) := by
      rw [lockedRecord_decision hload, hd]
      rfl
    obtain ⟨-, hc, -, he⟩ := decideRecord_append hd
    rw [hpreview, hlocked] at hexec
    rw [hexec] at hclean
    exact (append_clean_iff hfiles fun next hnext =>
      (recordedEvent_next hc he hnext).1).mp hclean f
  · intro hpreflight
    rw [hexec]
    cases hpreview : (previewRecord env r (st.plans r.planId)).2 with
    | error err => exact Clean.unchanged
    | ok u =>
        simp only
        cases hlocked : (lockedRecord env r (st.plans r.planId)).2 with
        | error err => exact Clean.unchanged
        | ok d =>
            obtain ⟨d, es⟩ := d
            simp only
            obtain ⟨s, b, hload, hd⟩ := lockedRecord_ok (Prod.ext hsnapshot hlocked)
            cases d with
            | settled t b' res =>
                obtain ⟨rfl, rfl⟩ := decideRecord_settled_state hd
                have hs := loadPlan_valid hload
                cases b' with
                | false => exact Clean.ok
                | true =>
                    simp only [RecordDecision.script, if_true, execScript_last, Durable.exec,
                      snapshotStep_valid hs.1]
                    exact Clean.ok
            | append before candidate e =>
                obtain ⟨rfl, hc, -, he⟩ := decideRecord_append hd
                refine (append_clean_iff hfiles fun next hnext =>
                  (recordedEvent_next hc he hnext).1).mpr fun f hf => ?_
                exact hpreflight before b es candidate e f hpreview (by rw [hload]) hd hf

/-! ## Registration -/

theorem applyEvents_generation {timestamp : Text} {es : List Event} :
    ∀ {s s' : State}, applyEvents env timestamp s es = .ok s' →
      s'.generation = s.generation + es.length := by
  induction es with
  | nil =>
      intro s s' h
      cases h
      rfl
  | cons e es ih =>
      intro s s' h
      simp only [applyEvents, bind_eq_ok] at h
      obtain ⟨next, hnext, hrest⟩ := h
      rw [ih hrest, (stateAfterEvent_same hnext).1, List.length_cons]
      omega

/-- A recovered state is a later generation than the snapshot. -/
theorem reconcileState_generation {s t : State} {es : List Event} {timestamp : Text}
    (h : reconcileState env s es timestamp = .ok (t, true)) : s.generation < t.generation := by
  simp only [reconcileState, bind_eq_ok] at h
  obtain ⟨_, hcursor, h⟩ := h
  split at h
  · simp [pure, Except.pure] at h
  · rename_i hbehind
    simp only [bind_eq_ok, pure, Except.pure, Except.ok.injEq, Prod.mk.injEq, and_true] at h
    obtain ⟨u, hu, v, hv, rfl⟩ := h
    have hgen := (validateState_same hv).1
    simp only [validateStateCursor, bind_eq_ok, require_eq_ok, decide_eq_true_eq] at hcursor
    obtain ⟨_, hle, -⟩ := hcursor
    have happlied := applyEvents_generation hu
    rw [List.length_drop] at happlied
    omega

/-- Publishing a recovered snapshot changes the file. -/
theorem loadPlan_recovered {p timestamp : Text} {f f' : PlanFiles} {s : State} {es : List Event}
    (hf : SnapshotOk env p f.snapshot)
    (h : loadPlan env p timestamp f = (f', .ok (some (s, true), es))) :
    f.snapshot ≠ some (.obj s.toDict) := by
  intro hsame
  obtain ⟨t, ht, hvalid, hplan⟩ := hf _ hsame
  have hread : readSnapshot env p s!"state for {String.ofList p}" f = .ok (some t) := by
    have hread : validateState env t.toDict (some p) stateHardLimitBytes = .ok t :=
      hvalid.reads env (by simp [hplan])
    simp [readSnapshot, readJson, hsame, ht, Nat.not_lt.mpr hvalid.fits.bounded, object, bind,
      Except.bind, hread]
  simp only [loadPlan, loadStateForWrite, hread, quarantineMalformed, Prod.mk.injEq, bind_eq_ok,
    Except.ok.injEq, exists_eq_left', pure, Except.pure, Option.some.injEq] at h
  obtain ⟨-, es', -, _, -, ⟨u, b⟩, hreconcile, ⟨rfl, rfl⟩, -⟩ := h
  have hlt := reconcileState_generation hreconcile
  have hget := congrArg (Dict.getD (txt "generation") .null) (Json.obj.inj ht)
  have hgen : natJson s.generation = natJson t.generation := hget
  rw [natJson_inj hgen] at hlt
  exact absurd hlt (Nat.lt_irrefl _)

theorem lockedPointerStep_accepted {current : Manifest} {s : State} {force : Bool}
    {r : Manifest × Bool} (h : manifestCandidate env current s force = .ok r) (st : StoreFiles) :
    ∃ st' m, lockedPointerStep env current s force st = (st', .ok m) := by
  obtain ⟨file, hp⟩ := @publishManifestPointer_of_candidate env st.manifest _ _ _ _ h
  exact ⟨{ st with manifest := file }, r.1, by simp only [lockedPointerStep, hp]⟩

theorem register_execute {c : RegisterCall} {r : RegisterRequest} {st : StoreFiles}
    {o : Option Manifest} (hfiles : FilesOk env st) (hr : registerRequest env c = .ok r)
    (ho : readManifest env st.manifest = .ok o) :
    (Call.register c).execute env st =
      match (loadPlan env r.planId r.timestamp (st.plans r.planId)).2 with
      | .error err => (st, .error err)
      | .ok (plan, es) => match decideRegister env r (currentManifest env o) plan es with
        | .error err => (st, .error err)
        | .ok d => execScript env r.planId (d.script (currentManifest env o)) st := by
  have hsnapshot := hfiles.snapshot r.planId
  obtain ⟨o', ho', hread⟩ := hfiles.manifest.readsLocked
  rw [ho] at ho'
  cases ho'
  simp only [Call.execute, Call.preview, Call.locked, hr, Call.planId, ← registerRequest_planId hr,
    hread, hsnapshot.loadPlan, StoreFiles.setPlan_self]
  cases (loadPlan env r.planId r.timestamp (st.plans r.planId)).2 with
  | error err => rfl
  | ok loaded =>
      obtain ⟨plan, es⟩ := loaded
      simp only [bind, Except.bind, pure, Except.pure]
      cases decideRegister env r (currentManifest env o) plan es <;> rfl

theorem registerPlan_failsClean_iff {c : RegisterCall} {r : RegisterRequest} {st : StoreFiles}
    (hfiles : FilesOk env st) (hr : registerRequest env c = .ok r) :
    FailsClean env (.register c) st ↔ RegisterPreflight env r st := by
  have hsnapshot := hfiles.snapshot r.planId
  have hloaded := hsnapshot.loadPlan r.timestamp
  have hinitial := registerRequest_valid hr
  obtain ⟨o, ho, -⟩ := hfiles.manifest.readsLocked
  have hexec := register_execute hfiles hr ho
  rw [failsClean_iff]
  constructor
  · intro hclean o' s es id ho' hload hd
    rw [ho] at ho'
    cases ho'
    by_contra hrefused
    have hs := loadPlan_valid (Prod.ext hloaded hload)
    have hdiffers := loadPlan_recovered hsnapshot (Prod.ext hloaded hload)
    rw [hload] at hexec
    simp only [hd] at hexec
    simp only [RegisterDecision.script, if_true, List.singleton_append] at hexec
    rw [execScript_snapshot, snapshotStep_valid hs.1] at hexec
    simp only [execScript_last, Durable.exec, lockedPointerStep] at hexec
    cases hm : manifestCandidate env (currentManifest env o) s false with
    | ok m => exact hrefused ⟨o, m, ho, hm⟩
    | error err =>
        rw [hexec] at hclean
        simp only [publishManifestPointer, hm, bind, Except.bind, effect_error] at hclean
        have hsame := hclean err rfl (Fault.logical_of_schema (SchemaOnly.schema _ hm))
        have hplan := congrArg (fun st => (StoreFiles.plans st r.planId).snapshot) hsame
        simp only [StoreFiles.setPlan_plans] at hplan
        exact hdiffers hplan.symm
  · intro hpreflight
    rw [hexec]
    cases hload : (loadPlan env r.planId r.timestamp (st.plans r.planId)).2 with
    | error err => exact Clean.unchanged
    | ok loaded =>
        obtain ⟨plan, es⟩ := loaded
        simp only
        cases hd : decideRegister env r (currentManifest env o) plan es with
        | error err => exact Clean.unchanged
        | ok d =>
            cases d with
            | settled s b id =>
                have hplan := decideRegister_settled hd
                subst hplan
                have hs := loadPlan_valid (Prod.ext hloaded hload)
                cases b with
                | false =>
                    simp only [RegisterDecision.script, Bool.false_eq_true, if_false,
                      List.nil_append, execScript_last, Durable.exec]
                    rcases @lockedPointerStep_manifest env (currentManifest env o) s false
                      st with ⟨hst, err, herr⟩ | ⟨file, m, -, hst⟩
                    · rw [effect, hst]
                      exact Clean.unchanged
                    · rw [hst]
                      exact Clean.ok
                | true =>
                    obtain ⟨o', m, ho', hm⟩ := hpreflight o s es id ho hload hd
                    rw [ho] at ho'
                    cases ho'
                    simp only [RegisterDecision.script, if_true, List.singleton_append]
                    rw [execScript_snapshot, snapshotStep_valid hs.1]
                    simp only [execScript_last, Durable.exec]
                    obtain ⟨st', m', hst'⟩ := lockedPointerStep_accepted hm
                      (st.setPlan r.planId
                        { st.plans r.planId with snapshot := some (.obj s.toDict) })
                    rw [hst']
                    exact Clean.ok
            | append next e =>
                -- the pointer of a new plan was checked before its append
                obtain ⟨-, he, hnext, m, hm⟩ := decideRegister_append hd
                have hvalid := registrationEvent_next hinitial.1 hinitial.2 he hnext
                simp only [RegisterDecision.script]
                rw [execScript_append]
                cases happend : appendStep r.planId e 0 st with
                | error err => exact Clean.unchanged
                | ok st₁ =>
                    simp only
                    rw [execScript_snapshot, snapshotStep_valid hvalid.1]
                    simp only [execScript_last, Durable.exec]
                    obtain ⟨st', m', hst'⟩ := lockedPointerStep_accepted hm
                      (st₁.setPlan r.planId
                        { st₁.plans r.planId with snapshot := some (.obj next.toDict) })
                    rw [hst']
                    exact Clean.ok

theorem replayPlan_failsClean {p t : Text} {st : StoreFiles} (hfiles : FilesOk env st) :
    FailsClean env (.replay p t) st := by
  have hsnapshot := hfiles.snapshot p
  have hloaded := hsnapshot.loadPlan t
  rw [failsClean_iff]
  show Clean st _
  simp only [Call.execute, Call.preview, Call.locked, Call.planId]
  cases validatePlanId p with
  | error err => exact Clean.unchanged
  | ok u =>
      simp only [hloaded, StoreFiles.setPlan_self]
      cases hload : (loadPlan env p t (st.plans p)).2 with
      | error err => exact Clean.unchanged
      | ok loaded =>
          obtain ⟨plan, es⟩ := loaded
          simp only [Functor.map, Except.map]
          cases plan with
          | none => exact Clean.ok
          | some sb =>
              obtain ⟨s, b⟩ := sb
              have hs := loadPlan_valid (Prod.ext hloaded hload)
              cases b with
              | false => exact Clean.ok
              | true =>
                  simp only [execScript_last, Durable.exec, snapshotStep_valid hs.1]
                  exact Clean.ok

/-- **Calls that fail.** On every reachable store a call that fails for a
logical reason leaves every file as it was exactly when what it would
publish after its first write is accepted. -/
theorem call_failsClean_iff {call : Call} {st : StoreFiles} (h : Reachable env st) :
    FailsClean env call st ↔ Preflight env st call := by
  have hfiles := h.filesOk
  cases call with
  | record c =>
      cases hr : recordRequest env c with
      | ok r =>
          rw [recordEvent_failsClean_iff hfiles hr, Preflight]
          constructor
          · rintro hpreflight r' hr'
            rw [hr] at hr'
            cases hr'
            exact hpreflight
          · exact fun hpreflight => hpreflight r hr
      | error err =>
          refine iff_of_true ?_ ?_
          · intro err' _ _
            simp only [Call.run, recordEvent_rejected hr]
          · intro r hr'
            rw [hr] at hr'
            cases hr'
  | register c =>
      cases hr : registerRequest env c with
      | ok r =>
          rw [registerPlan_failsClean_iff hfiles hr, Preflight]
          constructor
          · rintro hpreflight r' hr'
            rw [hr] at hr'
            cases hr'
            exact hpreflight
          · exact fun hpreflight => hpreflight r hr
      | error err =>
          refine iff_of_true ?_ ?_
          · intro err' _ _
            simp only [Call.run, registerPlan, hr]
          · intro r hr'
            rw [hr] at hr'
            cases hr'
  | replay p t => exact iff_of_true (replayPlan_failsClean hfiles) trivial

end RalphVault.Store
