import RalphVault.Store.Preflight

/-!
# Implementation store — the manifest as an index of plans

The manifest is published by the third durable step of a call, and only
by calls that register a plan or change its status. The main result
follows every interleaving: when each call that does not publish the
pointer of its plan enters on an index that agrees with the plan, every
call that returns leaves the index in agreement with the plan.
-/

namespace RalphVault.Store

variable {env : Env}

/-- The pointer of a plan in a manifest file. -/
def pointerIn (env : Env) (file : Option Json) (p : Text) : Option Pointer :=
  match readManifest env file with
  | .ok (some m) => findPointer p m.plans
  | _ => none

/-- The manifest has a pointer for the plan with the status of its snapshot. -/
def Agrees (env : Env) (st : StoreFiles) (p : Text) : Prop :=
  ∃ q s, pointerIn env st.manifest p = some q ∧
    readSnapshot env p "state" (st.plans p) = .ok (some s) ∧ q.status = s.status

/-! ## Pointers in a list -/

theorem findPointer_append (p : Text) (ps : List Pointer) (q : Pointer) :
    findPointer p (ps ++ [q]) = match findPointer p ps with
      | some q' => some q'
      | none => if q.planId = p then some q else none := by
  simp only [findPointer, List.find?_append]
  cases ps.find? fun q => q.planId == p with
  | some q' => rfl
  | none =>
      by_cases h : q.planId = p
      · simp [h]
      · simp [h]

theorem findPointer_setPointer (p : Text) (q : Pointer) (ps : List Pointer) :
    findPointer p (setPointer q ps) =
      if q.planId = p then (findPointer p ps).map fun _ => q else findPointer p ps := by
  induction ps with
  | nil => simp [setPointer, findPointer]
  | cons r ps ih =>
      simp only [findPointer] at ih ⊢
      unfold setPointer
      by_cases hr : r.planId = q.planId
      · rw [if_pos hr]
        by_cases hq : q.planId = p
        · simp [hq, hr]
        · have hrp : r.planId ≠ p := by rw [hr]; exact hq
          simp [hq, hrp]
      · rw [if_neg hr]
        by_cases hq : q.planId = p
        · have hrp : r.planId ≠ p := by rw [← hq]; exact hr
          rw [if_pos hq] at ih ⊢
          simp [hrp, ih]
        · rw [if_neg hq] at ih ⊢
          by_cases hrp : r.planId = p
          · simp [hrp]
          · simp [hrp, ih]

theorem findPointer_planId {p : Text} {ps : List Pointer} {q : Pointer}
    (h : findPointer p ps = some q) : q.planId = p := by
  have := List.find?_some h
  simpa using this

/-! ## Publishing a pointer -/

theorem currentManifest_find {file : Option Json} {o : Option Manifest} (p : Text)
    (h : readManifest env file = .ok o) :
    findPointer p (currentManifest env o).plans = pointerIn env file p := by
  simp only [pointerIn, h]
  cases o with
  | none => rfl
  | some m => rfl

/-- After a publication the plan has a pointer with the status of the
snapshot, unless its old pointer is ahead; every other pointer stays. -/
theorem publish_pointerIn {file file' : Option Json} {o : Option Manifest} {m : Manifest}
    {s : State} {force : Bool} (ho : readManifest env file = .ok o)
    (h : publishManifestPointer env file (currentManifest env o) s force = .ok (file', m))
    (p : Text) :
    if s.planId = p then
      (∃ q, pointerIn env file' p = some q ∧ q.status = s.status ∧
        (q.lastEventSequence = s.lastEventSequence ∨ pointerIn env file p = some q)) ∨
      (∃ q, pointerIn env file p = some q ∧ s.lastEventSequence < q.lastEventSequence)
    else pointerIn env file' p = pointerIn env file p := by
  obtain ⟨b, hm, rfl⟩ := publishManifestPointer_ok h
  obtain ⟨hvalid, hcases⟩ := manifestCandidate_ok hm
  have hfind := fun p => currentManifest_find p ho
  have hread : readManifest env (some (.obj m.toDict)) = .ok (some m) := by
    simp [readManifest, readJson, Nat.not_lt.mpr hvalid.bounded, object, bind, Except.bind,
      hvalid.reads env]
  have hnew : pointerIn env (some (.obj m.toDict)) p = findPointer p m.plans := by
    simp only [pointerIn, hread]
  rcases hcases with ⟨hnone, rfl, rfl⟩ | ⟨q, hq, rfl, -, rfl⟩ | ⟨q, hq, rfl, rfl, hkept⟩
  · rw [if_pos rfl, hnew, findPointer_append, hfind]
    split
    · rename_i hp
      subst hp
      rw [hfind] at hnone
      simp only [hnone]
      exact .inl ⟨pointerOf s, if_pos rfl, rfl, .inl rfl⟩
    · rename_i hp
      have hother : (pointerOf s).planId ≠ p := hp
      simp only [if_neg hother]
      cases pointerIn env file p <;> rfl
  · rw [if_pos rfl, hnew, findPointer_setPointer, hfind]
    split
    · rename_i hp
      subst hp
      rw [hfind] at hq
      rw [hq]
      exact .inl ⟨pointerOf s, if_pos rfl, rfl, .inl rfl⟩
    · rename_i hp
      exact if_neg hp
  · simp only [Bool.false_eq_true, if_false]
    split
    · rename_i hp
      subst hp
      rw [hfind] at hq
      rcases hkept with hahead | hstatus
      · exact .inr ⟨q, hq, hahead⟩
      · exact .inl ⟨q, hq, hstatus, .inr hq⟩
    · trivial

/-! ## What the rest of a script leads to -/

/-- The status of the snapshot on disk. -/
def diskStatus (env : Env) (p : Text) (f : PlanFiles) : Option Status :=
  match readSnapshot env p "state" f with
  | .ok (some s) => some s.status
  | _ => none

/-- The status of the snapshot when a script is done. -/
def finalStatus (disk : Option Status) : List Durable → Option Status
  | [] => disk
  | .snapshot s :: ds => finalStatus (some s.status) ds
  | _ :: ds => finalStatus disk ds

/-- The snapshot whose pointer a step publishes. -/
def Durable.pointerState : Durable → Option State
  | pointer s => some s
  | lockedPointer _ s _ => some s
  | _ => none

/-- The records a step appends. -/
def Durable.appends : Durable → Nat
  | append _ _ => 1
  | _ => 0

/-- What a script still owes the manifest, by its last step. -/
def owed (script : List Durable) : Option State := script.getLast?.bind Durable.pointerState

/-- A script that returns leaves the index in agreement: either it still
publishes the pointer of the snapshot it leaves, or the pointer has the
status of that snapshot already. -/
structure Tracked (p : Text) (disk : Option Status) (ptr : Option Pointer) (records : Nat)
    (script : List Durable) : Prop where
  last : ∀ d ∈ script.dropLast, d.pointerState = none
  owes : ∀ s, owed script = some s → s.planId = p ∧ finalStatus disk script = some s.status ∧
    (∀ q, ptr = some q → q.lastEventSequence ≤ s.lastEventSequence) ∧
    s.lastEventSequence ≤ records + (script.map Durable.appends).sum
  agrees : owed script = none → (∃ err, .raise err ∈ script) ∨
    ∃ q, ptr = some q ∧ finalStatus disk script = some q.status

theorem owed_cons {d : Durable} (h : d.pointerState = none) (ds : List Durable) :
    owed (d :: ds) = owed ds := by
  cases ds with
  | nil => exact h
  | cons d' ds => rfl

/-- A step that publishes a pointer is the last one. -/
theorem Tracked.pointer_last {p : Text} {disk : Option Status} {ptr : Option Pointer}
    {records : Nat} {d : Durable} {ds : List Durable} {s : State}
    (h : Tracked p disk ptr records (d :: ds)) (hd : d.pointerState = some s) : ds = [] := by
  cases ds with
  | nil => rfl
  | cons d' ds =>
      have hnone := h.last d (by simp)
      rw [hd] at hnone
      cases hnone

/-- A step without a pointer leaves the rest of the script to be tracked. -/
theorem Tracked.tail {p : Text} {disk disk' : Option Status} {ptr : Option Pointer}
    {records records' : Nat} {d : Durable} {ds : List Durable}
    (h : Tracked p disk ptr records (d :: ds)) (hd : d.pointerState = none)
    (hraise : ∀ err, d ≠ .raise err) (hdisk : finalStatus disk (d :: ds) = finalStatus disk' ds)
    (hrecords : records' = records + d.appends) : Tracked p disk' ptr records' ds where
  last := by
    intro d' hd'
    refine h.last d' ?_
    cases ds with
    | nil => simp at hd'
    | cons d'' ds => exact List.mem_cons_of_mem _ hd'
  owes := by
    intro s hs
    rw [← owed_cons hd] at hs
    obtain ⟨hplan, hfinal, hbound, hseq⟩ := h.owes s hs
    rw [List.map_cons, List.sum_cons] at hseq
    exact ⟨hplan, by rw [← hdisk]; exact hfinal, hbound, by omega⟩
  agrees := by
    intro hnone
    rw [← owed_cons hd] at hnone
    rcases h.agrees hnone with ⟨err, herr⟩ | ⟨q, hq, hstatus⟩
    · rcases List.mem_cons.mp herr with heq | hmem
      · exact absurd heq.symm (hraise err)
      · exact .inl ⟨err, hmem⟩
    · exact .inr ⟨q, hq, by rw [← hdisk]; exact hstatus⟩

/-- A step that publishes a pointer appends nothing and is no snapshot. -/
theorem Durable.pointer_only {d : Durable} {s : State} (h : d.pointerState = some s) :
    d.appends = 0 ∧ ∀ disk, finalStatus disk [d] = disk := by
  cases d <;> simp_all [pointerState, appends, finalStatus]

theorem Tracked.done {p : Text} {disk : Option Status} {ptr : Option Pointer} {records : Nat}
    {q : Pointer} (hq : ptr = some q) (hstatus : disk = some q.status) :
    Tracked p disk ptr records [] where
  last := by simp
  owes := by
    intro s hs
    cases hs
  agrees := fun _ => .inr ⟨q, hq, hstatus⟩

/-! ## One step of a script -/

theorem diskStatus_snapshot {p : Text} {s : State} (hs : s.Valid env stateHardLimitBytes)
    (hplan : s.planId = p) (f : PlanFiles) :
    diskStatus env p { f with snapshot := some (.obj s.toDict) } = some s.status := by
  have hread : validateState env s.toDict (some p) stateHardLimitBytes = .ok s :=
    hs.reads env (by simp [hplan])
  simp [diskStatus, readSnapshot, readJson, Nat.not_lt.mpr hs.fits.bounded, object, bind,
    Except.bind, hread]

/-- The manifest a registration holds is the one on disk. -/
def Held (env : Env) (st : StoreFiles) (d : Durable) : Prop :=
  ∀ current s force, d = .lockedPointer current s force →
    ∃ o, readManifest env st.manifest = .ok o ∧ current = currentManifest env o

/-- A step that publishes a pointer publishes it in the manifest on disk,
and writes nothing else. -/
theorem Durable.exec_pointer {d : Durable} {s : State} {p : Text} {st st' : StoreFiles}
    (hd : d.pointerState = some s) (hfiles : ManifestOk env st.manifest) (hheld : Held env st d)
    (h : d.exec env p st = (st', .ok ())) :
    st'.plans = st.plans ∧ ∃ o force m, Store.readManifest env st.manifest = .ok o ∧
      publishManifestPointer env st.manifest (currentManifest env o) s force =
        .ok (st'.manifest, m) := by
  cases d with
  | pointer t =>
      cases hd
      rcases @pointerStep_manifest env s false _ hfiles with
        ⟨-, err, herr⟩ | ⟨o, file, m, ho, hp, hst⟩
      · simp [exec, effect, herr, Functor.map, Except.map] at h
      · simp only [exec, hst, effect_ok, Prod.mk.injEq, and_true] at h
        subst h
        exact ⟨rfl, o, false, m, ho, hp⟩
  | lockedPointer current t force =>
      cases hd
      obtain ⟨o, ho, rfl⟩ := hheld current s force rfl
      rcases @lockedPointerStep_manifest env (currentManifest env o) s force st with
        ⟨-, err, herr⟩ | ⟨file, m, hp, hst⟩
      · simp [exec, effect, herr, Functor.map, Except.map] at h
      · simp only [exec, hst, effect_ok, Prod.mk.injEq, and_true] at h
        subst h
        exact ⟨rfl, o, force, m, ho, hp⟩
  | append e n => cases hd
  | snapshot t => cases hd
  | readManifest => cases hd
  | raise err => cases hd

/-- Every other step leaves the manifest and the other plans alone. -/
theorem Durable.exec_files {d : Durable} {p : Text} {st st' : StoreFiles}
    (hd : d.pointerState = none) (h : d.exec env p st = (st', .ok ())) :
    st'.manifest = st.manifest ∧ (∀ q, q ≠ p → st'.plans q = st.plans q) ∧
      (st'.plans p).journal.length = (st.plans p).journal.length + d.appends := by
  cases d with
  | append e n =>
      simp only [exec] at h
      cases happend : appendStep p e n st with
      | error err => simp [happend, orUnchanged] at h
      | ok st₁ =>
          simp only [happend, orUnchanged, Prod.mk.injEq, and_true] at h
          obtain ⟨f, hf, rfl⟩ := appendStep_ok happend
          subst h
          refine ⟨rfl, fun q hq => st.setPlan_other f hq, ?_⟩
          rw [StoreFiles.setPlan_plans, (appendEvent_ok hf).1]
          simp [appends]
  | snapshot s =>
      simp only [exec] at h
      cases hsnap : snapshotStep p s st with
      | error err => simp [hsnap, orUnchanged] at h
      | ok st₁ =>
          simp only [hsnap, orUnchanged, Prod.mk.injEq, and_true] at h
          subst h
          rw [snapshotStep_ok hsnap]
          refine ⟨rfl, fun q hq => st.setPlan_other _ hq, ?_⟩
          rw [StoreFiles.setPlan_plans]
          rfl
  | pointer t => cases hd
  | lockedPointer current t force => cases hd
  | readManifest =>
      simp only [exec, effect, Prod.mk.injEq] at h
      rw [← h.1]
      exact ⟨rfl, fun q hq => rfl, rfl⟩
  | raise err => simp [exec] at h

/-- **One step of a script** keeps the rest of it tracked, and no pointer
gets ahead of the journal of its plan. -/
theorem Tracked.exec {d : Durable} {ds : List Durable} {p : Text} {st st' : StoreFiles}
    (h : Tracked p (diskStatus env p (st.plans p)) (pointerIn env st.manifest p)
      (st.plans p).journal.length (d :: ds))
    (hfiles : FilesOk env st) (hscript : ScriptOk env p (d :: ds)) (hheld : Held env st d)
    (hbounded : ∀ q, pointerIn env st.manifest p = some q →
      q.lastEventSequence ≤ (st.plans p).journal.length)
    (hexec : d.exec env p st = (st', .ok ())) :
    Tracked p (diskStatus env p (st'.plans p)) (pointerIn env st'.manifest p)
        (st'.plans p).journal.length ds ∧
      ∀ q, pointerIn env st'.manifest p = some q →
        q.lastEventSequence ≤ (st'.plans p).journal.length := by
  cases hd : d.pointerState with
  | some s =>
      have hlast := h.pointer_last hd
      subst hlast
      obtain ⟨hplans, o, force, m, ho, hp⟩ := Durable.exec_pointer hd hfiles.manifest hheld hexec
      have howed : owed [d] = some s := hd
      obtain ⟨hplan, hfinal, hbound, hseq⟩ := h.owes s howed
      obtain ⟨hnone, hkept⟩ := Durable.pointer_only hd
      have hdisk : diskStatus env p (st.plans p) = some s.status := by
        rw [hkept] at hfinal
        exact hfinal
      have hpublished := publish_pointerIn ho hp p
      rw [if_pos hplan] at hpublished
      rw [hplans]
      rcases hpublished with ⟨q, hq, hstatus, hq'⟩ | ⟨q, hq, hahead⟩
      · refine ⟨Tracked.done hq (by rw [hdisk, hstatus]), ?_⟩
        intro q₁ hq₁
        rw [hq, Option.some.injEq] at hq₁
        subst hq₁
        rcases hq' with hsame | hold
        · simp only [List.map_cons, List.map_nil, List.sum_cons, List.sum_nil, hnone] at hseq
          omega
        · exact hbounded q hold
      · have := hbound q hq
        omega
  | none =>
      obtain ⟨hmanifest, -, hlength⟩ := Durable.exec_files hd hexec
      have hraise : ∀ err, d ≠ .raise err := by
        rintro err rfl
        simp [Durable.exec] at hexec
      have hdisk : finalStatus (diskStatus env p (st.plans p)) (d :: ds) =
          finalStatus (diskStatus env p (st'.plans p)) ds := by
        cases d with
        | append e n =>
            simp only [Durable.exec] at hexec
            cases happend : appendStep p e n st with
            | error err => simp [happend, orUnchanged] at hexec
            | ok st₁ =>
                simp only [happend, orUnchanged, Prod.mk.injEq, and_true] at hexec
                obtain ⟨f, hf, rfl⟩ := appendStep_ok happend
                subst hexec
                rw [StoreFiles.setPlan_plans, (appendEvent_ok hf).1]
                rfl
        | snapshot s =>
            obtain ⟨hvalid, hplan⟩ := hscript s (by simp)
            simp only [Durable.exec, snapshotStep_valid hvalid, orUnchanged, Prod.mk.injEq,
              and_true] at hexec
            subst hexec
            rw [StoreFiles.setPlan_plans, diskStatus_snapshot hvalid hplan]
            rfl
        | readManifest =>
            simp only [Durable.exec, effect, Prod.mk.injEq] at hexec
            rw [← hexec.1]
            rfl
        | pointer s => cases hd
        | lockedPointer current s force => cases hd
        | raise err => exact absurd rfl (hraise err)
      rw [hmanifest, hlength]
      refine ⟨h.tail hd hraise hdisk rfl, ?_⟩
      intro q hq
      have := hbounded q hq
      omega

/-! ## The script of a call -/

theorem sequence_last {es : List Event} :
    ∀ {n : Nat} {previous : Text}, validateSequenceAndHashes env n previous es = .ok () →
      ∀ e, es.getLast? = some e → e.sequence + 1 = n + es.length := by
  induction es with
  | nil =>
      intro n previous _ e he
      cases he
  | cons e' es ih =>
      intro n previous h e he
      simp only [validateSequenceAndHashes, bind_eq_ok, require_eq_ok, beq_iff_eq] at h
      obtain ⟨_, hseq, _, -, _, -, hrest⟩ := h
      cases es with
      | nil =>
          cases he
          simp [hseq]
      | cons e'' es =>
          rw [List.getLast?_cons_cons] at he
          rw [ih hrest e he, List.length_cons]
          simp only [List.length_cons]
          omega

theorem applyEvents_sequence {timestamp : Text} {es : List Event} :
    ∀ {s s' : State}, applyEvents env timestamp s es = .ok s' →
      s'.lastEventSequence = match es.getLast? with
        | some e => e.sequence
        | none => s.lastEventSequence := by
  induction es with
  | nil =>
      intro s s' h
      cases h
      rfl
  | cons e es ih =>
      intro s s' h
      simp only [applyEvents, bind_eq_ok] at h
      obtain ⟨next, hnext, hrest⟩ := h
      rw [ih hrest]
      cases es with
      | nil => exact (stateAfterEvent_same hnext).2.2
      | cons e' es =>
          rw [List.getLast?_cons_cons]
          cases hlast : (e' :: es).getLast? with
          | none => simp at hlast
          | some _ => rfl

/-- A plan that is not there has no records. -/
theorem loadPlan_none {p timestamp : Text} {f f' : PlanFiles} {es : List Event}
    (h : loadPlan env p timestamp f = (f', .ok (none, es))) : es = [] := by
  simp only [loadPlan, Prod.mk.injEq, bind_eq_ok] at h
  obtain ⟨-, snapshot, -, es', -, h⟩ := h
  cases snapshot with
  | none =>
      cases es' with
      | nil =>
          simp only [pure, Except.pure, Except.ok.injEq, Prod.mk.injEq, true_and] at h
          exact h.symm
      | cons e es' => simp [bind_eq_ok, pure, Except.pure] at h
  | some s => simp [bind_eq_ok, pure, Except.pure] at h

/-- A loaded plan stands at the end of its journal, and where nothing had to
be recovered its status is the one on disk. -/
theorem loadPlan_tracks {p timestamp : Text} {f f' : PlanFiles} {s : State} {b : Bool}
    {es : List Event} (hf : SnapshotOk env p f.snapshot)
    (h : loadPlan env p timestamp f = (f', .ok (some (s, b), es))) :
    es.length = f.journal.length ∧ s.lastEventSequence = es.length ∧
      (b = false → diskStatus env p f = some s.status) := by
  have hf' : f' = f := by
    have := hf.loadPlan timestamp
    rw [h] at this
    exact this
  subst hf'
  obtain ⟨-, hrecords, -, hchain, -⟩ := reads_iff.mp (loadPlan_reads h)
  have hlength := readRecords_length hrecords
  refine ⟨hlength, ?_⟩
  obtain ⟨o, ho⟩ := hf.reads s!"state for {String.ofList p}"
  have hdisk : readSnapshot env p "state" f' = .ok o := by
    unfold readSnapshot readJson at ho ⊢
    cases hsnap : f'.snapshot with
    | none =>
        rw [hsnap] at ho
        exact ho
    | some j =>
        obtain ⟨t, rfl, hvalid, hplan⟩ := hf j hsnap
        have hread : validateState env t.toDict (some p) stateHardLimitBytes = .ok t :=
          hvalid.reads env (by simp [hplan])
        simp only [hsnap, Nat.not_lt.mpr hvalid.fits.bounded, if_false, object, bind,
          Except.bind, hread] at ho ⊢
        exact ho
  simp only [loadPlan, loadStateForWrite, ho, quarantineMalformed, Prod.mk.injEq, true_and,
    bind_eq_ok, Except.ok.injEq, exists_eq_left'] at h
  obtain ⟨es', -, h⟩ := h
  cases o with
  | none =>
      cases es' with
      | nil => simp [pure, Except.pure] at h
      | cons e es' =>
          simp only [bind_eq_ok, pure, Except.pure, Except.ok.injEq, Prod.mk.injEq,
            Option.some.injEq] at h
          obtain ⟨t, ht, ⟨rfl, rfl⟩, rfl⟩ := h
          refine ⟨?_, by simp⟩
          simp only [reconstructState, bind_eq_ok] at ht
          obtain ⟨base, -, u, hu, hv⟩ := ht
          rw [(validateState_same hv).2.2, applyEvents_sequence hu]
          cases hlast : (e :: es').getLast? with
          | none => simp at hlast
          | some e' =>
              have := sequence_last hchain e' hlast
              simp only
              omega
  | some t =>
      simp only [bind_eq_ok, pure, Except.pure, Except.ok.injEq, Prod.mk.injEq,
        Option.some.injEq] at h
      obtain ⟨_, -, ⟨u, b'⟩, hr, heq, rfl⟩ := h
      cases heq
      simp only [reconcileState, bind_eq_ok] at hr
      obtain ⟨_, hcursor, hr⟩ := hr
      split at hr
      · rename_i hcurrent
        cases hr
        exact ⟨hcurrent, fun _ => by simp only [diskStatus, hdisk]⟩
      · rename_i hbehind
        simp only [bind_eq_ok, pure, Except.pure, Except.ok.injEq, Prod.mk.injEq] at hr
        obtain ⟨v, hv, w, hw, rfl, rfl⟩ := hr
        refine ⟨?_, by simp⟩
        simp only [validateStateCursor, bind_eq_ok, require_eq_ok, decide_eq_true_eq] at hcursor
        obtain ⟨_, hle, -⟩ := hcursor
        rw [(validateState_same hw).2.2, applyEvents_sequence hv, List.getLast?_drop,
          if_neg (by omega)]
        cases hlast : es'.getLast? with
        | none =>
            rw [List.getLast?_eq_none_iff] at hlast
            subst hlast
            simp at hle hbehind
            omega
        | some e' =>
            have := sequence_last hchain e' hlast
            simp only
            omega

def Call.timestamp : Call → Text
  | .register c => c.timestamp
  | .record c => c.timestamp
  | .replay _ t => t

/-- The call publishes the pointer of its plan: it registers the plan, or it
appends an event that changes the status. -/
def ChangesIndex (env : Env) (st : StoreFiles) : Call → Prop
  | .register _ => True
  | .record c => ∃ r s candidate e es, recordRequest env c = .ok r ∧
      (lockedRecord env r (st.plans r.planId)).2 = .ok (.append s candidate e, es) ∧
      candidate.status ≠ s.status
  | .replay _ _ => False

/-- The pointer of the plan has the status of the plan as the call finds it. -/
def FindsAgreeing (env : Env) (st : StoreFiles) (call : Call) : Prop :=
  ∃ s b es q, (loadPlan env call.planId call.timestamp (st.plans call.planId)).2 =
      .ok (some (s, b), es) ∧ pointerIn env st.manifest call.planId = some q ∧ q.status = s.status

/-- The pointer of a plan is not ahead of its journal. -/
def Bounded (env : Env) (st : StoreFiles) (p : Text) : Prop :=
  ∀ q, pointerIn env st.manifest p = some q →
    q.lastEventSequence ≤ (st.plans p).journal.length

/-- The rest of the script of a writer on a plan is tracked. -/
def TracksPlan (env : Env) (st : StoreFiles) (p : Text) (script : List Durable) : Prop :=
  Tracked p (diskStatus env p (st.plans p)) (pointerIn env st.manifest p)
    (st.plans p).journal.length script

/-- A script that publishes no pointer is tracked when the pointer has the
status it leaves. -/
theorem Tracked.of_agrees {p : Text} {disk : Option Status} {ptr : Option Pointer} {records : Nat}
    {script : List Durable} {q : Pointer} (hnone : ∀ d ∈ script, d.pointerState = none)
    (hq : ptr = some q) (hstatus : finalStatus disk script = some q.status) :
    Tracked p disk ptr records script where
  last d hd := hnone d (List.dropLast_subset _ hd)
  owes := by
    intro s hs
    simp only [owed, Option.bind_eq_some_iff] at hs
    obtain ⟨d, hd, hds⟩ := hs
    rw [hnone d (List.mem_of_getLast? hd)] at hds
    cases hds
  agrees := fun _ => .inr ⟨q, hq, hstatus⟩

theorem recordedEvent_same {r : RecordRequest} {s candidate : State} {n : Nat} {previous : Text}
    {e : Event} (hc : candidateState env r s = .ok candidate)
    (h : recordedEvent env r s candidate n previous = .ok e) :
    e.status = candidate.status ∧ e.sequence = n := by
  rw [(recordedEvent_built (candidateState_valid hc).1.fields h).1]
  exact ⟨rfl, rfl⟩

theorem registrationEvent_same {r : RegisterRequest} {n : Nat} {previous : Text} {e : Event}
    (hr : r.initial.FieldsOk env) (h : registrationEvent env r n previous = .ok e) :
    e.sequence = n := by
  rw [(registrationEvent_built hr h).1]
  rfl

theorem lockedRecord_tracked {c : RecordCall} {r : RecordRequest} {st : StoreFiles}
    {d : RecordDecision} {es : List Event} (hfiles : FilesOk env st)
    (hr : recordRequest env c = .ok r) (hbounded : Bounded env st r.planId)
    (hlocked : (lockedRecord env r (st.plans r.planId)).2 = .ok (d, es))
    (hcond : ChangesIndex env st (.record c) ∨ FindsAgreeing env st (.record c)) :
    TracksPlan env st r.planId (d.script env r es.length) := by
  have hsnapshot := hfiles.snapshot r.planId
  obtain ⟨s, b, hload, hd⟩ := lockedRecord_ok (Prod.ext hsnapshot.lockedRecord hlocked)
  obtain ⟨hrecords, hseq, hdisk⟩ := loadPlan_tracks hsnapshot hload
  have htime : r.timestamp = c.timestamp := by
    simp only [recordRequest, bind_eq_ok, pure, Except.pure, Except.ok.injEq] at hr
    obtain ⟨_, -, kind, -, op, -, fields, -, rfl⟩ := hr
    rfl
  -- a call that publishes nothing found its plan in agreement
  have hagrees : FindsAgreeing env st (.record c) → ∃ q,
      pointerIn env st.manifest r.planId = some q ∧ q.status = s.status := by
    rintro ⟨s', b', es', q, hload', hq, hstatus⟩
    simp only [Call.planId, Call.timestamp, ← recordRequest_planId hr, ← htime] at hload' hq
    rw [hload] at hload'
    cases hload'
    exact ⟨q, hq, hstatus⟩
  cases d with
  | settled t b' res =>
      obtain ⟨rfl, rfl⟩ := decideRecord_settled_state hd
      have hfinds : FindsAgreeing env st (.record c) := by
        rcases hcond with ⟨r', s', candidate, e, es', hr', hlocked', -⟩ | hfinds
        · rw [hr] at hr'
          cases hr'
          rw [hlocked] at hlocked'
          cases hlocked'
        · exact hfinds
      obtain ⟨q, hq, hstatus⟩ := hagrees hfinds
      cases b' with
      | false => exact .of_agrees (by simp [RecordDecision.script]) hq (by
          rw [hstatus]
          exact hdisk rfl)
      | true =>
          exact .of_agrees (by simp [RecordDecision.script, Durable.pointerState]) hq (by
            rw [hstatus]
            rfl)
  | append before candidate e =>
      obtain ⟨rfl, hc, -, he⟩ := decideRecord_append hd
      obtain ⟨hestatus, heseq⟩ := recordedEvent_same hc he
      simp only [RecordDecision.script]
      cases hafter : stateAfterEvent env candidate e r.timestamp with
      | error err =>
          exact
            { last := by simp [Durable.pointerState]
              owes := by simp [owed, Durable.pointerState]
              agrees := fun _ => .inl ⟨err, by simp⟩ }
      | ok next =>
          obtain ⟨-, hnstatus, hnseq⟩ := stateAfterEvent_same hafter
          have hstatus : next.status = candidate.status := by rw [hnstatus, hestatus]
          by_cases hkept : next.status = before.status
          · have hfinds : FindsAgreeing env st (.record c) := by
              rcases hcond with ⟨r', s', candidate', e', es', hr', hlocked', hne⟩ | hfinds
              · rw [hr] at hr'
                cases hr'
                rw [hlocked] at hlocked'
                cases hlocked'
                exact absurd (hstatus.symm.trans hkept) hne
              · exact hfinds
            obtain ⟨q, hq, hqstatus⟩ := hagrees hfinds
            refine .of_agrees ?_ hq ?_
            · simp [hkept, Durable.pointerState]
            · rw [hqstatus, ← hkept]
              simp [hkept, finalStatus]
          · simp only [if_neg hkept]
            have hplan := (recordedEvent_next hc he hafter).2
            exact
              { last := by simp [Durable.pointerState]
                owes := by
                  intro t ht
                  have ht : next = t := by simpa [owed, Durable.pointerState] using ht
                  subst ht
                  refine ⟨hplan, rfl, ?_, ?_⟩
                  · intro q hq
                    have := hbounded q hq
                    omega
                  · simp only [List.map_cons, List.map_nil, List.sum_cons, List.sum_nil,
                      Durable.appends]
                    omega
                agrees := by simp [owed, Durable.pointerState] }

theorem decideRegister_tracked {r : RegisterRequest} {st : StoreFiles} {current : Manifest}
    {plan : Option (State × Bool)} {es : List Event} {d : RegisterDecision}
    (hfiles : FilesOk env st) (hinitial : r.initial.Valid env stateHardLimitBytes)
    (hplanId : r.initial.planId = r.planId) (hbounded : Bounded env st r.planId)
    (hload : (loadPlan env r.planId r.timestamp (st.plans r.planId)).2 = .ok (plan, es))
    (hd : decideRegister env r current plan es = .ok d) :
    TracksPlan env st r.planId (d.script current) := by
  have hsnapshot := hfiles.snapshot r.planId
  have hload : loadPlan env r.planId r.timestamp (st.plans r.planId) =
      (st.plans r.planId, .ok (plan, es)) :=
    Prod.ext (hsnapshot.loadPlan r.timestamp) hload
  cases d with
  | settled s b id =>
      have hplan := decideRegister_settled hd
      subst hplan
      obtain ⟨hrecords, hseq, hdisk⟩ := loadPlan_tracks hsnapshot hload
      have hs := loadPlan_valid hload
      refine
        { last := ?_
          owes := ?_
          agrees := ?_ }
      · cases b <;> simp [RegisterDecision.script, Durable.pointerState]
      · intro t ht
        have ht : s = t := by
          cases b <;> simpa [RegisterDecision.script, owed, Durable.pointerState] using ht
        subst ht
        refine ⟨hs.2, ?_, ?_, by omega⟩
        · cases b with
          | false => exact hdisk rfl
          | true => rfl
        · intro q hq
          have := hbounded q hq
          omega
      · cases b <;> simp [RegisterDecision.script, owed, Durable.pointerState]
  | append next e =>
      obtain ⟨rfl, he, hnext, -⟩ := decideRegister_append hd
      have hplan := (registrationEvent_next hinitial hplanId he hnext).2
      have hseq : next.lastEventSequence = 1 := by
        rw [(stateAfterEvent_same hnext).2.2, registrationEvent_same hinitial.fields he]
      have hjournal : (st.plans r.planId).journal.length = 0 := by
        obtain ⟨-, hrecords, -, -, -⟩ := reads_iff.mp (loadPlan_reads hload)
        have hes : es = [] := loadPlan_none hload
        rw [← readRecords_length hrecords, hes]
        rfl
      exact
        { last := by simp [RegisterDecision.script, Durable.pointerState]
          owes := by
            intro t ht
            have ht : next = t := by
              simpa [RegisterDecision.script, owed, Durable.pointerState] using ht
            subst ht
            refine ⟨hplan, rfl, ?_, ?_⟩
            · intro q hq
              have := hbounded q hq
              omega
            · simp only [RegisterDecision.script, List.map_cons, List.map_nil, List.sum_cons,
                List.sum_nil, Durable.appends]
              omega
          agrees := by simp [RegisterDecision.script, owed, Durable.pointerState] }

/-- **The script of a call is tracked** when the call changes the index or
finds it in agreement. -/
theorem locked_tracked {call : Call} {st st' : StoreFiles} {script : List Durable}
    (hfiles : FilesOk env st) (hbounded : Bounded env st call.planId)
    (h : call.locked env st = (st', .ok script))
    (hcond : ChangesIndex env st call ∨ FindsAgreeing env st call) :
    TracksPlan env st call.planId script := by
  cases call with
  | record c =>
      simp only [Call.locked] at h
      split at h
      · simp at h
      · rename_i r hr
        rw [Call.planId, ← recordRequest_planId hr] at hbounded ⊢
        simp only [Prod.mk.injEq, map_eq_ok] at h
        obtain ⟨-, ⟨d, es⟩, hlocked, rfl⟩ := h
        exact lockedRecord_tracked hfiles hr hbounded hlocked hcond
  | register c =>
      simp only [Call.locked] at h
      split at h
      · simp at h
      · rename_i r hr
        rw [Call.planId, ← registerRequest_planId hr] at hbounded ⊢
        have hinitial := registerRequest_valid hr
        obtain ⟨o, -, hread⟩ := hfiles.manifest.readsLocked
        simp only [hread, Prod.mk.injEq, bind_eq_ok, pure, Except.pure, Except.ok.injEq] at h
        obtain ⟨-, ⟨plan, es⟩, hload, d, hd, rfl⟩ := h
        exact decideRegister_tracked hfiles hinitial.1 hinitial.2 hbounded hload hd
  | replay p t =>
      simp only [Call.locked] at h
      split at h
      · simp at h
      · simp only [Prod.mk.injEq, map_eq_ok] at h
        obtain ⟨-, ⟨plan, es⟩, hload, rfl⟩ := h
        obtain ⟨s, b, es', q, hload', hq, hstatus⟩ := hcond.resolve_left id
        simp only [Call.planId, Call.timestamp, hload, Except.ok.injEq, Prod.mk.injEq] at hload' hq
        obtain ⟨rfl, rfl⟩ := hload'
        have hsnapshot := hfiles.snapshot p
        obtain ⟨-, -, hdisk⟩ := loadPlan_tracks hsnapshot
          (Prod.ext (hsnapshot.loadPlan t) hload)
        cases b with
        | false => exact .of_agrees (by simp) hq (by
            rw [hstatus]
            exact hdisk rfl)
        | true => exact .of_agrees (by simp [Durable.pointerState]) hq (by
            rw [hstatus]
            rfl)

/-- Only registrations publish with a manifest they hold, and it is the one
they found. -/
theorem locked_held {call : Call} {st st' : StoreFiles} {script : List Durable}
    (hfiles : FilesOk env st) (h : call.locked env st = (st', .ok script)) {d : Durable}
    (hd : d ∈ script) {current : Manifest} {s : State} {force : Bool}
    (heq : d = .lockedPointer current s force) :
    call.registers = true ∧ ∃ o, readManifest env st.manifest = .ok o ∧
      current = currentManifest env o := by
  subst heq
  cases call with
  | record c =>
      simp only [Call.locked] at h
      split at h
      · simp at h
      · simp only [Prod.mk.injEq, map_eq_ok] at h
        obtain ⟨-, ⟨d, es⟩, -, rfl⟩ := h
        cases d with
        | settled t b res => cases b <;> simp [RecordDecision.script] at hd
        | append before candidate e =>
            simp only [RecordDecision.script, List.mem_cons, reduceCtorEq, false_or] at hd
            split at hd
            · simp at hd
            · simp only [List.mem_cons, reduceCtorEq, List.not_mem_nil, or_false,
                false_or] at hd
              split at hd <;> cases hd
  | register c =>
      refine ⟨rfl, ?_⟩
      simp only [Call.locked] at h
      split at h
      · simp at h
      · obtain ⟨o, ho, hread⟩ := hfiles.manifest.readsLocked
        simp only [hread, Prod.mk.injEq, bind_eq_ok, pure, Except.pure, Except.ok.injEq] at h
        obtain ⟨-, ⟨plan, es⟩, -, decision, -, rfl⟩ := h
        refine ⟨o, ho, ?_⟩
        cases decision with
        | settled t b id =>
            cases b <;> simp only [RegisterDecision.script, Bool.false_eq_true, if_false, if_true,
              List.nil_append, List.singleton_append, List.mem_cons, reduceCtorEq,
              List.not_mem_nil, or_false, false_or, Durable.lockedPointer.injEq] at hd
            · exact hd.1
            · exact hd.1
        | append next e =>
            simp only [RegisterDecision.script, List.mem_cons, reduceCtorEq, List.not_mem_nil,
              or_false, false_or, Durable.lockedPointer.injEq] at hd
            exact hd.1
  | replay p t =>
      simp only [Call.locked] at h
      split at h
      · simp at h
      · simp only [Prod.mk.injEq, map_eq_ok] at h
        obtain ⟨-, l, -, rfl⟩ := h
        split at hd <;> simp at hd

/-! ## The index along a run -/

/-- The condition on the steps of a run: a call that does not publish the
pointer of its plan enters on an index that agrees with the plan. -/
def KeepsIndex (env : Env) (sys : System) : Action → Prop
  | .enter call => ChangesIndex env sys.files call ∨ FindsAgreeing env sys.files call
  | _ => True

structure IndexOk (env : Env) (sys : System) : Prop where
  bounded : ∀ p, Bounded env sys.files p
  tracked : ∀ p script, sys.writer p = some script → TracksPlan env sys.files p script
  held : ∀ p script d, sys.writer p = some script → d ∈ script → Held env sys.files d ∧
    ((∃ current s force, d = .lockedPointer current s force) → sys.registering = some p)

theorem IndexOk.initial : IndexOk env .initial where
  bounded := by
    intro p q hq
    cases hq
  tracked := by
    intro p script h
    cases h
  held := by
    intro p script d h
    cases h

theorem IndexOk.release {sys : System} (h : IndexOk env sys) (p : Text) :
    IndexOk env (sys.release p) where
  bounded := h.bounded
  tracked := by
    intro q script hq
    by_cases hqp : q = p
    · subst hqp
      rw [System.release_self] at hq
      cases hq
    · rw [sys.release_other hqp] at hq
      exact h.tracked q script hq
  held := by
    intro q script d hq hd
    by_cases hqp : q = p
    · subst hqp
      rw [System.release_self] at hq
      cases hq
    · rw [sys.release_other hqp] at hq
      obtain ⟨hheld, hlock⟩ := h.held q script d hq hd
      refine ⟨hheld, fun hlocked => ?_⟩
      have hregistering := hlock hlocked
      simp only [System.release, hregistering, Option.some.injEq, if_neg hqp]

/-- A step that fails writes nothing. -/
theorem Durable.exec_error {d : Durable} {p : Text} {st st' : StoreFiles} {err : Fault}
    (hfiles : ManifestOk env st.manifest) (h : d.exec env p st = (st', .error err)) : st' = st := by
  cases d with
  | append e n =>
      simp only [exec] at h
      cases happend : appendStep p e n st <;> simp_all [orUnchanged]
  | snapshot s =>
      simp only [exec] at h
      cases hsnap : snapshotStep p s st <;> simp_all [orUnchanged]
  | pointer s =>
      rcases @pointerStep_manifest env s false _ hfiles with
        ⟨hst, -⟩ | ⟨o, file, m, -, -, hst⟩
      · simp only [exec, effect, Prod.mk.injEq] at h
        rw [← h.1, hst]
      · simp [exec, hst] at h
  | lockedPointer current s force =>
      rcases @lockedPointerStep_manifest env current s force st with
        ⟨hst, -⟩ | ⟨file, m, -, hst⟩
      · simp only [exec, effect, Prod.mk.injEq] at h
        rw [← h.1, hst]
      · simp [exec, hst] at h
  | readManifest =>
      simp only [exec, effect, Prod.mk.injEq] at h
      exact h.1.symm
  | raise err' =>
      simp only [exec, Prod.mk.injEq] at h
      exact h.1.symm

/-- **Frame of a step**: the other plans keep their files and pointers. -/
theorem TracksPlan.exec_other {d : Durable} {ds : List Durable} {p q : Text} {st st' : StoreFiles}
    (h : TracksPlan env st p (d :: ds)) (hfiles : FilesOk env st) (hheld : Held env st d)
    (hexec : d.exec env p st = (st', .ok ())) (hq : q ≠ p) :
    st'.plans q = st.plans q ∧
      pointerIn env st'.manifest q = pointerIn env st.manifest q := by
  cases hd : d.pointerState with
  | none =>
      obtain ⟨hmanifest, hplans, -⟩ := Durable.exec_files hd hexec
      rw [hmanifest]
      exact ⟨hplans q hq, rfl⟩
  | some s =>
      have hlast := h.pointer_last hd
      subst hlast
      obtain ⟨hplans, o, force, m, ho, hp⟩ := Durable.exec_pointer hd hfiles.manifest hheld hexec
      have hplan := (h.owes s hd).1
      have hpublished := publish_pointerIn ho hp q
      rw [if_neg (by rw [hplan]; exact Ne.symm hq)] at hpublished
      exact ⟨by rw [hplans], hpublished⟩

theorem IndexOk.write {sys : System} {p : Text} {d : Durable} {ds : List Durable}
    {files : StoreFiles} (hok : SystemOk env sys) (h : IndexOk env sys)
    (hwriter : sys.writer p = some (d :: ds)) (hready : sys.Ready d)
    (hexec : d.exec env p sys.files = (files, .ok ())) :
    IndexOk env ((sys.setFiles files).setWriter p ds) := by
  have htracked := h.tracked p _ hwriter
  obtain ⟨hheld, hlock⟩ := h.held p _ d hwriter (by simp)
  have hown := Tracked.exec htracked hok.files (hok.scripts p _ hwriter) hheld (h.bounded p) hexec
  have hother := fun q (hq : q ≠ p) => htracked.exec_other hok.files hheld hexec hq
  refine ⟨?_, ?_, ?_⟩
  · intro q
    by_cases hqp : q = p
    · subst hqp
      exact hown.2
    · show Bounded env files q
      unfold Bounded
      rw [(hother q hqp).1, (hother q hqp).2]
      exact h.bounded q
  · intro q script hq
    show TracksPlan env files q script
    by_cases hqp : q = p
    · subst hqp
      rw [System.setWriter_self, Option.some.injEq] at hq
      rw [← hq]
      exact hown.1
    · rw [System.setWriter_other _ _ hqp] at hq
      unfold TracksPlan
      rw [(hother q hqp).1, (hother q hqp).2]
      exact h.tracked q script hq
  · intro q script d' hq hd'
    by_cases hqp : q = p
    · subst hqp
      rw [System.setWriter_self, Option.some.injEq] at hq
      subst hq
      obtain ⟨hheld', hlock'⟩ := h.held q _ d' hwriter (List.mem_cons_of_mem _ hd')
      refine ⟨?_, hlock'⟩
      cases hd : d.pointerState with
      | some s =>
          rw [htracked.pointer_last hd] at hd'
          simp at hd'
      | none =>
          unfold Held
          rw [System.setWriter_files, System.setFiles_files, (Durable.exec_files hd hexec).1]
          exact hheld'
    · rw [System.setWriter_other _ _ hqp] at hq
      obtain ⟨hheld', hlock'⟩ := h.held q script d' hq hd'
      refine ⟨?_, hlock'⟩
      intro current s force heq
      -- the manifest lock of a registration keeps every other publication out
      have hregistering := hlock' ⟨current, s, force, heq⟩
      have hnone : d.pointerState = none := by
        cases d with
        | pointer t =>
            have hfree : sys.registering = none := hready
            rw [hregistering] at hfree
            cases hfree
        | lockedPointer current' t force' =>
            have hmine := hlock ⟨current', t, force', rfl⟩
            rw [hregistering, Option.some.injEq] at hmine
            exact absurd hmine hqp
        | append e n => rfl
        | snapshot t => rfl
        | readManifest => rfl
        | raise err => rfl
      rw [System.setWriter_files, System.setFiles_files, (Durable.exec_files hnone hexec).1]
      exact hheld' current s force heq

theorem IndexOk.enter {sys : System} {call : Call} {script : List Durable}
    (hok : SystemOk env sys) (h : IndexOk env sys) (hfree : sys.Free call)
    (hrun : call.locked env sys.files = (sys.files, .ok script))
    (hcond : ChangesIndex env sys.files call ∨ FindsAgreeing env sys.files call) :
    IndexOk env
      { sys.setWriter call.planId script with
        registering := if call.registers then some call.planId else sys.registering } where
  bounded := h.bounded
  tracked := by
    intro q script' hq
    by_cases hqp : q = call.planId
    · subst hqp
      have hq : some script = some script' := by rw [← hq, ← System.setWriter_self sys]
      rw [← Option.some.inj hq]
      exact locked_tracked hok.files (h.bounded _) hrun hcond
    · have hq : sys.writer q = some script' := by rw [← hq, ← sys.setWriter_other script hqp]
      exact h.tracked q script' hq
  held := by
    intro q script' d hq hd
    by_cases hqp : q = call.planId
    · subst hqp
      have hq : some script = some script' := by rw [← hq, ← System.setWriter_self sys]
      rw [← Option.some.inj hq] at hd
      constructor
      · intro current s force heq
        exact (locked_held hok.files hrun hd heq).2
      · rintro ⟨current, s, force, heq⟩
        simp only [(locked_held hok.files hrun hd heq).1, if_true]
    · have hq : sys.writer q = some script' := by rw [← hq, ← sys.setWriter_other script hqp]
      obtain ⟨hheld, hlock⟩ := h.held q script' d hq hd
      refine ⟨hheld, fun hlocked => ?_⟩
      have hregistering := hlock hlocked
      show (if call.registers = true then some call.planId else sys.registering) = some q
      split
      · rename_i hregisters
        have hnone := hfree.2 hregisters
        rw [hregistering] at hnone
        cases hnone
      · exact hregistering

/-- **Every step that meets the condition keeps the index.** -/
theorem IndexOk.step {sys sys' : System} {a : Action} (hok : SystemOk env sys)
    (h : IndexOk env sys) (hcond : KeepsIndex env sys a) (hstep : Step env sys a sys') :
    IndexOk env sys' := by
  cases hstep with
  | @preview call files err hfree hrun =>
      have hsame := hok.files.preview call
      rw [hrun] at hsame
      simp only at hsame
      subst hsame
      exact h
  | @reject call files err hfree hrun =>
      have hsame := hok.files.locked call
      rw [hrun] at hsame
      simp only at hsame
      subst hsame
      exact h
  | @enter call files script hfree hrun =>
      have hsame := hok.files.locked call
      rw [hrun] at hsame
      simp only at hsame
      subst hsame
      exact h.enter hok hfree hrun hcond
  | write hwriter hready hexec => exact h.write hok hwriter hready hexec
  | @raise p d ds files err hwriter hready hexec =>
      have hsame := Durable.exec_error hok.files.manifest hexec
      subst hsame
      exact h.release p
  | finish hwriter => exact h.release _
  | crash hwriter => exact h.release _

theorem Run.indexOk {sys : System} (h : Run env (KeepsIndex env) sys) : IndexOk env sys := by
  induction h with
  | initial => exact .initial
  | step hrun hcond hstep ih => exact ih.step hrun.systemOk hcond hstep

/-- **The index follows the plans.** In every run in which each call that
does not publish the pointer of its plan enters on an index that agrees
with it, a call that returns leaves a pointer with the status of its
plan. -/
theorem finish_agrees {sys sys' : System} {p : Text} (h : Run env (KeepsIndex env) sys)
    (hstep : Step env sys (.finish p) sys') : Agrees env sys'.files p := by
  cases hstep with
  | finish hwriter =>
      obtain ⟨err, herr⟩ | ⟨q, hq, hstatus⟩ := (h.indexOk.tracked p [] hwriter).agrees rfl
      · simp at herr
      · have hdisk : diskStatus env p (sys.files.plans p) = some q.status := hstatus
        unfold diskStatus at hdisk
        split at hdisk
        · rename_i s hread
          exact ⟨q, s, hq, hread, (Option.some.inj hdisk).symm⟩
        · cases hdisk

/-! ## A registration cut short -/

theorem registerPlan_changed {c : RegisterCall} {st st' : StoreFiles} {res : StoreResult}
    (h : registerPlan env c st = (st', .ok res)) (hchanged : res.changed = true) :
    ∃ r file current f es next e, registerRequest env c = .ok r ∧
      readManifestLocked env st.manifest = (file, .ok current) ∧
      loadPlan env r.planId r.timestamp (st.plans r.planId) = (f, .ok (none, es)) ∧
      decideRegister env r current none es = .ok (.append next e) ∧
      commitRegister env r current (.append next e)
        (StoreFiles.setPlan { st with manifest := file } r.planId f) = (st', .ok res) := by
  unfold registerPlan at h
  split at h
  · simp at h
  · rename_i r hr
    split at h
    · simp at h
    · rename_i file current hmanifest
      simp only at h
      split at h
      · simp at h
      · rename_i f plan es hload
        split at h
        · simp at h
        · rename_i d hd
          cases d with
          | settled s b id =>
              simp only [commitRegister] at h
              split at h
              · simp at h
              · simp only [Prod.mk.injEq, map_eq_ok] at h
                obtain ⟨-, m, -, rfl⟩ := h
                cases hchanged
          | append next e =>
              have hplan := (decideRegister_append hd).1
              subst hplan
              exact ⟨r, file, current, f, es, next, e, hr, hmanifest, hload, hd, h⟩

/-- The files between the durable steps of a registration. -/
theorem commitRegister_append {r : RegisterRequest} {current : Manifest} {next : State} {e : Event}
    {st st' : StoreFiles} {res : StoreResult}
    (h : commitRegister env r current (.append next e) st = (st', .ok res)) :
    ∃ f, appendEvent (st.plans r.planId) e 0 = .ok f ∧
      appendStep r.planId e 0 st = .ok (st.setPlan r.planId f) ∧
      snapshotStep r.planId next (st.setPlan r.planId f) =
        .ok (st.setPlan r.planId { f with snapshot := some (.obj next.toDict) }) := by
  simp only [commitRegister] at h
  split at h
  · simp at h
  · rename_i st₁ happend
    split at h
    · simp at h
    · rename_i st₂ hsnapshot
      obtain ⟨f, hf, rfl⟩ := appendStep_ok happend
      refine ⟨f, hf, happend, ?_⟩
      rw [hsnapshot, snapshotStep_ok hsnapshot, StoreFiles.setPlan_plans,
        StoreFiles.setPlan_setPlan]

/-- **A first registration cut short** before its last step: the plan is
complete, and the store has no manifest. -/
theorem registration_interrupted {c : RegisterCall} {st : StoreFiles} {res : StoreResult}
    (h : registerPlan env c .empty = (st, .ok res)) (hchanged : res.changed = true) :
    ∃ sys next e, Run env (fun _ _ => True) sys ∧ sys.Idle ∧ sys.files.manifest = none ∧
      Current env c.planId (sys.files.plans c.planId) next [e] := by
  obtain ⟨r, file, current, f, es, next, e, hr, hmanifest, hload, hd, hcommit⟩ :=
    registerPlan_changed h hchanged
  have hplan := registerRequest_planId hr
  obtain ⟨-, he, hnext, -⟩ := decideRegister_append hd
  obtain ⟨f', hf', happend, hsnapshot⟩ := commitRegister_append hcommit
  rw [StoreFiles.setPlan_plans] at hf'
  rw [StoreFiles.setPlan_setPlan] at happend hsnapshot
  have hfile : file = none := by
    simp only [StoreFiles.empty, readManifestLocked, readManifest, readJson, Prod.mk.injEq]
      at hmanifest
    exact hmanifest.1.symm
  have hlocked : (Call.register c).locked env .empty =
      (StoreFiles.setPlan { StoreFiles.empty with manifest := file } r.planId f,
        .ok [.append e 0, .snapshot next, .lockedPointer current next true]) := by
    simp only [Call.locked, hr, hmanifest, hload, hd, bind, Except.bind, pure, Except.pure]
    rfl
  have hreads : Reads env r.planId f [] := by
    have := loadPlan_reads hload
    rwa [loadPlan_none hload] at this
  have hcurrent := registered_current hr hreads he hnext hf'
  rw [hplan] at happend hsnapshot hlocked hcurrent
  have hidle := System.initial_idle
  have henter : Run env (fun _ _ => True) _ :=
    Run.initial.step trivial (.enter ⟨hidle.1 _, fun _ => hidle.2⟩ hlocked)
  have hone : Run env (fun _ _ => True) _ :=
    henter.step trivial (.write (System.setWriter_self ..) trivial
      (by rw [Durable.exec]; exact congrArg (orUnchanged _) happend))
  have htwo : Run env (fun _ _ => True) _ :=
    hone.step trivial (.write (System.setWriter_self ..) trivial
      (by rw [Durable.exec]; exact congrArg (orUnchanged _) hsnapshot))
  have hcrash : Run env (fun _ _ => True) _ :=
    htwo.step trivial (.crash (System.setWriter_self ..))
  refine ⟨_, next, e, hcrash, ⟨?_, ?_⟩, hfile, ?_⟩
  · intro q
    by_cases hq : q = (Call.register c).planId
    · subst hq
      exact System.release_self ..
    · rw [System.release_other _ hq]
      simp only [System.setWriter, System.setFiles, Function.update_of_ne hq]
      rfl
  · simp [System.release, System.setWriter, System.setFiles, Call.planId, Call.registers]
  · show Current env c.planId (StoreFiles.plans (StoreFiles.setPlan _ c.planId _) c.planId) next [e]
    rw [StoreFiles.setPlan_plans]
    exact hcurrent

/-- A plan found current is left as it is by `replay_plan`. -/
theorem replay_locked {p t : Text} {st : StoreFiles} {s : State} {es : List Event}
    (hp : validatePlanId p = .ok ()) (h : Current env p (st.plans p) s es) :
    (Call.replay p t).locked env st = (st, .ok []) := by
  simp only [Call.locked, hp, h.loadPlan, StoreFiles.setPlan_self]
  rfl

theorem registerRequest_planIdOk {c : RegisterCall} {r : RegisterRequest}
    (h : registerRequest env c = .ok r) : validatePlanId c.planId = .ok () := by
  simp only [registerRequest, bind_eq_ok] at h
  obtain ⟨_, hp, -⟩ := h
  exact hp

/-- `replay_plan` returns on a plan the manifest does not know. -/
theorem replay_leaves_unindexed :
    ∃ sys sys', Run phaseHost (fun _ _ => True) sys ∧
      Step phaseHost sys (.finish (txt "p")) sys' ∧ ¬ Agrees phaseHost sys'.files (txt "p") := by
  obtain ⟨res, hres, hchanged⟩ := exists_of_changes phasePlan_changes
  obtain ⟨sys, next, e, hrun, hidle, hmanifest, hcurrent⟩ :=
    registration_interrupted hres hchanged
  obtain ⟨r, -, -, -, -, -, -, hr, -⟩ := registerPlan_changed hres hchanged
  have hlocked := replay_locked (t := []) (registerRequest_planIdOk hr) hcurrent
  have hfinish : Step phaseHost _ (.finish phaseRegistration.planId) _ :=
    .finish (System.setWriter_self sys phaseRegistration.planId [])
  refine ⟨_, _, hrun.step trivial (.enter ⟨hidle.1 _, fun _ => hidle.2⟩ hlocked), hfinish, ?_⟩
  rintro ⟨q, s, hq, -⟩
  have hnone : pointerIn phaseHost sys.files.manifest (txt "p") = some q := hq
  rw [hmanifest] at hnone
  cases hnone

/-- The registration, undisturbed. -/
theorem finish_agrees_phase :
    ∃ sys', Agrees phaseHost (System.files sys') (txt "p") := by
  obtain ⟨res, hres, -⟩ := exists_of_changes phasePlan_changes
  have hexecute : (Call.register phaseRegistration).execute phaseHost .empty =
      (phasePlan.1, .ok ()) := by
    rw [← Call.run_effect]
    show effect phasePlan = (phasePlan.1, .ok ())
    rw [hres, effect_ok]
  obtain ⟨sys, hrun, hdone⟩ := @Run.call phaseHost (KeepsIndex phaseHost) _
    (.register phaseRegistration) _ .initial System.initial_idle (.inl trivial) (fun _ => trivial) hexecute
  exact ⟨_, finish_agrees hrun hdone.finish.1⟩

example : (StoreFiles.empty.plans (txt "q")).snapshot.isNone = true := by decide +kernel

end RalphVault.Store
