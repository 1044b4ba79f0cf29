import RalphVault.Store.Discovery

/-!
# Implementation store — what a run has written

A run of the system of writers together with the list of what it has
written so far: the events appended to each journal, the snapshots and the
manifests published. In every run the files hold exactly that, as
validated records of this checkout.
-/

namespace RalphVault.Store

inductive Written where
  | event (planId : Text) (e : Event)
  | snapshot (planId : Text) (s : State)
  | manifest (m : Manifest)

/-- The events of a plan that were appended, in order. -/
def eventsOf (p : Text) (ws : List Written) : List Event :=
  ws.filterMap fun
    | .event q e => if q = p then some e else none
    | _ => none

/-- The snapshot of a plan that was published last. -/
def snapshotOf (p : Text) (ws : List Written) : Option State :=
  (ws.filterMap fun
    | .snapshot q s => if q = p then some s else none
    | _ => none).getLast?

/-- The manifest that was published last. -/
def manifestOf (ws : List Written) : Option Manifest :=
  (ws.filterMap fun
    | .manifest m => some m
    | _ => none).getLast?

section Histories

variable (env : Env)

/-- The manifest a publication writes, if it writes one. -/
def published : Check (Manifest × Bool) → List Written
  | .ok (m, true) => [.manifest m]
  | _ => []

/-- What a step that succeeds writes. -/
def Durable.written (p : Text) (st : StoreFiles) : Durable → List Written
  | append e _ => [.event p e]
  | snapshot s => [.snapshot p s]
  | pointer s => published ((readManifestLocked env st.manifest).2 >>= fun m =>
      manifestCandidate env m s false)
  | lockedPointer current s force => published (manifestCandidate env current s force)
  | readManifest => []
  | raise _ => []

def Action.written (sys : System) : Action → List Written
  | write p => match sys.writer p with
      | some (d :: _) => d.written env p sys.files
      | _ => []
  | _ => []

/-- A run, and what it has written. -/
inductive History : List Written → System → Prop where
  | initial : History [] .initial
  | step {ws : List Written} {sys sys' : System} {a : Action} (h : History ws sys)
      (hstep : Step env sys a sys') : History (ws ++ a.written env sys) sys'

end Histories

variable {env : Env}

/-! ## Lists of writes -/

@[simp] theorem eventsOf_append (p : Text) (ws ws' : List Written) :
    eventsOf p (ws ++ ws') = eventsOf p ws ++ eventsOf p ws' :=
  List.filterMap_append

theorem snapshotOf_append (p : Text) (ws ws' : List Written) :
    snapshotOf p (ws ++ ws') = (snapshotOf p ws').or (snapshotOf p ws) := by
  simp only [snapshotOf, List.filterMap_append, List.getLast?_append]

theorem manifestOf_append (ws ws' : List Written) :
    manifestOf (ws ++ ws') = (manifestOf ws').or (manifestOf ws) := by
  simp only [manifestOf, List.filterMap_append, List.getLast?_append]

theorem eventsOf_event (p q : Text) (e : Event) :
    eventsOf p [.event q e] = if q = p then [e] else [] := by
  by_cases h : q = p <;> simp [eventsOf, h]

theorem snapshotOf_snapshot (p q : Text) (s : State) :
    snapshotOf p [.snapshot q s] = if q = p then some s else none := by
  by_cases h : q = p <;> simp [snapshotOf, h]

/-! ## Owned snapshots -/

theorem git_same {g g' : Git} (h : git env (.obj g.toDict) = .ok g') :
    g'.repositoryId = g.repositoryId :=
  (Json.str.inj (git_repositoryId h)).symm

/-- Validating the object of a snapshot keeps its repository. -/
theorem validateState_owned {s t : State} {expected : Option Text} {limit : Nat}
    (h : validateState env t.toDict expected limit = .ok s) (ht : Owned env t.git) :
    Owned env s.git := by
  have hgit : git env (.obj t.git.toDict) = .ok s.git := validateState_git h
  rw [Owned, git_same hgit]
  exact ht

theorem stateAfterEvent_owned {s next : State} {e : Event} {timestamp : Text}
    (h : stateAfterEvent env s e timestamp = .ok next) (he : Owned env e.git) :
    Owned env next.git :=
  validateState_owned h he

theorem applyEvents_owned {timestamp : Text} {es : List Event} :
    ∀ {s s' : State}, applyEvents env timestamp s es = .ok s' → (∀ e ∈ es, Owned env e.git) →
      Owned env s.git ∨ es ≠ [] → Owned env s'.git := by
  induction es with
  | nil =>
      intro s s' h _ hs
      cases h
      exact hs.resolve_right (by simp)
  | cons e es ih =>
      intro s s' h hes _
      simp only [applyEvents, bind_eq_ok] at h
      obtain ⟨next, hnext, hrest⟩ := h
      have howned := stateAfterEvent_owned hnext (hes e (List.mem_cons_self ..))
      exact ih hrest (fun q hq => hes q (List.mem_cons_of_mem _ hq)) (.inl howned)

/-- A plan that is loaded belongs to this checkout. -/
theorem loadPlan_owned {p timestamp : Text} {f f' : PlanFiles} {s : State} {b : Bool}
    {es : List Event} (h : loadPlan env p timestamp f = (f', .ok (some (s, b), es))) :
    Owned env s.git := by
  have hes : ∀ e ∈ es, Owned env e.git := by
    obtain ⟨-, -, -, -, howned⟩ := reads_iff.mp (loadPlan_reads h)
    simp only [validateEventOwnership, require_eq_ok, List.all_eq_true] at howned
    exact howned
  simp only [loadPlan, Prod.mk.injEq, bind_eq_ok] at h
  obtain ⟨-, snapshot, -, es', -, h⟩ := h
  cases snapshot with
  | none =>
      cases es' with
      | nil => simp [pure, Except.pure] at h
      | cons e es' =>
          simp only [bind_eq_ok, pure, Except.pure, Except.ok.injEq, Prod.mk.injEq,
            Option.some.injEq] at h
          obtain ⟨t, ht, ⟨rfl, rfl⟩, rfl⟩ := h
          simp only [reconstructState, bind_eq_ok] at ht
          obtain ⟨base, -, u, hu, hv⟩ := ht
          exact validateState_owned hv (applyEvents_owned hu hes (.inr (by simp)))
  | some t =>
      simp only [bind_eq_ok, pure, Except.pure, Except.ok.injEq, Prod.mk.injEq,
        Option.some.injEq] at h
      obtain ⟨_, howned, ⟨u, b'⟩, hr, heq, rfl⟩ := h
      cases heq
      have ht := validateOwnership_iff.mp howned
      simp only [reconcileState, bind_eq_ok] at hr
      obtain ⟨_, -, hr⟩ := hr
      split at hr
      · cases hr
        exact ht
      · simp only [bind_eq_ok, pure, Except.pure, Except.ok.injEq, Prod.mk.injEq] at hr
        obtain ⟨v, hv, w, hw, rfl, rfl⟩ := hr
        exact validateState_owned hw
          (applyEvents_owned hv (fun e he => hes e (List.mem_of_mem_drop he)) (.inl ht))

/-! ## What a script will write -/

/-- A snapshot of a plan that may be published. -/
structure Publishable (env : Env) (p : Text) (s : State) : Prop where
  valid : s.Valid env stateHardLimitBytes
  plan : s.planId = p
  owned : Owned env s.git

/-- The rest of a script fits a plan with the journal `es`: it appends at
most one event, first and at the end of the journal. -/
structure ScriptFits (env : Env) (p : Text) (es : List Event) (script : List Durable) : Prop where
  first : ∀ e n, script.head? = some (.append e n) → n = es.length ∧ Extends env p es e
  rest : ∀ d ∈ script.tail, d.appends = 0
  snapshots : ∀ s, .snapshot s ∈ script → Publishable env p s

theorem ScriptFits.of_no_append {p : Text} {es : List Event} {script : List Durable}
    (h : ∀ d ∈ script, d.appends = 0) (hs : ∀ s, .snapshot s ∈ script → Publishable env p s) :
    ScriptFits env p es script where
  first e n hd := by
    cases script with
    | nil => cases hd
    | cons d ds =>
        cases hd
        exact absurd (h _ (List.mem_cons_self ..)) (by simp [Durable.appends])
  rest d hd := h d (List.mem_of_mem_tail hd)
  snapshots := hs

/-- After its first step, a script appends nothing any more. -/
theorem ScriptFits.tail {p : Text} {es es' : List Event} {d : Durable} {ds : List Durable}
    (h : ScriptFits env p es (d :: ds)) : ScriptFits env p es' ds :=
  .of_no_append h.rest fun s hs => h.snapshots s (List.mem_cons_of_mem _ hs)

theorem recordedEvent_publishable {r : RecordRequest} {s candidate next : State} {es : List Event}
    {e : Event} (hc : candidateState env r s = .ok candidate)
    (he : recordedEvent env r s candidate (es.length + 1) (lastRecordHash es) = .ok e)
    (h : stateAfterEvent env candidate e r.timestamp = .ok next) :
    Publishable env r.planId next :=
  have hnext := recordedEvent_next hc he h
  ⟨hnext.1, hnext.2, stateAfterEvent_owned h (recordedEvent_extends hc he).owned⟩

theorem lockedRecord_fits {r : RecordRequest} {f f' : PlanFiles} {d : RecordDecision}
    {es : List Event} (h : lockedRecord env r f = (f', .ok (d, es))) :
    ScriptFits env r.planId es (d.script env r es.length) := by
  obtain ⟨s, b, hload, hd⟩ := lockedRecord_ok h
  obtain ⟨hvalid, hplan⟩ := loadPlan_valid hload
  cases d with
  | settled u b' res =>
      obtain ⟨rfl, rfl⟩ := decideRecord_settled_state hd
      have hs : Publishable env r.planId u := ⟨hvalid, hplan, loadPlan_owned hload⟩
      cases b' with
      | false => exact .of_no_append (by simp [RecordDecision.script]) (by simp [RecordDecision.script])
      | true =>
          refine .of_no_append (by simp [RecordDecision.script, Durable.appends]) ?_
          intro t ht
          simp only [RecordDecision.script, if_true, List.mem_singleton,
            Durable.snapshot.injEq] at ht
          rw [ht]
          exact hs
  | append before candidate e =>
      obtain ⟨-, hc, -, he⟩ := decideRecord_append hd
      refine ⟨?_, ?_, ?_⟩
      · intro e' n hhead
        simp only [RecordDecision.script, List.head?_cons, Option.some.injEq,
          Durable.append.injEq] at hhead
        obtain ⟨rfl, rfl⟩ := hhead
        exact ⟨rfl, recordedEvent_extends hc he⟩
      · intro d' hd'
        simp only [RecordDecision.script, List.tail_cons] at hd'
        split at hd'
        · rw [List.mem_singleton] at hd'
          rw [hd']
          rfl
        · simp only [List.mem_cons, List.not_mem_nil, or_false] at hd'
          rcases hd' with rfl | rfl
          · rfl
          · split <;> rfl
      · intro t ht
        simp only [RecordDecision.script, List.mem_cons, reduceCtorEq, false_or] at ht
        split at ht
        · simp at ht
        · rename_i next hnext
          have htnext : t = next := by
            rcases List.mem_cons.mp ht with ht | ht
            · cases ht
              rfl
            · rw [List.mem_singleton] at ht
              split at ht <;> cases ht
          rw [htnext]
          exact recordedEvent_publishable hc he hnext

theorem Reads.unique {p : Text} {f : PlanFiles} {es es' : List Event} (h : Reads env p f es)
    (h' : Reads env p f es') : es = es' :=
  Except.ok.inj (h.symm.trans h')

/-- **Every call enters with a script that fits** the journal it finds. -/
theorem locked_fits {call : Call} {st st' : StoreFiles} {script : List Durable} {es : List Event}
    (hfiles : FilesOk env st) (hreads : Reads env call.planId (st.plans call.planId) es)
    (h : call.locked env st = (st', .ok script)) : ScriptFits env call.planId es script := by
  cases call with
  | record c =>
      simp only [Call.locked] at h
      split at h
      · simp at h
      · rename_i r hr
        have hsame := (hfiles.snapshot r.planId).lockedRecord (r := r)
        rw [Call.planId, ← recordRequest_planId hr] at hreads ⊢
        cases hlocked : lockedRecord env r (st.plans r.planId) with
        | mk f d =>
            rw [hlocked] at hsame
            simp only at hsame
            subst hsame
            simp only [hlocked, Prod.mk.injEq, map_eq_ok] at h
            obtain ⟨-, ⟨d, es'⟩, rfl, rfl⟩ := h
            obtain ⟨s, b, hload, -⟩ := lockedRecord_ok hlocked
            rw [hreads.unique (loadPlan_reads hload)]
            exact lockedRecord_fits hlocked
  | register c =>
      simp only [Call.locked] at h
      split at h
      · simp at h
      · rename_i r hr
        rw [Call.planId, ← registerRequest_planId hr] at hreads ⊢
        have hinitial := registerRequest_valid hr
        split at h
        · simp at h
        · rename_i file current hm
          have hsame := (hfiles.snapshot r.planId).loadPlan r.timestamp
          cases hload : loadPlan env r.planId r.timestamp (st.plans r.planId) with
          | mk f loaded =>
              rw [hload] at hsame
              simp only at hsame
              subst hsame
              simp only [hload, Prod.mk.injEq, bind_eq_ok, pure, Except.pure,
                Except.ok.injEq] at h
              obtain ⟨-, ⟨plan, es'⟩, rfl, d, hd, rfl⟩ := h
              have hes := hreads.unique (loadPlan_reads hload)
              subst hes
              cases d with
              | settled s b id =>
                  have hplan := decideRegister_settled hd
                  subst hplan
                  have hs := loadPlan_valid hload
                  have howned := loadPlan_owned hload
                  cases b with
                  | false =>
                      exact .of_no_append (by simp [RegisterDecision.script, Durable.appends])
                        (by simp [RegisterDecision.script])
                  | true =>
                      refine .of_no_append (by simp [RegisterDecision.script, Durable.appends]) ?_
                      intro t ht
                      simp only [RegisterDecision.script, if_true, List.singleton_append,
                        List.mem_cons, reduceCtorEq, List.not_mem_nil, or_false,
                        Durable.snapshot.injEq] at ht
                      rw [ht]
                      exact ⟨hs.1, hs.2, howned⟩
              | append next e =>
                  obtain ⟨rfl, he, hnext, -⟩ := decideRegister_append hd
                  have hes := loadPlan_none hload
                  subst hes
                  have hext := registrationEvent_extends hr he
                  refine ⟨?_, by simp [RegisterDecision.script, Durable.appends], ?_⟩
                  · intro e' n hhead
                    simp only [RegisterDecision.script, List.head?_cons, Option.some.injEq,
                      Durable.append.injEq] at hhead
                    obtain ⟨rfl, rfl⟩ := hhead
                    exact ⟨rfl, hext⟩
                  · intro t ht
                    simp only [RegisterDecision.script, List.mem_cons, reduceCtorEq,
                      List.not_mem_nil, or_false, false_or, Durable.snapshot.injEq] at ht
                    rw [ht]
                    obtain ⟨hvalid, hplan⟩ := registrationEvent_next hinitial.1 hinitial.2 he hnext
                    exact ⟨hvalid, hplan, stateAfterEvent_owned hnext hext.owned⟩
  | replay p t =>
      simp only [Call.locked] at h
      split at h
      · simp at h
      · cases hload : loadPlan env p t (st.plans p) with
        | mk f loaded =>
            simp only [hload, Prod.mk.injEq, map_eq_ok] at h
            obtain ⟨-, ⟨plan, es'⟩, rfl, rfl⟩ := h
            cases plan with
            | none => exact .of_no_append (by simp) (by simp)
            | some sb =>
                obtain ⟨s, b⟩ := sb
                have hs := loadPlan_valid hload
                cases b with
                | false => exact .of_no_append (by simp) (by simp)
                | true =>
                    refine .of_no_append (by simp [Durable.appends]) ?_
                    intro t' ht
                    simp only [List.mem_singleton, Durable.snapshot.injEq] at ht
                    rw [ht]
                    exact ⟨hs.1, hs.2, loadPlan_owned hload⟩

/-! ## The files hold what was written -/

/-- The files of the plans and the manifest hold the writes `ws`. -/
structure FilesHold (env : Env) (ws : List Written) (st : StoreFiles) : Prop where
  reads : ∀ p, Reads env p (st.plans p) (eventsOf p ws)
  journal : ∀ p, (st.plans p).journal = (eventsOf p ws).map fun e => .obj e.toDict
  records : ∀ p, ∀ e ∈ eventsOf p ws, e.Valid env ∧ e.planId = p
  count : ∀ p, (eventsOf p ws).length ≤ planJournalMaxRecords
  snapshot : ∀ p, (st.plans p).snapshot = (snapshotOf p ws).map fun s => .obj s.toDict
  snapshots : ∀ p s, snapshotOf p ws = some s → Publishable env p s
  manifest : st.manifest = (manifestOf ws).map fun m => .obj m.toDict
  manifests : ∀ m, manifestOf ws = some m → m.Valid env

theorem FilesHold.initial : FilesHold env [] .empty where
  reads _ := rfl
  journal _ := rfl
  records _ _ h := by cases h
  count _ := Nat.zero_le _
  snapshot _ := rfl
  snapshots _ _ h := by cases h
  manifest := rfl
  manifests _ h := by cases h

theorem FilesHold.filesOk {ws : List Written} {st : StoreFiles} (h : FilesHold env ws st) :
    FilesOk env st where
  manifest := by
    intro j hj
    rw [h.manifest] at hj
    obtain ⟨m, hm, rfl⟩ := Option.map_eq_some_iff.mp hj
    exact ⟨m, rfl, h.manifests m hm⟩
  snapshot := by
    intro p j hj
    rw [h.snapshot p] at hj
    obtain ⟨s, hs, rfl⟩ := Option.map_eq_some_iff.mp hj
    exact ⟨s, rfl, (h.snapshots p s hs).valid, (h.snapshots p s hs).plan⟩

/-- An event at the end of a journal. -/
theorem FilesHold.append {ws : List Written} {st : StoreFiles} {p : Text} {e : Event} {n : Nat}
    {f : PlanFiles} (h : FilesHold env ws st) (hn : n = (eventsOf p ws).length)
    (hext : Extends env p (eventsOf p ws) e) (happend : appendEvent (st.plans p) e n = .ok f) :
    FilesHold env (ws ++ [.event p e]) (st.setPlan p f) := by
  obtain ⟨rfl, hroom, -⟩ := appendEvent_ok happend
  subst hn
  have hreads := (h.reads p).snoc hext happend
  have hsame : ∀ q, snapshotOf q (ws ++ [.event p e]) = snapshotOf q ws := by
    intro q
    rw [snapshotOf_append]
    rfl
  have hmanifest : manifestOf (ws ++ [.event p e]) = manifestOf ws := by
    rw [manifestOf_append]
    rfl
  have hevents : ∀ q, eventsOf q (ws ++ [.event p e]) =
      eventsOf q ws ++ if p = q then [e] else [] := by
    intro q
    rw [eventsOf_append, eventsOf_event]
  refine ⟨?_, ?_, ?_, ?_, ?_, ?_, ?_, ?_⟩
  · intro q
    rw [hevents]
    by_cases hq : q = p
    · subst hq
      rw [StoreFiles.setPlan_plans, if_pos rfl]
      exact hreads
    · rw [st.setPlan_other _ hq, if_neg (Ne.symm hq), List.append_nil]
      exact h.reads q
  · intro q
    rw [hevents]
    by_cases hq : q = p
    · subst hq
      rw [StoreFiles.setPlan_plans, if_pos rfl, List.map_append, ← h.journal]
      rfl
    · rw [st.setPlan_other _ hq, if_neg (Ne.symm hq), List.append_nil]
      exact h.journal q
  · intro q e' he'
    rw [hevents] at he'
    rcases List.mem_append.mp he' with he' | he'
    · exact h.records q e' he'
    · split at he'
      · rename_i hq
        rw [List.mem_singleton] at he'
        rw [he', ← hq]
        exact ⟨hext.valid, hext.plan⟩
      · cases he'
  · intro q
    rw [hevents, List.length_append]
    by_cases hq : p = q
    · subst hq
      rw [if_pos rfl, List.length_singleton]
      exact hroom
    · rw [if_neg hq]
      exact h.count q
  · intro q
    rw [hsame, ← h.snapshot]
    by_cases hq : q = p
    · subst hq
      rw [StoreFiles.setPlan_plans]
    · rw [st.setPlan_other _ hq]
  · intro q s hs
    rw [hsame] at hs
    exact h.snapshots q s hs
  · rw [hmanifest]
    exact h.manifest
  · rw [hmanifest]
    exact h.manifests

/-- A published snapshot. -/
theorem FilesHold.publish {ws : List Written} {st : StoreFiles} {p : Text} {s : State}
    (h : FilesHold env ws st) (hs : Publishable env p s) :
    FilesHold env (ws ++ [.snapshot p s])
      (st.setPlan p { st.plans p with snapshot := some (.obj s.toDict) }) := by
  have hevents : ∀ q, eventsOf q (ws ++ [.snapshot p s]) = eventsOf q ws := by
    intro q
    rw [eventsOf_append]
    exact List.append_nil _
  have hmanifest : manifestOf (ws ++ [.snapshot p s]) = manifestOf ws := by
    rw [manifestOf_append]
    rfl
  have hsnapshot : ∀ q, snapshotOf q (ws ++ [.snapshot p s]) =
      if p = q then some s else snapshotOf q ws := by
    intro q
    rw [snapshotOf_append, snapshotOf_snapshot]
    split <;> rfl
  refine ⟨?_, ?_, ?_, ?_, ?_, ?_, ?_, ?_⟩
  · intro q
    rw [hevents]
    by_cases hq : q = p
    · subst hq
      rw [StoreFiles.setPlan_plans]
      exact (h.reads q).withSnapshot _
    · rw [st.setPlan_other _ hq]
      exact h.reads q
  · intro q
    rw [hevents, ← h.journal]
    by_cases hq : q = p
    · subst hq
      rw [StoreFiles.setPlan_plans]
    · rw [st.setPlan_other _ hq]
  · intro q e he
    rw [hevents] at he
    exact h.records q e he
  · intro q
    rw [hevents]
    exact h.count q
  · intro q
    rw [hsnapshot]
    by_cases hq : q = p
    · subst hq
      rw [StoreFiles.setPlan_plans, if_pos rfl]
      rfl
    · rw [st.setPlan_other _ hq, if_neg (Ne.symm hq)]
      exact h.snapshot q
  · intro q t ht
    rw [hsnapshot] at ht
    split at ht
    · rename_i hq
      rw [← hq, ← Option.some.inj ht]
      exact hs
    · exact h.snapshots q t ht
  · rw [hmanifest]
    exact h.manifest
  · rw [hmanifest]
    exact h.manifests

/-- Writes that are manifests, or nothing. -/
theorem FilesHold.index {ws ws' : List Written} {st : StoreFiles} {file : Option Json}
    (h : FilesHold env ws st) (hevents : ∀ p, eventsOf p ws' = [])
    (hsnapshots : ∀ p, snapshotOf p ws' = none)
    (hfile : file = (manifestOf (ws ++ ws')).map fun m => .obj m.toDict)
    (hvalid : ∀ m, manifestOf (ws ++ ws') = some m → m.Valid env) :
    FilesHold env (ws ++ ws') { st with manifest := file } := by
  have hsame : ∀ p, eventsOf p (ws ++ ws') = eventsOf p ws := by
    intro p
    rw [eventsOf_append, hevents, List.append_nil]
  have hsnapshot : ∀ p, snapshotOf p (ws ++ ws') = snapshotOf p ws := by
    intro p
    rw [snapshotOf_append, hsnapshots, Option.none_or]
  refine ⟨?_, ?_, ?_, ?_, ?_, ?_, hfile, hvalid⟩
  · intro p
    rw [hsame]
    exact h.reads p
  · intro p
    rw [hsame]
    exact h.journal p
  · intro p e he
    rw [hsame] at he
    exact h.records p e he
  · intro p
    rw [hsame]
    exact h.count p
  · intro p
    rw [hsnapshot]
    exact h.snapshot p
  · intro p s hs
    rw [hsnapshot] at hs
    exact h.snapshots p s hs

/-- A publication of the manifest that succeeds. -/
theorem FilesHold.publishPointer {ws : List Written} {st : StoreFiles} {file : Option Json}
    {current m : Manifest} {s : State} {force : Bool} (h : FilesHold env ws st)
    (hp : publishManifestPointer env st.manifest current s force = .ok (file, m)) :
    FilesHold env (ws ++ published (manifestCandidate env current s force))
      { st with manifest := file } := by
  obtain ⟨b, hm, rfl⟩ := publishManifestPointer_ok hp
  rw [hm]
  cases b with
  | false =>
      have hnone : published (.ok (m, false)) = [] := rfl
      rw [hnone]
      refine h.index (fun _ => rfl) (fun _ => rfl) ?_ ?_
      · rw [List.append_nil]
        exact h.manifest
      · rw [List.append_nil]
        exact h.manifests
  | true =>
      have hone : published (.ok (m, true)) = [.manifest m] := rfl
      have hlast : manifestOf (ws ++ [.manifest m]) = some m := by
        rw [manifestOf_append]
        rfl
      rw [hone]
      refine h.index (fun _ => rfl) (fun _ => rfl) ?_ ?_
      · rw [hlast]
        rfl
      · intro m' hm'
        rw [hlast] at hm'
        rw [← Option.some.inj hm']
        exact (manifestCandidate_ok hm).1

/-- **A step that succeeds writes what it says.** -/
theorem FilesHold.exec {ws : List Written} {st st' : StoreFiles} {p : Text} {d : Durable}
    {ds : List Durable} (h : FilesHold env ws st)
    (hfits : ScriptFits env p (eventsOf p ws) (d :: ds))
    (hexec : d.exec env p st = (st', .ok ())) :
    FilesHold env (ws ++ d.written env p st) st' := by
  cases d with
  | append e n =>
      obtain ⟨hn, hext⟩ := hfits.first e n rfl
      simp only [Durable.exec] at hexec
      cases happend : appendStep p e n st with
      | error err => simp [happend, orUnchanged] at hexec
      | ok st₁ =>
          obtain ⟨f, hf, rfl⟩ := appendStep_ok happend
          simp only [happend, orUnchanged, Prod.mk.injEq, and_true] at hexec
          subst hexec
          exact h.append hn hext hf
  | snapshot s =>
      simp only [Durable.exec] at hexec
      cases hsnap : snapshotStep p s st with
      | error err => simp [hsnap, orUnchanged] at hexec
      | ok st₁ =>
          simp only [hsnap, orUnchanged, Prod.mk.injEq, and_true] at hexec
          subst hexec
          rw [snapshotStep_ok hsnap]
          exact h.publish (hfits.snapshots s (List.mem_cons_self ..))
  | pointer s =>
      obtain ⟨o, ho, hread⟩ := h.filesOk.manifest.readsLocked
      rcases @pointerStep_manifest env s false _ h.filesOk.manifest with
        ⟨-, err, herr⟩ | ⟨o', file, m, ho', hp, hst⟩
      · simp [Durable.exec, effect, herr, Functor.map, Except.map] at hexec
      · have hsame : o' = o := Except.ok.inj (ho'.symm.trans ho)
        subst hsame
        simp only [Durable.exec, hst, effect_ok, Prod.mk.injEq, and_true] at hexec
        subst hexec
        have hwritten : Durable.written env p st (.pointer s) =
            published (manifestCandidate env (currentManifest env o') s false) := by
          simp only [Durable.written, hread]
          rfl
        rw [hwritten]
        exact h.publishPointer hp
  | lockedPointer current s force =>
      rcases @lockedPointerStep_manifest env current s force st with
        ⟨-, err, herr⟩ | ⟨file, m, hp, hst⟩
      · simp [Durable.exec, effect, herr, Functor.map, Except.map] at hexec
      · simp only [Durable.exec, hst, effect_ok, Prod.mk.injEq, and_true] at hexec
        subst hexec
        exact h.publishPointer hp
  | readManifest =>
      simp only [Durable.exec, effect, Prod.mk.injEq] at hexec
      rw [← hexec.1, Durable.written, List.append_nil]
      exact h
  | raise err => simp [Durable.exec] at hexec

/-! ## The invariant of a history -/

/-- A step writes events to its own journal only. -/
theorem Durable.written_events {d : Durable} {p q : Text} {st : StoreFiles} (hq : q ≠ p) :
    eventsOf q (d.written env p st) = [] := by
  have hpublished : ∀ c : Check (Manifest × Bool), eventsOf q (published c) = [] := by
    intro c
    cases c with
    | error err => rfl
    | ok r =>
        obtain ⟨m, b⟩ := r
        cases b <;> rfl
  cases d with
  | append e n => exact (eventsOf_event q p e).trans (if_neg (Ne.symm hq))
  | snapshot s => rfl
  | pointer s => exact hpublished _
  | lockedPointer current s force => exact hpublished _
  | readManifest => rfl
  | raise err => rfl

/-- Only a step of a script writes. -/
theorem Action.written_nil {a : Action} {sys : System} (h : ∀ p, a ≠ .write p) :
    a.written env sys = [] := by
  cases a with
  | write p => exact absurd rfl (h p)
  | _ => rfl

/-- What holds along every history. -/
structure Holds (env : Env) (ws : List Written) (sys : System) : Prop where
  files : FilesHold env ws sys.files
  scripts : ∀ p script, sys.writer p = some script → ScriptFits env p (eventsOf p ws) script

theorem Holds.release {ws : List Written} {sys : System} (h : Holds env ws sys) (p : Text) :
    Holds env ws (sys.release p) where
  files := h.files
  scripts := by
    intro q script hq
    by_cases hqp : q = p
    · subst hqp
      rw [System.release_self] at hq
      cases hq
    · rw [sys.release_other hqp] at hq
      exact h.scripts q script hq

/-- **Every step keeps the files to what was written.** -/
theorem Holds.step {ws : List Written} {sys sys' : System} {a : Action} (h : Holds env ws sys)
    (hstep : Step env sys a sys') : Holds env (ws ++ a.written env sys) sys' := by
  have hok := h.files.filesOk
  cases hstep with
  | @preview call files err hfree hrun =>
      have hsame := hok.preview call
      rw [hrun] at hsame
      simp only at hsame
      subst hsame
      rw [Action.written_nil (by simp), List.append_nil]
      exact ⟨h.files, h.scripts⟩
  | @reject call files err hfree hrun =>
      have hsame := hok.locked call
      rw [hrun] at hsame
      simp only at hsame
      subst hsame
      rw [Action.written_nil (by simp), List.append_nil]
      exact ⟨h.files, h.scripts⟩
  | @enter call files script hfree hrun =>
      have hsame := hok.locked call
      rw [hrun] at hsame
      simp only at hsame
      subst hsame
      have hscript := locked_fits hok (h.files.reads call.planId) hrun
      rw [Action.written_nil (by simp), List.append_nil]
      refine ⟨h.files, ?_⟩
      intro q script' hq
      by_cases hqp : q = call.planId
      · subst hqp
        have hwriter : (sys.setWriter call.planId script).writer call.planId = some script' := hq
        rw [System.setWriter_self, Option.some.injEq] at hwriter
        rw [← hwriter]
        exact hscript
      · have hwriter : (sys.setWriter call.planId script).writer q = some script' := hq
        rw [sys.setWriter_other _ hqp] at hwriter
        exact h.scripts q script' hwriter
  | @write p d ds files hwriter hready hexec =>
      have hscript := h.scripts p _ hwriter
      have hwritten : Action.written env sys (.write p) = d.written env p sys.files := by
        simp only [Action.written, hwriter]
      rw [hwritten]
      refine ⟨h.files.exec hscript hexec, ?_⟩
      intro q script' hq
      by_cases hqp : q = p
      · subst hqp
        have hself : ((sys.setFiles files).setWriter q ds).writer q = some script' := hq
        rw [System.setWriter_self, Option.some.injEq] at hself
        rw [← hself]
        exact hscript.tail
      · have hother : ((sys.setFiles files).setWriter p ds).writer q = some script' := hq
        rw [System.setWriter_other _ _ hqp] at hother
        rw [eventsOf_append, Durable.written_events hqp, List.append_nil]
        exact h.scripts q script' hother
  | @raise p d ds files err hwriter hready hexec =>
      have hsame := Durable.exec_error hok.manifest hexec
      subst hsame
      rw [Action.written_nil (by simp), List.append_nil]
      exact Holds.release ⟨h.files, h.scripts⟩ p
  | finish hwriter =>
      rw [Action.written_nil (by simp), List.append_nil]
      exact h.release _
  | crash hwriter =>
      rw [Action.written_nil (by simp), List.append_nil]
      exact h.release _

/-- **In every history the files hold what was written.** -/
theorem History.holds {ws : List Written} {sys : System} (h : History env ws sys) :
    Holds env ws sys := by
  induction h with
  | initial => exact ⟨.initial, fun p script h => by cases h⟩
  | step _ hstep ih => exact ih.step hstep

end RalphVault.Store
