import RalphVault.Store.Chain
import RalphVault.Store.Fold
import RalphVault.Store.History

/-!
# Implementation store — what the calls of a run return

The system of writers with a memory: what each call in progress will
return and what it has appended so far, and what became of the calls that
are over. A call that returns `changed` has appended exactly one record,
the others none; while no call is on a plan, its snapshot is the fold of
its journal.
-/

namespace RalphVault.Store

/-- What a call returns when it gets to its end. -/
structure Outcome where
  changed : Bool
  operation : Text

/-- A call: what it will return, and what it has appended. -/
structure CallState where
  outcome : Outcome
  records : List Event

/-- A call that is over: it returned, or else it raised or died. -/
structure Ended where
  planId : Text
  call : CallState
  returned : Bool

structure Session where
  sys : System
  /-- the call that holds the lock of a plan -/
  active : Text → Option CallState
  ended : List Ended

def Session.initial : Session := ⟨.initial, fun _ => none, []⟩

/-- The call on a plan is over. -/
def Session.over (s : Session) (sys : System) (p : Text) (returned : Bool) : Session where
  sys := sys
  active := Function.update s.active p none
  ended := s.ended ++ (s.active p).toList.map fun c => ⟨p, c, returned⟩

/-- What the calls on a plan have appended, call by call. -/
def Session.records (s : Session) (p : Text) : List Event :=
  (s.ended.flatMap fun x => if x.planId = p then x.call.records else []) ++
    (s.active p).toList.flatMap CallState.records

section Sessions

variable (env : Env)

def RecordDecision.outcome (r : RecordRequest) : RecordDecision → Outcome
  | settled _ _ result => ⟨result.changed, result.operationId⟩
  | append _ _ _ => ⟨true, r.operation⟩

def RegisterDecision.outcome (r : RegisterRequest) : RegisterDecision → Outcome
  | settled _ _ _ => ⟨false, r.operation⟩
  | append _ _ => ⟨true, r.operation⟩

/-- What a call will return, from the files it finds under its locks. -/
def Call.outcome (call : Call) (st : StoreFiles) : Check Outcome :=
  match call with
  | record c => do
      let r ← recordRequest env c
      let d ← (lockedRecord env r (st.plans r.planId)).2
      pure (d.1.outcome r)
  | register c => do
      let r ← registerRequest env c
      let current ← (readManifestLocked env st.manifest).2
      let l ← (loadPlan env r.planId r.timestamp (st.plans r.planId)).2
      let d ← decideRegister env r current l.1 l.2
      pure (d.outcome r)
  | replay p t => do
      validatePlanId p
      let l ← (loadPlan env p t (st.plans p)).2
      match l.1 with
      | some (s, true) => pure ⟨true, s.lastOperationId⟩
      | _ => pure ⟨false, []⟩

/-- One step of the writers, remembered. -/
inductive SessionStep : Session → Action → Session → Prop where
  | reject {s : Session} {call : Call} {sys : System}
      (hstep : Step env s.sys (.reject call) sys) :
      SessionStep s (.reject call) { s with sys := sys }
  | enter {s : Session} {call : Call} {o : Outcome} {sys : System}
      (houtcome : call.outcome env s.sys.files = .ok o)
      (hstep : Step env s.sys (.enter call) sys) :
      SessionStep s (.enter call)
        { s with sys := sys, active := Function.update s.active call.planId (some ⟨o, []⟩) }
  | write {s : Session} {p : Text} {c : CallState} {sys : System} (hactive : s.active p = some c)
      (hstep : Step env s.sys (.write p) sys) :
      SessionStep s (.write p)
        { s with
          sys := sys
          active := Function.update s.active p (some { c with
            records := c.records ++ eventsOf p (Action.written env s.sys (.write p)) }) }
  | raise {s : Session} {p : Text} {sys : System} (hstep : Step env s.sys (.raise p) sys) :
      SessionStep s (.raise p) (s.over sys p false)
  | finish {s : Session} {p : Text} {sys : System} (hstep : Step env s.sys (.finish p) sys) :
      SessionStep s (.finish p) (s.over sys p true)
  | crash {s : Session} {p : Text} {sys : System} (hstep : Step env s.sys (.crash p) sys) :
      SessionStep s (.crash p) (s.over sys p false)

/-- The sessions that runs lead to whose steps all meet a condition. -/
inductive SessionRun (cond : System → Action → Prop) : Session → Prop where
  | initial : SessionRun cond .initial
  | step {s s' : Session} {a : Action} (h : SessionRun cond s) (hcond : cond s.sys a)
      (hstep : SessionStep env s a s') : SessionRun cond s'

/-- A call has appended what it returns: one record of its operation when it
changed the plan, and none otherwise. -/
def CallState.Exact (c : CallState) : Prop :=
  if c.outcome.changed then ∃ e, c.records = [e] ∧ e.operationId = c.outcome.operation
  else c.records = []

/-- What the interleaved calls of a session have done. -/
structure Session.Exact (s : Session) : Prop where
  /-- every call that returned has appended exactly what it returned -/
  returned : ∀ x ∈ s.ended, x.returned = true → x.call.Exact
  /-- the journals hold what the calls appended, and nothing else -/
  journal : ∀ p, (s.sys.files.plans p).journal = (s.records p).map fun e => .obj e.toDict
  operations : ∀ p, ((s.records p).map Event.operationId).Nodup
  sequences : ∀ p, (s.records p).map Event.sequence = List.range' 1 (s.records p).length
  /-- between the calls on a plan, its snapshot is the fold of its journal -/
  snapshot : ∀ p, s.active p = none →
    (s.records p = [] ∧ (s.sys.files.plans p).snapshot = none) ∨
      ∃ t : State, (s.sys.files.plans p).snapshot = some (.obj t.toDict) ∧
        FoldsTo env p (s.records p) t

/-- A call that is about to append an event leads to a valid snapshot, and
no process dies when its event is appended and its snapshot is not yet
published. -/
def SnapshotFits : System → Action → Prop
  | sys, .enter (.record c) => ∀ r before candidate e es f, recordRequest env c = .ok r →
      lockedRecord env r (sys.files.plans r.planId) = (f, .ok (.append before candidate e, es)) →
      ∃ next, stateAfterEvent env candidate e r.timestamp = .ok next
  | sys, .crash p => ∀ s ds, sys.writer p ≠ some (.snapshot s :: ds)
  | _, _ => True

end Sessions

variable {env : Env}

/-! ## Where a call is -/

/-- The steps that leave the files of the plan alone. -/
def Durable.offPlan : Durable → Bool
  | append _ _ => false
  | snapshot _ => false
  | _ => true

theorem published_none (c : Check (Manifest × Bool)) (q : Text) :
    eventsOf q (published c) = [] ∧ snapshotOf q (published c) = none := by
  cases c with
  | error err => exact ⟨rfl, rfl⟩
  | ok r =>
      obtain ⟨m, b⟩ := r
      cases b <;> exact ⟨rfl, rfl⟩

theorem Durable.written_offPlan {d : Durable} (h : d.offPlan = true) (p q : Text)
    (st : StoreFiles) :
    eventsOf q (d.written env p st) = [] ∧ snapshotOf q (d.written env p st) = none := by
  cases d with
  | append e n => cases h
  | snapshot s => cases h
  | pointer s => exact published_none _ q
  | lockedPointer current s force => exact published_none _ q
  | readManifest => exact ⟨rfl, rfl⟩
  | raise err => exact ⟨rfl, rfl⟩

/-- A step writes nothing to the files of another plan. -/
theorem Durable.written_other {d : Durable} {p q : Text} {st : StoreFiles} (hq : q ≠ p) :
    eventsOf q (d.written env p st) = [] ∧ snapshotOf q (d.written env p st) = none := by
  refine ⟨Durable.written_events hq, ?_⟩
  cases d with
  | append e n => rfl
  | snapshot s => exact (snapshotOf_snapshot q p s).trans (if_neg (Ne.symm hq))
  | pointer s => exact (published_none _ q).2
  | lockedPointer current s force => exact (published_none _ q).2
  | readManifest => rfl
  | raise err => rfl

/-- The snapshot of a plan stands at the end of its journal. -/
def Level (env : Env) (p : Text) (es : List Event) (snapshot : Option State) : Prop :=
  (es = [] ∧ snapshot = none) ∨ ∃ t, snapshot = some t ∧ Folded env p es t

/-- Where a call is in its script: before its append, between its append and
its snapshot, or with nothing left to do to the plan. -/
inductive Progress (env : Env) (p : Text) (es : List Event) (snapshot : Option State)
    (c : CallState) : List Durable → Prop where
  | fresh {e : Event} {n : Nat} {next : State} {rest : List Durable}
      (hchanged : c.outcome.changed = true) (hrecords : c.records = [])
      (hoperation : e.operationId = c.outcome.operation)
      (hnew : e.operationId ∉ es.map Event.operationId) (hlevel : Level env p es snapshot)
      (hnext : Folded env p (es ++ [e]) next) (hrest : ∀ d ∈ rest, d.offPlan = true) :
      Progress env p es snapshot c (.append e n :: .snapshot next :: rest)
  | appended {next : State} {rest : List Durable} (hexact : c.Exact)
      (hnext : Folded env p es next) (hrest : ∀ d ∈ rest, d.offPlan = true) :
      Progress env p es snapshot c (.snapshot next :: rest)
  | level {rest : List Durable} (hexact : c.Exact) (hlevel : Level env p es snapshot)
      (hrest : ∀ d ∈ rest, d.offPlan = true) : Progress env p es snapshot c rest

/-! ## A call enters -/

/-- A writer finds a plan that is level as it was left. -/
theorem Level.load {ws : List Written} {st : StoreFiles} {p : Text}
    (h : Level env p (eventsOf p ws) (snapshotOf p ws)) (hfiles : FilesHold env ws st)
    (timestamp : Text) :
    (eventsOf p ws = [] ∧ loadPlan env p timestamp (st.plans p) = (st.plans p, .ok (none, []))) ∨
      ∃ t, Folded env p (eventsOf p ws) t ∧ t.planId = p ∧
        loadPlan env p timestamp (st.plans p) =
          (st.plans p, .ok (some (t, false), eventsOf p ws)) := by
  have hreads := hfiles.reads p
  have hsnapshot := hfiles.snapshot p
  rcases h with ⟨hes, hnone⟩ | ⟨t, hsome, hfolded⟩
  · rw [hnone, Option.map_none] at hsnapshot
    rw [hes] at hreads
    refine .inl ⟨hes, ?_⟩
    have hplan : readPlanEvents env p (st.plans p) true = .ok [] := hreads
    simp [loadPlan, loadStateForWrite, readSnapshot, readJson, hsnapshot, quarantineMalformed,
      hplan, bind, Except.bind, pure, Except.pure]
  · rw [hsome, Option.map_some] at hsnapshot
    obtain ⟨hvalid, hplan, howned⟩ := hfiles.snapshots p t hsome
    have hcurrent : Current env p (st.plans p) t (eventsOf p ws) :=
      ⟨hsnapshot, hvalid, hplan, howned, hreads, hfolded.sequence, hfolded.hash⟩
    exact .inr ⟨t, hfolded, hplan, hcurrent.loadPlan timestamp⟩

theorem operationEvent_none {es : List Event} {operation : Text} :
    operationEvent es operation = none ↔ operation ∉ es.map Event.operationId := by
  simp only [operationEvent, List.find?_eq_none, beq_iff_eq, List.mem_map, not_exists, not_and]

/-- A call that changes nothing has nothing to do. -/
theorem Level.settled {p : Text} {es : List Event} {snapshot : Option State} {operation : Text}
    {rest : List Durable} (h : Level env p es snapshot) (hrest : ∀ d ∈ rest, d.offPlan = true) :
    Progress env p es snapshot ⟨⟨false, operation⟩, []⟩ rest :=
  .level rfl h hrest

theorem Level.record {ws : List Written} {st st' : StoreFiles} {c : RecordCall} {o : Outcome}
    {script : List Durable} (h : Level env c.planId (eventsOf c.planId ws) (snapshotOf c.planId ws))
    (hfiles : FilesHold env ws st)
    (hfits : ∀ r before candidate e es f, recordRequest env c = .ok r →
      lockedRecord env r (st.plans r.planId) = (f, .ok (.append before candidate e, es)) →
      ∃ next, stateAfterEvent env candidate e r.timestamp = .ok next)
    (hlocked : (Call.record c).locked env st = (st', .ok script))
    (houtcome : (Call.record c).outcome env st = .ok o) :
    Progress env c.planId (eventsOf c.planId ws) (snapshotOf c.planId ws) ⟨o, []⟩ script := by
  simp only [Call.locked] at hlocked
  split at hlocked
  · simp at hlocked
  · rename_i r hr
    simp only [Call.outcome, hr, bind_eq_ok, pure, Except.pure, Except.ok.injEq,
      exists_eq_left'] at houtcome
    rw [← recordRequest_planId hr] at h ⊢
    obtain ⟨⟨d, es⟩, hd, rfl⟩ := houtcome
    cases hrun : lockedRecord env r (st.plans r.planId) with
    | mk f decided =>
        rw [hrun] at hd
        simp only at hd
        subst hd
        simp only [hrun, Functor.map, Except.map, Prod.mk.injEq, Except.ok.injEq] at hlocked
        obtain ⟨-, rfl⟩ := hlocked
        obtain ⟨s, b, hload, hdecide⟩ := lockedRecord_ok hrun
        rcases h.load hfiles r.timestamp with ⟨-, hnone⟩ | ⟨t, hfolded, hplan, hsome⟩
        · rw [hnone] at hload
          simp at hload
        · rw [hsome] at hload
          simp only [Prod.mk.injEq, Except.ok.injEq, Option.some.injEq] at hload
          obtain ⟨rfl, ⟨rfl, rfl⟩, rfl⟩ := hload
          cases d with
          | settled u b' result =>
              obtain ⟨-, rfl⟩ := decideRecord_settled_state hdecide
              have hunchanged := decideRecord_settled hdecide
              simp only [RecordDecision.outcome, RecordDecision.script, hunchanged]
              exact h.settled (by simp)
          | append before candidate e =>
              obtain ⟨rfl, hc, hfresh, he⟩ := decideRecord_append hdecide
              obtain ⟨next, hnext⟩ := hfits r _ candidate e _ _ hr hrun
              have hoperation := recordedEvent_operation hc he
              simp only [RecordDecision.outcome, RecordDecision.script, hnext]
              refine .fresh rfl rfl hoperation ?_ h (hfolded.record hr hplan hc he hnext) ?_
              · rw [hoperation]
                exact operationEvent_none.mp hfresh
              · intro d hd
                rw [List.mem_singleton] at hd
                rw [hd]
                split <;> rfl

theorem Level.register {ws : List Written} {st st' : StoreFiles} {c : RegisterCall} {o : Outcome}
    {script : List Durable} (h : Level env c.planId (eventsOf c.planId ws) (snapshotOf c.planId ws))
    (hfiles : FilesHold env ws st)
    (hlocked : (Call.register c).locked env st = (st', .ok script))
    (houtcome : (Call.register c).outcome env st = .ok o) :
    Progress env c.planId (eventsOf c.planId ws) (snapshotOf c.planId ws) ⟨o, []⟩ script := by
  simp only [Call.locked] at hlocked
  split at hlocked
  · simp at hlocked
  · rename_i r hr
    obtain ⟨file, -, hmanifest⟩ := hfiles.filesOk.manifest.readsLocked
    simp only [Call.outcome, hr, hmanifest, bind_eq_ok, pure, Except.pure, Except.ok.injEq,
      exists_eq_left'] at houtcome
    rw [← registerRequest_planId hr] at h ⊢
    simp only [hmanifest, Prod.mk.injEq, bind_eq_ok, pure, Except.pure, Except.ok.injEq]
      at hlocked
    obtain ⟨⟨plan, es⟩, hload, d, hd, rfl⟩ := houtcome
    rw [hload] at hlocked
    obtain ⟨-, ⟨plan', es'⟩, hload', d', hd', rfl⟩ := hlocked
    cases hload'
    simp only at hd hd'
    rw [hd] at hd'
    cases hd'
    rcases h.load hfiles r.timestamp with ⟨hes, hnone⟩ | ⟨t, -, -, hsome⟩
    · rw [hnone] at hload
      simp only [Except.ok.injEq, Prod.mk.injEq] at hload
      obtain ⟨rfl, rfl⟩ := hload
      cases d with
      | settled s b id => cases decideRegister_settled hd
      | append next e =>
          obtain ⟨-, he, hnext, -⟩ := decideRegister_append hd
          have hoperation : e.operationId = r.operation := by
            rw [(registrationEvent_built (registerRequest_valid hr).1.fields he).1]
            rfl
          simp only [RegisterDecision.outcome, RegisterDecision.script]
          rw [hes] at h ⊢
          exact .fresh rfl rfl hoperation (by simp) h (Folded.register hr he hnext)
            (by simp [Durable.offPlan])
    · rw [hsome] at hload
      simp only [Except.ok.injEq, Prod.mk.injEq] at hload
      obtain ⟨rfl, rfl⟩ := hload
      cases d with
      | append next e => cases (decideRegister_append hd).1
      | settled s b id =>
          cases decideRegister_settled hd
          simp only [RegisterDecision.outcome, RegisterDecision.script, Bool.false_eq_true,
            if_false, List.nil_append]
          exact h.settled (by simp [Durable.offPlan])

theorem Level.replay {ws : List Written} {st st' : StoreFiles} {p t : Text} {o : Outcome}
    {script : List Durable} (h : Level env p (eventsOf p ws) (snapshotOf p ws))
    (hfiles : FilesHold env ws st)
    (hlocked : (Call.replay p t).locked env st = (st', .ok script))
    (houtcome : (Call.replay p t).outcome env st = .ok o) :
    Progress env p (eventsOf p ws) (snapshotOf p ws) ⟨o, []⟩ script := by
  simp only [Call.locked] at hlocked
  split at hlocked
  · simp at hlocked
  · rename_i hp
    rcases h.load hfiles t with ⟨-, hload⟩ | ⟨u, -, -, hload⟩
    · simp only [hload, Functor.map, Except.map, Prod.mk.injEq, Except.ok.injEq] at hlocked
      simp only [Call.outcome, hp, hload, bind, Except.bind, pure, Except.pure,
        Except.ok.injEq] at houtcome
      rw [← hlocked.2, ← houtcome]
      exact h.settled (by simp)
    · simp only [hload, Functor.map, Except.map, Prod.mk.injEq, Except.ok.injEq] at hlocked
      simp only [Call.outcome, hp, hload, bind, Except.bind, pure, Except.pure,
        Except.ok.injEq] at houtcome
      rw [← hlocked.2, ← houtcome]
      exact h.settled (by simp)

/-- **A call enters** a level plan. -/
theorem Level.enter {ws : List Written} {sys : System} {call : Call} {o : Outcome}
    (h : Level env call.planId (eventsOf call.planId ws) (snapshotOf call.planId ws))
    (hfiles : FilesHold env ws sys.files) (hfits : SnapshotFits env sys (.enter call))
    (houtcome : call.outcome env sys.files = .ok o) {st : StoreFiles} {script : List Durable}
    (hlocked : call.locked env sys.files = (st, .ok script)) :
    Progress env call.planId (eventsOf call.planId ws) (snapshotOf call.planId ws) ⟨o, []⟩
      script := by
  cases call with
  | record c => exact h.record hfiles hfits hlocked houtcome
  | register c => exact h.register hfiles hlocked houtcome
  | replay p t => exact h.replay hfiles hlocked houtcome

/-! ## A call goes on -/

/-- **A step of a script** moves its call on. -/
theorem Progress.write {p : Text} {es : List Event} {snapshot : Option State} {c : CallState}
    {d : Durable} {ds : List Durable} (h : Progress env p es snapshot c (d :: ds))
    (hnodup : (es.map Event.operationId).Nodup) (st : StoreFiles) :
    Progress env p (es ++ eventsOf p (d.written env p st))
        ((snapshotOf p (d.written env p st)).or snapshot)
        { c with records := c.records ++ eventsOf p (d.written env p st) } ds ∧
      ((es ++ eventsOf p (d.written env p st)).map Event.operationId).Nodup := by
  cases h with
  | @fresh e n next rest hchanged hrecords hoperation hnew hlevel hnext hrest =>
      have hevents : eventsOf p (Durable.written env p st (.append e n)) = [e] := by
        rw [Durable.written, eventsOf_event, if_pos rfl]
      have hsnapshot : snapshotOf p (Durable.written env p st (.append e n)) = none := rfl
      rw [hevents, hsnapshot, hrecords]
      refine ⟨.appended ?_ hnext hrest, ?_⟩
      · rw [CallState.Exact, if_pos hchanged]
        exact ⟨e, rfl, hoperation⟩
      · rw [List.map_append, List.map_singleton, ← List.concat_eq_append, List.nodup_concat]
        exact ⟨hnew, hnodup⟩
  | @appended next rest hexact hnext hrest =>
      have hevents : eventsOf p (Durable.written env p st (.snapshot next)) = [] := rfl
      have hsnapshot : snapshotOf p (Durable.written env p st (.snapshot next)) = some next := by
        rw [Durable.written, snapshotOf_snapshot, if_pos rfl]
      rw [hevents, hsnapshot, List.append_nil, List.append_nil]
      exact ⟨.level hexact (.inr ⟨next, rfl, hnext⟩) hrest, hnodup⟩
  | level hexact hlevel hrest =>
      obtain ⟨hevents, hsnapshot⟩ :=
        @Durable.written_offPlan env d (hrest d (List.mem_cons_self ..)) p p st
      rw [hevents, hsnapshot, List.append_nil, List.append_nil]
      exact ⟨.level hexact hlevel fun d' hd' => hrest d' (List.mem_cons_of_mem _ hd'), hnodup⟩

/-- A call that gets to its end has appended what it returns. -/
theorem Progress.finish {p : Text} {es : List Event} {snapshot : Option State} {c : CallState}
    (h : Progress env p es snapshot c []) : c.Exact ∧ Level env p es snapshot := by
  cases h with
  | level hexact hlevel _ => exact ⟨hexact, hlevel⟩

/-- A call that stops leaves its plan level, unless it was to publish its
snapshot next. -/
theorem Progress.stop {p : Text} {es : List Event} {snapshot : Option State} {c : CallState}
    {script : List Durable} (h : Progress env p es snapshot c script)
    (hnot : ∀ s ds, script ≠ .snapshot s :: ds) : Level env p es snapshot := by
  cases h with
  | fresh _ _ _ _ hlevel _ _ => exact hlevel
  | appended _ _ _ => exact absurd rfl (hnot _ _)
  | level _ hlevel _ => exact hlevel

/-! ## Sessions -/

/-- The call on a plan, the rest of its script, and the files of the plan. -/
def Holder (env : Env) (p : Text) (es : List Event) (snapshot : Option State) :
    Option CallState → Option (List Durable) → Prop
  | none, none => Level env p es snapshot
  | some c, some script => Progress env p es snapshot c script
  | _, _ => False

/-- What holds of a session in which the snapshots fit. -/
structure SessionOk (env : Env) (ws : List Written) (s : Session) : Prop where
  history : History env ws s.sys
  records : ∀ p, s.records p = eventsOf p ws
  plans : ∀ p, Holder env p (eventsOf p ws) (snapshotOf p ws) (s.active p) (s.sys.writer p)
  returned : ∀ x ∈ s.ended, x.returned = true → x.call.Exact
  operations : ∀ p, ((eventsOf p ws).map Event.operationId).Nodup

theorem SessionOk.initial : SessionOk env [] .initial where
  history := .initial
  records _ := rfl
  plans _ := .inl ⟨rfl, rfl⟩
  returned _ h := by cases h
  operations _ := List.nodup_nil

theorem SessionOk.holder {ws : List Written} {s : Session} (h : SessionOk env ws s) {p : Text}
    {script : List Durable} (hwriter : s.sys.writer p = some script) :
    ∃ c, s.active p = some c ∧ Progress env p (eventsOf p ws) (snapshotOf p ws) c script := by
  have hplan := h.plans p
  rw [hwriter] at hplan
  cases hactive : s.active p with
  | none =>
      rw [hactive] at hplan
      exact hplan.elim
  | some c =>
      rw [hactive] at hplan
      exact ⟨c, rfl, hplan⟩

theorem Session.over_records (s : Session) (sys : System) (p : Text) (b : Bool) (q : Text) :
    (s.over sys p b).records q = s.records q := by
  simp only [Session.records, Session.over, List.flatMap_append, List.append_assoc]
  congr 1
  by_cases hq : q = p
  · subst hq
    cases s.active q <;> simp
  · rw [Function.update_of_ne hq]
    cases s.active p <;> simp [Ne.symm hq]

/-- A call is over and leaves its plan level. -/
theorem SessionOk.over {ws : List Written} {s : Session} (h : SessionOk env ws s) {sys : System}
    {p : Text} {c : CallState} {b : Bool} (hactive : s.active p = some c)
    (hhistory : History env ws sys) (hwriter : sys.writer p = none)
    (hothers : ∀ q, q ≠ p → sys.writer q = s.sys.writer q)
    (hlevel : Level env p (eventsOf p ws) (snapshotOf p ws)) (hexact : b = true → c.Exact) :
    SessionOk env ws (s.over sys p b) where
  history := hhistory
  records q := (s.over_records sys p b q).trans (h.records q)
  plans q := by
    show Holder env q _ _ (Function.update s.active p none q) (sys.writer q)
    by_cases hq : q = p
    · subst hq
      rw [Function.update_self, hwriter]
      exact hlevel
    · rw [Function.update_of_ne hq, hothers q hq]
      exact h.plans q
  returned x hx hret := by
    simp only [Session.over, hactive, Option.toList_some, List.map_cons, List.map_nil,
      List.mem_append, List.mem_singleton] at hx
    rcases hx with hx | rfl
    · exact h.returned x hx hret
    · exact hexact hret
  operations := h.operations

/-- **Every step of a session whose snapshots fit** keeps its invariant. -/
theorem SessionOk.step {ws : List Written} {s s' : Session} {a : Action}
    (h : SessionOk env ws s) (hfits : SnapshotFits env s.sys a) (hstep : SessionStep env s a s') :
    SessionOk env (ws ++ a.written env s.sys) s' := by
  have hholds := h.history.holds
  cases hstep with
  | @reject call sys hstep =>
      have hhistory := h.history.step hstep
      rw [Action.written_nil (by simp), List.append_nil] at hhistory ⊢
      have hwriter : sys.writer = s.sys.writer := by cases hstep <;> rfl
      refine ⟨hhistory, h.records, ?_, h.returned, h.operations⟩
      intro p
      show Holder env p _ _ (s.active p) (sys.writer p)
      rw [hwriter]
      exact h.plans p
  | @enter call o sys houtcome hstep =>
      have hhistory := h.history.step hstep
      rw [Action.written_nil (by simp), List.append_nil] at hhistory ⊢
      cases hstep with
      | @enter _ files script hfree hlocked =>
          have hplan := h.plans call.planId
          rw [hfree.1] at hplan
          have hactive : s.active call.planId = none := by
            cases hactive : s.active call.planId with
            | none => rfl
            | some c =>
                rw [hactive] at hplan
                exact hplan.elim
          rw [hactive] at hplan
          refine ⟨hhistory, ?_, ?_, h.returned, h.operations⟩
          · intro p
            rw [← h.records p]
            simp only [Session.records]
            by_cases hp : p = call.planId
            · rw [hp, hactive, Function.update_self]
              simp
            · rw [Function.update_of_ne hp]
          · intro p
            show Holder env p _ _ (Function.update s.active call.planId (some ⟨o, []⟩) p)
              ((s.sys.setFiles files).setWriter call.planId script |>.writer p)
            by_cases hp : p = call.planId
            · subst hp
              rw [Function.update_self, System.setWriter_self]
              exact Level.enter hplan hholds.files hfits houtcome hlocked
            · rw [Function.update_of_ne hp, System.setWriter_other _ _ hp]
              exact h.plans p
  | @write p c sys hactive hstep =>
      have hhistory := h.history.step hstep
      cases hstep with
      | @write _ d ds files hwriter hready hexec =>
          obtain ⟨c', hc', hprogress⟩ := h.holder hwriter
          rw [hactive, Option.some.injEq] at hc'
          subst hc'
          have hwritten : Action.written env s.sys (.write p) = d.written env p s.sys.files := by
            simp only [Action.written, hwriter]
          rw [hwritten] at hhistory ⊢
          obtain ⟨hnext, hnodup⟩ := hprogress.write (h.operations p) s.sys.files
          refine ⟨hhistory, ?_, ?_, h.returned, ?_⟩
          · intro q
            rw [eventsOf_append, ← h.records q]
            simp only [Session.records, List.append_assoc]
            by_cases hq : q = p
            · subst hq
              simp [hactive]
            · rw [Function.update_of_ne hq, (Durable.written_other hq).1, List.append_nil]
          · intro q
            show Holder env q _ _ (Function.update s.active p _ q)
              ((s.sys.setFiles files).setWriter p ds |>.writer q)
            rw [eventsOf_append, snapshotOf_append]
            by_cases hq : q = p
            · subst hq
              rw [Function.update_self, System.setWriter_self]
              exact hnext
            · obtain ⟨hevents, hsnapshot⟩ :=
                @Durable.written_other env d p q s.sys.files hq
              rw [Function.update_of_ne hq, System.setWriter_other _ _ hq, hevents, hsnapshot,
                List.append_nil]
              exact h.plans q
          · intro q
            rw [eventsOf_append]
            by_cases hq : q = p
            · subst hq
              exact hnodup
            · rw [(Durable.written_other hq).1, List.append_nil]
              exact h.operations q
  | @raise p sys hstep =>
      have hhistory := h.history.step hstep
      rw [Action.written_nil (by simp), List.append_nil] at hhistory ⊢
      cases hstep with
      | @raise _ d ds files err hwriter hready hexec =>
          obtain ⟨c, hactive, hprogress⟩ := h.holder hwriter
          refine h.over hactive hhistory (System.release_self ..)
            (fun q hq => System.release_other _ hq) (hprogress.stop ?_) (by simp)
          -- a snapshot that is valid is published
          rintro t rest heq
          cases heq
          have hvalid := ((hholds.scripts p _ hwriter).snapshots t (List.mem_cons_self ..)).valid
          rw [Durable.exec, snapshotStep_valid hvalid] at hexec
          simp [orUnchanged] at hexec
  | @finish p sys hstep =>
      have hhistory := h.history.step hstep
      rw [Action.written_nil (by simp), List.append_nil] at hhistory ⊢
      cases hstep with
      | finish hwriter =>
          obtain ⟨c, hactive, hprogress⟩ := h.holder hwriter
          obtain ⟨hexact, hlevel⟩ := hprogress.finish
          exact h.over hactive hhistory (System.release_self ..)
            (fun q hq => System.release_other _ hq) hlevel (fun _ => hexact)
  | @crash p sys hstep =>
      have hhistory := h.history.step hstep
      rw [Action.written_nil (by simp), List.append_nil] at hhistory ⊢
      cases hstep with
      | @crash _ script hwriter =>
          obtain ⟨c, hactive, hprogress⟩ := h.holder hwriter
          refine h.over hactive hhistory (System.release_self ..)
            (fun q hq => System.release_other _ hq) (hprogress.stop ?_) (by simp)
          intro t ds heq
          exact hfits t ds (heq ▸ hwriter)

theorem SessionRun.ok {s : Session} (h : SessionRun env (SnapshotFits env) s) :
    ∃ ws, SessionOk env ws s := by
  induction h with
  | initial => exact ⟨[], .initial⟩
  | step _ hcond hstep ih =>
      obtain ⟨ws, hws⟩ := ih
      exact ⟨_, hws.step hcond hstep⟩

/-! ## Runs are sessions -/

/-- A call that returns has returned its outcome. -/
theorem Call.outcome_run {call : Call} {st st' : StoreFiles} {res : StoreResult}
    (hfiles : FilesOk env st) (h : call.run env st = (st', .ok res)) :
    call.outcome env st = .ok ⟨res.changed, res.operationId⟩ := by
  cases call with
  | record c =>
      simp only [Call.run, recordEvent] at h
      split at h
      · simp at h
      · rename_i r hr
        have hpreview := (hfiles.snapshot r.planId).previewRecord (r := r)
        split at h
        · simp at h
        · rename_i f hf
          rw [hf] at hpreview
          simp only at hpreview
          subst hpreview
          split at h
          · simp at h
          · rename_i f' s b result es hlocked
            obtain ⟨t, b', -, hdecide⟩ := lockedRecord_ok hlocked
            split at h
            · simp at h
            · cases h
              simp [Call.outcome, hr, hlocked, RecordDecision.outcome, bind, Except.bind, pure,
                Except.pure]
          · rename_i f' before candidate e es hlocked
            unfold commitRecord at h
            split at h
            · simp at h
            · split at h
              · simp at h
              · simp only [Prod.mk.injEq, map_eq_ok] at h
                obtain ⟨-, m, -, rfl⟩ := h
                simp [Call.outcome, hr, hlocked, RecordDecision.outcome, bind, Except.bind, pure,
                  Except.pure]
  | register c =>
      simp only [Call.run, registerPlan] at h
      split at h
      · simp at h
      · rename_i r hr
        split at h
        · simp at h
        · rename_i file current hmanifest
          split at h
          · simp at h
          · rename_i f plan es hload
            split at h
            · simp at h
            · rename_i d hd
              have houtcome : (Call.register c).outcome env st = .ok (d.outcome r) := by
                simp [Call.outcome, hr, hmanifest, hload, hd, bind, Except.bind, pure, Except.pure]
              rw [houtcome]
              cases d with
              | settled s b id =>
                  simp only [commitRegister] at h
                  split at h
                  · simp at h
                  · simp only [Prod.mk.injEq, map_eq_ok] at h
                    obtain ⟨-, m, -, rfl⟩ := h
                    rfl
              | append next e =>
                  simp only [commitRegister] at h
                  split at h
                  · simp at h
                  · split at h
                    · simp at h
                    · simp only [Prod.mk.injEq, map_eq_ok] at h
                      obtain ⟨-, m, -, rfl⟩ := h
                      rfl
  | replay p t =>
      simp only [Call.run, replayPlan] at h
      split at h
      · simp at h
      · rename_i hp
        split at h
        · simp at h
        · rename_i f es hload
          cases h
          simp [Call.outcome, hp, hload, bind, Except.bind, pure, Except.pure]
        · rename_i f s es hload
          cases h
          simp [Call.outcome, hp, hload, bind, Except.bind, pure, Except.pure]
        · rename_i f s es hload
          split at h
          · simp at h
          · cases h
            simp [Call.outcome, hp, hload, bind, Except.bind, pure, Except.pure]

/-- A call that goes on to its script has an outcome. -/
theorem Call.outcome_locked {call : Call} {st st' : StoreFiles} {script : List Durable}
    (h : call.locked env st = (st', .ok script)) : ∃ o, call.outcome env st = .ok o := by
  cases call with
  | record c =>
      simp only [Call.locked] at h
      split at h
      · simp at h
      · rename_i r hr
        simp only [Prod.mk.injEq, map_eq_ok] at h
        obtain ⟨-, d, hd, -⟩ := h
        exact ⟨d.1.outcome r, by simp [Call.outcome, hr, hd, bind, Except.bind, pure, Except.pure]⟩
  | register c =>
      simp only [Call.locked] at h
      split at h
      · simp at h
      · rename_i r hr
        split at h
        · simp at h
        · rename_i file current hmanifest
          simp only [Prod.mk.injEq, bind_eq_ok] at h
          obtain ⟨-, ⟨plan, es⟩, hload, d, hd, -⟩ := h
          exact ⟨d.outcome r, by
            simp [Call.outcome, hr, hmanifest, hload, hd, bind, Except.bind, pure, Except.pure]⟩
  | replay p t =>
      simp only [Call.locked] at h
      split at h
      · simp at h
      · rename_i hp
        simp only [Prod.mk.injEq, map_eq_ok] at h
        obtain ⟨-, ⟨plan, es⟩, hload, -⟩ := h
        simp only [Call.outcome, hp, hload, bind, Except.bind]
        split
        · exact ⟨_, rfl⟩
        · exact ⟨_, rfl⟩

/-- **Every run of the writers is a session.** -/
theorem Run.session {cond : System → Action → Prop} {sys : System} (h : Run env cond sys) :
    ∃ s, SessionRun env cond s ∧ s.sys = sys ∧
      ∀ p, (s.active p).isSome = (sys.writer p).isSome := by
  induction h with
  | initial => exact ⟨_, .initial, rfl, fun _ => rfl⟩
  | @step sys sys' a _ hcond hstep ih =>
      obtain ⟨s, hrun, rfl, hactive⟩ := ih
      have hover : ∀ {p : Text} (files : StoreFiles) (b : Bool) (q : Text),
          ((s.over ((s.sys.setFiles files).release p) p b).active q).isSome =
            (((s.sys.setFiles files).release p).writer q).isSome := by
        intro p files b q
        show (Function.update s.active p none q).isSome = _
        by_cases hq : q = p
        · subst hq
          rw [Function.update_self, System.release_self]
          rfl
        · rw [Function.update_of_ne hq, System.release_other _ hq]
          exact hactive q
      have hheld : ∀ {p : Text} {script : List Durable}, s.sys.writer p = some script →
          ∃ c, s.active p = some c := by
        intro p script hwriter
        have hp := hactive p
        rw [hwriter, Option.isSome_some] at hp
        exact Option.isSome_iff_exists.mp hp
      cases a with
      | reject call =>
          have hwriter : sys'.writer = s.sys.writer := by cases hstep <;> rfl
          refine ⟨_, hrun.step hcond (.reject hstep), rfl, ?_⟩
          rw [hwriter]
          exact hactive
      | enter call =>
          cases hstep with
          | @enter _ files script hfree hlocked =>
              obtain ⟨o, ho⟩ := Call.outcome_locked hlocked
              refine ⟨_, hrun.step hcond (.enter ho (.enter hfree hlocked)), rfl, ?_⟩
              intro q
              show (Function.update s.active call.planId (some _) q).isSome =
                (((s.sys.setFiles files).setWriter call.planId script).writer q).isSome
              by_cases hq : q = call.planId
              · subst hq
                rw [Function.update_self, System.setWriter_self]
                rfl
              · rw [Function.update_of_ne hq, System.setWriter_other _ _ hq]
                exact hactive q
      | write p =>
          cases hstep with
          | @write _ d ds files hwriter hready hexec =>
              obtain ⟨c, hc⟩ := hheld hwriter
              refine ⟨_, hrun.step hcond (.write hc (.write hwriter hready hexec)), rfl, ?_⟩
              intro q
              show (Function.update s.active p (some _) q).isSome =
                (((s.sys.setFiles files).setWriter p ds).writer q).isSome
              by_cases hq : q = p
              · subst hq
                rw [Function.update_self, System.setWriter_self]
                rfl
              · rw [Function.update_of_ne hq, System.setWriter_other _ _ hq]
                exact hactive q
      | raise p =>
          cases hstep with
          | @raise _ d ds files err hwriter hready hexec =>
              exact ⟨_, hrun.step hcond (.raise (.raise hwriter hready hexec)), rfl,
                hover files false⟩
      | finish p =>
          cases hstep with
          | finish hwriter =>
              exact ⟨_, hrun.step hcond (.finish (.finish hwriter)), rfl, hover s.sys.files true⟩
      | crash p =>
          cases hstep with
          | crash hwriter =>
              exact ⟨_, hrun.step hcond (.crash (.crash hwriter)), rfl, hover s.sys.files false⟩

/-- The rest of a script that is not disturbed: the call returns or raises,
and no call is in progress any more. What every step keeps is kept. -/
theorem toEnd_closed {R : System → Prop}
    (hclosed : ∀ {sys sys' : System} {a : Action}, R sys → Step env sys a sys' → R sys')
    {call : Call} {script : List Durable} :
    ∀ {sys : System} {st : StoreFiles} {u : Check Unit}, R sys →
      sys.writer call.planId = some script → (∀ q, q ≠ call.planId → sys.writer q = none) →
      sys.registering = (if call.registers then some call.planId else none) →
      (∀ s, .pointer s ∈ script → call.registers = false) →
      execScript env call.planId script sys.files = (st, u) →
      ∃ sys', R sys' ∧ sys'.Idle ∧ sys'.files = st := by
  have hidle : ∀ {sys : System} (files : StoreFiles),
      (∀ q, q ≠ call.planId → sys.writer q = none) →
      sys.registering = (if call.registers then some call.planId else none) →
      ((sys.setFiles files).release call.planId).Idle := by
    intro sys files hothers hregistering
    constructor
    · intro q
      by_cases hq : q = call.planId
      · subst hq
        exact System.release_self ..
      · rw [System.release_other _ hq]
        exact hothers q hq
    · show (if sys.registering = some call.planId then none else sys.registering) = none
      rw [hregistering]
      cases call.registers <;> simp
  induction script with
  | nil =>
      intro sys st u hrun hwriter hothers hregistering _ hexec
      cases hexec
      exact ⟨_, hclosed hrun (.finish hwriter), hidle sys.files hothers hregistering, rfl⟩
  | cons d ds ih =>
      intro sys st u hrun hwriter hothers hregistering hpointer hexec
      have hready : sys.Ready d := by
        cases d with
        | pointer s =>
            show sys.registering = none
            rw [hregistering, hpointer s (by simp)]
            rfl
        | _ => trivial
      simp only [execScript] at hexec
      split at hexec
      · rename_i st₁ err hd
        cases hexec
        exact ⟨_, hclosed hrun (.raise hwriter hready hd), hidle _ hothers hregistering, rfl⟩
      · rename_i st₁ hd
        refine ih (hclosed hrun (.write hwriter hready hd)) (System.setWriter_self ..) ?_
          hregistering (fun s hs => hpointer s (List.mem_cons_of_mem _ hs)) hexec
        intro q hq
        rw [System.setWriter_other _ _ hq]
        exact hothers q hq

/-- **A call that is not disturbed is a run**, whatever becomes of it, and
keeps what every step keeps. -/
theorem execute_closed {R : System → Prop}
    (hclosed : ∀ {sys sys' : System} {a : Action}, R sys → Step env sys a sys' → R sys')
    {sys : System} (hrun : R sys) (hfiles : FilesOk env sys.files) (hidle : sys.Idle)
    (call : Call) :
    ∃ sys', R sys' ∧ sys'.Idle ∧ sys'.files = (call.run env sys.files).1 := by
  have hfree : sys.Free call := ⟨hidle.1 _, fun _ => hidle.2⟩
  have hfst : (call.run env sys.files).1 = (call.execute env sys.files).1 := by
    rw [← Call.run_effect]
    rfl
  rw [hfst]
  have hpreview := hfiles.preview call
  have hlocked := hfiles.locked call
  simp only [Call.execute]
  split
  · rename_i st err hrejected
    exact ⟨_, hclosed hrun (.preview hfree hrejected), hidle, rfl⟩
  · rename_i st haccepted
    rw [haccepted] at hpreview
    simp only at hpreview
    subst hpreview
    split
    · rename_i st err hrejected
      exact ⟨_, hclosed hrun (.reject hfree hrejected), hidle, rfl⟩
    · rename_i st script hscript
      rw [hscript] at hlocked
      simp only at hlocked
      subst hlocked
      refine toEnd_closed hclosed (hclosed hrun (.enter hfree hscript))
        (System.setWriter_self ..) ?_ ?_ (fun s hs => locked_pointer hscript hs) rfl
      · intro q hq
        exact (System.setWriter_other _ _ hq).trans (hidle.1 q)
      · show (if call.registers = true then some call.planId else sys.registering) = _
        rw [hidle.2]

theorem Run.execute {sys : System} (hrun : Run env (fun _ _ => True) sys) (hidle : sys.Idle)
    (call : Call) :
    ∃ sys', Run env (fun _ _ => True) sys' ∧ sys'.Idle ∧
      sys'.files = (call.run env sys.files).1 :=
  execute_closed (R := Run env (fun _ _ => True)) (fun h hstep => h.step trivial hstep) hrun
    hrun.systemOk.files hidle call

/-! ## What the calls of a run have done -/

/-- The records of a journal are numbered from 1. -/
theorem Reads.sequences {p : Text} {f : PlanFiles} {es : List Event} (h : Reads env p f es) :
    es.map Event.sequence = List.range' 1 es.length := by
  obtain ⟨-, -, -, hchain, -⟩ := reads_iff.mp h
  obtain ⟨-, hsequence, -⟩ := validateSequenceAndHashes_ok hchain
  apply List.ext_getElem
  · simp
  · intro i hi _
    rw [List.length_map] at hi
    rw [List.getElem_map, List.getElem_range', hsequence i _ (List.getElem?_eq_getElem hi)]
    omega

/-- **The calls of a run do what they return.** In every run of any number of
interleaved calls whose snapshots fit: a call that returned `changed` has
appended exactly one record, with its operation, and any other call that
returned none; the journals hold those records, numbered from 1, each
operation once; and while no call is on a plan, its snapshot is the fold of
its journal. -/
theorem session_exact {s : Session} (h : SessionRun env (SnapshotFits env) s) :
    s.Exact env := by
  obtain ⟨ws, hws⟩ := h.ok
  have hfiles := hws.history.holds.files
  refine ⟨hws.returned, ?_, ?_, ?_, ?_⟩
  · intro p
    rw [hws.records p]
    exact hfiles.journal p
  · intro p
    rw [hws.records p]
    exact hws.operations p
  · intro p
    rw [hws.records p]
    exact (hfiles.reads p).sequences
  · intro p hidle
    have hplan := hws.plans p
    rw [hidle] at hplan
    have hsnapshot := hfiles.snapshot p
    rw [hws.records p]
    cases hwriter : s.sys.writer p with
    | some script =>
        rw [hwriter] at hplan
        exact hplan.elim
    | none =>
        rw [hwriter] at hplan
        rcases hplan with ⟨hes, hnone⟩ | ⟨t, hsome, hfolded⟩
        · rw [hnone] at hsnapshot
          exact .inl ⟨hes, hsnapshot⟩
        · rw [hsome] at hsnapshot
          exact .inr ⟨t, hsnapshot, hfolded.folds⟩

end RalphVault.Store
