import RalphVault.Store.Interleaving

/-!
# Implementation store — a reader without locks

`read_state` takes no lock. It reads the snapshot of a plan, then its
journal, and checks the one against the other, while any number of writers
take their steps before, between and after its two reads.
-/

namespace RalphVault.Store

/-- How far a reader of a plan is. -/
inductive Reader where
  | ready
  /-- it has read the snapshot -/
  | holding (s : State)
  /-- it is done, with the journal it read -/
  | returned (result : Check (Option State)) (journal : Check (List Event))

section Readers

variable (env : Env)

/-- The first read of `read_state`: the snapshot. -/
def Reader.snapshot (p : Text) (f : PlanFiles) : Reader :=
  match readSnapshot env p "state" f with
  | .error err => .returned (.error err) (.ok [])
  | .ok none => .returned (.ok none) (.ok [])
  | .ok (some s) => .holding s

/-- The second read of `read_state`, and its checks. -/
def Reader.journal (p : Text) (f : PlanFiles) (s : State) : Reader :=
  let journal := readPlanEvents env p f false
  .returned (do
    let es ← journal
    validateOwnership env s
    validateStateCursor s es
    pure (some s)) journal

/-- A reader of the plan `p` in a run of writers, in any interleaving. -/
inductive Reading (p : Text) : System → Reader → Prop where
  | ready {sys : System} (h : Run env (fun _ _ => True) sys) : Reading p sys .ready
  | writer {sys sys' : System} {r : Reader} {a : Action} (h : Reading p sys r)
      (hstep : Step env sys a sys') : Reading p sys' r
  | snapshot {sys : System} (h : Reading p sys .ready) :
      Reading p sys (.snapshot env p (sys.files.plans p))
  | journal {sys : System} {s : State} (h : Reading p sys (.holding s)) :
      Reading p sys (.journal env p (sys.files.plans p) s)

end Readers

variable {env : Env}

/-! ## Cursors -/

/-- A cursor that is accepted on a journal is accepted on what the journal
becomes. -/
theorem validateStateCursor_append {s : State} {es : List Event}
    (h : validateStateCursor s es = .ok ()) (es' : List Event) :
    validateStateCursor s (es ++ es') = .ok () := by
  simp only [validateStateCursor, bind_eq_ok, require_eq_ok, decide_eq_true_eq,
    List.length_append] at h ⊢
  obtain ⟨u, hle, h⟩ := h
  refine ⟨u, by omega, ?_⟩
  split at h
  · rename_i hzero
    rw [if_pos hzero]
    exact h
  · rename_i hpos
    rw [if_neg hpos, List.getElem?_append_left (by omega)]
    exact h

theorem validateStateCursor_le {s : State} {es : List Event}
    (h : validateStateCursor s es = .ok ()) : s.lastEventSequence ≤ es.length := by
  simp only [validateStateCursor, bind_eq_ok, require_eq_ok, decide_eq_true_eq] at h
  obtain ⟨_, hle, -⟩ := h
  exact hle

/-- The cursor of a snapshot that stands at the end of a journal is accepted
on it. -/
theorem validateStateCursor_end {s : State} {es : List Event}
    (hsequence : s.lastEventSequence = es.length) (hhash : s.lastEventHash = lastRecordHash es) :
    validateStateCursor s es = .ok () := by
  simp only [validateStateCursor, bind_eq_ok, require_eq_ok, decide_eq_true_eq]
  refine ⟨(), by rw [hsequence], ?_⟩
  rw [hsequence, hhash]
  cases hes : es.getLast? with
  | none =>
      rw [List.getLast?_eq_none_iff] at hes
      subst hes
      rfl
  | some e =>
      have hne : es.length ≠ 0 := by
        intro hlen
        rw [List.eq_nil_of_length_eq_zero hlen] at hes
        cases hes
      have hget : es[es.length - 1]? = some e := by rw [← List.getLast?_eq_getElem?, hes]
      rw [if_neg hne, hget, lastRecordHash, hes]
      simp

/-- Validating the object of a snapshot keeps the hash it stands at. -/
theorem validateState_hash {s t : State} {expected : Option Text} {limit : Nat}
    (h : validateState env t.toDict expected limit = .ok s) :
    s.lastEventHash = t.lastEventHash := by
  obtain ⟨-, -, u, hu, rfl⟩ := validateState_sound env h
  simp only [decodeState, bind_eq_ok, hash_eq_ok, pure, Except.pure, Except.ok.injEq] at hu
  obtain ⟨_, -, _, -, plan, -, _, -, path, -, gen, -, status, -, cls, -, hu⟩ := hu
  obtain ⟨phase, -, objective, -, next, -, decision, -, blockers, -, questions, -, hu⟩ := hu
  obtain ⟨gates, -, files, -, op, -, seq, -, ehash, hehash, git, -, writer, -, family, -, hu⟩ := hu
  obtain ⟨source, -, verified, -, origin, -, intent, -, created, -, updated, -, hash, -, rfl⟩ := hu
  exact (Json.str.inj hehash.1).symm

/-- After events, a snapshot stands at the last of them. -/
theorem applyEvents_hash {timestamp : Text} {es : List Event} :
    ∀ {s s' : State}, applyEvents env timestamp s es = .ok s' →
      s'.lastEventHash = match es.getLast? with
        | some e => e.recordHash
        | none => s.lastEventHash := by
  induction es with
  | nil =>
      intro s s' h
      cases h
      rfl
  | cons e es ih =>
      intro s s' h
      simp only [applyEvents, bind_eq_ok] at h
      obtain ⟨next, hnext, hrest⟩ := h
      rw [ih hrest]
      cases es with
      | nil => exact validateState_hash hnext
      | cons e' es =>
          rw [List.getLast?_cons_cons]
          cases hlast : (e' :: es).getLast? with
          | none => simp at hlast
          | some _ => rfl

/-- A recovered snapshot stands at the end of the journal. -/
theorem loadPlan_cursor {p timestamp : Text} {f f' : PlanFiles} {s : State} {b : Bool}
    {es : List Event} (hf : SnapshotOk env p f.snapshot)
    (h : loadPlan env p timestamp f = (f', .ok (some (s, b), es))) :
    validateStateCursor s es = .ok () := by
  obtain ⟨-, hsequence, -⟩ := loadPlan_tracks hf h
  simp only [loadPlan, Prod.mk.injEq, bind_eq_ok] at h
  obtain ⟨-, o, -, es', -, h⟩ := h
  cases o with
  | none =>
      cases es' with
      | nil => simp [pure, Except.pure] at h
      | cons e es' =>
          simp only [bind_eq_ok, pure, Except.pure, Except.ok.injEq, Prod.mk.injEq,
            Option.some.injEq] at h
          obtain ⟨t, ht, ⟨rfl, rfl⟩, rfl⟩ := h
          simp only [reconstructState, bind_eq_ok] at ht
          obtain ⟨base, -, u, hu, hv⟩ := ht
          refine validateStateCursor_end hsequence ?_
          rw [validateState_hash hv, applyEvents_hash hu, lastRecordHash]
          cases hlast : (e :: es').getLast? with
          | none => simp at hlast
          | some _ => rfl
  | some t =>
      simp only [bind_eq_ok, pure, Except.pure, Except.ok.injEq, Prod.mk.injEq,
        Option.some.injEq] at h
      obtain ⟨_, -, ⟨u, b'⟩, hr, heq, rfl⟩ := h
      cases heq
      simp only [reconcileState, bind_eq_ok] at hr
      obtain ⟨_, hcursor, hr⟩ := hr
      split at hr
      · cases hr
        exact hcursor
      · rename_i hbehind
        simp only [bind_eq_ok, pure, Except.pure, Except.ok.injEq, Prod.mk.injEq] at hr
        obtain ⟨v, hv, w, hw, rfl, -⟩ := hr
        refine validateStateCursor_end hsequence ?_
        have hle := validateStateCursor_le hcursor
        rw [validateState_hash hw, applyEvents_hash hv, List.getLast?_drop, if_neg (by omega),
          lastRecordHash]
        cases hlast : es'.getLast? with
        | none =>
            rw [List.getLast?_eq_none_iff] at hlast
            subst hlast
            simp at hle hbehind
            omega
        | some _ => rfl

/-! ## Every snapshot stands in its journal -/

/-- The events a script still appends. -/
def appendedBy (script : List Durable) : List Event :=
  script.filterMap fun d => match d with
    | .append e _ => some e
    | _ => none

/-- Once its events are appended, the snapshots of a script stand in the
journal. -/
def ScriptStands (es : List Event) (script : List Durable) : Prop :=
  ∀ s, .snapshot s ∈ script → validateStateCursor s (es ++ appendedBy script) = .ok ()

theorem ScriptStands.of_no_snapshot {es : List Event} {script : List Durable}
    (h : ∀ s, .snapshot s ∉ script) : ScriptStands es script :=
  fun s hs => absurd hs (h s)

theorem lockedRecord_stands {r : RecordRequest} {f f' : PlanFiles} {d : RecordDecision}
    {es : List Event} (hf : SnapshotOk env r.planId f.snapshot)
    (h : lockedRecord env r f = (f', .ok (d, es))) :
    ScriptStands es (d.script env r es.length) := by
  obtain ⟨s, b, hload, hd⟩ := lockedRecord_ok h
  cases d with
  | settled t b' res =>
      obtain ⟨rfl, rfl⟩ := decideRecord_settled_state hd
      cases b' with
      | false => exact .of_no_snapshot (by simp [RecordDecision.script])
      | true =>
          intro u hu
          simp only [RecordDecision.script, if_true, List.mem_singleton,
            Durable.snapshot.injEq] at hu
          rw [hu]
          exact validateStateCursor_append (loadPlan_cursor hf hload) _
  | append before candidate e =>
      obtain ⟨rfl, hc, -, he⟩ := decideRecord_append hd
      have hext := recordedEvent_extends hc he
      cases hnext : stateAfterEvent env candidate e r.timestamp with
      | error err => exact .of_no_snapshot (by simp [RecordDecision.script, hnext])
      | ok next =>
          intro u hu
          have hu' : u = next := by
            simp only [RecordDecision.script, hnext, List.mem_cons, reduceCtorEq, false_or,
              Durable.snapshot.injEq, List.not_mem_nil, or_false] at hu
            rcases hu with hu | hu
            · exact hu
            · split at hu <;> cases hu
          have happended : appendedBy
              (RecordDecision.script env r es.length (.append before candidate e)) = [e] := by
            simp only [RecordDecision.script, hnext, appendedBy]
            split <;> rfl
          rw [hu', happended]
          apply validateStateCursor_end
          · rw [(stateAfterEvent_same hnext).2.2, hext.sequence, List.length_append]
            rfl
          · rw [validateState_hash hnext, lastRecordHash, List.getLast?_concat]
            rfl

theorem recovered_stands {es : List Event} {s : State} {b : Bool}
    (hs : validateStateCursor s es = .ok ()) {rest : List Durable}
    (hrest : ∀ t, .snapshot t ∉ rest) :
    ScriptStands es ((if b then [.snapshot s] else []) ++ rest) := by
  intro t ht
  rcases List.mem_append.mp ht with ht | ht
  · split at ht
    · rw [List.mem_singleton, Durable.snapshot.injEq] at ht
      rw [ht]
      exact validateStateCursor_append hs _
    · cases ht
  · exact absurd ht (hrest t)

/-- **The snapshots a call publishes stand in the journal** as it will be
when they are published. -/
theorem locked_stands {call : Call} {st st' : StoreFiles} {script : List Durable} {es : List Event}
    (hfiles : FilesOk env st) (hreads : Reads env call.planId (st.plans call.planId) es)
    (h : call.locked env st = (st', .ok script)) : ScriptStands es script := by
  cases call with
  | record c =>
      simp only [Call.locked] at h
      split at h
      · simp at h
      · rename_i r hr
        have hsame := (hfiles.snapshot r.planId).lockedRecord (r := r)
        rw [Call.planId, ← recordRequest_planId hr] at hreads
        cases hlocked : lockedRecord env r (st.plans r.planId) with
        | mk f d =>
            rw [hlocked] at hsame
            simp only at hsame
            subst hsame
            simp only [hlocked, Prod.mk.injEq, map_eq_ok] at h
            obtain ⟨-, ⟨d, es'⟩, rfl, rfl⟩ := h
            obtain ⟨s, b, hload, -⟩ := lockedRecord_ok hlocked
            rw [hreads.unique (loadPlan_reads hload)]
            exact lockedRecord_stands (hfiles.snapshot r.planId) hlocked
  | register c =>
      simp only [Call.locked] at h
      split at h
      · simp at h
      · rename_i r hr
        rw [Call.planId, ← registerRequest_planId hr] at hreads
        split at h
        · simp at h
        · rename_i file current hm
          have hsame := (hfiles.snapshot r.planId).loadPlan r.timestamp
          cases hload : loadPlan env r.planId r.timestamp (st.plans r.planId) with
          | mk f loaded =>
              rw [hload] at hsame
              simp only at hsame
              subst hsame
              simp only [hload, Prod.mk.injEq, bind_eq_ok, pure, Except.pure,
                Except.ok.injEq] at h
              obtain ⟨-, ⟨plan, es'⟩, rfl, d, hd, rfl⟩ := h
              have hes := hreads.unique (loadPlan_reads hload)
              subst hes
              cases d with
              | settled s b id =>
                  have hplan := decideRegister_settled hd
                  subst hplan
                  exact recovered_stands (loadPlan_cursor (hfiles.snapshot _) hload) (by simp)
              | append next e =>
                  obtain ⟨rfl, he, hnext, -⟩ := decideRegister_append hd
                  have hes := loadPlan_none hload
                  subst hes
                  have hext := registrationEvent_extends hr he
                  intro s hs
                  simp only [RegisterDecision.script, List.mem_cons, reduceCtorEq,
                    List.not_mem_nil, or_false, false_or, Durable.snapshot.injEq] at hs
                  rw [hs]
                  apply validateStateCursor_end
                  · rw [(stateAfterEvent_same hnext).2.2, hext.sequence]
                    rfl
                  · rw [validateState_hash hnext]
                    rfl
  | replay p t =>
      simp only [Call.locked] at h
      split at h
      · simp at h
      · have hsame := (hfiles.snapshot p).loadPlan t
        cases hload : loadPlan env p t (st.plans p) with
        | mk f loaded =>
            rw [hload] at hsame
            simp only at hsame
            subst hsame
            simp only [hload, Prod.mk.injEq, map_eq_ok] at h
            obtain ⟨-, ⟨plan, es'⟩, rfl, rfl⟩ := h
            have hes : es = es' := hreads.unique (loadPlan_reads hload)
            subst hes
            cases plan with
            | none => exact .of_no_snapshot (by simp)
            | some sb =>
                obtain ⟨s, b⟩ := sb
                have hs := loadPlan_cursor (hfiles.snapshot p) hload
                cases b with
                | false => exact .of_no_snapshot (by simp)
                | true => simpa using @recovered_stands es s true hs [] (by simp)

/-- What holds along every history: the snapshots that were published, and
those that scripts still publish, stand in their journals. -/
structure Stands (ws : List Written) (sys : System) : Prop where
  snapshots : ∀ p s, snapshotOf p ws = some s → validateStateCursor s (eventsOf p ws) = .ok ()
  scripts : ∀ p script, sys.writer p = some script → ScriptStands (eventsOf p ws) script

theorem Stands.initial : Stands [] .initial where
  snapshots p s h := by cases h
  scripts p script h := by cases h

theorem Stands.release {ws : List Written} {sys : System} (h : Stands ws sys) (p : Text) :
    Stands ws (sys.release p) where
  snapshots := h.snapshots
  scripts := by
    intro q script hq
    by_cases hqp : q = p
    · subst hqp
      rw [System.release_self] at hq
      cases hq
    · rw [sys.release_other hqp] at hq
      exact h.scripts q script hq

theorem appendedBy_settled {script : List Durable} (h : ∀ d ∈ script, d.appends = 0) :
    appendedBy script = [] := by
  rw [appendedBy, List.filterMap_eq_nil_iff]
  intro d hd
  cases d with
  | append e n => exact absurd (h _ hd) (by simp [Durable.appends])
  | _ => rfl

/-- One step of the script of a plan, on what was written to the plan. -/
theorem ScriptStands.write {p : Text} {es : List Event} {snapshot : Option State} {d : Durable}
    {ds : List Durable} {st : StoreFiles}
    (h : ScriptStands es (d :: ds)) (hfits : ScriptFits env p es (d :: ds))
    (hs : ∀ s, snapshot = some s → validateStateCursor s es = .ok ()) :
    ScriptStands (es ++ eventsOf p (d.written env p st)) ds ∧
      ∀ s, (snapshotOf p (d.written env p st)).or snapshot = some s →
        validateStateCursor s (es ++ eventsOf p (d.written env p st)) = .ok () := by
  have hrest : ∀ s, .snapshot s ∈ ds → validateStateCursor s (es ++ appendedBy (d :: ds)) = .ok () :=
    fun s hs => h s (List.mem_cons_of_mem _ hs)
  have hoff : d.offPlan = true → ScriptStands (es ++ eventsOf p (d.written env p st)) ds ∧
      ∀ s, (snapshotOf p (d.written env p st)).or snapshot = some s →
        validateStateCursor s (es ++ eventsOf p (d.written env p st)) = .ok () := by
    intro hd
    obtain ⟨hevents, hsnapshot⟩ := @Durable.written_offPlan env d hd p p st
    have happended : appendedBy (d :: ds) = appendedBy ds := by
      cases d with
      | append e n => cases hd
      | snapshot s => cases hd
      | _ => rfl
    rw [happended] at hrest
    rw [hevents, hsnapshot, List.append_nil]
    exact ⟨hrest, hs⟩
  cases d with
  | append e n =>
      have hevents : eventsOf p (Durable.written env p st (.append e n)) = [e] :=
        (eventsOf_event p p e).trans (if_pos rfl)
      rw [hevents]
      constructor
      · intro s hds
        rw [List.append_assoc]
        exact hrest s hds
      · intro s hsnapshot
        exact validateStateCursor_append (hs s hsnapshot) _
  | snapshot t =>
      have hsettled : appendedBy ds = [] := appendedBy_settled hfits.rest
      have happended : appendedBy (.snapshot t :: ds) = [] := hsettled
      have hsnapshot : snapshotOf p (Durable.written env p st (.snapshot t)) = some t :=
        (snapshotOf_snapshot p p t).trans (if_pos rfl)
      have hevents : eventsOf p (Durable.written env p st (.snapshot t)) = [] := rfl
      rw [hevents, hsnapshot, List.append_nil]
      constructor
      · intro s hds
        rw [hsettled, List.append_nil]
        simpa [happended] using hrest s hds
      · intro s hts
        cases hts
        simpa [happended] using h t (List.mem_cons_self ..)
  | pointer s => exact hoff rfl
  | lockedPointer current s force => exact hoff rfl
  | readManifest => exact hoff rfl
  | raise err => exact hoff rfl

/-- **Every step keeps the snapshots standing in their journals.** -/
theorem Stands.step {ws : List Written} {sys sys' : System} {a : Action} (h : Stands ws sys)
    (hholds : Holds env ws sys) (hstep : Step env sys a sys') :
    Stands (ws ++ a.written env sys) sys' := by
  have hok := hholds.files.filesOk
  cases hstep with
  | @preview call files err hfree hrun =>
      rw [Action.written_nil (by simp), List.append_nil]
      exact ⟨h.snapshots, h.scripts⟩
  | @reject call files err hfree hrun =>
      rw [Action.written_nil (by simp), List.append_nil]
      exact ⟨h.snapshots, h.scripts⟩
  | @enter call files script hfree hrun =>
      rw [Action.written_nil (by simp), List.append_nil]
      refine ⟨h.snapshots, ?_⟩
      intro q script' hq
      by_cases hqp : q = call.planId
      · subst hqp
        have hwriter : (sys.setWriter call.planId script).writer call.planId = some script' := hq
        rw [System.setWriter_self, Option.some.injEq] at hwriter
        rw [← hwriter]
        exact locked_stands hok (hholds.files.reads call.planId) hrun
      · have hwriter : (sys.setWriter call.planId script).writer q = some script' := hq
        rw [sys.setWriter_other _ hqp] at hwriter
        exact h.scripts q script' hwriter
  | @write p d ds files hwriter hready hexec =>
      have hwritten : Action.written env sys (.write p) = d.written env p sys.files := by
        simp only [Action.written, hwriter]
      obtain ⟨hds, hsnapshot⟩ := @ScriptStands.write env p _ _ d ds sys.files
        (h.scripts p _ hwriter) (hholds.scripts p _ hwriter) (h.snapshots p)
      rw [hwritten]
      constructor
      · intro q s hs
        rw [snapshotOf_append] at hs
        rw [eventsOf_append]
        by_cases hqp : q = p
        · subst hqp
          exact hsnapshot s hs
        · obtain ⟨hevents, hnone⟩ := @Durable.written_other env d p q sys.files hqp
          rw [hnone, Option.none_or] at hs
          rw [hevents, List.append_nil]
          exact h.snapshots q s hs
      · intro q script' hq
        rw [eventsOf_append]
        by_cases hqp : q = p
        · subst hqp
          have hself : ((sys.setFiles files).setWriter q ds).writer q = some script' := hq
          rw [System.setWriter_self, Option.some.injEq] at hself
          rw [← hself]
          exact hds
        · have hother : ((sys.setFiles files).setWriter p ds).writer q = some script' := hq
          rw [System.setWriter_other _ _ hqp] at hother
          rw [Durable.written_events hqp, List.append_nil]
          exact h.scripts q script' hother
  | @raise p d ds files err hwriter hready hexec =>
      rw [Action.written_nil (by simp), List.append_nil]
      exact @Stands.release ws (sys.setFiles files) ⟨h.snapshots, h.scripts⟩ p
  | finish hwriter =>
      rw [Action.written_nil (by simp), List.append_nil]
      exact h.release _
  | crash hwriter =>
      rw [Action.written_nil (by simp), List.append_nil]
      exact h.release _

theorem History.stands {ws : List Written} {sys : System} (h : History env ws sys) :
    Stands ws sys := by
  induction h with
  | initial => exact .initial
  | step hh hstep ih => exact ih.step hh.holds hstep

theorem Run.history {cond : System → Action → Prop} {sys : System} (h : Run env cond sys) :
    ∃ ws, History env ws sys := by
  induction h with
  | initial => exact ⟨[], .initial⟩
  | step _ _ hstep ih =>
      obtain ⟨ws, hws⟩ := ih
      exact ⟨_, hws.step hstep⟩

/-! ## The reader -/

/-- What a reader knows of the journal as it is now: the snapshot it holds
was read while the journal was a beginning of it. -/
def Reader.Knows (env : Env) (p : Text) (ws : List Written) : Reader → Prop
  | .ready => True
  | .holding s => Publishable env p s ∧ validateStateCursor s (eventsOf p ws) = .ok ()
  | .returned result journal => ∃ o es, result = .ok o ∧ journal = .ok es ∧
      ∀ s, o = some s → s.lastEventSequence ≤ es.length

theorem Reader.Knows.later {p : Text} {ws : List Written} {r : Reader} (h : r.Knows env p ws)
    (ws' : List Written) : r.Knows env p (ws ++ ws') := by
  cases r with
  | ready => trivial
  | holding s =>
      refine ⟨h.1, ?_⟩
      rw [eventsOf_append]
      exact validateStateCursor_append h.2 _
  | returned result journal => exact h

theorem FilesHold.readSnapshot {ws : List Written} {st : StoreFiles} (h : FilesHold env ws st)
    (p : Text) (label : String) : readSnapshot env p label (st.plans p) = .ok (snapshotOf p ws) := by
  have hfile := h.snapshot p
  cases hs : snapshotOf p ws with
  | none =>
      rw [hs, Option.map_none] at hfile
      simp [Store.readSnapshot, readJson, hfile]
  | some s =>
      rw [hs, Option.map_some] at hfile
      obtain ⟨hvalid, hplan, -⟩ := h.snapshots p s hs
      have hread : validateState env s.toDict (some p) stateHardLimitBytes = .ok s :=
        hvalid.reads env (by simp [hplan])
      simp [Store.readSnapshot, readJson, hfile, Nat.not_lt.mpr hvalid.fits.bounded, object,
        bind, Except.bind, hread]

/-- **A reader knows its journal**, whatever the writers do. -/
theorem Reading.knows {p : Text} {sys : System} {r : Reader} (h : Reading env p sys r) :
    ∃ ws, History env ws sys ∧ r.Knows env p ws := by
  induction h with
  | ready h =>
      obtain ⟨ws, hws⟩ := h.history
      exact ⟨ws, hws, trivial⟩
  | writer _ hstep ih =>
      obtain ⟨ws, hws, hr⟩ := ih
      exact ⟨_, hws.step hstep, hr.later _⟩
  | snapshot _ ih =>
      obtain ⟨ws, hws, -⟩ := ih
      refine ⟨ws, hws, ?_⟩
      have hfiles := hws.holds.files
      rw [Reader.snapshot, hfiles.readSnapshot]
      cases hs : snapshotOf p ws with
      | none => exact ⟨none, [], rfl, rfl, fun s h => by cases h⟩
      | some s => exact ⟨hfiles.snapshots p s hs, hws.stands.snapshots p s hs⟩
  | @journal sys s _ ih =>
      obtain ⟨ws, hws, hpublishable, hcursor⟩ := ih
      have hreads := (hws.holds.files.reads p).tolerant
      refine ⟨ws, hws, some s, eventsOf p ws, ?_, hreads, ?_⟩
      · simp [hreads, validateOwnership_iff.mpr hpublishable.owned, hcursor, bind, Except.bind,
          pure, Except.pure]
      · intro t ht
        cases ht
        exact validateStateCursor_le hcursor

/-- **A reader without locks is never disturbed.** Whatever steps any number
of writers take before, between and after its reads of the snapshot and of
the journal of a plan, `read_state` raises no error, and the cursor of the
snapshot it returns is not ahead of the journal it was checked against. -/
theorem lock_free_read {p : Text} {sys : System} {result : Check (Option State)}
    {journal : Check (List Event)} (h : Reading env p sys (.returned result journal)) :
    ∃ o es, result = .ok o ∧ journal = .ok es ∧ ∀ s, o = some s → s.lastEventSequence ≤ es.length := by
  obtain ⟨ws, -, hknows⟩ := h.knows
  exact hknows

/-- A call that is not disturbed, beside a reader. -/
theorem Reading.execute {p : Text} {sys : System} {r : Reader} (h : Reading env p sys r)
    (hidle : sys.Idle) (call : Call) :
    ∃ sys', Reading env p sys' r ∧ sys'.Idle ∧ sys'.files = (call.run env sys.files).1 := by
  obtain ⟨ws, hws, -⟩ := h.knows
  exact execute_closed (R := fun sys => Reading env p sys r) (fun h hstep => h.writer hstep) h
    hws.holds.files.filesOk hidle call

/-- A registered plan, read. -/
theorem lock_free_read_registered :
    ∃ (sys : System) (s : State) (es : List Event),
      Reading phaseHost (txt "p") sys (.returned (.ok (some s)) (.ok es)) ∧
      es.length = 1 ∧ s.lastEventSequence ≤ es.length := by
  have hruns := phasePlan_runs
  simp only [Bool.and_eq_true, beq_iff_eq] at hruns
  obtain ⟨⟨-, hjournal⟩, hpresent⟩ := hruns
  obtain ⟨sys, hrun, -, hfiles⟩ :=
    (@Run.initial phaseHost _).execute System.initial_idle (.register phaseRegistration)
  obtain ⟨ws, hws⟩ := hrun.history
  have hsnapshot := hws.holds.files.snapshot (txt "p")
  have hread := hws.holds.files.readSnapshot (txt "p") "state"
  obtain ⟨j, hj⟩ := Option.isSome_iff_exists.mp hpresent
  have hplan : sys.files = phasePlan.1 := hfiles
  rw [hplan, hj] at hsnapshot
  obtain ⟨s, hs, -⟩ := Option.map_eq_some_iff.mp hsnapshot.symm
  rw [hs] at hread
  have hholding : Reader.snapshot phaseHost (txt "p") (sys.files.plans (txt "p")) = .holding s := by
    rw [Reader.snapshot, hread]
  have hfirst := Reading.snapshot (.ready (p := txt "p") hrun)
  rw [hholding] at hfirst
  have hlast := hfirst.journal
  obtain ⟨o, es, hresult, hes, hle⟩ := lock_free_read hlast
  have hsome : o = some s := by
    rw [hes] at hresult
    simp only [bind, Except.bind] at hresult
    split at hresult
    · cases hresult
    · split at hresult
      · cases hresult
      · exact (Except.ok.inj hresult).symm
  have hcount : (sys.files.plans (txt "p")).journal.length = 1 := by
    rw [hplan]
    exact hjournal
  have hlength : es.length = 1 := by
    have htolerant := (hws.holds.files.reads (txt "p")).tolerant
    rw [hes] at htolerant
    rw [← hcount, hws.holds.files.journal, List.length_map, Except.ok.inj htolerant]
  refine ⟨sys, s, es, ?_, hlength, hle s hsome⟩
  rw [Reader.journal, hresult, hes, hsome] at hlast
  exact hlast

end RalphVault.Store
