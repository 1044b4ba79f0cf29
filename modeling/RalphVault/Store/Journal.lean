import RalphVault.Store.Material

/-!
# Implementation store — journals and current plans

Reading a journal back: what a reader of the file gets after an event was
appended. A plan is *current* when its snapshot is valid, its journal
reads back, and the snapshot is the one of the last record. A changing
call leaves its plan current, and a current plan is found by the next
writer as it was left.
-/

namespace RalphVault.Store

variable {env : Env}

/-! ## Reading after an append -/

section Jsonl

variable {validator : Dict → Check β} {label : String} {maxRecords : Nat}

theorem readJsonl_append {js ks : List Json} {bs : List β} :
    ∀ {i : Nat}, readJsonl validator label maxRecords i js = .ok bs →
      readJsonl validator label maxRecords i (js ++ ks) =
        (readJsonl validator label maxRecords (i + js.length) ks).map (bs ++ ·) := by
  induction js generalizing bs with
  | nil =>
      intro i h
      cases h
      cases hk : readJsonl validator label maxRecords i ks <;> simp [Except.map, hk]
  | cons j js ih =>
      intro i h
      rw [List.cons_append]
      simp only [readJsonl] at h ⊢
      cases hobj : object j s!"{label} record" with
      | error err => simp [hobj] at h
      | ok d =>
          simp only [hobj] at h ⊢
          split at h
          · simp at h
          · rename_i hcount
            rw [if_neg hcount]
            cases hv : validator d with
            | error err => simp [hv] at h
            | ok b =>
                simp only [hv, bind_eq_ok, pure, Except.pure, Except.ok.injEq] at h ⊢
                obtain ⟨bs', hbs', rfl⟩ := h
                rw [ih hbs']
                have hi : i + 1 + js.length = i + (j :: js).length := by
                  simp only [List.length_cons]
                  omega
                rw [hi]
                cases hk : readJsonl validator label maxRecords (i + (j :: js).length) ks <;>
                  simp [Except.map, bind, Except.bind]

theorem readJsonl_length {js : List Json} {bs : List β} :
    ∀ {i : Nat}, readJsonl validator label maxRecords i js = .ok bs → bs.length = js.length := by
  induction js generalizing bs with
  | nil =>
      intro i h
      cases h
      rfl
  | cons j js ih =>
      intro i h
      simp only [readJsonl] at h
      cases hobj : object j s!"{label} record" with
      | error err => simp [hobj] at h
      | ok d =>
          simp only [hobj] at h
          split at h
          · simp at h
          · cases hv : validator d with
            | error err => simp [hv] at h
            | ok b =>
                simp only [hv, bind_eq_ok, pure, Except.pure, Except.ok.injEq] at h
                obtain ⟨bs', hbs', rfl⟩ := h
                simp [ih hbs']

/-- One more record reads back when the validator takes it and there is
room. -/
theorem readJsonl_snoc {js : List Json} {bs : List β} {d : Dict} {b : β}
    (h : readJsonl validator label maxRecords 0 js = .ok bs) (hd : validator d = .ok b)
    (hroom : bs.length < maxRecords) :
    readJsonl validator label maxRecords 0 (js ++ [.obj d]) = .ok (bs ++ [b]) := by
  have hlen := readJsonl_length h
  rw [readJsonl_append h, Nat.zero_add, ← hlen]
  simp [readJsonl, object, Nat.not_le.mpr hroom, hd, Except.map, bind, Except.bind, pure,
    Except.pure]

/-- A record that was read passed the validator. -/
theorem readJsonl_forall {P : β → Prop} (hP : ∀ d b, validator d = .ok b → P b) {js : List Json}
    {bs : List β} :
    ∀ {i : Nat}, readJsonl validator label maxRecords i js = .ok bs → ∀ b ∈ bs, P b := by
  induction js generalizing bs with
  | nil =>
      intro i h
      cases h
      exact fun b hb => by cases hb
  | cons j js ih =>
      intro i h
      simp only [readJsonl] at h
      cases hobj : object j s!"{label} record" with
      | error err => simp [hobj] at h
      | ok d =>
          simp only [hobj] at h
          split at h
          · simp at h
          · cases hv : validator d with
            | error err => simp [hv] at h
            | ok b =>
                simp only [hv, bind_eq_ok, pure, Except.pure, Except.ok.injEq] at h
                obtain ⟨bs', hbs', rfl⟩ := h
                intro b' hb'
                rcases List.mem_cons.mp hb' with rfl | hb'
                · exact hP d _ hv
                · exact ih hbs' b' hb'

theorem appendJsonl_ok {hardLimit totalHardLimit n : Nat} {js js' : List Json} {d : Dict}
    (h : appendJsonl label hardLimit totalHardLimit maxRecords js d n = .ok js') :
    js' = js ++ [.obj d] ∧ n < maxRecords ∧
      journalBytes js + (Json.encodedSize (.obj d) + 1) ≤ totalHardLimit := by
  simp only [appendJsonl, bind_eq_ok, require_eq_ok, decide_eq_true_eq, pure, Except.pure,
    Except.ok.injEq] at h
  obtain ⟨_, -, _, hbytes, _, hcount, rfl⟩ := h
  exact ⟨rfl, hcount, hbytes⟩

end Jsonl

theorem readRecords_length {planId : Text} {label : String} {js : List Json} {es : List Event}
    {i : Nat} (h : readRecords env planId label i js = .ok es) : es.length = js.length :=
  readJsonl_length h

/-- One more record reads back when it is valid and there is room. -/
theorem readRecords_snoc {planId : Text} {label : String} {js : List Json} {es : List Event}
    {e : Event} (h : readRecords env planId label 0 js = .ok es) (he : e.Valid env)
    (hplan : e.planId = planId) (hroom : es.length < planJournalMaxRecords) :
    readRecords env planId label 0 (js ++ [.obj e.toDict]) = .ok (es ++ [e]) := by
  have hread : validateEvent env e.toDict (some planId) false false = .ok e :=
    he.reads env (by simp [hplan])
  exact readJsonl_snoc h hread hroom

/-- The last record hash of a chain that starts after `previous`. -/
def chainEnd (previous : Text) (es : List Event) : Text :=
  match es.getLast? with
  | some e => e.recordHash
  | none => previous

theorem chainEnd_nil (es : List Event) : chainEnd [] es = lastRecordHash es := rfl

theorem chainEnd_cons (previous : Text) (e : Event) (es : List Event) :
    chainEnd previous (e :: es) = chainEnd e.recordHash es := by
  cases es with
  | nil => rfl
  | cons e' es =>
      simp only [chainEnd, List.getLast?_cons_cons]
      cases h : (e' :: es).getLast? with
      | none => simp at h
      | some _ => rfl

theorem validateSequenceAndHashes_snoc {e : Event} {es : List Event} :
    ∀ {n : Nat} {previous : Text}, validateSequenceAndHashes env n previous es = .ok () →
      e.sequence = n + es.length → e.previousEventHash = chainEnd previous es →
      e.recordHash = eventRecordHash env e →
      validateSequenceAndHashes env n previous (es ++ [e]) = .ok () := by
  induction es with
  | nil =>
      intro n previous _ hseq hprev he
      have hne : e.recordHash.isEmpty = false := by
        rw [he, List.isEmpty_eq_false_iff]
        exact isHash_ne_nil (isHash_digest env _)
      simp only [List.nil_append, validateSequenceAndHashes, bind_eq_ok, require_eq_ok]
      refine ⟨(), by simpa using hseq, (), by simpa [chainEnd] using hprev, (), ?_, trivial⟩
      simp [hne, ← he]
  | cons e' es ih =>
      intro n previous h hseq hprev he
      simp only [List.cons_append, validateSequenceAndHashes, bind_eq_ok, require_eq_ok] at h ⊢
      obtain ⟨_, h1, _, h2, _, h3, h4⟩ := h
      rw [chainEnd_cons] at hprev
      have hseq' : e.sequence = n + 1 + es.length := by
        rw [hseq, List.length_cons]
        omega
      exact ⟨(), h1, (), h2, (), h3, ih h4 hseq' hprev he⟩

/-- The journal of a plan reads as `es`, and its last line is complete. -/
def Reads (env : Env) (planId : Text) (f : PlanFiles) (es : List Event) : Prop :=
  readPlanEvents env planId f true = .ok es

theorem reads_iff {planId : Text} {f : PlanFiles} {es : List Event} :
    Reads env planId f es ↔
      journalBytes f.journal ≤ planJournalMaxBytes ∧
      readRecords env planId s!"events for {String.ofList planId}" 0 f.journal = .ok es ∧
      f.partialLine = false ∧ validateSequenceAndHashes env 1 [] es = .ok () ∧
      validateEventOwnership env es = .ok () := by
  have hmap : ∀ {x : Check (List Event)} {es : List Event},
      x.mapError integrity = .ok es ↔ x = .ok es := by
    intro x es
    cases x <;> simp [Except.mapError]
  simp only [Reads, readPlanEvents, bind_eq_ok, require_eq_ok, decide_eq_true_eq, hmap,
    Bool.true_and, Bool.not_eq_true', pure, Except.pure, Except.ok.injEq]
  constructor
  · rintro ⟨_, hbytes, es', hes, _, hpartial, _, hchain, _, howned, rfl⟩
    exact ⟨hbytes, hes, hpartial, hchain, howned⟩
  · rintro ⟨hbytes, hes, hpartial, hchain, howned⟩
    exact ⟨(), hbytes, es, hes, (), hpartial, (), hchain, (), howned, rfl⟩

/-- A read that tolerates an incomplete line gives the same records. -/
theorem Reads.tolerant {planId : Text} {f : PlanFiles} {es : List Event}
    (h : Reads env planId f es) : readPlanEvents env planId f false = .ok es := by
  obtain ⟨hbytes, hes, -, hchain, howned⟩ := reads_iff.mp h
  simp [readPlanEvents, hbytes, hes, hchain, howned, Except.mapError, bind, Except.bind, pure,
    Except.pure]

/-- Whether a Git record belongs to this checkout, or to none. -/
def Owned (env : Env) (g : Git) : Prop :=
  (g.repositoryId.isEmpty || g.repositoryId == repoIdentity env) = true

theorem validateOwnership_iff {s : State} :
    validateOwnership env s = .ok () ↔ Owned env s.git := by
  simp [validateOwnership, Owned]

/-- What an appended event must be. -/
structure Extends (env : Env) (planId : Text) (es : List Event) (e : Event) : Prop where
  valid : e.Valid env
  plan : e.planId = planId
  sequence : e.sequence = es.length + 1
  previous : e.previousEventHash = lastRecordHash es
  owned : Owned env e.git

theorem appendEvent_ok {f f' : PlanFiles} {e : Event} {n : Nat}
    (h : appendEvent f e n = .ok f') :
    f' = { f with journal := f.journal ++ [.obj e.toDict] } ∧ n < planJournalMaxRecords ∧
      journalBytes f.journal + (Json.encodedSize (.obj e.toDict) + 1) ≤ planJournalMaxBytes := by
  simp only [appendEvent, bind_eq_ok, pure, Except.pure, Except.ok.injEq] at h
  obtain ⟨js, hjs, rfl⟩ := h
  obtain ⟨rfl, hcount, hbytes⟩ := appendJsonl_ok hjs
  exact ⟨rfl, hcount, hbytes⟩

theorem journalBytes_snoc (js : List Json) (j : Json) :
    journalBytes (js ++ [j]) = journalBytes js + (Json.encodedSize j + 1) := by
  simp [journalBytes]

/-- **An appended event is read back.** -/
theorem Reads.snoc {planId : Text} {f f' : PlanFiles} {es : List Event} {e : Event}
    (h : Reads env planId f es) (he : Extends env planId es e)
    (happend : appendEvent f e es.length = .ok f') : Reads env planId f' (es ++ [e]) := by
  obtain ⟨rfl, hroom, hbytes⟩ := appendEvent_ok happend
  obtain ⟨-, hes, hpartial, hchain, howned⟩ := reads_iff.mp h
  refine reads_iff.mpr ⟨?_, ?_, hpartial, ?_, ?_⟩
  · rw [journalBytes_snoc]
    exact hbytes
  · exact readRecords_snoc hes he.valid he.plan hroom
  · exact validateSequenceAndHashes_snoc hchain (by rw [he.sequence]; omega)
      (by rw [he.previous, chainEnd_nil]) he.valid.hashed
  · simp only [validateEventOwnership, require_eq_ok, List.all_append, Bool.and_eq_true] at howned ⊢
    exact ⟨howned, by simpa [Owned] using he.owned⟩

/-- A snapshot does not matter to a reader of the journal. -/
theorem Reads.withSnapshot {planId : Text} {f : PlanFiles} {es : List Event}
    (h : Reads env planId f es) (j : Option Json) :
    Reads env planId { f with snapshot := j } es := h

/-! ## Current plans -/

/-- The snapshot of a plan is valid and stands at the end of its journal. -/
structure Current (env : Env) (planId : Text) (f : PlanFiles) (s : State) (es : List Event) :
    Prop where
  snapshot : f.snapshot = some (.obj s.toDict)
  valid : s.Valid env stateHardLimitBytes
  plan : s.planId = planId
  owned : Owned env s.git
  reads : Reads env planId f es
  sequence : s.lastEventSequence = es.length
  hash : s.lastEventHash = lastRecordHash es

theorem Current.cursor {planId : Text} {f : PlanFiles} {s : State} {es : List Event}
    (h : Current env planId f s es) : validateStateCursor s es = .ok () := by
  simp only [validateStateCursor, bind_eq_ok, require_eq_ok, decide_eq_true_eq]
  refine ⟨(), by rw [h.sequence], ?_⟩
  rw [h.sequence, h.hash]
  cases hes : es.getLast? with
  | none =>
      rw [List.getLast?_eq_none_iff] at hes
      subst hes
      rfl
  | some e =>
      have hne : es.length ≠ 0 := by
        rintro hlen
        rw [List.eq_nil_of_length_eq_zero hlen] at hes
        cases hes
      have hget : es[es.length - 1]? = some e := by rw [← List.getLast?_eq_getElem?, hes]
      rw [if_neg hne, hget, lastRecordHash, hes]
      simp

theorem Current.readSnapshot {planId : Text} {f : PlanFiles} {s : State} {es : List Event}
    (h : Current env planId f s es) (label : String) :
    readSnapshot env planId label f = .ok (some s) := by
  have hread : validateState env s.toDict (some planId) stateHardLimitBytes = .ok s :=
    h.valid.reads env (by simp [h.plan])
  simp [Store.readSnapshot, readJson, h.snapshot, Nat.not_lt.mpr h.valid.fits.bounded, object,
    bind, Except.bind, hread]

/-- A reader finds the snapshot of a current plan. -/
theorem Current.readState {planId : Text} {f : PlanFiles} {s : State} {es : List Event}
    (h : Current env planId f s es) : readState env planId f = .ok (some s) := by
  simp [Store.readState, h.readSnapshot, h.reads.tolerant, validateOwnership_iff.mpr h.owned,
    h.cursor, bind, Except.bind, pure, Except.pure]

/-- **A writer finds a current plan as it was left.** -/
theorem Current.loadPlan {planId : Text} {f : PlanFiles} {s : State} {es : List Event}
    (h : Current env planId f s es) (timestamp : Text) :
    loadPlan env planId timestamp f = (f, .ok (some (s, false), es)) := by
  have hreads : readPlanEvents env planId f true = .ok es := h.reads
  have hreconcile : reconcileState env s es timestamp = .ok (s, false) := by
    simp [reconcileState, h.cursor, h.sequence, bind, Except.bind, pure, Except.pure]
  simp [Store.loadPlan, loadStateForWrite, h.readSnapshot, quarantineMalformed, hreads,
    validateOwnership_iff.mpr h.owned, hreconcile, bind, Except.bind, pure, Except.pure]

end RalphVault.Store
