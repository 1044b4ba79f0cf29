import Mathlib
import RalphVault.Store.Discovery

/-!
# Implementation store — publications of the manifest

Any sequence of publications, by writers that may hold an old snapshot and
may force their pointer. A publication reads the manifest under its lock,
or was handed the manifest its writer read when it took the lock. One
publication never drops a pointer and never moves one back, and it counts
one generation exactly when it changes the list of pointers.
-/

namespace RalphVault.Store

variable {env : Env}

/-- The manifest of a store; a store without a manifest file has the empty
one. -/
def manifestOn (env : Env) (file : Option Json) : Manifest :=
  match readManifest env file with
  | .ok o => currentManifest env o
  | .error _ => currentManifest env none

/-- One publication of the pointer of a snapshot. -/
inductive Publication (env : Env) : StoreFiles → StoreFiles → Prop where
  /-- under a manifest lock of its own -/
  | fresh (s : State) (force : Bool) (st : StoreFiles) :
      Publication env st (pointerStep env s force st).1
  /-- with the manifest lock held since the manifest was read -/
  | held {st : StoreFiles} {o : Option Manifest} (s : State) (force : Bool)
      (h : readManifest env st.manifest = .ok o) :
      Publication env st (lockedPointerStep env (currentManifest env o) s force st).1

/-- The pointers of a manifest belong to different plans. -/
def Manifest.Distinct (m : Manifest) : Prop := (m.plans.map Pointer.planId).Nodup

/-- What one publication may make of a manifest. -/
structure Advances (m m' : Manifest) : Prop where
  distinct : m'.Distinct
  kept : ∀ q ∈ m.plans, ∃ q' ∈ m'.plans, q'.planId = q.planId ∧
    q.lastEventSequence ≤ q'.lastEventSequence
  counted : m'.generation = if m'.plans = m.plans then m.generation else m.generation + 1

/-! ## Lists of pointers -/

theorem mem_of_findPointer {p : Text} {ps : List Pointer} {q : Pointer}
    (h : findPointer p ps = some q) : q ∈ ps :=
  List.mem_of_find?_eq_some h

/-- Where the plans are different, a pointer is the one found. -/
theorem findPointer_of_mem {ps : List Pointer} {q : Pointer}
    (h : (ps.map Pointer.planId).Nodup) (hq : q ∈ ps) : findPointer q.planId ps = some q := by
  induction ps with
  | nil => cases hq
  | cons r ps ih =>
      rw [List.map_cons, List.nodup_cons] at h
      unfold findPointer
      rcases List.mem_cons.mp hq with rfl | hq
      · simp
      · have hne : r.planId ≠ q.planId := by
          intro heq
          exact h.1 (heq ▸ List.mem_map_of_mem hq)
        rw [List.find?_cons_of_neg (by simpa using hne)]
        exact ih h.2 hq

/-- Every pointer found is found again, no further back. -/
theorem kept_of_findPointer {ps ps' : List Pointer} (hps : (ps.map Pointer.planId).Nodup)
    (h : ∀ p q, findPointer p ps = some q → ∃ q', findPointer p ps' = some q' ∧
      q.lastEventSequence ≤ q'.lastEventSequence) {q : Pointer} (hq : q ∈ ps) :
    ∃ q' ∈ ps', q'.planId = q.planId ∧ q.lastEventSequence ≤ q'.lastEventSequence := by
  obtain ⟨q', hq', hle⟩ := h q.planId q (findPointer_of_mem hps hq)
  exact ⟨q', mem_of_findPointer hq', findPointer_planId hq', hle⟩

/-- A replaced pointer changes the list. -/
theorem setPointer_ne {p : Text} {ps : List Pointer} {q r : Pointer}
    (hq : findPointer p ps = some q) (hr : r.planId = p) (hne : q ≠ r) : setPointer r ps ≠ ps := by
  intro heq
  have hfind := findPointer_setPointer p r ps
  rw [heq, if_pos hr, hq, Option.map_some, Option.some.injEq] at hfind
  exact hne hfind

/-! ## One publication -/

theorem Manifest.Valid.distinct {m : Manifest} (h : m.Valid env) : m.Distinct :=
  h.pointers.distinct

theorem manifestOn_valid {m : Manifest} (h : m.Valid env) :
    manifestOn env (some (.obj m.toDict)) = m := by
  have hread : readManifest env (some (.obj m.toDict)) = .ok (some m) := by
    simp [readManifest, readJson, Nat.not_lt.mpr h.bounded, object, bind, Except.bind, h.reads env]
  simp only [manifestOn, hread]
  rfl

theorem ManifestOk.distinct {file : Option Json} (h : ManifestOk env file) :
    (manifestOn env file).Distinct := by
  cases file with
  | none => exact List.nodup_nil
  | some j =>
      obtain ⟨m, rfl, hm⟩ := h j rfl
      rw [manifestOn_valid hm]
      exact hm.distinct

theorem Advances.refl {m : Manifest} (h : m.Distinct) : Advances m m where
  distinct := h
  kept q hq := ⟨q, hq, rfl, Nat.le_refl _⟩
  counted := by simp

/-- The candidate of a publication, and the old manifest when nothing is
published. -/
theorem manifestCandidate_advances {current m : Manifest} {s : State} {force b : Bool}
    (hcurrent : current.Distinct) (h : manifestCandidate env current s force = .ok (m, b)) :
    Advances current m ∧ (b = false → m = current) := by
  have hdistinct := (manifestCandidate_ok h).1.distinct
  unfold manifestCandidate at h
  simp only at h
  split at h
  · rename_i hfind
    simp only [bind_eq_ok, pure, Except.pure, Except.ok.injEq, Prod.mk.injEq, if_true] at h
    obtain ⟨m', hm, rfl, rfl⟩ := h
    have hexact := validateManifest_exact env hm
    subst hexact
    refine ⟨⟨hdistinct, ?_, ?_⟩, fun hb => by cases hb⟩
    · intro q hq
      exact ⟨q, List.mem_append_left _ hq, rfl, Nat.le_refl _⟩
    · simp
  · rename_i q hfind
    split at h
    · simp only [bind_eq_ok, pure, Except.pure, Except.ok.injEq, Prod.mk.injEq] at h
      obtain ⟨m', hm, rfl, rfl⟩ := h
      have hexact := validateManifest_exact env hm
      subst hexact
      exact ⟨.refl hcurrent, fun _ => rfl⟩
    · rename_i hbehind
      split at h
      · rename_i hchanges
        simp only [bind_eq_ok, pure, Except.pure, Except.ok.injEq, Prod.mk.injEq, if_true] at h
        obtain ⟨m', hm, rfl, rfl⟩ := h
        have hexact := validateManifest_exact env hm
        subst hexact
        have hne : q ≠ pointerOf s := by
          rintro rfl
          rcases hchanges with hstatus | ⟨-, hself⟩
          · exact hstatus rfl
          · exact hself rfl
        refine ⟨⟨hdistinct, ?_, ?_⟩, fun hb => by cases hb⟩
        · intro q' hq'
          refine kept_of_findPointer hcurrent ?_ hq'
          intro p q'' hq''
          rw [findPointer_setPointer]
          by_cases hp : (pointerOf s).planId = p
          · -- the pointer of the plan itself moves forward
            have hp' : s.planId = p := hp
            rw [hp', hq''] at hfind
            obtain rfl := Option.some.inj hfind
            rw [if_pos hp, hq'']
            exact ⟨pointerOf s, rfl, Nat.not_lt.mp hbehind⟩
          · rw [if_neg hp]
            exact ⟨q'', hq'', Nat.le_refl _⟩
        · rw [if_neg (setPointer_ne hfind rfl hne)]
      · simp only [bind_eq_ok, pure, Except.pure, Except.ok.injEq, Prod.mk.injEq,
          Bool.false_eq_true, if_false, Nat.add_zero] at h
        obtain ⟨m', hm, rfl, rfl⟩ := h
        have hexact := validateManifest_exact env hm
        subst hexact
        exact ⟨.refl hcurrent, fun _ => rfl⟩

/-- The file after a publication that succeeds. -/
theorem publish_advances {file file' : Option Json} {o : Option Manifest} {m : Manifest}
    {s : State} {force : Bool} (hfile : ManifestOk env file) (ho : readManifest env file = .ok o)
    (h : publishManifestPointer env file (currentManifest env o) s force = .ok (file', m)) :
    Advances (manifestOn env file) (manifestOn env file') := by
  have hon : manifestOn env file = currentManifest env o := by
    simp only [manifestOn, ho]
  have hdistinct := hfile.distinct
  obtain ⟨b, hm, rfl⟩ := publishManifestPointer_ok h
  obtain ⟨hadvances, -⟩ := manifestCandidate_advances (hon ▸ hdistinct) hm
  cases b with
  | false => exact .refl hdistinct
  | true =>
      rw [if_pos rfl, hon, manifestOn_valid (manifestCandidate_ok hm).1]
      exact hadvances

/-- **One publication** keeps the manifest valid and advances it. -/
theorem Publication.advances {st st' : StoreFiles} (hfile : ManifestOk env st.manifest)
    (h : Publication env st st') :
    ManifestOk env st'.manifest ∧
      Advances (manifestOn env st.manifest) (manifestOn env st'.manifest) := by
  cases h with
  | fresh s force =>
      rcases @pointerStep_manifest env s force _ hfile with
        ⟨hsame, -⟩ | ⟨o, file, m, ho, hp, hstep⟩
      · rw [hsame]
        exact ⟨hfile, .refl hfile.distinct⟩
      · rw [hstep]
        exact ⟨hfile.publish hp, publish_advances hfile ho hp⟩
  | held s force ho =>
      rename_i o
      rcases @lockedPointerStep_manifest env (currentManifest env o) s force st with
        ⟨hsame, -⟩ | ⟨file, m, hp, hstep⟩
      · rw [hsame]
        exact ⟨hfile, .refl hfile.distinct⟩
      · rw [hstep]
        exact ⟨hfile.publish hp, publish_advances hfile ho hp⟩

/-! ## Sequences of publications -/

/-- Every pointer of a manifest is in another one, no further back. -/
def Kept (m m' : Manifest) : Prop :=
  ∀ q ∈ m.plans, ∃ q' ∈ m'.plans, q'.planId = q.planId ∧
    q.lastEventSequence ≤ q'.lastEventSequence

theorem Kept.trans {m m' m'' : Manifest} (h : Kept m m') (h' : Kept m' m'') : Kept m m'' := by
  intro q hq
  obtain ⟨q', hq', hplan, hle⟩ := h q hq
  obtain ⟨q'', hq'', hplan', hle'⟩ := h' q' hq'
  exact ⟨q'', hq'', hplan'.trans hplan, Nat.le_trans hle hle'⟩

theorem publications_kept {st st' : StoreFiles} (hfile : ManifestOk env st.manifest)
    (h : Relation.ReflTransGen (Publication env) st st') :
    ManifestOk env st'.manifest ∧ Kept (manifestOn env st.manifest) (manifestOn env st'.manifest) := by
  induction h with
  | refl => exact ⟨hfile, fun q hq => ⟨q, hq, rfl, Nat.le_refl _⟩⟩
  | tail _ hnext ih =>
      obtain ⟨hfile', hadvances⟩ := hnext.advances ih.1
      exact ⟨hfile', ih.2.trans hadvances.kept⟩

end RalphVault.Store
