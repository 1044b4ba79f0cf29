import Mathlib

/-!
# Claim logs

Processes that claim keys in a shared log, each key at most once. A process
first looks for its key without the lock; when it misses, it takes the
lock, looks again, appends its record and returns. Any process may stop at
any time, and a write that is cut short tears the log.

The log keeps the author of each record, which the processes never see: it
says who wrote what.
-/

namespace RalphVault.ClaimLog

variable {ρ κ : Type}

/-- Where a process is in its claim. -/
inductive Phase (ρ : Type) where
  | idle
  /-- it looked without the lock and found no record of its key -/
  | missed (r : ρ)
  /-- it holds the lock and found none -/
  | holding (r : ρ)
  /-- it has appended its record and still holds the lock -/
  | written (r : ρ)
  | returned (r : ρ) (claimed : Bool)
  | failed

structure System (ρ : Type) where
  log : List (Nat × ρ)
  /-- the processes whose write was cut short -/
  torn : List Nat
  holder : Option Nat
  phase : Nat → Phase ρ

namespace System

def initial : System ρ := ⟨[], [], none, fun _ => .idle⟩

def setPhase (sys : System ρ) (i : Nat) (p : Phase ρ) : System ρ :=
  { sys with phase := fun j => if j = i then p else sys.phase j }

/-- The process is over, and the lock is free if it held it. -/
def stop (sys : System ρ) (i : Nat) (p : Phase ρ) : System ρ :=
  { sys.setPhase i p with holder := if sys.holder = some i then none else sys.holder }

@[simp] theorem setPhase_self (sys : System ρ) (i : Nat) (p : Phase ρ) :
    (sys.setPhase i p).phase i = p := if_pos rfl

theorem setPhase_other (sys : System ρ) {i j : Nat} (p : Phase ρ) (h : j ≠ i) :
    (sys.setPhase i p).phase j = sys.phase j := if_neg h

@[simp] theorem setPhase_log (sys : System ρ) (i : Nat) (p : Phase ρ) :
    (sys.setPhase i p).log = sys.log := rfl

@[simp] theorem setPhase_holder (sys : System ρ) (i : Nat) (p : Phase ρ) :
    (sys.setPhase i p).holder = sys.holder := rfl

end System

section Steps

variable (key : ρ → κ)

/-- Some record of the log has the key of `r`. -/
def Hit (log : List (Nat × ρ)) (r : ρ) : Prop := ∃ e ∈ log, key e.2 = key r

/-- One step of process `i`. -/
inductive Step (i : Nat) : System ρ → System ρ → Prop where
  | lookMiss {sys : System ρ} {r : ρ} (hphase : sys.phase i = .idle) :
      Step i sys (sys.setPhase i (.missed r))
  | lookHit {sys : System ρ} {r : ρ} (hphase : sys.phase i = .idle) (hhit : Hit key sys.log r) :
      Step i sys (sys.setPhase i (.returned r false))
  | lockHit {sys : System ρ} {r : ρ} (hphase : sys.phase i = .missed r) (hfree : sys.holder = none)
      (hhit : Hit key sys.log r) : Step i sys (sys.setPhase i (.returned r false))
  | acquire {sys : System ρ} {r : ρ} (hphase : sys.phase i = .missed r) (hfree : sys.holder = none)
      (hmiss : ¬ Hit key sys.log r) :
      Step i sys { sys.setPhase i (.holding r) with holder := some i }
  | append {sys : System ρ} {r : ρ} (hphase : sys.phase i = .holding r) :
      Step i sys { sys.setPhase i (.written r) with log := sys.log ++ [(i, r)] }
  | finish {sys : System ρ} {r : ρ} (hphase : sys.phase i = .written r) :
      Step i sys (sys.stop i (.returned r true))
  | tear {sys : System ρ} {r : ρ} (hphase : sys.phase i = .holding r) :
      Step i sys { sys.stop i .failed with torn := i :: sys.torn }
  | crash {sys : System ρ} (hphase : ∀ r b, sys.phase i ≠ .returned r b) :
      Step i sys (sys.stop i .failed)

inductive Reachable : System ρ → Prop where
  | initial : Reachable .initial
  | step {sys sys' : System ρ} {i : Nat} (h : Reachable sys) (hstep : Step key i sys sys') :
      Reachable sys'

end Steps

variable {key : ρ → κ}

/-- Records stay in the log, and a torn write stays one. -/
theorem Step.keeps {sys sys' : System ρ} {i : Nat} (h : Step key i sys sys') :
    sys.log ⊆ sys'.log ∧ sys.torn ⊆ sys'.torn := by
  cases h with
  | append _ => exact ⟨List.subset_append_left .., List.Subset.refl _⟩
  | tear _ => exact ⟨List.Subset.refl _, List.subset_cons_self ..⟩
  | lookMiss _ => exact ⟨List.Subset.refl _, List.Subset.refl _⟩
  | lookHit _ _ => exact ⟨List.Subset.refl _, List.Subset.refl _⟩
  | lockHit _ _ _ => exact ⟨List.Subset.refl _, List.Subset.refl _⟩
  | acquire _ _ _ => exact ⟨List.Subset.refl _, List.Subset.refl _⟩
  | finish _ => exact ⟨List.Subset.refl _, List.Subset.refl _⟩
  | crash _ => exact ⟨List.Subset.refl _, List.Subset.refl _⟩

/-- What a step of process `i` appends to the log. -/
def System.appended (sys : System ρ) (i : Nat) (sys' : System ρ) : List (Nat × ρ) :=
  match sys.phase i, sys'.phase i with
  | .holding r, .written _ => [(i, r)]
  | _, _ => []

theorem Step.appended {sys sys' : System ρ} {i : Nat} (h : Step key i sys sys') :
    sys'.log = sys.log ++ sys.appended i sys' := by
  cases h with
  | lookMiss hphase => simp [System.appended, hphase]
  | lookHit hphase _ => simp [System.appended, hphase]
  | lockHit hphase _ _ => simp [System.appended, hphase]
  | acquire hphase _ _ => simp [System.appended, hphase]
  | append hphase => simp [System.appended, System.setPhase, hphase]
  | finish hphase => simp [System.appended, System.stop, hphase]
  | tear hphase => simp [System.appended, System.stop, System.setPhase, hphase]
  | crash _ =>
      have hnone : sys.appended i (sys.stop i .failed) = [] := by
        unfold System.appended
        split
        · rename_i hwritten
          simp [System.stop, System.setPhase] at hwritten
        · rfl
      rw [hnone, List.append_nil]
      rfl

/-! ## The invariant -/

/-- What holds along every run. -/
structure Invariant (key : ρ → κ) (sys : System ρ) : Prop where
  distinct : (sys.log.map fun e => key e.2).Nodup
  /-- only the holder of the lock is about to write, or has just written -/
  locked : ∀ i r, sys.phase i = .holding r ∨ sys.phase i = .written r → sys.holder = some i
  fresh : ∀ i r, sys.phase i = .holding r → ¬ Hit key sys.log r
  /-- who claimed a key wrote its record -/
  claimed : ∀ i r, sys.phase i = .written r ∨ sys.phase i = .returned r true → (i, r) ∈ sys.log
  /-- who wrote a record claimed its key, or stopped on the way -/
  authors : ∀ e ∈ sys.log, sys.phase e.1 = .written e.2 ∨ sys.phase e.1 = .returned e.2 true ∨
    sys.phase e.1 = .failed
  torn : ∀ i ∈ sys.torn, sys.phase i = .failed

theorem Invariant.initial : Invariant key (System.initial : System ρ) where
  distinct := List.nodup_nil
  locked i r h := by rcases h with h | h <;> cases h
  fresh i r h := by cases h
  claimed i r h := by rcases h with h | h <;> cases h
  authors e he := by cases he
  torn i h := by cases h

/-- Only the phase of one process changes, to one that is not in the lock
and that no record of the log depends on. -/
theorem Invariant.setPhase {sys : System ρ} (h : Invariant key sys) {i : Nat} {p : Phase ρ}
    (hidle : ∀ e ∈ sys.log, e.1 ≠ i) (htorn : i ∉ sys.torn)
    (hp : ∀ r, p ≠ .holding r ∧ p ≠ .written r ∧ p ≠ .returned r true) :
    Invariant key (sys.setPhase i p) where
  distinct := h.distinct
  locked j r hj := by
    by_cases hji : j = i
    · subst hji
      rw [System.setPhase_self] at hj
      rcases hj with hj | hj
      · exact absurd hj (hp r).1
      · exact absurd hj (hp r).2.1
    · rw [sys.setPhase_other p hji] at hj
      exact h.locked j r hj
  fresh j r hj := by
    by_cases hji : j = i
    · subst hji
      rw [System.setPhase_self] at hj
      exact absurd hj (hp r).1
    · rw [sys.setPhase_other p hji] at hj
      exact h.fresh j r hj
  claimed j r hj := by
    by_cases hji : j = i
    · subst hji
      rw [System.setPhase_self] at hj
      rcases hj with hj | hj
      · exact absurd hj (hp r).2.1
      · exact absurd hj (hp r).2.2
    · rw [sys.setPhase_other p hji] at hj
      exact h.claimed j r hj
  authors e he := by
    rw [sys.setPhase_other p (hidle e he)]
    exact h.authors e he
  torn j hj := by
    have hji : j ≠ i := by
      rintro rfl
      exact htorn hj
    rw [sys.setPhase_other p hji]
    exact h.torn j hj

/-- A process that has not written is not an author. -/
theorem Invariant.not_author {sys : System ρ} (h : Invariant key sys) {i : Nat}
    (hphase : ∀ r, sys.phase i ≠ .written r ∧ sys.phase i ≠ .returned r true)
    (hfailed : sys.phase i ≠ .failed) : (∀ e ∈ sys.log, e.1 ≠ i) ∧ i ∉ sys.torn := by
  constructor
  · rintro e he rfl
    rcases h.authors e he with hw | hr | hf
    · exact (hphase e.2).1 hw
    · exact (hphase e.2).2 hr
    · exact hfailed hf
  · intro htorn
    exact hfailed (h.torn i htorn)

/-- A process that stops releases the lock, which nobody else held. -/
theorem Invariant.stop {sys : System ρ} (h : Invariant key sys) {i : Nat} {p : Phase ρ}
    (hp : ∀ r, p ≠ .holding r ∧ p ≠ .written r)
    (hreturned : ∀ r, p = .returned r true → sys.phase i = .written r)
    (hauthor : ∀ r, sys.phase i = .written r ∨ sys.phase i = .returned r true ∨
      sys.phase i = .failed → p = .returned r true ∨ p = .failed)
    (hfailed : sys.phase i = .failed → p = .failed) : Invariant key (sys.stop i p) where
  distinct := h.distinct
  locked j r hj := by
    by_cases hji : j = i
    · subst hji
      have hj : p = .holding r ∨ p = .written r := by
        simpa only [System.stop, System.setPhase_self] using hj
      rcases hj with hj | hj
      · exact absurd hj (hp r).1
      · exact absurd hj (hp r).2
    · have hj : sys.phase j = .holding r ∨ sys.phase j = .written r := by
        simpa only [System.stop, sys.setPhase_other p hji] using hj
      have hholder := h.locked j r hj
      show (if sys.holder = some i then none else sys.holder) = some j
      rw [hholder, if_neg (by simpa using hji)]
  fresh j r hj := by
    by_cases hji : j = i
    · subst hji
      have hj : p = .holding r := by simpa only [System.stop, System.setPhase_self] using hj
      exact absurd hj (hp r).1
    · exact h.fresh j r (by simpa only [System.stop, sys.setPhase_other p hji] using hj)
  claimed j r hj := by
    by_cases hji : j = i
    · subst hji
      have hj : p = .written r ∨ p = .returned r true := by
        simpa only [System.stop, System.setPhase_self] using hj
      rcases hj with hj | hj
      · exact absurd hj (hp r).2
      · exact h.claimed j r (.inl (hreturned r hj))
    · exact h.claimed j r (by simpa only [System.stop, sys.setPhase_other p hji] using hj)
  authors e he := by
    show (sys.setPhase i p).phase e.1 = .written e.2 ∨
      (sys.setPhase i p).phase e.1 = .returned e.2 true ∨ (sys.setPhase i p).phase e.1 = .failed
    by_cases hei : e.1 = i
    · have hold := h.authors e he
      rw [hei] at hold ⊢
      rw [System.setPhase_self]
      exact .inr (hauthor e.2 hold)
    · rw [sys.setPhase_other p hei]
      exact h.authors e he
  torn j hj := by
    show (sys.setPhase i p).phase j = .failed
    have hold := h.torn j hj
    by_cases hji : j = i
    · subst hji
      rw [System.setPhase_self]
      exact hfailed hold
    · rw [sys.setPhase_other p hji]
      exact hold

theorem Invariant.acquire {sys : System ρ} (h : Invariant key sys) {i : Nat} {r : ρ}
    (hphase : sys.phase i = .missed r) (hfree : sys.holder = none)
    (hmiss : ¬ Hit key sys.log r) :
    Invariant key { sys.setPhase i (.holding r) with holder := some i } := by
  obtain ⟨hauthor, htorn⟩ := h.not_author (i := i) (by simp [hphase]) (by simp [hphase])
  refine ⟨h.distinct, ?_, ?_, ?_, ?_, ?_⟩
  · intro j q hj
    by_cases hji : j = i
    · rw [hji]
    · rw [sys.setPhase_other _ hji] at hj
      have hholder := h.locked j q hj
      rw [hfree] at hholder
      cases hholder
  · intro j q hj
    by_cases hji : j = i
    · subst hji
      rw [System.setPhase_self, Phase.holding.injEq] at hj
      rw [← hj]
      exact hmiss
    · rw [sys.setPhase_other _ hji] at hj
      exact h.fresh j q hj
  · intro j q hj
    by_cases hji : j = i
    · subst hji
      rw [System.setPhase_self] at hj
      rcases hj with hj | hj <;> cases hj
    · rw [sys.setPhase_other _ hji] at hj
      exact h.claimed j q hj
  · intro e he
    rw [sys.setPhase_other _ (hauthor e he)]
    exact h.authors e he
  · intro j hj
    have hji : j ≠ i := by
      rintro rfl
      exact htorn hj
    rw [sys.setPhase_other _ hji]
    exact h.torn j hj

theorem Invariant.append {sys : System ρ} (h : Invariant key sys) {i : Nat} {r : ρ}
    (hphase : sys.phase i = .holding r) :
    Invariant key { sys.setPhase i (.written r) with log := sys.log ++ [(i, r)] } := by
  have hholder := h.locked i r (.inl hphase)
  have hfresh := h.fresh i r hphase
  obtain ⟨hauthor, htorn⟩ := h.not_author (i := i) (by simp [hphase]) (by simp [hphase])
  refine ⟨?_, ?_, ?_, ?_, ?_, ?_⟩
  · simp only [List.map_append, List.map_cons, List.map_nil]
    rw [← List.concat_eq_append, List.nodup_concat]
    refine ⟨?_, h.distinct⟩
    intro hmem
    obtain ⟨e, he, hkey⟩ := List.mem_map.mp hmem
    exact hfresh ⟨e, he, hkey⟩
  · intro j q hj
    by_cases hji : j = i
    · rw [hji]
      exact hholder
    · rw [sys.setPhase_other _ hji] at hj
      exact h.locked j q hj
  · intro j q hj
    by_cases hji : j = i
    · subst hji
      rw [System.setPhase_self] at hj
      cases hj
    · -- nobody else is in the lock
      rw [sys.setPhase_other _ hji] at hj
      have hother := h.locked j q (.inl hj)
      rw [hholder, Option.some.injEq] at hother
      exact absurd hother.symm hji
  · intro j q hj
    by_cases hji : j = i
    · subst hji
      rw [System.setPhase_self] at hj
      rcases hj with hj | hj
      · cases hj
        exact List.mem_append_right _ (List.mem_singleton_self _)
      · cases hj
    · rw [sys.setPhase_other _ hji] at hj
      exact List.mem_append_left _ (h.claimed j q hj)
  · intro e he
    rcases List.mem_append.mp he with he | he
    · rw [sys.setPhase_other _ (hauthor e he)]
      exact h.authors e he
    · rw [List.mem_singleton] at he
      subst he
      exact .inl (System.setPhase_self ..)
  · intro j hj
    have hji : j ≠ i := by
      rintro rfl
      exact htorn hj
    rw [sys.setPhase_other _ hji]
    exact h.torn j hj

/-- **Every step keeps the invariant.** -/
theorem Invariant.step {sys sys' : System ρ} {i : Nat} (h : Invariant key sys)
    (hstep : Step key i sys sys') : Invariant key sys' := by
  cases hstep with
  | lookMiss hphase =>
      obtain ⟨hauthor, htorn⟩ := h.not_author (i := i) (by simp [hphase]) (by simp [hphase])
      exact h.setPhase hauthor htorn (by simp)
  | lookHit hphase _ =>
      obtain ⟨hauthor, htorn⟩ := h.not_author (i := i) (by simp [hphase]) (by simp [hphase])
      exact h.setPhase hauthor htorn (by simp)
  | lockHit hphase _ _ =>
      obtain ⟨hauthor, htorn⟩ := h.not_author (i := i) (by simp [hphase]) (by simp [hphase])
      exact h.setPhase hauthor htorn (by simp)
  | acquire hphase hfree hmiss => exact h.acquire hphase hfree hmiss
  | append hphase => exact h.append hphase
  | finish hphase =>
      refine h.stop (by simp) ?_ ?_ (by simp [hphase])
      · intro q hq
        cases hq
        exact hphase
      · intro q hq
        rw [hphase] at hq
        rcases hq with hq | hq | hq
        · cases hq
          exact .inl rfl
        · cases hq
        · cases hq
  | tear hphase =>
      have hstop : Invariant key (sys.stop i .failed) :=
        h.stop (by simp) (by simp) (fun _ _ => .inr rfl) (fun _ => rfl)
      refine ⟨hstop.distinct, hstop.locked, hstop.fresh, hstop.claimed, hstop.authors, ?_⟩
      intro j hj
      rcases List.mem_cons.mp hj with rfl | hj
      · exact System.setPhase_self ..
      · exact hstop.torn j hj
  | crash hphase => exact h.stop (by simp) (by simp) (fun _ _ => .inr rfl) (fun _ => rfl)

theorem Reachable.invariant {sys : System ρ} (h : Reachable key sys) : Invariant key sys := by
  induction h with
  | initial => exact .initial
  | step _ hstep ih => exact ih.step hstep

/-! ## At most once -/

/-- **A key is claimed at most once**, whatever the order of the steps. -/
theorem Reachable.claimed_once {sys : System ρ} (h : Reachable key sys) {i j : Nat} {r q : ρ}
    (hi : sys.phase i = .returned r true) (hj : sys.phase j = .returned q true)
    (hkey : key r = key q) : i = j := by
  have hinv := h.invariant
  have hr := hinv.claimed i r (.inr hi)
  have hq := hinv.claimed j q (.inr hj)
  have heq := List.inj_on_of_nodup_map hinv.distinct hr hq hkey
  exact congrArg Prod.fst heq

/-- **A process that found its key wrote nothing.** -/
theorem Reachable.refused_silent {sys : System ρ} (h : Reachable key sys) {i : Nat} {r : ρ}
    (hi : sys.phase i = .returned r false) : (∀ e ∈ sys.log, e.1 ≠ i) ∧ i ∉ sys.torn :=
  h.invariant.not_author (by simp [hi]) (by simp [hi])

end RalphVault.ClaimLog
