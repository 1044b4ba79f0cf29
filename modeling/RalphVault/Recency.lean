import Mathlib

/-!
# Recency

Keeping the `n` most recent items of a list: sorted by time, latest
first, and cut. Items of equal time stay in the order they stood in, so
of those the earlier ones are kept.

An item is lost only to `n` others, each at least as recent as itself.
-/

namespace RalphVault.Recency

variable {α τ : Type} [LinearOrder τ] (time : α → τ)

/-- Latest first; Python's `sort(key=time, reverse=True)`. -/
def latestFirst (l : List α) : List α := l.insertionSort fun a b => time b ≤ time a

/-- The `n` most recent items. -/
def mostRecent (n : Nat) (l : List α) : List α := (latestFirst time l).take n

instance total_latest : Std.Total fun a b : α => time b ≤ time a := ⟨fun a b => le_total (time b) (time a)⟩

instance trans_latest : IsTrans α fun a b => time b ≤ time a := ⟨fun _ _ _ hab hbc => le_trans hbc hab⟩

theorem latestFirst_perm (l : List α) : (latestFirst time l).Perm l :=
  List.perm_insertionSort _ l

theorem latestFirst_pairwise (l : List α) :
    (latestFirst time l).Pairwise fun a b => time b ≤ time a :=
  List.pairwise_insertionSort _ l

variable {time}

theorem length_mostRecent_le (n : Nat) (l : List α) : (mostRecent time n l).length ≤ n :=
  List.length_take_le n _

theorem mem_of_mem_mostRecent {n : Nat} {l : List α} {a : α} (h : a ∈ mostRecent time n l) :
    a ∈ l :=
  (latestFirst_perm time l).mem_iff.mp (List.mem_of_mem_take h)

theorem mostRecent_subperm (n : Nat) (l : List α) : (mostRecent time n l).Subperm l :=
  ((List.take_sublist n _).subperm).trans (latestFirst_perm time l).subperm

/-- A list that fits is only reordered. -/
theorem mostRecent_perm {n : Nat} {l : List α} (h : l.length ≤ n) :
    (mostRecent time n l).Perm l := by
  have hlen : (latestFirst time l).length ≤ n := by rwa [(latestFirst_perm time l).length_eq]
  rw [mostRecent, List.take_of_length_le hlen]
  exact latestFirst_perm time l

theorem nodup_map_mostRecent {β : Type} {f : α → β} {n : Nat} {l : List α}
    (h : (l.map f).Nodup) : ((mostRecent time n l).map f).Nodup := by
  have hperm : ((latestFirst time l).map f).Nodup :=
    (((latestFirst_perm time l).map f).nodup_iff).mpr h
  exact hperm.sublist ((List.take_sublist n _).map f)

theorem mem_drop_of_lost {n : Nat} {l : List α} {a : α} (ha : a ∈ l)
    (h : a ∉ mostRecent time n l) : a ∈ (latestFirst time l).drop n := by
  have hmem : a ∈ latestFirst time l := (latestFirst_perm time l).mem_iff.mpr ha
  rw [← List.take_append_drop n (latestFirst time l), List.mem_append] at hmem
  exact hmem.resolve_left h

/-- An item is lost only to `n` items at least as recent. -/
theorem kept_of_lost {n : Nat} {l : List α} {a : α} (ha : a ∈ l)
    (h : a ∉ mostRecent time n l) :
    (mostRecent time n l).length = n ∧ ∀ b ∈ mostRecent time n l, time a ≤ time b := by
  have hdrop := mem_drop_of_lost ha h
  constructor
  · have hlen : n < (latestFirst time l).length := by
      by_contra hle
      rw [List.drop_eq_nil_of_le (by omega)] at hdrop
      exact List.not_mem_nil hdrop
    rw [mostRecent, List.length_take]
    omega
  · have hsorted := latestFirst_pairwise time l
    rw [← List.take_append_drop n (latestFirst time l), List.pairwise_append] at hsorted
    intro b hb
    exact hsorted.2.2 b hb a hdrop

/-- One more item than fits: exactly one is lost, no more recent than the
others. -/
theorem exists_lost {n : Nat} {l : List α} (a : α) (h : l.length = n) :
    ∃ lost, (mostRecent time n (l ++ [a]) ++ [lost]).Perm (l ++ [a]) ∧
      ∀ b ∈ mostRecent time n (l ++ [a]), time lost ≤ time b := by
  have hsorted := latestFirst_perm time (l ++ [a])
  have hdrop : ((latestFirst time (l ++ [a])).drop n).length = 1 := by
    rw [List.length_drop, hsorted.length_eq, List.length_append, List.length_singleton]
    omega
  obtain ⟨lost, hlost⟩ := List.length_eq_one_iff.mp hdrop
  have hsplit := List.take_append_drop n (latestFirst time (l ++ [a]))
  rw [hlost] at hsplit
  refine ⟨lost, ?_, fun b hb => ?_⟩
  · rw [mostRecent, hsplit]
    exact hsorted
  · have hpairwise := latestFirst_pairwise time (l ++ [a])
    rw [← hsplit, List.pairwise_append] at hpairwise
    exact hpairwise.2.2 b hb lost List.mem_cons_self

/-- An item with fewer than `n` others at least as recent is kept. -/
theorem mem_mostRecent_of_countP {n : Nat} {l l' : List α} {a : α} (hl : l.Perm (a :: l'))
    (h : l'.countP (fun b => time a ≤ time b) < n) : a ∈ mostRecent time n l := by
  by_contra hlost
  have ha : a ∈ l := hl.mem_iff.mpr List.mem_cons_self
  obtain ⟨hlen, hle⟩ := kept_of_lost ha hlost
  let recent : α → Bool := fun b => decide (time a ≤ time b)
  -- the kept ones and the lost one itself are all at least as recent as it
  have hkept : (mostRecent time n l).countP recent = n := by
    rw [List.countP_eq_length.mpr fun b hb => decide_eq_true (hle b hb), hlen]
  have hrest : 0 < ((latestFirst time l).drop n).countP recent :=
    List.countP_pos_iff.mpr ⟨a, mem_drop_of_lost ha hlost, decide_eq_true le_rfl⟩
  have htotal : (latestFirst time l).countP recent = l'.countP recent + 1 := by
    have hself : recent a = true := decide_eq_true le_rfl
    rw [(latestFirst_perm time l).countP_eq, hl.countP_eq, List.countP_cons_of_pos hself]
  rw [← List.take_append_drop n (latestFirst time l), List.countP_append] at htotal
  have hcut : ((latestFirst time l).take n).countP recent = n := hkept
  have hcount : l'.countP recent < n := h
  omega

/-- Of items with different times, the most recent ones are the first ones of
any list that is sorted already. -/
theorem mostRecent_of_perm {n : Nat} {l l' : List α} (hp : l.Perm l')
    (h : l'.Pairwise fun a b => time b < time a) : mostRecent time n l = l'.take n := by
  have hdistinct : ∀ a ∈ l', ∀ b ∈ l', time a = time b → a = b :=
    List.Pairwise.forall_of_forall_of_flip (fun _ _ _ => rfl)
      (h.imp fun hab heq => absurd heq (ne_of_gt hab))
      (h.imp fun hab heq => absurd heq (ne_of_lt hab))
  have hmem : ∀ a ∈ latestFirst time l, a ∈ l' := fun a ha =>
    hp.mem_iff.mp ((latestFirst_perm time l).mem_iff.mp ha)
  have hsorted : latestFirst time l = l' :=
    List.Perm.eq_of_pairwise
      (fun a b ha hb hab hba => hdistinct a (hmem a ha) b hb (le_antisymm hba hab))
      (latestFirst_pairwise time l) (h.imp le_of_lt) ((latestFirst_perm time l).trans hp)
  rw [mostRecent, hsorted]

end RalphVault.Recency
