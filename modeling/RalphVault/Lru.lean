import Mathlib
import RalphVault.SortedMap

/-!
# Least recently used

A list of entries, the one touched last in front and one for each key.
What has been touched is a history, the last entry first. A list that is
cut to `n` entries after every touch holds the `n` first of the list that
is never cut.
-/

namespace RalphVault.Lru

variable {κ β : Type} [DecidableEq κ]

/-- Put an entry in front, in place of the one of its key. -/
def touch (e : κ × β) (l : List (κ × β)) : List (κ × β) := e :: l.filter fun x => x.1 ≠ e.1

/-- The last entry of each key. -/
def latest (history : List (κ × β)) : List (κ × β) := history.foldr touch []

variable {e : κ × β} {l history : List (κ × β)} {k : κ} {n : Nat}

@[simp] theorem latest_nil : latest ([] : List (κ × β)) = [] := rfl

@[simp] theorem latest_cons : latest (e :: history) = touch e (latest history) := rfl

theorem nodup_touch (h : (l.map Prod.fst).Nodup) : ((touch e l).map Prod.fst).Nodup := by
  rw [touch, List.map_cons, List.nodup_cons]
  refine ⟨fun hmem => ?_, h.sublist (List.filter_sublist.map _)⟩
  obtain ⟨x, hx, hkey⟩ := List.mem_map.mp hmem
  exact absurd hkey (by simpa using (List.mem_filter.mp hx).2)

theorem nodup_latest : ((latest history).map Prod.fst).Nodup := by
  induction history with
  | nil => exact List.nodup_nil
  | cons e history ih => exact nodup_touch ih

theorem get?_touch (k : κ) :
    SortedMap.get? k (touch e l) = if e.1 = k then some e.2 else SortedMap.get? k l := by
  rw [touch, SortedMap.get?]
  by_cases hk : e.1 = k
  · rw [if_pos hk, if_pos hk]
  · have hfilter := SortedMap.get?_filter (fun a => decide (a ≠ e.1)) k l
    rw [if_neg hk, if_neg hk, hfilter,
      if_pos (decide_eq_true (Ne.symm hk))]

/-- The entry of a key is the last one it was touched with. -/
theorem get?_latest (k : κ) : SortedMap.get? k (latest history) = SortedMap.get? k history := by
  induction history with
  | nil => rfl
  | cons e history ih => rw [latest_cons, get?_touch, ih, SortedMap.get?]

theorem take_filter_take (h : (l.map Prod.fst).Nodup) :
    ((l.take (n + 1)).filter fun x => x.1 ≠ k).take n = (l.filter fun x => x.1 ≠ k).take n := by
  induction l generalizing n with
  | nil => rfl
  | cons x l ih =>
      rw [List.map_cons, List.nodup_cons] at h
      rw [List.take_succ_cons]
      by_cases hx : x.1 = k
      · have hall : ∀ y ∈ l, decide (y.1 ≠ k) = true := by
          intro y hy
          refine decide_eq_true fun hyk => h.1 ?_
          rw [hx, ← hyk]
          exact List.mem_map_of_mem hy
        rw [List.filter_cons_of_neg (by simpa using hx), List.filter_cons_of_neg (by simpa using hx),
          List.filter_eq_self.mpr hall,
          List.filter_eq_self.mpr fun y hy => hall y (List.mem_of_mem_take hy), List.take_take,
          Nat.min_self]
      · rw [List.filter_cons_of_pos (by simpa using hx), List.filter_cons_of_pos (by simpa using hx)]
        cases n with
        | zero => rfl
        | succ n => rw [List.take_succ_cons, List.take_succ_cons, ih h.2]

/-- Leaving out a key that is not among the first entries does not change them. -/
theorem take_filter_of_not_mem (h : (l.map Prod.fst).Nodup)
    (hk : k ∉ (l.take (n + 1)).map Prod.fst) : (l.filter fun x => x.1 ≠ k).take n = l.take n := by
  have hall : ∀ x ∈ l.take (n + 1), decide (x.1 ≠ k) = true := by
    intro x hx
    refine decide_eq_true fun hxk => hk ?_
    rw [← hxk]
    exact List.mem_map_of_mem hx
  rw [← take_filter_take h, List.filter_eq_self.mpr hall, List.take_take,
    Nat.min_eq_left (Nat.le_succ n)]

/-- **Cutting before a touch loses nothing that the cut after it keeps.** -/
theorem take_touch_take (h : (l.map Prod.fst).Nodup) :
    (touch e (l.take n)).take n = (touch e l).take n := by
  cases n with
  | zero => rfl
  | succ n => rw [touch, touch, List.take_succ_cons, List.take_succ_cons, take_filter_take h]

theorem latest_sublist : (latest history).Sublist history := by
  induction history with
  | nil => exact List.Sublist.slnil
  | cons e history ih => exact (List.filter_sublist.trans ih).cons_cons e

theorem keys_touch : (touch e l).map Prod.fst = e.1 :: (l.map Prod.fst).filter (· ≠ e.1) := by
  rw [touch, List.map_cons, List.filter_map]
  rfl

theorem mem_keys_latest : k ∈ (latest history).map Prod.fst ↔ k ∈ history.map Prod.fst := by
  induction history with
  | nil => exact Iff.rfl
  | cons e history ih =>
      rw [latest_cons, keys_touch, List.map_cons, List.mem_cons, List.mem_cons, List.mem_filter, ih]
      by_cases hk : k = e.1
      · simp [hk]
      · simp [hk]

/-- How many keys a history has touched. -/
theorem length_latest : (latest history).length = (history.map Prod.fst).toFinset.card := by
  have hkeys : ((latest history).map Prod.fst).toFinset = (history.map Prod.fst).toFinset := by
    ext k
    rw [List.mem_toFinset, List.mem_toFinset, mem_keys_latest]
  rw [← hkeys, List.toFinset_card_of_nodup nodup_latest, List.length_map]

/-- What was touched last stands in front of what was touched before and not
again. -/
theorem latest_append {front : List (κ × β)} :
    latest (front ++ history) =
      latest front ++ (latest history).filter fun x => x.1 ∉ front.map Prod.fst := by
  induction front with
  | nil => simp
  | cons e front ih =>
      rw [List.cons_append, latest_cons, ih, latest_cons, touch, touch, List.filter_append,
        List.filter_filter, List.cons_append]
      congr 2
      apply List.filter_congr
      intro x _
      simp only [List.map_cons, List.mem_cons, not_or, Bool.decide_and]

/-- A key is among the first ones exactly when fewer other keys were touched
after it. -/
theorem mem_take_latest {front : List (κ × β)} {v : β} (h : k ∉ front.map Prod.fst) :
    k ∈ ((latest (front ++ (k, v) :: history)).take n).map Prod.fst ↔
      (front.map Prod.fst).toFinset.card < n := by
  have hsplit : latest (front ++ (k, v) :: history) = latest front ++ (k, v) ::
      ((latest history).filter fun x => x.1 ≠ k).filter fun x => x.1 ∉ front.map Prod.fst := by
    rw [latest_append, latest_cons, touch, List.filter_cons_of_pos]
    exact decide_eq_true h
  rw [hsplit, ← length_latest]
  constructor
  · intro hmem
    apply Nat.lt_of_not_le
    intro hfull
    -- the first ones are all of the front, where the key is not
    rw [List.take_append_of_le_length hfull] at hmem
    exact h (mem_keys_latest.mp (((List.take_sublist _ _).map _).subset hmem))
  · intro hroom
    obtain ⟨m, hm⟩ := Nat.exists_eq_add_of_lt hroom
    rw [hm, Nat.add_assoc, List.take_length_add_append, List.take_succ_cons, List.map_append,
      List.map_cons]
    exact List.mem_append_right _ List.mem_cons_self

/-- Where the entries that pass a test come first, the cut of those is the cut
with the others left out. -/
theorem filter_take {α : Type} {p : α → Bool} {l : List α}
    (h : l.Pairwise fun a b => p b = true → p a = true) (n : Nat) :
    (l.take n).filter p = (l.filter p).take n := by
  induction l generalizing n with
  | nil => simp
  | cons a l ih =>
      obtain ⟨ha, hl⟩ := List.pairwise_cons.mp h
      cases n with
      | zero => rfl
      | succ n =>
          cases hp : p a with
          | true =>
              rw [List.take_succ_cons, List.filter_cons_of_pos hp, List.filter_cons_of_pos hp,
                List.take_succ_cons, ih hl]
          | false =>
              have hnone : ∀ b ∈ l, ¬p b = true := fun b hb hpb =>
                Bool.false_ne_true (hp.symm.trans (ha b hb hpb))
              have hcut : ∀ b ∈ l.take n, ¬p b = true := fun b hb =>
                hnone b (List.mem_of_mem_take hb)
              rw [List.take_succ_cons, List.filter_cons_of_neg (Bool.eq_false_iff.mp hp),
                List.filter_cons_of_neg (Bool.eq_false_iff.mp hp), List.filter_eq_nil_iff.mpr hnone,
                List.filter_eq_nil_iff.mpr hcut, List.take_nil]

/-- The first keys of a history, if they differ, are the last ones touched. -/
theorem take_latest_append {front : List (κ × β)} (h : (front.map Prod.fst).Nodup) :
    (latest (front ++ history)).take front.length = front := by
  induction front with
  | nil => rfl
  | cons e front ih =>
      rw [List.map_cons, List.nodup_cons] at h
      have hall : ∀ x ∈ front, decide (x.1 ≠ e.1) = true := fun x hx =>
        decide_eq_true fun hkey => h.1 (hkey ▸ List.mem_map_of_mem hx)
      have hsplit := List.take_append_drop front.length (latest (front ++ history))
      rw [ih h.2] at hsplit
      rw [List.cons_append, latest_cons, touch, List.length_cons, List.take_succ_cons, ← hsplit,
        List.filter_append, List.filter_eq_self.mpr hall, List.take_left]

/-- The entry of a key in a list that has been cut. -/
theorem get?_take (h : (l.map Prod.fst).Nodup) (n : Nat) (k : κ) :
    SortedMap.get? k (l.take n) =
      if k ∈ (l.take n).map Prod.fst then SortedMap.get? k l else none := by
  by_cases hk : k ∈ (l.take n).map Prod.fst
  · obtain ⟨⟨a, b⟩, hx, rfl⟩ := List.mem_map.mp hk
    have hcut : ((l.take n).map Prod.fst).Nodup := h.sublist ((List.take_sublist n l).map _)
    rw [if_pos hk, SortedMap.get?_of_mem hcut hx,
      SortedMap.get?_of_mem h (List.mem_of_mem_take hx)]
  · rw [if_neg hk, SortedMap.get?_eq_none hk]

end RalphVault.Lru
