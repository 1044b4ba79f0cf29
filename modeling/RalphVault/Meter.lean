import Mathlib

/-!
# Meters

Sizes that are taken one after the other out of what remains of a limit, until
it is used up. The meter overflows when a size is larger than what remains for
it; a size behind the point where the limit is used up exactly is never seen.
-/

namespace RalphVault.Meter

/-- What is used of the limit `r`, and whether a size did not fit. -/
def fill : List Nat → Nat → Nat × Bool
  | [], _ => (0, false)
  | n :: ns, r =>
      if r ≤ n then (r, r < n)
      else ((n + (fill ns (r - n)).1), (fill ns (r - n)).2)

/-- The sizes use up the limit at some point exactly, with something behind. -/
def StopsShort (ns : List Nat) (r : Nat) : Prop :=
  ∃ front back, ns = front ++ back ∧ front.sum = r ∧ 0 < back.sum

variable {n r : Nat} {ns ms : List Nat}

theorem fill_cons_of_lt (h : n < r) :
    fill (n :: ns) r = (n + (fill ns (r - n)).1, (fill ns (r - n)).2) := by
  rw [fill, if_neg (by omega)]

theorem fill_cons_of_le (h : r ≤ n) : fill (n :: ns) r = (r, decide (r < n)) := by
  rw [fill, if_pos h]

/-- The meter shows the total, or the limit. -/
theorem fill_used (ns : List Nat) : ∀ r, (fill ns r).1 = min ns.sum r := by
  induction ns with
  | nil => intro r; simp [fill]
  | cons n ns ih =>
      intro r
      rw [List.sum_cons]
      by_cases h : r ≤ n
      · rw [fill_cons_of_le h]
        omega
      · rw [fill_cons_of_lt (by omega)]
        show n + (fill ns (r - n)).1 = _
        rw [ih]
        omega

/-- Where the first sizes leave something of the limit, the others take from that. -/
theorem fill_append_of_lt (ns ms : List Nat) : ∀ r, ns.sum < r →
    fill (ns ++ ms) r = (ns.sum + (fill ms (r - ns.sum)).1, (fill ms (r - ns.sum)).2) := by
  induction ns with
  | nil => intro r _; simp
  | cons n ns ih =>
      intro r h
      rw [List.sum_cons] at h
      rw [List.cons_append, fill_cons_of_lt (by omega), ih (r - n) (by omega), List.sum_cons,
        Nat.sub_sub, Nat.add_assoc]

/-- Where the first sizes use up the limit, the others are not seen. -/
theorem fill_append_of_le (ns ms : List Nat) : ∀ r, 0 < r → r ≤ ns.sum →
    fill (ns ++ ms) r = fill ns r := by
  induction ns with
  | nil =>
      intro r hr h
      rw [List.sum_nil] at h
      omega
  | cons n ns ih =>
      intro r hr h
      rw [List.sum_cons] at h
      rw [List.cons_append]
      by_cases hn : r ≤ n
      · rw [fill_cons_of_le hn, fill_cons_of_le hn]
      · rw [fill_cons_of_lt (by omega), fill_cons_of_lt (by omega), ih (r - n) (by omega) (by omega)]

/-- A meter does not overflow below its limit. -/
theorem fill_fits (h : ns.sum < r) : (fill ns r).2 = false := by
  have happend := fill_append_of_lt ns [] r h
  rw [List.append_nil] at happend
  rw [happend]
  rfl

/-- **A meter overflows** if and only if the total is larger than the limit and
it did not stop short. -/
theorem fill_overflows_iff (ns : List Nat) : ∀ r, 0 < r →
    ((fill ns r).2 = true ↔ r < ns.sum ∧ ¬StopsShort ns r) := by
  induction ns with
  | nil => intro r _; simp [fill]
  | cons n ns ih =>
      intro r hr
      by_cases h : r ≤ n
      · rw [fill_cons_of_le h, List.sum_cons]
        show decide (r < n) = true ↔ _
        rw [decide_eq_true_iff]
        constructor
        · intro hlt
          refine ⟨by omega, ?_⟩
          rintro ⟨front, back, hsplit, hsum, hback⟩
          -- the first size alone is more than the limit
          cases front with
          | nil =>
              rw [List.sum_nil] at hsum
              omega
          | cons m front =>
              obtain ⟨rfl, -⟩ := List.cons.inj hsplit
              rw [List.sum_cons] at hsum
              omega
        · rintro ⟨hlt, hshort⟩
          by_contra hge
          exact hshort ⟨[n], ns, rfl, by simp; omega, by omega⟩
      · rw [fill_cons_of_lt (by omega), List.sum_cons]
        show (fill ns (r - n)).2 = true ↔ _
        rw [ih (r - n) (by omega)]
        refine and_congr (by omega) (not_congr ⟨?_, ?_⟩)
        · rintro ⟨front, back, hsplit, hsum, hback⟩
          exact ⟨n :: front, back, by rw [hsplit]; rfl, by rw [List.sum_cons]; omega, hback⟩
        · rintro ⟨front, back, hsplit, hsum, hback⟩
          cases front with
          | nil =>
              rw [List.sum_nil] at hsum
              omega
          | cons m front =>
              obtain ⟨rfl, hrest⟩ := List.cons.inj hsplit
              rw [List.sum_cons] at hsum
              exact ⟨front, back, hrest, by omega, hback⟩

end RalphVault.Meter
