import Mathlib

/-!
# Marked blocks

A list of lines holds at most one block: the lines from a begin marker to an end
marker. The block is found by the positions of the markers.
-/

namespace RalphVault.MarkedBlock

variable {α : Type}

/-- The positions of the lines that a test accepts, from `n` on. -/
def positionsFrom (p : α → Bool) : Nat → List α → List Nat
  | _, [] => []
  | n, l :: ls => if p l then n :: positionsFrom p (n + 1) ls else positionsFrom p (n + 1) ls

def positions (p : α → Bool) (ls : List α) : List Nat := positionsFrom p 0 ls

/-- What is found: no marker, the positions of the two markers of a block, or
markers that do not make one block. -/
inductive Found where
  | none
  | block (start stop : Nat)
  | unbalanced
deriving DecidableEq

def find (isBegin isEnd : α → Bool) (ls : List α) : Found :=
  match positions isBegin ls, positions isEnd ls with
  | [], [] => .none
  | [start], [stop] => if start < stop then .block start stop else .unbalanced
  | _, _ => .unbalanced

variable {p isBegin isEnd : α → Bool} {ls pre mid post : List α} {first last : α}

theorem positionsFrom_append (n : Nat) (ls ls' : List α) : positionsFrom p n (ls ++ ls') =
    positionsFrom p n ls ++ positionsFrom p (n + ls.length) ls' := by
  induction ls generalizing n with
  | nil => rfl
  | cons l ls ih =>
      rw [List.cons_append, positionsFrom, positionsFrom, ih, List.length_cons,
        show n + 1 + ls.length = n + (ls.length + 1) by omega]
      split <;> rfl

theorem positionsFrom_eq_nil_iff {n : Nat} : positionsFrom p n ls = [] ↔ ∀ l ∈ ls, p l = false := by
  induction ls generalizing n with
  | nil => simp [positionsFrom]
  | cons l ls ih =>
      rw [positionsFrom, List.forall_mem_cons]
      split
      · rename_i hl
        simp [hl]
      · rename_i hl
        rw [ih]
        simp [hl]

/-- One line is accepted, at a position. -/
theorem positionsFrom_eq_singleton {n k : Nat} (h : positionsFrom p n ls = [k]) :
    ∃ pre l post, ls = pre ++ l :: post ∧ n + pre.length = k ∧ p l = true ∧
      (∀ a ∈ pre, p a = false) ∧ ∀ a ∈ post, p a = false := by
  induction ls generalizing n with
  | nil => cases h
  | cons l ls ih =>
      rw [positionsFrom] at h
      split at h
      · rename_i hl
        obtain ⟨hn, hnil⟩ := List.cons.inj h
        exact ⟨[], l, ls, rfl, hn, hl, nofun, positionsFrom_eq_nil_iff.mp hnil⟩
      · rename_i hl
        obtain ⟨pre, a, post, rfl, hk, ha, hpre, hpost⟩ := ih h
        refine ⟨l :: pre, a, post, rfl, by rw [← hk, List.length_cons]; omega, ha, ?_, hpost⟩
        exact List.forall_mem_cons.mpr ⟨by simpa using hl, hpre⟩

/-- The lines are those before a block, a block, and those after it; only the
first and the last line of the block are markers. -/
structure Parts (isBegin isEnd : α → Bool) (ls pre : List α) (first : α) (mid : List α) (last : α)
    (post : List α) : Prop where
  eq : ls = pre ++ first :: (mid ++ last :: post)
  first : isBegin first = true ∧ isEnd first = false
  last : isEnd last = true ∧ isBegin last = false
  rest : ∀ l, l ∈ pre ∨ l ∈ mid ∨ l ∈ post → isBegin l = false ∧ isEnd l = false

/-- A block is found where it is. -/
theorem Parts.find (h : Parts isBegin isEnd ls pre first mid last post) :
    find isBegin isEnd ls = .block pre.length (pre.length + 1 + mid.length) := by
  have hbegins : positions isBegin ls = [pre.length] := by
    rw [positions, h.eq, positionsFrom_append,
      positionsFrom_eq_nil_iff.mpr fun l hl => (h.rest l (.inl hl)).1, positionsFrom, if_pos h.first.1,
      positionsFrom_append, positionsFrom_eq_nil_iff.mpr fun l hl => (h.rest l (.inr (.inl hl))).1,
      positionsFrom, if_neg (by simp [h.last.2]),
      positionsFrom_eq_nil_iff.mpr fun l hl => (h.rest l (.inr (.inr hl))).1]
    simp
  have hends : positions isEnd ls = [pre.length + 1 + mid.length] := by
    rw [positions, h.eq, positionsFrom_append,
      positionsFrom_eq_nil_iff.mpr fun l hl => (h.rest l (.inl hl)).2, positionsFrom,
      if_neg (by simp [h.first.2]), positionsFrom_append,
      positionsFrom_eq_nil_iff.mpr fun l hl => (h.rest l (.inr (.inl hl))).2, positionsFrom,
      if_pos h.last.1, positionsFrom_eq_nil_iff.mpr fun l hl => (h.rest l (.inr (.inr hl))).2]
    simp
  rw [MarkedBlock.find, hbegins, hends]
  exact if_pos (by omega)

/-- A block that is found has its parts. -/
theorem parts_of_find {start stop : Nat} (h : find isBegin isEnd ls = .block start stop)
    (hboth : ∀ l, isBegin l = true → isEnd l = false) :
    ∃ pre first mid last post, Parts isBegin isEnd ls pre first mid last post ∧
      start = pre.length ∧ stop = pre.length + 1 + mid.length := by
  rw [find] at h
  split at h
  · cases h
  · rename_i s e hs he
    split at h
    · rename_i hlt
      obtain ⟨rfl, rfl⟩ := Found.block.inj h
      obtain ⟨pre, first, tail, rfl, hstart, hfirst, hpre, htail⟩ := positionsFrom_eq_singleton hs
      obtain ⟨front, last, post, hsplit, hstop, hlast, hfront, hpost⟩ := positionsFrom_eq_singleton he
      have hlast' : isBegin last = false := by
        by_contra hcontra
        rw [hboth last (by simpa using hcontra)] at hlast
        cases hlast
      -- the end marker stands behind the begin marker
      rcases List.append_eq_append_iff.mp hsplit with ⟨more, hfrontEq, hmore⟩ | ⟨more, hpreEq, hmore⟩
      · cases more with
        | nil =>
            rw [List.append_nil] at hfrontEq
            subst hfrontEq
            omega
        | cons a mid =>
            obtain ⟨rfl, rfl⟩ := List.cons.inj hmore
            subst hfrontEq
            refine ⟨pre, first, mid, last, post, ⟨rfl, ⟨hfirst, hboth _ hfirst⟩, ⟨hlast, hlast'⟩, ?_⟩,
              by omega, by simp only [List.length_append, List.length_cons] at hstop; omega⟩
            rintro l (hl | hl | hl)
            · exact ⟨hpre l hl, hfront l (List.mem_append_left _ hl)⟩
            · exact ⟨htail l (List.mem_append_left _ hl),
                hfront l (List.mem_append_right _ (List.mem_cons_of_mem _ hl))⟩
            · exact ⟨htail l (List.mem_append_right _ (List.mem_cons_of_mem _ hl)), hpost l hl⟩
      · subst hpreEq
        rw [List.length_append] at hstart
        omega
    · cases h
  · cases h

end RalphVault.MarkedBlock
