import Mathlib

/-!
# Rotating logs

A log in numbered files: records go to file 0, and a rotation moves every file
up by one and drops the oldest. What the files hold, the oldest record first,
is at all times an end of what was ever appended.
-/

namespace RalphVault.RotatingLog

variable {α : Type}

/-- The files by number; a missing file is `none`. -/
abbrev Files (α : Type) := Nat → Option (List α)

def content (fs : Files α) (i : Nat) : List α := (fs i).getD []

/-- The records of the files below `n`, the oldest first. -/
def held (fs : Files α) : Nat → List α
  | 0 => []
  | n + 1 => content fs n ++ held fs n

/-- The size of file 0, that of its records together. -/
def activeSize (size : α → Nat) (fs : Files α) : Nat := ((content fs 0).map size).sum

/-! ## Operations -/

def remove (fs : Files α) (i : Nat) : Files α := fun k => if k = i then none else fs k

/-- Give file `i` the number `j`, in place of the file that has it. -/
def move (fs : Files α) (i j : Nat) : Files α :=
  fun k => if k = i then none else if k = j then fs i else fs k

/-- Add a record to file 0, which is created if it is missing. -/
def append (fs : Files α) (record : α) : Files α :=
  fun k => if k = 0 then some (content fs 0 ++ [record]) else fs k

/-- Each of the files below `n` moves up by one, the last of them is dropped. -/
def turn (n : Nat) (fs : Files α) : Files α :=
  fun k => if k = 0 then none else if k < n then fs (k - 1) else fs k

variable {fs : Files α} {history : List α} {record : α} {n : Nat}

@[simp] theorem content_append_zero : content (append fs record) 0 = content fs 0 ++ [record] := rfl

@[simp] theorem content_append_succ (i : Nat) :
    content (append fs record) (i + 1) = content fs (i + 1) := rfl

@[simp] theorem turn_zero : turn n fs 0 = none := rfl

@[simp] theorem content_turn_zero : content (turn n fs) 0 = [] := rfl

@[simp] theorem activeSize_append (size : α → Nat) :
    activeSize size (append fs record) = activeSize size fs + size record := by
  simp [activeSize]

@[simp] theorem activeSize_turn (size : α → Nat) : activeSize size (turn n fs) = 0 := rfl

/-- A missing file has no size. -/
theorem isSome_of_activeSize {size : α → Nat} (h : 0 < activeSize size fs) :
    (fs 0).isSome = true := by
  cases hactive : fs 0 with
  | some records => rfl
  | none => simp [activeSize, content, hactive] at h

theorem content_turn_succ {i : Nat} (h : i + 1 < n) :
    content (turn n fs) (i + 1) = content fs i := by
  simp [content, turn, h]

theorem turn_of_le {i : Nat} (hn : 0 < n) (h : n ≤ i) : turn n fs i = fs i := by
  rw [turn, if_neg (by omega), if_neg (by omega)]

theorem held_append (n : Nat) : held (append fs record) (n + 1) = held fs (n + 1) ++ [record] := by
  induction n with
  | zero => simp [held]
  | succ n ih =>
      rw [held, ih, content_append_succ, ← List.append_assoc]
      rfl

/-- A rotation drops what the last file held and nothing else. -/
theorem held_turn (n : Nat) : held (turn (n + 1) fs) (n + 1) = held fs n := by
  have hshifted : ∀ k, k ≤ n → held (turn (n + 1) fs) (k + 1) = held fs k := by
    intro k hk
    induction k with
    | zero => rfl
    | succ k ih => rw [held, ih (by omega), content_turn_succ (by omega), held]
  exact hshifted n le_rfl

/-! ## The invariant -/

/-- The files below `n` hold an end of the history, and there are no others. -/
structure Keeps (history : List α) (fs : Files α) (n : Nat) : Prop where
  held : held fs n <:+ history
  none_of_le : ∀ i, n ≤ i → fs i = none

theorem Keeps.empty (n : Nat) : Keeps ([] : List α) (fun _ => none) n where
  held := by
    have hnil : ∀ n, RotatingLog.held (fun _ => none : Files α) n = [] := by
      intro n
      induction n with
      | zero => rfl
      | succ n ih => rw [RotatingLog.held, ih]; rfl
    rw [hnil]
  none_of_le := fun _ _ => rfl

theorem Keeps.append (h : Keeps history fs (n + 1)) (record : α) :
    Keeps (history ++ [record]) (append fs record) (n + 1) where
  held := by
    obtain ⟨dropped, hdropped⟩ := h.held
    exact ⟨dropped, by rw [held_append, ← hdropped, List.append_assoc]⟩
  none_of_le := fun i hi => by
    rw [RotatingLog.append, if_neg (by omega), h.none_of_le i hi]

theorem Keeps.turn (h : Keeps history fs (n + 1)) : Keeps history (turn (n + 1) fs) (n + 1) where
  held := by
    rw [held_turn]
    exact (List.suffix_append _ _).trans h.held
  none_of_le := fun i hi => by rw [turn_of_le (by omega) hi, h.none_of_le i hi]

/-! ## The number of files -/

/-- At most `n` files exist. -/
def AtMost (n : Nat) (fs : Files α) : Prop :=
  ∀ s : Finset Nat, (∀ i ∈ s, (fs i).isSome = true) → s.card ≤ n

theorem Keeps.atMost (h : Keeps history fs n) : AtMost n fs := fun s hs => by
  have hsubset : s ⊆ Finset.range n := fun i hi => by
    by_contra hle
    have hnone := h.none_of_le i (by simpa using hle)
    exact absurd (hs i hi) (by simp [hnone])
  simpa using Finset.card_le_card hsubset

end RalphVault.RotatingLog
