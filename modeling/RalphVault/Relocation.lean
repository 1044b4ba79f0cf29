import Mathlib

/-!
# Relocations

What is at some places moved one by one to other places. Moves from different
places, to different places, none of which is a place that something is moved
from, are one simultaneous move, and the moves back undo them: all that is lost
is what was at the targets before.
-/

namespace RalphVault.Relocation

variable {κ α : Type}

/-- Moves that do not get in each other's way. -/
structure Apart (moves : List (κ × κ)) : Prop where
  sources : (moves.map Prod.fst).Nodup
  targets : (moves.map Prod.snd).Nodup
  disjoint : ∀ m ∈ moves, ∀ m' ∈ moves, m.1 ≠ m'.2

variable {moves : List (κ × κ)} {m : κ × κ}

theorem Apart.tail (h : Apart (m :: moves)) : Apart moves where
  sources := (List.nodup_cons.mp h.sources).2
  targets := (List.nodup_cons.mp h.targets).2
  disjoint := fun a ha b hb => h.disjoint a (List.mem_cons_of_mem _ ha) b (List.mem_cons_of_mem _ hb)

theorem Apart.sublist (h : Apart moves) {some : List (κ × κ)} (hs : some.Sublist moves) :
    Apart some where
  sources := h.sources.sublist (hs.map _)
  targets := h.targets.sublist (hs.map _)
  disjoint := fun a ha b hb => h.disjoint a (hs.subset ha) b (hs.subset hb)

/-- The moves back do not get in each other's way either. -/
theorem Apart.swap (h : Apart moves) : Apart (moves.map Prod.swap) where
  sources := by
    rw [List.map_map]
    exact h.targets
  targets := by
    rw [List.map_map]
    exact h.sources
  disjoint := by
    intro a ha b hb
    obtain ⟨a', ha', rfl⟩ := List.mem_map.mp ha
    obtain ⟨b', hb', rfl⟩ := List.mem_map.mp hb
    exact (h.disjoint b' hb' a' ha').symm

theorem Apart.source_ne (h : Apart (m :: moves)) {m' : κ × κ} (hm : m' ∈ moves) : m.1 ≠ m'.1 := by
  intro heq
  refine (List.nodup_cons.mp h.sources).1 ?_
  rw [heq]
  exact List.mem_map_of_mem hm

theorem Apart.target_ne (h : Apart (m :: moves)) {m' : κ × κ} (hm : m' ∈ moves) : m.2 ≠ m'.2 := by
  intro heq
  refine (List.nodup_cons.mp h.targets).1 ?_
  rw [heq]
  exact List.mem_map_of_mem hm

variable [DecidableEq κ]

/-- Move what is at `a` to `b`, over what is there. -/
def shift (f : κ → Option α) (a b : κ) : κ → Option α :=
  fun p => if p = b then f a else if p = a then none else f p

/-- A move that raises where there is nothing to move. -/
def move (f : κ → Option α) (a b : κ) : Option (κ → Option α) :=
  if (f a).isSome then some (shift f a b) else none

/-- A move that is left out where there is nothing to move. -/
def moveIfThere (f : κ → Option α) (a b : κ) : κ → Option α :=
  if (f a).isSome then shift f a b else f

def shiftAll (moves : List (κ × κ)) (f : κ → Option α) : κ → Option α :=
  moves.foldl (fun f m => shift f m.1 m.2) f

variable {f : κ → Option α} {p : κ}

/-- Nothing else is touched. -/
theorem shiftAll_other (hs : ∀ m ∈ moves, m.1 ≠ p) (ht : ∀ m ∈ moves, m.2 ≠ p) :
    shiftAll moves f p = f p := by
  induction moves generalizing f with
  | nil => rfl
  | cons m moves ih =>
      obtain ⟨hs, hss⟩ := List.forall_mem_cons.mp hs
      obtain ⟨ht, hts⟩ := List.forall_mem_cons.mp ht
      show shiftAll moves (shift f m.1 m.2) p = f p
      rw [ih hss hts, shift, if_neg (Ne.symm ht), if_neg (Ne.symm hs)]

/-- What was moved is at its target. -/
theorem shiftAll_target (h : Apart moves) (hm : m ∈ moves) : shiftAll moves f m.2 = f m.1 := by
  induction moves generalizing f with
  | nil => cases hm
  | cons m' moves ih =>
      show shiftAll moves (shift f m'.1 m'.2) m.2 = f m.1
      rcases List.mem_cons.mp hm with rfl | hm
      · -- the first move: the later ones leave its target alone
        rw [shiftAll_other (fun x hx => h.disjoint x (List.mem_cons_of_mem _ hx) m
          List.mem_cons_self) (fun x hx => (h.target_ne hx).symm), shift, if_pos rfl]
      · have hne : m.1 ≠ m'.2 := h.disjoint m (List.mem_cons_of_mem _ hm) m' List.mem_cons_self
        rw [ih h.tail hm, shift, if_neg hne, if_neg (h.source_ne hm).symm]

/-- Nothing is left where it was. -/
theorem shiftAll_source (h : Apart moves) (hm : m ∈ moves) : shiftAll moves f m.1 = none := by
  induction moves generalizing f with
  | nil => cases hm
  | cons m' moves ih =>
      show shiftAll moves (shift f m'.1 m'.2) m.1 = none
      rcases List.mem_cons.mp hm with rfl | hm
      · have hne : m.1 ≠ m.2 := h.disjoint m List.mem_cons_self m List.mem_cons_self
        rw [shiftAll_other (fun x hx => (h.source_ne hx).symm) (fun x hx => (h.disjoint m
          List.mem_cons_self x (List.mem_cons_of_mem _ hx)).symm), shift, if_neg hne, if_pos rfl]
      · exact ih h.tail hm

/-- Where there is something to move each time, moves are not left out. -/
theorem foldl_moveIfThere (h : Apart moves) (hf : ∀ m ∈ moves, (f m.1).isSome = true) :
    moves.foldl (fun f m => moveIfThere f m.1 m.2) f = shiftAll moves f := by
  induction moves generalizing f with
  | nil => rfl
  | cons m moves ih =>
      obtain ⟨hm, hmoves⟩ := List.forall_mem_cons.mp hf
      show moves.foldl _ (moveIfThere f m.1 m.2) = shiftAll moves (shift f m.1 m.2)
      rw [moveIfThere, if_pos hm, ih h.tail]
      intro x hx
      have hne : x.1 ≠ m.2 := h.disjoint x (List.mem_cons_of_mem _ hx) m List.mem_cons_self
      rw [shift, if_neg hne, if_neg (h.source_ne hx).symm]
      exact hmoves x hx

section Back

variable {back : List (κ × κ)}

/-- Moves back, as far as they go. -/
def undo (back : List (κ × κ)) (f : κ → Option α) : κ → Option α :=
  back.foldl (fun f m => moveIfThere f m.2 m.1) f

theorem undo_eq (h : Apart moves) (hback : back.Sublist moves)
    (hf : ∀ m ∈ moves, (f m.1).isSome = true) :
    undo back (shiftAll moves f) = shiftAll (back.map Prod.swap) (shiftAll moves f) := by
  have hapart := (h.sublist hback).swap
  rw [← foldl_moveIfThere hapart, List.foldl_map]
  · rfl
  · intro x hx
    obtain ⟨m, hm, rfl⟩ := List.mem_map.mp hx
    show (shiftAll moves f m.2).isSome = true
    rw [shiftAll_target h (hback.subset hm)]
    exact hf m (hback.subset hm)

/-- **What was moved back is where it was.** -/
theorem undo_source (h : Apart moves) (hback : back.Sublist moves)
    (hf : ∀ m ∈ moves, (f m.1).isSome = true) (hm : m ∈ back) :
    undo back (shiftAll moves f) m.1 = f m.1 := by
  rw [undo_eq h hback hf]
  have htarget := shiftAll_target (f := shiftAll moves f) (h.sublist hback).swap
    (List.mem_map_of_mem (f := Prod.swap) hm)
  exact htarget.trans (shiftAll_target h (hback.subset hm))

/-- What was not moved back is still away. -/
theorem undo_missing (h : Apart moves) (hback : back.Sublist moves)
    (hf : ∀ m ∈ moves, (f m.1).isSome = true) (hm : m ∈ moves) (hnot : m ∉ back) :
    undo back (shiftAll moves f) m.1 = none := by
  rw [undo_eq h hback hf, shiftAll_other, shiftAll_source h hm]
  · intro x hx
    obtain ⟨y, hy, rfl⟩ := List.mem_map.mp hx
    exact (h.disjoint m hm y (hback.subset hy)).symm
  · intro x hx
    obtain ⟨y, hy, rfl⟩ := List.mem_map.mp hx
    intro heq
    exact hnot (List.inj_on_of_nodup_map h.sources (hback.subset hy) hm heq ▸ hy)

/-- After a move back nothing is at its target. -/
theorem undo_target (h : Apart moves) (hback : back.Sublist moves)
    (hf : ∀ m ∈ moves, (f m.1).isSome = true) (hm : m ∈ back) :
    undo back (shiftAll moves f) m.2 = none := by
  rw [undo_eq h hback hf]
  exact shiftAll_source (h.sublist hback).swap (List.mem_map_of_mem (f := Prod.swap) hm)

/-- What no move touches stays. -/
theorem undo_other (h : Apart moves) (hback : back.Sublist moves)
    (hf : ∀ m ∈ moves, (f m.1).isSome = true) (hs : ∀ m ∈ moves, m.1 ≠ p)
    (ht : ∀ m ∈ moves, m.2 ≠ p) : undo back (shiftAll moves f) p = f p := by
  rw [undo_eq h hback hf, shiftAll_other, shiftAll_other hs ht]
  · intro x hx
    obtain ⟨y, hy, rfl⟩ := List.mem_map.mp hx
    exact ht y (hback.subset hy)
  · intro x hx
    obtain ⟨y, hy, rfl⟩ := List.mem_map.mp hx
    exact hs y (hback.subset hy)

/-- **All moves undone, everything is as it was exactly when nothing was at a target.** -/
theorem undo_all_iff (h : Apart moves) (hf : ∀ m ∈ moves, (f m.1).isSome = true) :
    undo moves (shiftAll moves f) = f ↔ ∀ m ∈ moves, f m.2 = none := by
  constructor
  · intro heq m hm
    rw [← heq]
    exact undo_target h (List.Sublist.refl _) hf hm
  · intro hfree
    funext p
    by_cases hs : ∃ m ∈ moves, m.1 = p
    · obtain ⟨m, hm, rfl⟩ := hs
      exact undo_source h (List.Sublist.refl _) hf hm
    · by_cases ht : ∃ m ∈ moves, m.2 = p
      · obtain ⟨m, hm, rfl⟩ := ht
        rw [undo_target h (List.Sublist.refl _) hf hm, hfree m hm]
      · exact undo_other h (List.Sublist.refl _) hf (fun m hm heq => hs ⟨m, hm, heq⟩)
          (fun m hm heq => ht ⟨m, hm, heq⟩)

end Back
end RalphVault.Relocation
