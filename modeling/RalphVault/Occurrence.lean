import Mathlib
import RalphVault.Text

/-!
# Occurrences of a word

Where a word occurs in a text that is put together of literals and of values
without certain characters. The first occurrence replaced, and the keys that
follow the occurrences of an opening word.
-/

namespace RalphVault.Occurrence

/-- No occurrence of a word begins in the first of two parts. -/
def Free (w p t : Text) : Prop := ∀ s, s <:+ p → s ≠ [] → ¬w <+: s ++ t

/-- No occurrence of a word begins in a part, whatever follows it. -/
def freeLiteral (w p : Text) : Bool :=
  p.tails.all fun s => s.isEmpty || !(w.isPrefixOf s || s.isPrefixOf w)

variable {w p q s t new : Text}

theorem Free.nil : Free w [] t := fun _ hs hne => absurd (List.suffix_nil.mp hs) hne

theorem Free.append (hp : Free w p (q ++ t)) (hq : Free w q t) : Free w (p ++ q) t := by
  intro s hs hne
  rcases List.suffix_or_suffix_of_suffix hs (List.suffix_append p q) with h | ⟨m, rfl⟩
  · exact hq s h hne
  · by_cases hnil : m = []
    · subst hnil
      exact hq q List.suffix_rfl hne
    · obtain ⟨r, hr⟩ := hs
      rw [← List.append_assoc] at hr
      rw [List.append_assoc]
      exact hp m ⟨r, List.append_cancel_right hr⟩ hnil

theorem free_of_literal (h : freeLiteral w p = true) (t : Text) : Free w p t := by
  intro s hs hne hw
  have hmem := List.all_eq_true.mp h s ((List.mem_tails s p).mpr hs)
  rw [Bool.or_eq_true, List.isEmpty_iff, Bool.not_eq_true', Bool.or_eq_false_iff] at hmem
  obtain ⟨hlong, hshort⟩ := hmem.resolve_left hne
  rcases List.prefix_or_prefix_of_prefix hw (List.prefix_append s t) with h | h
  · rw [List.isPrefixOf_iff_prefix.mpr h] at hlong
    cases hlong
  · rw [List.isPrefixOf_iff_prefix.mpr h] at hshort
    cases hshort

/-- A value without the first character of the word. -/
theorem free_of_head {c : Char} {w : Text} (h : c ∉ p) (t : Text) : Free (c :: w) p t := by
  intro s hs hne hw
  obtain ⟨d, s, rfl⟩ := List.exists_cons_of_ne_nil hne
  obtain ⟨rfl, -⟩ := List.cons_prefix_cons.mp hw
  exact h (hs.subset List.mem_cons_self)

/-- A value without some character of the word, in front of a character that
the word does not have. -/
theorem free_of_next {c d : Char} (hc : c ∈ w) (hp : c ∉ p) (hd : d ∉ w) (t : Text) :
    Free w p (d :: t) := by
  intro s hs hne hw
  rcases List.prefix_or_prefix_of_prefix hw (List.prefix_append s (d :: t)) with h | ⟨rest, hrest⟩
  · exact hp (hs.subset (h.subset hc))
  · cases rest with
    | nil =>
        rw [List.append_nil] at hrest
        exact hp (hs.subset (hrest ▸ hc))
    | cons e rest =>
        rw [← hrest] at hw
        obtain ⟨rfl, -⟩ := List.cons_prefix_cons.mp ((List.prefix_append_right_inj s).mp hw)
        refine hd ?_
        rw [← hrest]
        exact List.mem_append_right _ List.mem_cons_self

/-- A value that does not have a character of the word, in front of that
character and another one than the word has after it. -/
theorem free_of_turn {a b : Text} {c d e : Char} (ha : c ∉ a) (hp : c ∉ p) (hne : d ≠ e)
    (t : Text) : Free (a ++ c :: d :: b) p (c :: e :: t) := by
  intro s hs _ hw
  have hsc : c ∉ s := fun hmem => hp (hs.subset hmem)
  obtain ⟨u, hu⟩ := hw
  rw [List.append_assoc] at hu
  have hsplit : a = s ∧ (c :: d :: b) ++ u = c :: e :: t := by
    rcases List.append_eq_append_iff.mp hu with ⟨m, rfl, hm⟩ | ⟨m, rfl, hm⟩
    · cases m with
      | nil => exact ⟨(List.append_nil a).symm, hm⟩
      | cons x m =>
          obtain ⟨rfl, -⟩ := List.cons.inj hm
          exact absurd (List.mem_append_right a List.mem_cons_self) hsc
    · cases m with
      | nil => exact ⟨List.append_nil s, hm.symm⟩
      | cons x m =>
          obtain ⟨rfl, -⟩ := List.cons.inj hm
          exact absurd (List.mem_append_right s List.mem_cons_self) ha
  exact hne (List.cons.inj (List.cons.inj hsplit.2).2).1

/-- A value that does not have the last character of the word, in front of
that character, unless it ends with the word up to there. -/
theorem free_of_last {a : Text} {c : Char} (ha : c ∉ a) (hp : c ∉ p) (hend : ¬a <:+ p) (t : Text) :
    Free (a ++ [c]) p (c :: t) := by
  intro s hs _ hw
  have hsc : c ∉ s := fun hmem => hp (hs.subset hmem)
  obtain ⟨u, hu⟩ := hw
  rw [List.append_assoc] at hu
  rcases List.append_eq_append_iff.mp hu with ⟨m, rfl, hm⟩ | ⟨m, rfl, hm⟩
  · cases m with
    | nil =>
        rw [List.append_nil] at hs
        exact hend hs
    | cons x m =>
        obtain ⟨rfl, -⟩ := List.cons.inj hm
        exact hsc (List.mem_append_right a List.mem_cons_self)
  · cases m with
    | nil =>
        rw [List.append_nil] at hend
        exact hend hs
    | cons x m =>
        obtain ⟨rfl, -⟩ := List.cons.inj hm
        exact ha (List.mem_append_right s List.mem_cons_self)

/-! ## The first occurrence -/

/-- `text.replace(w, new, 1)` of a word that is not empty. -/
def replaceFirst (w new : Text) : Text → Text
  | [] => []
  | c :: t =>
      if w.isPrefixOf (c :: t) then new ++ (c :: t).drop w.length else c :: replaceFirst w new t

theorem replaceFirst_free (hw : w ≠ []) (h : Free w p (w ++ t)) :
    replaceFirst w new (p ++ (w ++ t)) = p ++ (new ++ t) := by
  induction p with
  | nil =>
      obtain ⟨c, v, rfl⟩ := List.exists_cons_of_ne_nil hw
      have hpre : (c :: v).isPrefixOf (c :: (v ++ t)) = true :=
        List.isPrefixOf_iff_prefix.mpr (List.prefix_append (c :: v) t)
      rw [List.nil_append, List.nil_append, List.cons_append, replaceFirst, if_pos hpre]
      exact congrArg (new ++ ·) List.drop_left
  | cons c p ih =>
      have hnot : ¬w.isPrefixOf (c :: (p ++ (w ++ t))) = true := by
        intro hpre
        exact h (c :: p) List.suffix_rfl (List.cons_ne_nil _ _)
          (List.isPrefixOf_iff_prefix.mp hpre)
      have hrest : Free w p (w ++ t) :=
        fun s hs hne => h s (hs.trans (List.suffix_cons c p)) hne
      rw [List.cons_append, replaceFirst, if_neg hnot, ih hrest, List.cons_append]

/-! ## All keys -/

/-- The keys after an opening word, from left to right: `body` reads a key and
says how many characters it takes with its end. A match is passed over by a
count of characters to skip. -/
def findAll (w : Text) (body : Text → Option (Text × Nat)) : Nat → Text → List Text
  | _, [] => []
  | skip + 1, _ :: t => findAll w body skip t
  | 0, c :: t =>
      if w.isPrefixOf (c :: t) then
        match body ((c :: t).drop w.length) with
        | some (k, n) => k :: findAll w body (w.length + n - 1) t
        | none => findAll w body 0 t
      else findAll w body 0 t

variable {body : Text → Option (Text × Nat)}

theorem findAll_skip (p t : Text) : findAll w body p.length (p ++ t) = findAll w body 0 t := by
  induction p with
  | nil => rfl
  | cons c p ih => exact ih

/-- No key begins in a part where no opening word does. -/
theorem findAll_free (h : Free w p t) : findAll w body 0 (p ++ t) = findAll w body 0 t := by
  induction p with
  | nil => rfl
  | cons c p ih =>
      have hnot : ¬w.isPrefixOf (c :: (p ++ t)) = true := by
        intro hpre
        exact h (c :: p) List.suffix_rfl (List.cons_ne_nil _ _)
          (List.isPrefixOf_iff_prefix.mp hpre)
      have hrest : Free w p t := fun s hs hne => h s (hs.trans (List.suffix_cons c p)) hne
      rw [List.cons_append, findAll, if_neg hnot]
      exact ih hrest

/-- A key after the opening word. -/
theorem findAll_hit (hw : w ≠ []) {k : Text} (h : body (q ++ t) = some (k, q.length)) :
    findAll w body 0 (w ++ (q ++ t)) = k :: findAll w body 0 t := by
  obtain ⟨c, v, rfl⟩ := List.exists_cons_of_ne_nil hw
  have hpre : (c :: v).isPrefixOf (c :: (v ++ (q ++ t))) = true :=
    List.isPrefixOf_iff_prefix.mpr (List.prefix_append (c :: v) (q ++ t))
  have hdrop : (c :: (v ++ (q ++ t))).drop (c :: v).length = q ++ t := by
    rw [← List.cons_append]
    exact List.drop_left
  have hlen : (c :: v).length + q.length - 1 = (v ++ q).length := by
    rw [List.length_cons, List.length_append]
    omega
  rw [List.cons_append, findAll, if_pos hpre, hdrop, h]
  show k :: findAll (c :: v) body ((c :: v).length + q.length - 1) (v ++ (q ++ t)) = _
  rw [hlen, ← List.append_assoc, findAll_skip]

end RalphVault.Occurrence
