import Mathlib
import RalphVault.Text

/-!
# Cutting a text to bytes

The longest part of a text, from its start, that takes no more than so many
bytes in UTF-8: the Python idiom `t.encode()[:n].decode(errors="ignore")`.
Blanks at the end do not matter to a cut that is stripped. Words without
blanks are found in a stripped text as in the text itself.
-/

namespace RalphVault

/-! ## Blanks at the end -/

theorem rstrip_append_blank {s b : Text} (h : ∀ c ∈ b, isSpace c = true) :
    rstrip (s ++ b) = rstrip s := by
  rw [rstrip, List.reverse_append, List.dropWhile_append_of_pos, rstrip]
  intro c hc
  exact h c (List.mem_reverse.mp hc)

/-- A text is what is left of it and blanks. -/
theorem exists_rstrip (t : Text) : ∃ b, t = rstrip t ++ b ∧ ∀ c ∈ b, isSpace c = true := by
  refine ⟨(t.reverse.takeWhile isSpace).reverse, ?_, ?_⟩
  · rw [rstrip, ← List.reverse_append, List.takeWhile_append_dropWhile, List.reverse_reverse]
  · intro c hc
    exact List.mem_takeWhile_imp (List.mem_reverse.mp hc)

theorem rstrip_isPrefix (t : Text) : rstrip t <+: t := by
  obtain ⟨b, hb, -⟩ := exists_rstrip t
  exact ⟨b, hb.symm⟩

theorem rstrip_append_rstrip (s t : Text) : rstrip (s ++ rstrip t) = rstrip (s ++ t) := by
  obtain ⟨b, hb, hblank⟩ := exists_rstrip t
  calc rstrip (s ++ rstrip t) = rstrip (s ++ rstrip t ++ b) := (rstrip_append_blank hblank).symm
    _ = rstrip (s ++ t) := by rw [List.append_assoc, ← hb]

@[simp] theorem rstrip_rstrip (t : Text) : rstrip (rstrip t) = rstrip t :=
  rstrip_append_rstrip [] t

/-- A word that does not end in a blank is found before the blanks at the end. -/
theorem infix_rstrip_iff {w t : Text} (hw : ∃ front c, w = front ++ [c] ∧ isSpace c = false) :
    w <:+: rstrip t ↔ w <:+: t := by
  refine ⟨fun h => h.trans (rstrip_isPrefix t).isInfix, fun h => ?_⟩
  obtain ⟨b, hb, hblank⟩ := exists_rstrip t
  obtain ⟨before, after, hsplit⟩ := h
  rw [hb] at hsplit
  rcases List.append_eq_append_iff.mp hsplit with ⟨rest, hrest, -⟩ | ⟨rest, hrest, hafter⟩
  · exact ⟨before, rest, hrest.symm⟩
  · obtain ⟨front, c, rfl, hc⟩ := hw
    rcases List.eq_nil_or_concat rest with rfl | ⟨rest, d, rfl⟩
    · rw [List.append_nil] at hrest
      exact ⟨before, [], by rw [List.append_nil, hrest]⟩
    · -- the word would end in a blank
      have hlast : c = d := by
        have heq := congrArg List.getLast? hrest
        simpa using heq
      have hd : isSpace d = true := hblank d (by rw [hafter]; simp)
      rw [hlast, hd] at hc
      cases hc

theorem prefix_of_append_cons {w s t : Text} {c : Char} (hw : c ∉ w) (h : w <+: s ++ c :: t) :
    w <+: s := by
  induction s generalizing w with
  | nil =>
      cases w with
      | nil => exact List.nil_prefix
      | cons d w =>
          have hhead : d = c := (List.cons_prefix_cons.mp h).1
          exact absurd (hhead ▸ List.mem_cons_self) hw
  | cons e s ih =>
      cases w with
      | nil => exact List.nil_prefix
      | cons d w =>
          rw [List.cons_append, List.cons_prefix_cons] at h
          rw [List.cons_prefix_cons]
          exact ⟨h.1, ih (fun hmem => hw (List.mem_cons_of_mem _ hmem)) h.2⟩

/-- A word without some character is found on one side of it. -/
theorem infix_append_cons {w s t : Text} {c : Char} (hw : c ∉ w) (h : w <:+: s ++ c :: t) :
    w <:+: s ∨ w <:+: t := by
  induction s with
  | nil =>
      rcases List.infix_cons_iff.mp h with h | h
      · exact .inl (show w <+: [] from prefix_of_append_cons hw h).isInfix
      · exact .inr h
  | cons d s ih =>
      rcases List.infix_cons_iff.mp h with h | h
      · exact .inl (prefix_of_append_cons hw h).isInfix
      · rcases ih h with h | h
        · exact .inl (h.trans (List.suffix_cons d s).isInfix)
        · exact .inr h

/-! ## The cut -/

/-- The longest part of a text that takes no more than `n` bytes. -/
def clip : Nat → Text → Text
  | _, [] => []
  | n, c :: t => if c.utf8Size ≤ n then c :: clip (n - c.utf8Size) t else []

variable {n : Nat} {s t : Text}

theorem clip_isPrefix (n : Nat) (t : Text) : clip n t <+: t := by
  induction t generalizing n with
  | nil => exact List.prefix_rfl
  | cons c t ih =>
      rw [clip]
      split
      · exact List.cons_prefix_cons.mpr ⟨rfl, ih _⟩
      · exact List.nil_prefix

theorem utf8Len_clip_le (n : Nat) (t : Text) : utf8Len (clip n t) ≤ n := by
  induction t generalizing n with
  | nil => exact Nat.zero_le _
  | cons c t ih =>
      rw [clip]
      split
      · rename_i hfits
        have hrest := ih (n - c.utf8Size)
        rw [utf8Len_cons]
        omega
      · exact Nat.zero_le _

theorem clip_append (h : utf8Len s ≤ n) : clip n (s ++ t) = s ++ clip (n - utf8Len s) t := by
  induction s generalizing n with
  | nil => rfl
  | cons c s ih =>
      rw [utf8Len_cons] at h
      rw [List.cons_append, clip, if_pos (by omega), ih (by omega), utf8Len_cons, List.cons_append,
        Nat.sub_sub]

theorem clip_append_of_lt (h : n < utf8Len s) : clip n (s ++ t) = clip n s := by
  induction s generalizing n with
  | nil => exact absurd h (Nat.not_lt_zero n)
  | cons c s ih =>
      rw [utf8Len_cons] at h
      rw [List.cons_append, clip, clip]
      split
      · rw [ih (by omega)]
      · rfl

theorem clip_of_le (h : utf8Len t ≤ n) : clip n t = t := by
  have hclip : clip n (t ++ []) = t ++ clip (n - utf8Len t) [] := clip_append h
  rwa [List.append_nil, clip, List.append_nil] at hclip

theorem clip_zero (t : Text) : clip 0 t = [] := by
  cases t with
  | nil => rfl
  | cons c t =>
      have hsize := c.utf8Size_pos
      rw [clip, if_neg (by omega)]

/-- Blanks at the end are not missed by a cut that is stripped. -/
theorem rstrip_clip_rstrip (n : Nat) (t : Text) : rstrip (clip n (rstrip t)) = rstrip (clip n t) := by
  obtain ⟨b, hb, hblank⟩ := exists_rstrip t
  have hcut : rstrip (clip n (rstrip t ++ b)) = rstrip (clip n (rstrip t)) := by
    rcases Nat.lt_or_ge n (utf8Len (rstrip t)) with hlt | hge
    · rw [clip_append_of_lt hlt]
    · rw [clip_append hge, clip_of_le hge]
      apply rstrip_append_blank
      intro c hc
      exact hblank c ((clip_isPrefix _ _).subset hc)
  rw [← hcut, ← hb]

/-- `_trim_utf8`: a text that is too long is cut and stripped. -/
def trimUtf8 (t : Text) (limit : Nat) : Text :=
  if utf8Len t ≤ limit then t else rstrip (clip limit t)

theorem trimUtf8_of_le (h : utf8Len t ≤ n) : trimUtf8 t n = t := if_pos h

theorem trimUtf8_isPrefix (t : Text) (n : Nat) : trimUtf8 t n <+: t := by
  rw [trimUtf8]
  split
  · exact List.prefix_rfl
  · exact (rstrip_isPrefix _).trans (clip_isPrefix n t)

theorem utf8Len_le_of_isPrefix (h : s <+: t) : utf8Len s ≤ utf8Len t := by
  obtain ⟨rest, rfl⟩ := h
  rw [utf8Len_append]
  exact Nat.le_add_right _ _

theorem utf8Len_trimUtf8_le (t : Text) (n : Nat) : utf8Len (trimUtf8 t n) ≤ n := by
  rw [trimUtf8]
  split
  · assumption
  · exact (utf8Len_le_of_isPrefix (rstrip_isPrefix _)).trans (utf8Len_clip_le n t)

theorem rstrip_trimUtf8 (t : Text) (n : Nat) : rstrip (trimUtf8 t n) = rstrip (clip n t) := by
  rw [trimUtf8]
  split
  · rename_i hfits
    rw [clip_of_le hfits]
  · exact rstrip_rstrip _

end RalphVault
