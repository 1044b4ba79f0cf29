import RalphVault.Security.Quiet

/-!
# Kept lines

`str.splitlines(keepends=True)`: the lines of a text in two parts are those of
the parts, if the first one ends with a line and no `\r\n` lies across the cut,
and every cut between lines is of this kind.
-/

namespace RalphVault.KeptLines

open Security

/-- The text is empty or ends with a line boundary. -/
def EndsLine (t : Text) : Prop := ∀ c ∈ t.getLast?, isLineBoundary c = true

/-- The texts do not share a `\r\n`. -/
def Uncut (t u : Text) : Prop := t.getLast? = some '\r' → u.head? ≠ some '\n'

variable {t u w : Text} {c : Char} {pre post : List Text}

theorem EndsLine.nil : EndsLine [] := by
  intro c hc
  cases hc

theorem Uncut.nil (u : Text) : Uncut [] u := by
  intro h
  cases h

theorem splitLines_crlf (t : Text) :
    splitLines ('\r' :: '\n' :: t) = ['\r', '\n'] :: splitLines t := by
  rw [splitLines]

theorem splitLines_boundary (hc : isLineBoundary c = true) (h : Uncut [c] t) :
    splitLines (c :: t) = [c] :: splitLines t := by
  rw [splitLines.eq_3 c t fun u hr hu => h (by rw [hr]; rfl) (by rw [hu]; rfl), if_pos hc]

theorem splitLines_char (hc : isLineBoundary c = false) (t : Text) : splitLines (c :: t) =
    match splitLines t with
    | [] => [[c]]
    | l :: ls => (c :: l) :: ls := by
  have hr : ∀ u, c = '\r' → t = '\n' :: u → False := by
    rintro u rfl -
    exact absurd hc (by decide)
  refine ((splitLines.eq_3 c t hr).trans (if_neg (by simp [hc]))).trans ?_
  cases splitLines t <;> rfl

theorem splitLines_eq_nil (h : splitLines t = []) : t = [] := by
  rw [← flatten_splitLines t, h]
  rfl

theorem EndsLine.tail {c : Char} (h : EndsLine (c :: t)) : EndsLine t := by
  intro d hd
  cases t with
  | nil => cases hd
  | cons a t => exact h d (by rwa [List.getLast?_cons_cons])

/-- A text behind complete lines is split as it is alone. -/
theorem splitLines_append (hend : EndsLine t) (hcut : Uncut t u) :
    splitLines (t ++ u) = splitLines t ++ splitLines u := by
  fun_induction splitLines t with
  | case1 => rfl
  | case2 t ih =>
      have hcut' : Uncut t u := fun hlast => hcut (by cases t <;> simp_all)
      rw [List.cons_append, List.cons_append, splitLines_crlf, ih hend.tail.tail hcut']
      rfl
  | case3 c t hpair hc ih =>
      have hcut' : Uncut t u := fun hlast => hcut (by cases t <;> simp_all)
      have hfirst : Uncut [c] (t ++ u) := by
        intro hr hfeed
        obtain rfl : c = '\r' := by simpa using hr
        cases t with
        | nil => exact hcut rfl hfeed
        | cons a t =>
            obtain rfl : a = '\n' := by simpa using hfeed
            exact hpair t rfl rfl
      rw [List.cons_append, splitLines_boundary hc hfirst, ih hend.tail hcut']
      rfl
  | case4 c t hpair hc hnil ih =>
      have ht := splitLines_eq_nil hnil
      exact absurd (hend c (by rw [ht]; rfl)) hc
  | case5 c t hpair hc line lines hlines ih =>
      have hcut' : Uncut t u := fun hlast => hcut (by cases t <;> simp_all)
      rw [List.cons_append, splitLines_char (by simpa using hc), ih hend.tail hcut', hlines]
      rfl

theorem EndsLine.cons (hc : isLineBoundary c = true) (h : EndsLine t) : EndsLine (c :: t) := by
  intro d hd
  cases t with
  | nil =>
      obtain rfl : c = d := by simpa using hd
      exact hc
  | cons a t => exact h d (by rwa [List.getLast?_cons_cons] at hd)

theorem EndsLine.cons_of_ne (hne : t ≠ []) (h : EndsLine t) : EndsLine (c :: t) := by
  obtain ⟨a, t, rfl⟩ := List.exists_cons_of_ne_nil hne
  intro d hd
  exact h d (by rwa [List.getLast?_cons_cons] at hd)

theorem Uncut.cons_of_ne (hne : t ≠ []) (h : Uncut t u) : Uncut (c :: t) u := by
  obtain ⟨a, t, rfl⟩ := List.exists_cons_of_ne_nil hne
  intro hr
  exact h (by rwa [List.getLast?_cons_cons] at hr)

theorem Uncut.cons (h : Uncut t u) (hc : Uncut [c] (t ++ u)) : Uncut (c :: t) u := by
  cases t with
  | nil => exact hc
  | cons a t => exact h.cons_of_ne (List.cons_ne_nil a t)

theorem Uncut.left (h : Uncut w (t ++ u)) : Uncut w t := by
  intro hr hfeed
  cases t with
  | nil => cases hfeed
  | cons a t => exact h hr hfeed

/-- A cut between lines leaves the lines of both sides. -/
theorem splitLines_split (h : splitLines t = pre ++ post) :
    splitLines pre.flatten = pre ∧ splitLines post.flatten = post ∧
      (post ≠ [] → EndsLine pre.flatten ∧ Uncut pre.flatten post.flatten) := by
  fun_induction splitLines t generalizing pre with
  | case1 =>
      obtain ⟨rfl, rfl⟩ := List.append_eq_nil_iff.mp h.symm
      exact ⟨rfl, rfl, fun hne => absurd rfl hne⟩
  | case2 t ih =>
      cases pre with
      | nil =>
          refine ⟨rfl, ?_, fun _ => ⟨EndsLine.nil, Uncut.nil _⟩⟩
          rw [List.nil_append] at h
          rw [← h, List.flatten_cons, flatten_splitLines]
          exact splitLines_crlf t
      | cons l pre =>
          rw [List.cons_append, List.cons.injEq] at h
          obtain ⟨rfl, hrest⟩ := h
          obtain ⟨hpre, hpost, hcut⟩ := ih hrest
          refine ⟨?_, hpost, fun hne => ⟨?_, ?_⟩⟩
          · exact (splitLines_crlf pre.flatten).trans (by rw [hpre])
          · exact (EndsLine.cons (by decide) (hcut hne).1).cons (by decide)
          · exact ((hcut hne).2.cons fun hr => absurd hr (by simp)).cons_of_ne (List.cons_ne_nil _ _)
  | case3 c t hpair hc ih =>
      have hfirst : Uncut [c] t := by
        intro hr hfeed
        obtain rfl : c = '\r' := by simpa using hr
        cases t with
        | nil => cases hfeed
        | cons a t =>
            obtain rfl : a = '\n' := by simpa using hfeed
            exact hpair t rfl rfl
      cases pre with
      | nil =>
          refine ⟨rfl, ?_, fun _ => ⟨EndsLine.nil, Uncut.nil _⟩⟩
          rw [List.nil_append] at h
          rw [← h, List.flatten_cons, flatten_splitLines]
          exact splitLines_boundary hc hfirst
      | cons l pre =>
          rw [List.cons_append, List.cons.injEq] at h
          obtain ⟨rfl, hrest⟩ := h
          obtain ⟨hpre, hpost, hcut⟩ := ih hrest
          have ht : t = pre.flatten ++ post.flatten := by
            rw [← List.flatten_append, ← hrest, flatten_splitLines]
          refine ⟨?_, hpost, fun hne => ⟨(hcut hne).1.cons hc, (hcut hne).2.cons (ht ▸ hfirst)⟩⟩
          exact (splitLines_boundary hc (Uncut.left (ht ▸ hfirst))).trans (congrArg ([c] :: ·) hpre)
  | case4 c t hpair hc hnil ih =>
      have ht := splitLines_eq_nil hnil
      have hsingle : splitLines [c] = [[c]] := splitLines_char (by simpa using hc) []
      cases pre with
      | nil =>
          rw [List.nil_append] at h
          rw [← h]
          exact ⟨rfl, hsingle, fun _ => ⟨EndsLine.nil, Uncut.nil _⟩⟩
      | cons l pre =>
          rw [List.cons_append, List.cons.injEq] at h
          obtain ⟨rfl, hrest⟩ := h
          obtain ⟨rfl, rfl⟩ := List.append_eq_nil_iff.mp hrest.symm
          exact ⟨hsingle, rfl, fun hne => absurd rfl hne⟩
  | case5 c t hpair hc line lines hlines ih =>
      have hchar : isLineBoundary c = false := by simpa using hc
      cases pre with
      | nil =>
          refine ⟨rfl, ?_, fun _ => ⟨EndsLine.nil, Uncut.nil _⟩⟩
          have ht : line ++ lines.flatten = t := by
            rw [← List.flatten_cons, ← hlines, flatten_splitLines]
          rw [List.nil_append] at h
          rw [← h, List.flatten_cons, List.cons_append, ht, splitLines_char hchar, hlines]
      | cons l pre =>
          rw [List.cons_append, List.cons.injEq] at h
          obtain ⟨rfl, rfl⟩ := h
          obtain ⟨hpre, hpost, hcut⟩ := ih (hlines ▸ rfl : splitLines t = (line :: pre) ++ post)
          have hne : (line :: pre).flatten ≠ [] := by
            intro hnil
            rw [hnil] at hpre
            cases hpre
          refine ⟨?_, hpost, fun hpost => ⟨(hcut hpost).1.cons_of_ne hne, (hcut hpost).2.cons_of_ne hne⟩⟩
          exact (splitLines_char hchar (line :: pre).flatten).trans (by rw [hpre])

end RalphVault.KeptLines
