import RalphVault.Memory.Budget
import RalphVault.Utf8Cut

/-!
# Blanks and words

The words of a text, a text put together from words again (`compactSpace`),
and the blanks around a text.
-/

namespace RalphVault

open Memory

/-! ## Words -/

theorem not_space_of_mem_splitWhere {q : Char → Bool} {t part : Text}
    (h : part ∈ splitWhere q t) : ∀ c ∈ part, q c = false := by
  induction t generalizing part with
  | nil =>
      obtain rfl : part = [] := by simpa [splitWhere] using h
      simp
  | cons a t ih =>
      by_cases ha : q a = true
      · rw [splitWhere, if_pos ha] at h
        rcases List.mem_cons.mp h with rfl | h
        · simp
        · exact ih h
      · rw [splitWhere, if_neg ha] at h
        cases hparts : splitWhere q t with
        | nil => exact absurd hparts (splitWhere_ne_nil t)
        | cons first rest =>
            rw [hparts] at h ih
            rcases List.mem_cons.mp h with rfl | h
            · intro c hc
              rcases List.mem_cons.mp hc with rfl | hc
              · simpa using ha
              · exact ih List.mem_cons_self c hc
            · exact ih (List.mem_cons_of_mem _ h)

theorem mem_words {t w : Text} (h : w ∈ words t) : w ≠ [] ∧ ∀ c ∈ w, isSpace c = false := by
  obtain ⟨hmem, hne⟩ := List.mem_filter.mp h
  refine ⟨?_, not_space_of_mem_splitWhere hmem⟩
  rintro rfl
  cases hne

theorem wordCount_eq_zero {t : Text} (h : ∀ c ∈ t, isSpace c = true) : wordCount t = 0 := by
  induction t with
  | nil => rfl
  | cons c t ih =>
      have hc := wordCount_append (h c List.mem_cons_self) [] t
      rw [List.nil_append] at hc
      rw [hc, ih fun c hc => h c (List.mem_cons_of_mem _ hc)]
      rfl

/-- A text without spaces is one word. -/
theorem wordCount_word {w : Text} (hne : w ≠ []) (h : ∀ c ∈ w, isSpace c = false) :
    wordCount w = 1 := by
  induction w with
  | nil => exact absurd rfl hne
  | cons c w ih =>
      cases w with
      | nil => simp [wordCount, words, splitWhere, h c List.mem_cons_self]
      | cons d w =>
          rw [wordCount_cons (h c (by simp)) (h d (by simp))]
          exact ih (by simp) fun c hc => h c (List.mem_cons_of_mem _ hc)

theorem wordCount_joinWith {ws : List Text}
    (h : ∀ w ∈ ws, w ≠ [] ∧ ∀ c ∈ w, isSpace c = false) :
    wordCount (joinWith [' '] ws) = ws.length := by
  induction ws with
  | nil => rfl
  | cons w ws ih =>
      obtain ⟨hw, hws⟩ := List.forall_mem_cons.mp h
      cases ws with
      | nil => exact wordCount_word hw.1 hw.2
      | cons w' ws =>
          have hjoin : joinWith [' '] (w :: w' :: ws) = w ++ ' ' :: joinWith [' '] (w' :: ws) := by
            simp [joinWith]
          rw [hjoin, wordCount_append (by decide), wordCount_word hw.1 hw.2, ih hws,
            List.length_cons (a := w), Nat.add_comm]

theorem wordCount_rstrip (t : Text) : wordCount (rstrip t) = wordCount t := by
  have hsplit : t = rstrip t ++ (t.reverse.takeWhile isSpace).reverse := by
    rw [rstrip, ← List.reverse_append, List.takeWhile_append_dropWhile, List.reverse_reverse]
  have hspaces : ∀ c ∈ (t.reverse.takeWhile isSpace).reverse, isSpace c = true := fun c hc =>
    List.mem_takeWhile_imp (List.mem_reverse.mp hc)
  conv_rhs => rw [hsplit]
  cases hrest : (t.reverse.takeWhile isSpace).reverse with
  | nil => rw [List.append_nil]
  | cons s rest =>
      rw [hrest] at hspaces
      rw [wordCount_append (hspaces s List.mem_cons_self),
        wordCount_eq_zero fun c hc => hspaces c (List.mem_cons_of_mem _ hc), Nat.add_zero]

/-! ## Blanks at the ends -/

/-- Blanks after a visible character are all that `rstrip` takes. -/
theorem rstrip_append_visible {f : Text} {c : Char} (hc : isSpace c = false) (t : Text) :
    rstrip (f ++ c :: t) = f ++ c :: rstrip t := by
  obtain ⟨b, hb, hblank⟩ := exists_rstrip t
  have hvisible : rstrip (f ++ c :: rstrip t) = f ++ c :: rstrip t := by
    rcases List.eq_nil_or_concat (rstrip t) with hnil | ⟨front, d, hd⟩
    · rw [hnil, rstrip, List.reverse_append, List.reverse_cons, List.reverse_nil, List.nil_append,
        List.singleton_append, List.dropWhile_cons_of_neg (by simp [hc]), List.reverse_cons,
        List.reverse_reverse]
    · have hspace : isSpace d = false := by
        have hself := rstrip_rstrip t
        rw [hd, rstrip, List.concat_eq_append, List.reverse_append, List.reverse_singleton,
          List.singleton_append] at hself
        by_contra hne
        rw [List.dropWhile_cons_of_pos (by simpa using hne)] at hself
        have hlen := congrArg List.length hself
        have hle := List.length_dropWhile_le isSpace front.reverse
        simp only [List.length_reverse, List.length_append, List.length_singleton] at hlen hle
        omega
      rw [hd, List.concat_eq_append, ← List.cons_append, ← List.append_assoc, rstrip,
        List.reverse_append, List.reverse_singleton, List.singleton_append,
        List.dropWhile_cons_of_neg (by simp [hspace]), List.reverse_cons, List.reverse_reverse]
  conv_lhs => rw [hb]
  rw [← List.cons_append, ← List.append_assoc, rstrip_append_blank hblank, hvisible]

theorem strip_visible {c : Char} (hc : isSpace c = false) (t : Text) :
    strip (c :: t) = rstrip (c :: t) := by
  rw [strip, lstrip, List.dropWhile_cons_of_neg (by simp [hc])]

/-- Nothing is taken from the end of a text that ends with a visible
character. -/
theorem rstrip_of_closed {t : Text} (h : ∀ c ∈ t.getLast?, isSpace c = false) : rstrip t = t := by
  rcases List.eq_nil_or_concat t with rfl | ⟨front, d, rfl⟩
  · rfl
  · rw [List.concat_eq_append] at h ⊢
    exact rstrip_append_visible (h d List.getLast?_concat) []

/-- A text that starts and ends with a visible character is stripped. -/
theorem strip_of_visible {t : Text} (hfirst : ∀ c ∈ t.head?, isSpace c = false)
    (hlast : ∀ c ∈ t.getLast?, isSpace c = false) : strip t = t := by
  cases t with
  | nil => rfl
  | cons a t =>
      rw [strip_visible (hfirst a rfl)]
      exact rstrip_of_closed hlast

/-- A visible character at the end stays in front of what `strip` takes. -/
theorem getLast?_strip {t : Text} {c : Char} (hc : isSpace c = false) (h : t.getLast? = some c) :
    (strip t).getLast? = some c := by
  obtain ⟨front, hfront⟩ := List.getLast?_eq_some_iff.mp h
  subst hfront
  have hlast : rstrip (front ++ [c]) = front ++ [c] := rstrip_append_visible hc []
  by_cases hblank : ∀ d ∈ front, isSpace d = true
  · have hstrip : strip (front ++ [c]) = [c] := by
      rw [strip, lstrip, List.dropWhile_append_of_pos hblank, List.dropWhile_cons_of_neg (by simp [hc])]
      exact rstrip_append_visible (f := []) hc []
    rw [hstrip]
    rfl
  · have hsome : front.dropWhile isSpace ≠ [] := by
      intro hnil
      exact hblank (List.dropWhile_eq_nil_iff.mp hnil)
    have hdrop : lstrip (front ++ [c]) = front.dropWhile isSpace ++ [c] := by
      rw [lstrip, List.dropWhile_append, if_neg (by simpa using hsome)]
    rw [strip, hdrop, rstrip_append_visible hc [], List.getLast?_append]
    rfl

/-- A visible character in front is the first one after `strip`. -/
theorem head?_strip {t : Text} {c : Char} (hc : isSpace c = false) (h : t.head? = some c) :
    (strip t).head? = some c := by
  cases t with
  | nil => cases h
  | cons a t =>
      cases h
      rw [strip_visible hc, ← List.nil_append (c :: t), rstrip_append_visible hc]
      rfl

/-! ## Compact texts -/

/-- The characters of a compact text are visible or a single blank. -/
theorem mem_joinWith_words {ws : List Text} (h : ∀ w ∈ ws, ∀ c ∈ w, isSpace c = false) :
    ∀ c ∈ joinWith [' '] ws, isSpace c = false ∨ c = ' ' := by
  induction ws with
  | nil => exact fun c hc => absurd hc List.not_mem_nil
  | cons w ws ih =>
      obtain ⟨hw, hws⟩ := List.forall_mem_cons.mp h
      intro c hc
      cases ws with
      | nil => exact .inl (hw c hc)
      | cons w' ws =>
          have hjoin : joinWith [' '] (w :: w' :: ws) = w ++ ' ' :: joinWith [' '] (w' :: ws) := by
            simp [joinWith]
          rw [hjoin, List.mem_append, List.mem_cons] at hc
          rcases hc with hc | hc | hc
          · exact .inl (hw c hc)
          · exact .inr hc
          · exact ih hws c hc

/-- A compact text starts and ends with a visible character. -/
theorem visible_joinWith {ws : List Text} (h : ∀ w ∈ ws, w ≠ [] ∧ ∀ c ∈ w, isSpace c = false) :
    (∀ c ∈ (joinWith [' '] ws).head?, isSpace c = false) ∧
      ∀ c ∈ (joinWith [' '] ws).getLast?, isSpace c = false := by
  induction ws with
  | nil => exact ⟨nofun, nofun⟩
  | cons w ws ih =>
      obtain ⟨⟨hne, hw⟩, hws⟩ := List.forall_mem_cons.mp h
      cases ws with
      | nil =>
          exact ⟨fun c hc => hw c (List.mem_of_head? hc), fun c hc => hw c (List.mem_of_getLast? hc)⟩
      | cons w' ws =>
          have hjoin : joinWith [' '] (w :: w' :: ws) = w ++ ' ' :: joinWith [' '] (w' :: ws) := by
            simp [joinWith]
          obtain ⟨hne', -⟩ := hws w' List.mem_cons_self
          have hrest : joinWith [' '] (w' :: ws) ≠ [] := by
            intro hnil
            cases ws with
            | nil => exact hne' hnil
            | cons w'' ws => simp [joinWith] at hnil
          rw [hjoin]
          refine ⟨fun c hc => ?_, fun c hc => (ih hws).2 c ?_⟩
          · obtain ⟨a, t, rfl⟩ := List.exists_cons_of_ne_nil hne
            cases hc
            exact hw _ List.mem_cons_self
          · obtain ⟨front, d, hd⟩ := (List.eq_nil_or_concat _).resolve_left hrest
            rw [hd, List.concat_eq_append] at hc ⊢
            rw [← List.cons_append, ← List.append_assoc, List.getLast?_concat] at hc
            rw [List.getLast?_concat]
            exact hc

theorem compactSpace_chars (t : Text) : ∀ c ∈ compactSpace t, isSpace c = false ∨ c = ' ' :=
  mem_joinWith_words fun _ hw => (mem_words hw).2

theorem compactSpace_visible (t : Text) : (∀ c ∈ (compactSpace t).head?, isSpace c = false) ∧
    ∀ c ∈ (compactSpace t).getLast?, isSpace c = false :=
  visible_joinWith fun _ hw => mem_words hw

/-! ## The words of a compact text -/

theorem splitWhere_of_none {p : Char → Bool} {w : Text} (h : ∀ c ∈ w, p c = false) :
    splitWhere p w = [w] := by
  induction w with
  | nil => rfl
  | cons c w ih =>
      obtain ⟨hc, hw⟩ := List.forall_mem_cons.mp h
      rw [splitWhere, if_neg (by simp [hc]), ih hw]

theorem words_word {w : Text} (hne : w ≠ []) (h : ∀ c ∈ w, isSpace c = false) : words w = [w] := by
  rw [words, splitWhere_of_none h, List.filter_cons_of_pos (by simpa using hne)]
  rfl

theorem words_append {s : Char} (hs : isSpace s = true) (u v : Text) :
    words (u ++ s :: v) = words u ++ words v := by
  simp only [words, splitWhere_append hs, List.filter_append]

theorem words_eq_nil_iff {t : Text} : words t = [] ↔ ∀ c ∈ t, isSpace c = true := by
  induction t with
  | nil => simp [words, splitWhere]
  | cons c t ih =>
      rw [List.forall_mem_cons]
      by_cases hc : isSpace c = true
      · have hskip : words (c :: t) = words t := by
          have hsplit := words_append hc [] t
          rw [List.nil_append] at hsplit
          rw [hsplit]
          rfl
        rw [hskip, ih]
        exact ⟨fun h => ⟨hc, h⟩, fun h => h.2⟩
      · have hkept : words (c :: t) ≠ [] := by
          rw [words, splitWhere, if_neg hc]
          cases splitWhere isSpace t <;> simp
        exact ⟨fun h => absurd h hkept, fun h => absurd h.1 hc⟩

theorem compactSpace_eq_nil_iff {t : Text} : compactSpace t = [] ↔ ∀ c ∈ t, isSpace c = true := by
  rw [← words_eq_nil_iff, compactSpace]
  constructor
  · intro h
    cases hwords : words t with
    | nil => rfl
    | cons w ws =>
        have hw : w ≠ [] := (mem_words (hwords ▸ List.mem_cons_self : w ∈ words t)).1
        rw [hwords] at h
        cases ws <;> simp [joinWith, hw] at h
  · intro h
    rw [h]
    rfl

theorem compactSpace_word {w : Text} (h : ∀ c ∈ w, isSpace c = false) : compactSpace w = w := by
  by_cases hne : w = []
  · rw [hne]
    rfl
  · rw [compactSpace, words_word hne h]
    rfl

/-- The head of a text that has no blank is kept. -/
theorem compactSpace_front {w : Text} (hne : w ≠ []) (h : ∀ c ∈ w, isSpace c = false) (t : Text) :
    ∃ u, compactSpace (w ++ t) = w ++ u := by
  have hsplit : ∀ {w : Text}, (∀ c ∈ w, isSpace c = false) →
      ∃ first rest, splitWhere isSpace (w ++ t) = (w ++ first) :: rest := by
    intro w h
    induction w with
    | nil => exact List.exists_cons_of_ne_nil (splitWhere_ne_nil t)
    | cons c w ih =>
        obtain ⟨hc, hw⟩ := List.forall_mem_cons.mp h
        obtain ⟨first, rest, hrest⟩ := ih hw
        exact ⟨first, rest, by rw [List.cons_append, splitWhere, if_neg (by simp [hc]), hrest]; rfl⟩
  obtain ⟨first, rest, hparts⟩ := hsplit h
  rw [compactSpace, words, hparts, List.filter_cons_of_pos (by simp [hne])]
  cases rest.filter fun part => !part.isEmpty with
  | nil => exact ⟨first, rfl⟩
  | cons next others =>
      refine ⟨first ++ ([' '] ++ joinWith [' '] (next :: others)), ?_⟩
      rw [← List.append_assoc, ← List.append_assoc]
      rfl

theorem joinWith_cons_cons (w w' : Text) (ws : List Text) :
    joinWith [' '] (w :: w' :: ws) = w ++ ' ' :: joinWith [' '] (w' :: ws) := by
  simp [joinWith]

theorem words_joinWith {ws : List Text} (h : ∀ w ∈ ws, w ≠ [] ∧ ∀ c ∈ w, isSpace c = false) :
    words (joinWith [' '] ws) = ws := by
  induction ws with
  | nil => rfl
  | cons w ws ih =>
      obtain ⟨⟨hne, hw⟩, hws⟩ := List.forall_mem_cons.mp h
      cases ws with
      | nil => exact words_word hne hw
      | cons w' ws =>
          rw [joinWith_cons_cons, words_append (by decide), words_word hne hw, ih hws]
          rfl

/-- No word goes over the end of a line. -/
theorem wordCount_lines (lines : List Text) :
    wordCount (joinWith ['\n'] lines) = (lines.map wordCount).sum := by
  induction lines with
  | nil => rfl
  | cons line lines ih =>
      cases lines with
      | nil => simp [joinWith]
      | cons next lines =>
          rw [List.map_cons, List.sum_cons, ← ih]
          show wordCount (line ++ ['\n'] ++ joinWith ['\n'] (next :: lines)) = _
          rw [List.append_assoc, List.singleton_append, wordCount_append (by decide)]

theorem rstrip_of_visible {t : Text} (h : ∀ c ∈ t, isSpace c = false) : rstrip t = t :=
  rstrip_of_closed fun c hc => h c (List.mem_of_getLast? hc)

/-- The head of a compact text is made of its first words, the last of them cut,
and of one blank at most. -/
theorem exists_heads {ws : List Text} (h : ∀ w ∈ ws, w ≠ [] ∧ ∀ c ∈ w, isSpace c = false) :
    ∀ {x : Text}, x <+: joinWith [' '] ws → ∃ hs : List Text,
      rstrip x = joinWith [' '] hs ∧ (∀ w ∈ hs, w ≠ [] ∧ ∀ c ∈ w, isSpace c = false) ∧
      (∀ w ∈ hs.dropLast, w ∈ ws) ∧ (∀ w ∈ hs.getLast?, ∃ whole ∈ ws, w <+: whole) ∧
      x.length ≤ (rstrip x).length + 1 := by
  induction ws with
  | nil =>
      intro x hx
      obtain rfl := List.prefix_nil.mp hx
      exact ⟨[], rfl, nofun, nofun, nofun, Nat.zero_le _⟩
  | cons w ws ih =>
      obtain ⟨⟨hne, hw⟩, hws⟩ := List.forall_mem_cons.mp h
      -- a head that ends within the first word
      have hwithin : ∀ {x : Text}, x <+: w → ∃ hs : List Text,
          rstrip x = joinWith [' '] hs ∧ (∀ v ∈ hs, v ≠ [] ∧ ∀ c ∈ v, isSpace c = false) ∧
          (∀ v ∈ hs.dropLast, v ∈ w :: ws) ∧ (∀ v ∈ hs.getLast?, ∃ whole ∈ w :: ws, v <+: whole) ∧
          x.length ≤ (rstrip x).length + 1 := by
        intro x hx
        have hvisible : ∀ c ∈ x, isSpace c = false := fun c hc => hw c (hx.subset hc)
        have hrstrip := rstrip_of_visible hvisible
        by_cases hnil : x = []
        · subst hnil
          exact ⟨[], rfl, nofun, nofun, nofun, Nat.zero_le _⟩
        · refine ⟨[x], hrstrip, ?_, nofun, ?_, by rw [hrstrip]; omega⟩
          · intro v hv
            rw [List.mem_singleton.mp hv]
            exact ⟨hnil, hvisible⟩
          · rintro v ⟨⟩
            exact ⟨w, List.mem_cons_self, hx⟩
      cases ws with
      | nil =>
          intro x hx
          exact hwithin hx
      | cons w' ws =>
          intro x hx
          rw [joinWith_cons_cons] at hx
          rcases List.prefix_or_prefix_of_prefix hx (List.prefix_append w _) with hshort | ⟨y, rfl⟩
          · exact hwithin hshort
          · have hy := (List.prefix_append_right_inj w).mp hx
            cases y with
            | nil =>
                rw [List.append_nil]
                exact hwithin (List.prefix_refl w)
            | cons b y =>
                obtain ⟨rfl, hrest⟩ := List.cons_prefix_cons.mp hy
                obtain ⟨hs, hjoin, hgood, hfront, hlast, hlen⟩ := ih hws hrest
                have hcut : rstrip (w ++ ' ' :: y) = rstrip (w ++ ' ' :: joinWith [' '] hs) := by
                  have hback : ∀ t : Text, w ++ ' ' :: t = (w ++ [' ']) ++ t := by simp
                  rw [← hjoin, hback y, hback (rstrip y), rstrip_append_rstrip]
                cases hs with
                | nil =>
                    have hblank : rstrip y = [] := hjoin
                    -- the words behind start with a visible character
                    have hy : y = [] := by
                      cases y with
                      | nil => rfl
                      | cons c y =>
                          have hc : isSpace c = false := by
                            refine (visible_joinWith hws).1 c ?_
                            obtain ⟨u, hu⟩ := hrest
                            rw [← hu]
                            rfl
                          rw [← List.nil_append (c :: y), rstrip_append_visible hc] at hblank
                          cases hblank
                    subst hy
                    have hw' : rstrip (w ++ [' ']) = w := by
                      rw [rstrip_append_blank (by decide), rstrip_of_visible hw]
                    refine ⟨[w], hw', ?_, nofun, ?_, by rw [hw']; simp⟩
                    · intro v hv
                      rw [List.mem_singleton.mp hv]
                      exact ⟨hne, hw⟩
                    · rintro v ⟨⟩
                      exact ⟨w, List.mem_cons_self, List.prefix_refl w⟩
                | cons v hs =>
                    have hgood' : ∀ u ∈ w :: v :: hs, u ≠ [] ∧ ∀ c ∈ u, isSpace c = false :=
                      List.forall_mem_cons.mpr ⟨⟨hne, hw⟩, hgood⟩
                    have hwhole : rstrip (w ++ ' ' :: joinWith [' '] (v :: hs)) =
                        joinWith [' '] (w :: v :: hs) := by
                      have hvisible := visible_joinWith hgood'
                      rw [← joinWith_cons_cons]
                      generalize joinWith [' '] (w :: v :: hs) = t at hvisible
                      rcases List.eq_nil_or_concat t with rfl | ⟨front, d, rfl⟩
                      · rfl
                      · rw [List.concat_eq_append] at hvisible ⊢
                        exact rstrip_append_visible (hvisible.2 d (by simp)) []
                    have hmore : ∀ u, u ∈ w' :: ws → u ∈ w :: w' :: ws :=
                      fun u hu => List.mem_cons_of_mem w hu
                    refine ⟨w :: v :: hs, by rw [hcut, hwhole], hgood', ?_, ?_, ?_⟩
                    · intro u hu
                      rcases List.mem_cons.mp hu with rfl | hu
                      · exact List.mem_cons_self
                      · exact hmore u (hfront u hu)
                    · intro u hu
                      rw [List.getLast?_cons_cons] at hu
                      obtain ⟨whole, hmem, hprefix⟩ := hlast u hu
                      exact ⟨whole, hmore whole hmem, hprefix⟩
                    · rw [hcut, hwhole, joinWith_cons_cons, ← hjoin]
                      simp only [List.length_append, List.length_cons]
                      omega

end RalphVault
