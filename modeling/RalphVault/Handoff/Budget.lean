import RalphVault.Handoff.Lines

/-!
# Handoff — the word budget

What `compact_handoff_summary` keeps and how long its result is. Lines that
start with `#` and the first items of two sections are kept whatever the
budget says; everything else has to fit.
-/

namespace RalphVault.Handoff

open Memory
open Security (redactText)
open SessionStart (splitlines joinLines)

/-! ## Words -/

/-- A mark without a blank belongs to the last word. -/
theorem joinWith_append_mark (ws : List Text) (w mark : Text) :
    joinWith [' '] (ws ++ [w]) ++ mark = joinWith [' '] (ws ++ [w ++ mark]) := by
  cases ws with
  | nil => rfl
  | cons w' ws =>
      have hne := List.cons_ne_nil w' ws
      rw [SessionStart.joinWith_append_cons _ hne, SessionStart.joinWith_append_cons _ hne,
        List.append_assoc]
      rfl

theorem wordCount_limitWords {limit : Nat} (hlimit : 0 < limit) (t : Text) :
    wordCount (limitWords t limit) = min (wordCount t) limit := by
  have hcount : wordCount t = (words t).length := rfl
  unfold limitWords
  split
  · omega
  · rename_i hlong
    have htake : ∀ w ∈ (words t).take limit, w ≠ [] ∧ ∀ c ∈ w, isSpace c = false :=
      fun w hw => mem_words (List.mem_of_mem_take hw)
    have hlength : ((words t).take limit).length = limit := by
      rw [List.length_take]
      omega
    rw [Int.toNat_natCast, rstrip_of_closed (visible_joinWith htake).2]
    generalize (words t).take limit = ws at htake hlength
    obtain ⟨front, w, rfl⟩ := (List.eq_nil_or_concat ws).resolve_left (by rintro rfl; simp at hlength; omega)
    rw [List.concat_eq_append] at htake hlength ⊢
    obtain ⟨hfront, hw⟩ := List.forall_mem_append.mp htake
    have hmark : ∀ c ∈ txt "...[truncated]", isSpace c = false := by decide
    have hlast : w ++ txt "...[truncated]" ≠ [] ∧
        ∀ c ∈ w ++ txt "...[truncated]", isSpace c = false :=
      ⟨List.append_ne_nil_of_right_ne_nil _ (by decide),
        List.forall_mem_append.mpr ⟨(hw w List.mem_cons_self).2, hmark⟩⟩
    rw [joinWith_append_mark, wordCount, words_joinWith, List.length_append, List.length_singleton]
    · rw [List.length_append, List.length_singleton] at hlength
      omega
    · exact List.forall_mem_append.mpr ⟨hfront, List.forall_mem_singleton.mpr hlast⟩

/-! ## One turn of the loop -/

/-- How many words the lines that start with `#` have. -/
def headingWords (lines : List Text) : Nat := ((lines.filter isHeading).map wordCount).sum

theorem headingWords_append (a b : List Text) :
    headingWords (a ++ b) = headingWords a + headingWords b := by
  simp [headingWords]

namespace Trim

variable {maxWords : Int}

theorem firstItem_heading {s : Trim} {line : Text} (h : isHeading line = true) :
    s.firstItem line = false := by
  obtain ⟨rest, rfl⟩ : ∃ rest, line = '#' :: rest := by
    cases line with
    | nil => cases h
    | cons c rest =>
        have hc : '#' = c := by simpa [isHeading, startsWith] using h
        exact ⟨rest, by rw [hc]⟩
  rfl

theorem lineToKeep_heading {s : Trim} {line : Text} (h : isHeading line = true) :
    s.lineToKeep line = line := by
  rw [lineToKeep, firstItem_heading h]
  rfl

/-- The first item is cut to 16 words. -/
theorem lineToKeep_firstItem {s : Trim} {line : Text} (h : s.firstItem line = true) :
    s.lineToKeep line = limitWords line 16 := by
  unfold lineToKeep
  rw [h, Bool.true_and]
  split
  · rfl
  · rename_i hshort
    have hcount : wordCount line = (RalphVault.words line).length := rfl
    rw [limitWords, if_pos]
    simp only [decide_eq_true_eq] at hshort
    omega

/-- The lines read and the state they lead to: what is kept beyond the limit
are headings and first items, one a section. -/
structure Within (maxWords : Int) (lines : List Text) (s : Trim) : Prop where
  words_eq : s.words = (s.kept.map wordCount).sum
  bound : (s.words : Int) ≤ maxWords + headingWords lines + 16 * s.protectedSeen.length
  fresh : s.protectedSeen.Nodup
  ofProtected : s.protectedSeen ⊆ protectedSections
  headings : s.kept.filter isHeading = lines.filter isHeading

theorem within_start (h : 0 ≤ maxWords) : Within maxWords [] ⟨[], [], [], 0⟩ where
  words_eq := rfl
  bound := by simpa [headingWords] using h
  fresh := List.nodup_nil
  ofProtected := List.nil_subset _
  headings := rfl

/-- What is kept of an item is no heading. -/
theorem isHeading_limitWords (rest : Text) (limit : Nat) :
    isHeading (limitWords ('-' :: ' ' :: rest) (limit + 1 : Nat)) = false := by
  unfold limitWords
  split
  · rfl
  · have hwords : RalphVault.words ('-' :: ' ' :: rest) = ['-'] :: RalphVault.words rest :=
      @words_append ' ' (by decide) ['-'] rest
    have hjoin : ∃ more, joinWith [' '] (['-'] :: (RalphVault.words rest).take limit) = '-' :: more := by
      cases (RalphVault.words rest).take limit with
      | nil => exact ⟨[], rfl⟩
      | cons w ws => exact ⟨_, rfl⟩
    obtain ⟨more, hmore⟩ := hjoin
    have hvisible := @rstrip_append_visible [] '-' (by decide) more
    rw [List.nil_append] at hvisible
    rw [Int.toNat_natCast, hwords, List.take_succ_cons, hmore, hvisible]
    rfl

theorem item_of_firstItem {s : Trim} {line : Text} (h : s.firstItem line = true) :
    ∃ rest, line = '-' :: ' ' :: rest := by
  simp only [firstItem, Bool.and_eq_true] at h
  obtain ⟨rest, hrest⟩ := List.isPrefixOf_iff_prefix.mp h.1.1
  exact ⟨rest, hrest.symm⟩

theorem protected_of_firstItem {s : Trim} {line : Text} (h : s.firstItem line = true) :
    s.section line ∈ protectedSections ∧ s.section line ∉ s.protectedSeen := by
  simp only [firstItem, Bool.and_eq_true, Bool.not_eq_true', List.contains_eq_mem,
    decide_eq_true_eq, decide_eq_false_iff_not] at h
  exact ⟨h.1.2, h.2⟩

theorem Within.step {lines : List Text} {s : Trim} (h : Within maxWords lines s) (line : Text) :
    Within maxWords (lines ++ [line]) (s.step maxWords line) := by
  have hgrows : headingWords (lines ++ [line]) = headingWords lines + headingWords [line] :=
    headingWords_append lines [line]
  have hbound := h.bound
  unfold Trim.step
  by_cases hheading : isHeading line = true
  · -- A heading is kept as it is.
    have hwords : headingWords [line] = wordCount line := by simp [headingWords, hheading]
    rw [lineToKeep_heading hheading, firstItem_heading hheading, hheading, Bool.true_or, Bool.true_or,
      if_pos rfl]
    constructor
    · simp [h.words_eq]
    · simp only [Bool.false_eq_true, if_false]
      omega
    · exact h.fresh
    · exact h.ofProtected
    · simp [h.headings, hheading]
  · have hwords : headingWords [line] = 0 := by simp [headingWords, hheading]
    have hlines : (lines ++ [line]).filter isHeading = lines.filter isHeading := by simp [hheading]
    by_cases hfirst : s.firstItem line = true
    · -- The first item of a section that has not had one yet.
      obtain ⟨hprotected, hnew⟩ := protected_of_firstItem hfirst
      obtain ⟨rest, rfl⟩ := item_of_firstItem hfirst
      have hcut : wordCount (limitWords ('-' :: ' ' :: rest) 16) =
          min (wordCount ('-' :: ' ' :: rest)) 16 := @wordCount_limitWords 16 (by decide) _
      have hitem : isHeading (limitWords ('-' :: ' ' :: rest) 16) = false :=
        isHeading_limitWords rest 15
      rw [lineToKeep_firstItem hfirst, hfirst, Bool.or_true, if_pos rfl]
      constructor
      · simp [h.words_eq]
      · simp only [if_true, List.length_cons]
        omega
      · exact List.nodup_cons.mpr ⟨hnew, h.fresh⟩
      · exact List.cons_subset.mpr ⟨hprotected, h.ofProtected⟩
      · rw [hlines, List.filter_append, h.headings]
        simp [hitem]
    · rw [Bool.not_eq_true] at hfirst
      have hkeep : s.lineToKeep line = line := by
        rw [lineToKeep, hfirst]
        rfl
      rw [hkeep, hfirst, (Bool.not_eq_true _).mp hheading, Bool.false_or, Bool.or_false]
      split
      · -- A line that fits.
        rename_i hfits
        rw [decide_eq_true_eq] at hfits
        constructor
        · simp [h.words_eq]
        · simp only [Bool.false_eq_true, if_false]
          omega
        · exact h.fresh
        · exact h.ofProtected
        · simp [h.headings, hheading]
      · constructor
        · exact h.words_eq
        · simp only []
          omega
        · exact h.fresh
        · exact h.ofProtected
        · rw [hlines]
          exact h.headings

theorem Within.run {lines : List Text} {s : Trim} (h : Within maxWords lines s) (more : List Text) :
    Within maxWords (lines ++ more) (more.foldl (Trim.step maxWords) s) := by
  induction more generalizing lines s with
  | nil =>
      rw [List.append_nil]
      exact h
  | cons line more ih =>
      rw [← List.singleton_append, ← List.append_assoc]
      exact ih (h.step line)

/-! ## What is kept -/

theorem lineToKeep_cases (s : Trim) (line : Text) :
    s.lineToKeep line = line ∨ s.lineToKeep line = limitWords line 16 := by
  unfold lineToKeep
  split
  · exact .inr rfl
  · exact .inl rfl

theorem kept_step (s : Trim) (line : Text) : (s.step maxWords line).kept = s.kept ∨
    (s.step maxWords line).kept = s.kept ++ [s.lineToKeep line] := by
  unfold Trim.step
  split
  · exact .inr rfl
  · exact .inl rfl

theorem kept_isPrefix (s : Trim) (lines : List Text) :
    s.kept <+: (lines.foldl (Trim.step maxWords) s).kept := by
  induction lines generalizing s with
  | nil => exact List.prefix_rfl
  | cons line lines ih =>
      refine List.IsPrefix.trans ?_ (ih (s.step maxWords line))
      rcases kept_step s line with h | h
      · exact h ▸ List.prefix_rfl
      · exact h ▸ List.prefix_append _ _

theorem unbroken_kept {s : Trim} {lines : List Text}
    (hkept : ∀ l ∈ s.kept, ∀ c ∈ l, isLineBoundary c = false)
    (hlines : ∀ l ∈ lines, ∀ c ∈ l, isLineBoundary c = false) :
    ∀ l ∈ (lines.foldl (Trim.step maxWords) s).kept, ∀ c ∈ l, isLineBoundary c = false := by
  induction lines generalizing s with
  | nil => exact hkept
  | cons line lines ih =>
      obtain ⟨hline, hrest⟩ := List.forall_mem_cons.mp hlines
      apply ih _ hrest
      rcases kept_step s line with h | h
      · rw [h]
        exact hkept
      · rw [h]
        refine List.forall_mem_append.mpr ⟨hkept, List.forall_mem_singleton.mpr ?_⟩
        rcases lineToKeep_cases s line with h | h
        · rw [h]
          exact hline
        · rw [h]
          exact unbroken_limitWords hline 16

/-- Nothing of the section has been read. -/
def Unread (name : Text) (s : Trim) : Prop := s.currentSection ≠ name ∧ name ∉ s.protectedSeen

theorem Unread.step {name : Text} {s : Trim} (h : Unread name s) {line : Text}
    (hline : startsWith (txt "## ") line = true → strip (line.drop 3) ≠ name) :
    Unread name (s.step maxWords line) := by
  have hsection : s.section line ≠ name := by
    unfold Trim.section
    split
    · rename_i hstarts
      exact hline hstarts
    · exact h.1
  have hseen : name ∉ if s.firstItem line then s.section line :: s.protectedSeen else s.protectedSeen := by
    split
    · rw [List.mem_cons, not_or]
      exact ⟨fun heq => hsection heq.symm, h.2⟩
    · exact h.2
  unfold Trim.step
  split
  · exact ⟨hsection, hseen⟩
  · exact ⟨hsection, h.2⟩

theorem Unread.run {name : Text} {s : Trim} (h : Unread name s) {lines : List Text}
    (hlines : ∀ line ∈ lines, startsWith (txt "## ") line = true → strip (line.drop 3) ≠ name) :
    Unread name (lines.foldl (Trim.step maxWords) s) := by
  induction lines generalizing s with
  | nil => exact h
  | cons line lines ih =>
      obtain ⟨hline, hrest⟩ := List.forall_mem_cons.mp hlines
      exact ih (h.step hline) hrest

/-- The heading of a protected section and its first item are kept, the item
cut to 16 words. -/
theorem Unread.kept {name : Text} {s : Trim} (h : Unread name s) (hname : name ∈ protectedSections)
    (item : Text) (lines : List Text) :
    [headingOf name, limitWords (itemLine item) 16] <:+:
      ((headingOf name :: itemLine item :: lines).foldl (Trim.step maxWords) s).kept := by
  have hstrip : strip name = name := by
    have hstripped : ∀ n ∈ protectedSections, strip n = n := by decide
    exact hstripped name hname
  -- The heading opens the section.
  have hheading : s.step maxWords (headingOf name) = ⟨s.kept ++ [headingOf name], name,
      s.protectedSeen, s.words + wordCount (headingOf name)⟩ := by
    have hdrop : s.section (headingOf name) = name := hstrip
    unfold Trim.step
    rw [lineToKeep_heading rfl, firstItem_heading rfl, hdrop]
    rfl
  generalize hopen : s.step maxWords (headingOf name) = opened at hheading
  have hfirst : opened.firstItem (itemLine item) = true := by
    have hsection : opened.section (itemLine item) = name := by
      rw [hheading]
      rfl
    simp only [firstItem, hsection, Bool.and_eq_true, Bool.not_eq_true', List.contains_eq_mem,
      decide_eq_true_eq, decide_eq_false_iff_not]
    refine ⟨⟨rfl, hname⟩, ?_⟩
    rw [hheading]
    exact h.2
  have hitem : (opened.step maxWords (itemLine item)).kept =
      s.kept ++ [headingOf name, limitWords (itemLine item) 16] := by
    unfold Trim.step
    rw [hfirst, Bool.or_true, if_pos rfl, lineToKeep_firstItem hfirst, hheading]
    simp
  rw [List.foldl_cons, List.foldl_cons, hopen]
  refine List.IsInfix.trans ?_ (kept_isPrefix _ lines).isInfix
  rw [hitem]
  exact (List.suffix_append _ _).isInfix

end Trim

/-! ## The mark -/

theorem visible_intText (n : Int) : ∀ c ∈ Json.intText n, isSpace c = false := by
  have hdigits : ∀ c ∈ decimalText n.natAbs, isSpace c = false := by
    intro c hc
    have hdigit := Json.isDigit_decimalText hc
    simp only [Char.isDigit, Bool.and_eq_true, decide_eq_true_eq, ge_iff_le,
      UInt32.le_iff_toNat_le] at hdigit
    have hrange : 48 ≤ c.toNat ∧ c.toNat ≤ 57 := hdigit
    simp only [isSpace, Bool.or_eq_false_iff, Bool.and_eq_false_iff, decide_eq_false_iff_not,
      beq_eq_false_iff_ne]
    omega
  unfold Json.intText
  split
  · exact List.forall_mem_cons.mpr ⟨by decide, hdigits⟩
  · exact hdigits

def markFront : Text := txt "[handoff compacted: "

/-- The last word of the mark. -/
def markEnd (maxWords : Int) : Text := txt "word_budget=" ++ Json.intText maxWords ++ [']']

theorem visible_markEnd (maxWords : Int) : ∀ c ∈ markEnd maxWords, isSpace c = false := by
  have hfront : ∀ c ∈ txt "word_budget=", isSpace c = false := by decide
  exact List.forall_mem_append.mpr ⟨List.forall_mem_append.mpr ⟨hfront, visible_intText maxWords⟩,
    by decide⟩

theorem trimMark_eq (maxWords : Int) :
    trimMark maxWords = txt "[handoff" ++ ' ' :: (txt "compacted:" ++ ' ' :: markEnd maxWords) := rfl

theorem wordCount_trimMark (maxWords : Int) : wordCount (trimMark maxWords) = 3 := by
  have hfirst : wordCount (txt "[handoff") = 1 := by decide
  have hsecond : wordCount (txt "compacted:") = 1 := by decide
  have hend : markEnd maxWords ≠ [] := List.append_ne_nil_of_right_ne_nil _ (List.cons_ne_nil _ _)
  rw [trimMark_eq, wordCount_append (by decide), wordCount_append (by decide), hfirst, hsecond,
    wordCount_word hend (visible_markEnd maxWords)]

theorem line_trimMark (maxWords : Int) : Line (trimMark maxWords) := by
  have hfront : ∀ c ∈ markFront, isLineBoundary c = false := by decide
  refine ⟨List.append_ne_nil_of_right_ne_nil _ (List.cons_ne_nil _ _), ?_, ?_⟩
  · intro c hc
    rcases List.mem_append.mp (show c ∈ markFront ++ markEnd maxWords from hc) with
      hc | hc
    · exact hfront c hc
    · by_contra hne
      have hspace := AutoResearch.isSpace_of_lineBoundary (by simpa using hne)
      rw [visible_markEnd maxWords c hc] at hspace
      cases hspace
  · intro c hc
    rw [trimMark, List.getLast?_concat] at hc
    cases hc
    decide

/-! ## What comes out -/

section Result

variable {maxWords : Int} {sections : List (Text × List Text)} {legacy : List (List Text)}

/-- A text over its budget, as its lines. -/
theorem trimToBudget_lines {rest : List Text} (h : Lines (handoffTitle :: rest))
    (hover : 0 < maxWords ∧ maxWords < wordCount (joinLines (handoffTitle :: rest))) :
    Lines (keptLines maxWords (handoffTitle :: rest) ++ [[], trimMark maxWords]) ∧
      trimToBudget (joinLines (handoffTitle :: rest)) maxWords =
        joinLines (keptLines maxWords (handoffTitle :: rest) ++ [[], trimMark maxWords]) := by
  have hunbroken : ∀ l ∈ keptLines maxWords (handoffTitle :: rest), ∀ c ∈ l, isLineBoundary c = false :=
    Trim.unbroken_kept nofun h.unbroken
  obtain ⟨more, hmore⟩ : ∃ more, keptLines maxWords (handoffTitle :: rest) = handoffTitle :: more := by
    obtain ⟨more, hmore⟩ := @Trim.kept_isPrefix maxWords
      (Trim.step maxWords ⟨[], [], [], 0⟩ handoffTitle) rest
    exact ⟨more, hmore.symm⟩
  have hlines : Lines (keptLines maxWords (handoffTitle :: rest) ++ [[], trimMark maxWords]) := by
    refine ⟨List.forall_mem_append.mpr ⟨hunbroken, ?_⟩, keptLines maxWords (handoffTitle :: rest) ++ [[]],
      trimMark maxWords, by simp, line_trimMark maxWords⟩
    exact List.forall_mem_cons.mpr
      ⟨nofun, List.forall_mem_singleton.mpr (line_trimMark maxWords).unbroken⟩
  refine ⟨hlines, ?_⟩
  unfold trimToBudget
  rw [if_neg (by omega), h.splitlines]
  have hbreak : joinLines (keptLines maxWords (handoffTitle :: rest) ++ ['\n' :: trimMark maxWords]) =
      joinLines (keptLines maxWords (handoffTitle :: rest) ++ [[], trimMark maxWords]) := by
    rw [hmore, joinLines, joinLines, SessionStart.joinWith_append_cons _ (List.cons_ne_nil _ _),
      SessionStart.joinWith_append_cons _ (List.cons_ne_nil _ _)]
    rfl
  rw [hbreak]
  rw [hmore] at hlines ⊢
  exact hlines.strip_joinLines (by decide)

/-- A section with its first item stands in the lines before they are cut. -/
theorem handoffLines_split {earlier later : List (Text × List Text)} {name item : Text}
    {items : List Text} : ∃ more, handoffLines (earlier ++ (name, item :: items) :: later) legacy =
      ([handoffTitle, [], handoffNote] ++ earlier.flatMap sectionLines ++ [[]]) ++
        headingOf name :: itemLine item :: more := by
  refine ⟨items.map itemLine ++ later.flatMap sectionLines ++ legacy.flatMap fun block => [] :: block, ?_⟩
  simp [handoffLines, sectionLines]

theorem firstItem_shown {earlier later : List (Text × List Text)} {name item : Text}
    {items : List Text} (hname : name ∈ protectedSections)
    (hearlier : ∀ s ∈ earlier, strip s.1 ≠ name) :
    [headingOf name, limitWords (itemLine item) 16] <:+:
      keptLines maxWords (handoffLines (earlier ++ (name, item :: items) :: later) legacy) := by
  obtain ⟨more, hsplit⟩ := @handoffLines_split legacy _ _ _ _ _
  have hstart : Trim.Unread name ⟨[], [], [], 0⟩ := by
    have hnone : ([] : Text) ∉ protectedSections := by decide
    refine ⟨fun hempty => hnone ?_, List.not_mem_nil⟩
    rw [show [] = name from hempty]
    exact hname
  rw [hsplit, keptLines, List.foldl_append]
  refine Trim.Unread.kept (hstart.run ?_) hname item more
  intro line hline hstarts
  rcases List.mem_append.mp hline with hline | hline
  · rcases List.mem_append.mp hline with hline | hline
    · simp only [List.mem_cons, List.not_mem_nil, or_false] at hline
      rcases hline with rfl | rfl | rfl <;> cases hstarts
    · obtain ⟨s, hs, hline⟩ := List.mem_flatMap.mp hline
      rcases List.mem_cons.mp hline with rfl | hline
      · cases hstarts
      · rcases List.mem_cons.mp hline with rfl | hline
        · exact hearlier s hs
        · obtain ⟨x, -, rfl⟩ := List.mem_map.mp hline
          cases hstarts
  · rw [List.mem_singleton.mp hline] at hstarts
    cases hstarts

/-- The lines that start with `#`. -/
theorem headings_handoffLines : (handoffLines sections legacy).filter isHeading =
    handoffTitle :: sections.map (fun s => headingOf s.1) ++ legacy.flatten.filter isHeading := by
  have hitems : ∀ items : List Text, (items.map itemLine).filter isHeading = [] := by
    intro items
    rw [List.filter_eq_nil_iff]
    intro l hl
    obtain ⟨x, -, rfl⟩ := List.mem_map.mp hl
    exact Bool.false_ne_true
  have hsections : (sections.flatMap sectionLines).filter isHeading =
      sections.map fun s => headingOf s.1 := by
    induction sections with
    | nil => rfl
    | cons s sections ih =>
        rw [List.flatMap_cons, List.filter_append, ih]
        show headingOf s.1 :: (s.2.map itemLine).filter isHeading ++ _ = _
        rw [hitems]
        rfl
  have hlegacy : (legacy.flatMap fun block => [] :: block).filter isHeading =
      legacy.flatten.filter isHeading := by
    induction legacy with
    | nil => rfl
    | cons block legacy ih =>
        rw [List.flatMap_cons, List.filter_append, ih, List.flatten_cons, List.filter_append]
        rfl
  rw [handoffLines, List.filter_append, List.filter_append, hsections, hlegacy]
  rfl

/-- The lines of the text that comes out. -/
def shownLines (maxWords : Int) (lines : List Text) : List Text :=
  if 0 < maxWords ∧ maxWords < wordCount (joinLines lines) then
    keptLines maxWords lines ++ [[], trimMark maxWords]
  else lines

theorem shownLines_eq {rest : List Text} (h : Lines (handoffTitle :: rest)) :
    Lines (shownLines maxWords (handoffTitle :: rest)) ∧
      trimToBudget (joinLines (handoffTitle :: rest)) maxWords =
        joinLines (shownLines maxWords (handoffTitle :: rest)) := by
  unfold shownLines
  split
  · rename_i hover
    exact trimToBudget_lines h hover
  · refine ⟨h, ?_⟩
    rw [trimToBudget, if_pos (by omega)]

theorem within_keptLines (h : 0 < maxWords) (lines : List Text) :
    Trim.Within maxWords lines (lines.foldl (Trim.step maxWords) ⟨[], [], [], 0⟩) :=
  (Trim.within_start h.le).run lines

theorem headings_shownLines (lines : List Text) :
    (shownLines maxWords lines).filter isHeading = lines.filter isHeading := by
  unfold shownLines
  split
  · rename_i hover
    rw [List.filter_append, keptLines, (within_keptLines hover.1 lines).headings]
    exact List.append_nil _
  · rfl

theorem wordCount_shownLines (h : 0 < maxWords) (lines : List Text) :
    (wordCount (joinLines (shownLines maxWords lines)) : Int) ≤
      maxWords + headingWords lines + 35 := by
  unfold shownLines
  split
  · have hwithin := within_keptLines h lines
    have hseen : (lines.foldl (Trim.step maxWords) ⟨[], [], [], 0⟩).protectedSeen.length ≤ 2 :=
      (List.subperm_of_subset hwithin.fresh hwithin.ofProtected).length_le
    have hbound := hwithin.bound
    have hcount : wordCount (joinLines (keptLines maxWords lines ++ [[], trimMark maxWords])) =
        (lines.foldl (Trim.step maxWords) ⟨[], [], [], 0⟩).words + 3 := by
      rw [joinLines, wordCount_lines, List.map_append, List.sum_append, hwithin.words_eq]
      show _ + (0 + (wordCount (trimMark maxWords) + 0)) = _
      rw [wordCount_trimMark]
      rfl
    omega
  · omega

theorem item_shownLines {lines : List Text} {name item : Text}
    (hwhole : [headingOf name, itemLine item] <:+: lines)
    (hkept : [headingOf name, limitWords (itemLine item) 16] <:+: keptLines maxWords lines) :
    [headingOf name, if 0 < maxWords ∧ maxWords < wordCount (joinLines lines) then
      limitWords (itemLine item) 16 else itemLine item] <:+: shownLines maxWords lines := by
  unfold shownLines
  split
  · exact hkept.trans (List.prefix_append _ _).isInfix
  · exact hwhole

theorem headingWords_handoffLines (h : sections.map Prod.fst = sectionOrder) :
    headingWords (handoffLines sections legacy) = 27 + headingWords legacy.flatten := by
  have hnames : sections.map (fun s => headingOf s.1) = sectionOrder.map headingOf := by
    rw [← h, List.map_map]
    rfl
  have hfixed : ((handoffTitle :: sectionOrder.map headingOf).map wordCount).sum = 27 := by decide
  rw [headingWords, headings_handoffLines, hnames, List.map_append, List.sum_append, hfixed]
  rfl

end Result

/-! ## The bound -/

section Bound

variable (uni : Unicode) (lower : Text → Text) (defaultMaxWords : Int) (summary nextStep : Text)

/-- The legacy sections of a summary. -/
def legacyOf : List (List Text) :=
  compactLegacySections uni defaultMaxWords (redactText uni summary).1

/-- The lines before they are cut. -/
def linesOf : List Text :=
  handoffLines (extractSections uni lower (redactText uni summary).1 (redactText uni nextStep).1)
    (legacyOf uni defaultMaxWords summary)

/-- What is shown of a first item: cut to 16 words if the text is over its
budget. -/
def shownItem (maxWords : Int) (item : Text) : Text :=
  if 0 < maxWords ∧
      maxWords < wordCount (renderedHandoff uni lower defaultMaxWords summary nextStep) then
    limitWords (itemLine item) 16
  else itemLine item

theorem lines_linesOf : Lines (linesOf uni lower defaultMaxWords summary nextStep) :=
  lines_handoffLines (listed_extractSections _ _) (lines_compactLegacySections _ _)

theorem renderedHandoff_eq : renderedHandoff uni lower defaultMaxWords summary nextStep =
    joinLines (linesOf uni lower defaultMaxWords summary nextStep) :=
  rendered_eq (listed_extractSections _ _) (lines_compactLegacySections _ _)

theorem compactHandoffSummary_lines (maxWords : Int) :
    Lines (shownLines maxWords (linesOf uni lower defaultMaxWords summary nextStep)) ∧
      compactHandoffSummary uni lower defaultMaxWords summary nextStep maxWords =
        joinLines (shownLines maxWords (linesOf uni lower defaultMaxWords summary nextStep)) := by
  rw [compactHandoffSummary, renderedHandoff_eq]
  exact shownLines_eq (lines_linesOf uni lower defaultMaxWords summary nextStep)

/-- What `compact_handoff_summary` returns, and how long it is. -/
structure Compacted (maxWords : Int) (out : Text) : Prop where
  bounded : 0 < maxWords → (wordCount out : Int) ≤
    maxWords + headingWords (legacyOf uni defaultMaxWords summary).flatten + 62
  whole : maxWords ≤ 0 → out = renderedHandoff uni lower defaultMaxWords summary nextStep
  headings : (splitlines out).filter isHeading = handoffTitle :: sectionOrder.map headingOf ++
    (legacyOf uni defaultMaxWords summary).flatten.filter isHeading
  goal : ∃ goal goals, extractGoal uni lower (redactText uni summary).1 = goal :: goals ∧
    [headingOf (txt "Current goal"),
      shownItem uni lower defaultMaxWords summary nextStep maxWords goal] <:+: splitlines out
  nextAction : ∃ action actions,
    extractNextActions uni lower (redactText uni summary).1 (redactText uni nextStep).1 =
        action :: actions ∧
      [headingOf (txt "Next actions"),
        shownItem uni lower defaultMaxWords summary nextStep maxWords action] <:+: splitlines out

variable {uni lower defaultMaxWords summary nextStep}

theorem first_shown {earlier later : List (Text × List Text)} {name item : Text} {items : List Text}
    (hname : name ∈ protectedSections)
    (hsections : extractSections uni lower (redactText uni summary).1 (redactText uni nextStep).1 =
      earlier ++ (name, item :: items) :: later)
    (hearlier : ∀ s ∈ earlier, strip s.1 ≠ name) (maxWords : Int) :
    [headingOf name, shownItem uni lower defaultMaxWords summary nextStep maxWords item] <:+:
      splitlines (compactHandoffSummary uni lower defaultMaxWords summary nextStep maxWords) := by
  obtain ⟨hlines, hout⟩ :=
    compactHandoffSummary_lines uni lower defaultMaxWords summary nextStep maxWords
  have hsplit : linesOf uni lower defaultMaxWords summary nextStep =
      handoffLines (earlier ++ (name, item :: items) :: later)
        (legacyOf uni defaultMaxWords summary) := by
    rw [linesOf, hsections]
  rw [hout, hlines.splitlines, shownItem, renderedHandoff_eq, hsplit]
  apply item_shownLines
  · obtain ⟨more, hmore⟩ := @handoffLines_split (legacyOf uni defaultMaxWords summary) _ _ _ _ _
    rw [hmore]
    exact ⟨_, more, by rw [List.append_assoc]; rfl⟩
  · exact firstItem_shown hname hearlier

variable (uni lower defaultMaxWords summary nextStep)

theorem goal_shown (maxWords : Int) :
    ∃ goal goals, extractGoal uni lower (redactText uni summary).1 = goal :: goals ∧
      [headingOf (txt "Current goal"),
          shownItem uni lower defaultMaxWords summary nextStep maxWords goal] <:+:
        splitlines (compactHandoffSummary uni lower defaultMaxWords summary nextStep maxWords) := by
  have hsections := @extractSections_goal uni lower (redactText uni summary).1
    (redactText uni nextStep).1
  obtain ⟨goal, goals, hgoal⟩ := List.exists_cons_of_ne_nil
    (@extractGoal_ne_nil uni lower (redactText uni summary).1)
  rw [hgoal] at hsections
  refine ⟨goal, goals, hgoal, ?_⟩
  exact @first_shown uni lower defaultMaxWords summary nextStep [] _ _ goal goals
    List.mem_cons_self hsections nofun maxWords

theorem nextAction_shown (maxWords : Int) :
    ∃ action actions, extractNextActions uni lower (redactText uni summary).1
        (redactText uni nextStep).1 = action :: actions ∧
      [headingOf (txt "Next actions"),
          shownItem uni lower defaultMaxWords summary nextStep maxWords action] <:+:
        splitlines (compactHandoffSummary uni lower defaultMaxWords summary nextStep maxWords) := by
  have hsections := @extractSections_nextActions uni lower (redactText uni summary).1
    (redactText uni nextStep).1
  have hnames := @names_extractSections uni lower (redactText uni summary).1
    (redactText uni nextStep).1
  obtain ⟨action, actions, haction⟩ := List.exists_cons_of_ne_nil
    (@extractNextActions_ne_nil uni lower (redactText uni summary).1 (redactText uni nextStep).1)
  rw [haction] at hsections
  refine ⟨action, actions, haction, ?_⟩
  refine @first_shown uni lower defaultMaxWords summary nextStep _ [] _ action actions
    (List.mem_cons_of_mem _ List.mem_cons_self) hsections ?_ maxWords
  intro s hs
  have hother : ∀ name ∈ sectionOrder.take 7, strip name ≠ txt "Next actions" := by decide
  apply hother
  rw [← hnames, ← List.map_take]
  exact List.mem_map_of_mem hs

/-- **A handoff over its budget has at most 62 words more than the budget,
apart from the lines of legacy sections that start with `#`.** -/
theorem compactHandoffSummary_compacted (maxWords : Int) :
    Compacted uni lower defaultMaxWords summary nextStep maxWords
      (compactHandoffSummary uni lower defaultMaxWords summary nextStep maxWords) := by
  obtain ⟨hlines, hout⟩ :=
    compactHandoffSummary_lines uni lower defaultMaxWords summary nextStep maxWords
  have hnames := @names_extractSections uni lower (redactText uni summary).1
    (redactText uni nextStep).1
  constructor
  · intro hpos
    have hbound := wordCount_shownLines hpos (linesOf uni lower defaultMaxWords summary nextStep)
    rw [linesOf, headingWords_handoffLines hnames] at hbound
    rw [hout, linesOf]
    omega
  · intro hnone
    rw [compactHandoffSummary, trimToBudget, if_pos (.inl hnone)]
  · have hheadings : (extractSections uni lower (redactText uni summary).1
        (redactText uni nextStep).1).map (fun s => headingOf s.1) = sectionOrder.map headingOf := by
      rw [← hnames, List.map_map]
      rfl
    rw [hout, hlines.splitlines, headings_shownLines, linesOf, headings_handoffLines, hheadings]
  · exact goal_shown uni lower defaultMaxWords summary nextStep maxWords
  · exact nextAction_shown uni lower defaultMaxWords summary nextStep maxWords

/-- A limit of five words, and nothing to hand over. -/
theorem nothing_to_hand_over :
    (wordCount (compactHandoffSummary Unicode.ascii asciiLower 750 [] [] 5) : Int) ≤
      5 + headingWords (legacyOf Unicode.ascii 750 []).flatten + 62 :=
  (compactHandoffSummary_compacted Unicode.ascii asciiLower 750 [] [] 5).bounded (by decide)

end Bound

/-! ## Many legacy sections -/

/-- A text with no more characters than one copy stands in two copies. -/
theorem infix_copies {w copy : Text} (hw : w.length ≤ copy.length) {n : Nat}
    (h : w <:+: (List.replicate n copy).flatten) : w <:+: copy ++ copy := by
  induction n with
  | zero =>
      rw [List.replicate_zero, List.flatten_nil, List.infix_nil] at h
      exact h ▸ List.nil_infix
  | succ n ih =>
      rw [List.replicate_succ, List.flatten_cons, List.infix_append_iff] at h
      rcases h with h | h | ⟨front, back, rfl, hfront, hback⟩
      · exact h.trans (List.prefix_append _ _).isInfix
      · exact ih h
      · -- The part in the other copies lies in the next of them.
        have hnext : back <+: copy := by
          cases n with
          | zero =>
              rw [List.replicate_zero, List.flatten_nil, List.prefix_nil] at hback
              exact hback ▸ List.nil_prefix
          | succ n =>
              rw [List.replicate_succ, List.flatten_cons] at hback
              rw [List.length_append] at hw
              exact List.prefix_of_prefix_length_le hback (List.prefix_append _ _) (by omega)
        obtain ⟨before, hbefore⟩ := hfront
        obtain ⟨after, hafter⟩ := hnext
        refine ⟨before, after, ?_⟩
        rw [← List.append_assoc, hbefore, List.append_assoc, hafter]

def rollingSection : Text := txt "## Rolling Checkpoint\n\nx\n\n"

def rollingSections (n : Nat) : Text := (List.replicate n rollingSection).flatten

theorem redactText_rollingSections (uni : Unicode) (n : Nat) :
    (redactText uni (rollingSections n)).1 = rollingSections n := by
  apply Security.redactText_of_not_red
  rw [← Bool.not_eq_true]
  intro hred
  obtain ⟨w, hw, hfound⟩ := Security.isRed_hasFragment hred
  have hshort : ∀ w ∈ Security.fragments, w.length ≤ (rollingSection.map foldCase).length := by decide
  have habsent : ∀ w ∈ Security.fragments,
      ¬ w <:+: rollingSection.map foldCase ++ rollingSection.map foldCase := by decide +kernel
  rw [rollingSections, List.map_flatten, List.map_replicate] at hfound
  exact habsent w hw (infix_copies (hshort w hw) hfound)

theorem legacyFrom_rollingSections (n : Nat) : legacyFrom 0 true (rollingSections n) =
    List.replicate n (rollingCheckpoint, txt "x\n\n") := by
  induction n with
  | zero => rfl
  | succ n ih =>
      have hbody : bodyOf true (txt "x\n\n" ++ rollingSections n) = txt "x\n\n" := by
        cases n with
        | zero => rfl
        | succ n => rfl
      have hat : legacyAt (rollingSection ++ rollingSections n) =
          some (rollingCheckpoint, txt "x\n\n") := by
        rw [← hbody]
        rfl
      have hfrom : legacyFrom 0 true (rollingSection ++ rollingSections n) =
          (rollingCheckpoint, txt "x\n\n") :: legacyFrom 0 true (rollingSections n) := by
        generalize rollingSections n = rest at hat
        change legacyAt ('#' :: (rollingSection.tail ++ rest)) = _ at hat
        show legacyFrom 0 true ('#' :: (rollingSection.tail ++ rest)) = _
        rw [legacyFrom, if_pos rfl, hat]
        rfl
      rw [List.replicate_succ, ← ih, ← hfrom]
      rfl

def rollingBlock : List Text := [headingOf rollingCheckpoint, [], ['x']]

theorem legacyBlock_rolling :
    legacyBlock Unicode.ascii 750 (rollingCheckpoint, txt "x\n\n") = some rollingBlock := by
  decide +kernel

theorem legacyOf_rollingSections (n : Nat) :
    legacyOf Unicode.ascii 750 (rollingSections n) = List.replicate n rollingBlock := by
  rw [legacyOf, redactText_rollingSections, compactLegacySections, legacyFrom_rollingSections]
  exact List.filterMap_replicate_of_some legacyBlock_rolling

theorem headingWords_rolling (n : Nat) :
    headingWords (List.replicate n rollingBlock).flatten = 3 * n := by
  have hblock : headingWords rollingBlock = 3 := by decide
  induction n with
  | zero => rfl
  | succ n ih =>
      rw [List.replicate_succ, List.flatten_cons, headingWords_append, ih, hblock]
      omega

theorem headingWords_le (lines : List Text) : headingWords lines ≤ (lines.map wordCount).sum := by
  induction lines with
  | nil => exact Nat.le_refl 0
  | cons line lines ih =>
      have hsplit := headingWords_append [line] lines
      have hline : headingWords [line] ≤ wordCount line := by
        unfold headingWords
        cases hheading : isHeading line <;> simp [hheading]
      rw [List.singleton_append] at hsplit
      rw [hsplit, List.map_cons, List.sum_cons]
      omega

/-- Every heading stays, so no number of words more than the limit is enough
for every summary. -/
theorem many_legacy_sections : ¬ ∃ extra : Nat, ∀ (summary nextStep : Text) (maxWords : Int),
    0 < maxWords → (wordCount (compactHandoffSummary Unicode.ascii asciiLower 750 summary nextStep
      maxWords) : Int) ≤ maxWords + extra := by
  rintro ⟨extra, hbound⟩
  have hwords := hbound (rollingSections extra) [] 1 (by decide)
  obtain ⟨-, hout⟩ := compactHandoffSummary_lines Unicode.ascii asciiLower 750
    (rollingSections extra) [] 1
  have hkept := headingWords_le (shownLines 1 (linesOf Unicode.ascii asciiLower 750
    (rollingSections extra) []))
  have hheadings : headingWords (shownLines 1 (linesOf Unicode.ascii asciiLower 750
      (rollingSections extra) [])) = 27 + 3 * extra := by
    rw [headingWords, headings_shownLines, ← headingWords, linesOf,
      headingWords_handoffLines (names_extractSections _ _), legacyOf_rollingSections,
      headingWords_rolling]
  rw [hout, joinLines, wordCount_lines] at hwords
  omega

end RalphVault.Handoff
