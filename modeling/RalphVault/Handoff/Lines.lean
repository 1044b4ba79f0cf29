import RalphVault.Handoff.Compaction
import RalphVault.Archive.Manifest
import RalphVault.SessionStart.Fence

/-!
# Handoff — the lines

What `compact_handoff_summary` renders is a list of lines: every item, every
heading and every line of a legacy section is one line.
-/

namespace RalphVault.Handoff

open Memory
open Security (redactText)
open SessionStart (splitlines joinLines)

/-! ## Lines -/

/-- One line that ends with a visible character. -/
structure Line (t : Text) : Prop where
  nonempty : t ≠ []
  unbroken : ∀ c ∈ t, isLineBoundary c = false
  closed : ∀ c ∈ t.getLast?, isSpace c = false

theorem joinLines_cons_cons (l l' : Text) (ls : List Text) :
    joinLines (l :: l' :: ls) = l ++ '\n' :: joinLines (l' :: ls) := by
  simp [joinLines, joinWith]

/-- Lines, the last of them not empty. -/
structure Lines (ls : List Text) : Prop where
  unbroken : ∀ l ∈ ls, ∀ c ∈ l, isLineBoundary c = false
  last : ∃ front l, ls = front ++ [l] ∧ Line l

namespace Lines

variable {ls : List Text}

theorem ne_nil (h : Lines ls) : ls ≠ [] := by
  obtain ⟨front, l, rfl, -⟩ := h.last
  simp

theorem append {ms : List Text} (h : Lines ls) (hm : Lines ms) : Lines (ls ++ ms) := by
  obtain ⟨front, l, rfl, hl⟩ := hm.last
  exact ⟨List.forall_mem_append.mpr ⟨h.unbroken, hm.unbroken⟩,
    ls ++ front, l, (List.append_assoc _ _ _).symm, hl⟩

theorem flatMap {f : β → List Text} {xs : List β} (h : Lines ls) (hf : ∀ x ∈ xs, Lines (f x)) :
    Lines (ls ++ xs.flatMap f) := by
  induction xs generalizing ls with
  | nil =>
      rw [List.flatMap_nil, List.append_nil]
      exact h
  | cons x xs ih =>
      obtain ⟨hx, hxs⟩ := List.forall_mem_cons.mp hf
      rw [List.flatMap_cons, ← List.append_assoc]
      exact ih (h.append hx) hxs

/-- Lines are read back from their text. -/
theorem splitlines (h : Lines ls) : splitlines (joinLines ls) = ls := by
  obtain ⟨hunbroken, front, last, rfl, hlast⟩ := h
  induction front with
  | nil => exact Archive.splitlines_single hlast.nonempty hlast.unbroken
  | cons l front ih =>
      obtain ⟨hl, hrest⟩ := List.forall_mem_cons.mp hunbroken
      obtain ⟨l', ls, hls⟩ := List.exists_cons_of_ne_nil
        (List.append_ne_nil_of_right_ne_nil front (List.cons_ne_nil last []))
      rw [List.cons_append, hls, joinLines_cons_cons, AutoResearch.splitlines_line hl, ← hls,
        ih hrest]

theorem closed (h : Lines ls) : ∀ c ∈ (joinLines ls).getLast?, isSpace c = false := by
  obtain ⟨front, last, rfl, hlast⟩ := h.last
  rw [SessionStart.joinLines_append_singleton, List.getLast?_append_of_ne_nil _ hlast.nonempty]
  exact hlast.closed

/-- The text of lines is stripped if the first of them starts with a visible
character. -/
theorem strip_joinLines {c : Char} {t : Text} (h : Lines ((c :: t) :: ls)) (hc : isSpace c = false) :
    strip (joinLines ((c :: t) :: ls)) = joinLines ((c :: t) :: ls) := by
  apply strip_of_visible _ h.closed
  intro d hd
  have hfirst : (joinLines ((c :: t) :: ls)).head? = some c := by
    cases ls <;> rfl
  rw [hfirst] at hd
  cases hd
  exact hc

/-- Blocks of lines under one another, an empty line between them. -/
theorem joinWith_blocks {blocks : List (List Text)} (h : ls ≠ []) (hblocks : ∀ b ∈ blocks, b ≠ []) :
    joinWith (txt "\n\n") (joinLines ls :: blocks.map joinLines) =
      joinLines (ls ++ blocks.flatMap fun b => [] :: b) := by
  induction blocks generalizing ls with
  | nil =>
      rw [List.flatMap_nil, List.append_nil]
      rfl
  | cons b blocks ih =>
      obtain ⟨hb, hrest⟩ := List.forall_mem_cons.mp hblocks
      obtain ⟨l, b', rfl⟩ := List.exists_cons_of_ne_nil hb
      have hcons : joinWith (txt "\n\n") (joinLines ls :: ((l :: b') :: blocks).map joinLines) =
          joinLines ls ++ txt "\n\n" ++
            joinWith (txt "\n\n") (joinLines (l :: b') :: blocks.map joinLines) := rfl
      rw [hcons, ih hb hrest, List.flatMap_cons, joinLines, joinLines, joinLines,
        List.cons_append, List.cons_append, SessionStart.joinWith_append_cons _ h]
      simp [joinWith, txt]

end Lines

/-- A compact text that is not empty is a line. -/
theorem line_compactSpace {t : Text} (h : compactSpace t ≠ []) : Line (compactSpace t) := by
  refine ⟨h, fun c hc => ?_, (compactSpace_visible t).2⟩
  rcases compactSpace_chars t c hc with hspace | rfl
  · by_contra hne
    rw [AutoResearch.isSpace_of_lineBoundary (by simpa using hne)] at hspace
    cases hspace
  · decide

section Items

variable {uni : Unicode} {lower : Text → Text}

theorem line_dedupeFrom {lines : List Text} : ∀ {seen : List Text} {limit : Nat},
    ∀ x ∈ dedupeFrom uni seen limit lines, Line x := by
  induction lines with
  | nil =>
      intro seen limit x hx
      cases limit <;> exact absurd hx List.not_mem_nil
  | cons line lines ih =>
      intro seen limit x hx
      cases limit with
      | zero => exact absurd hx List.not_mem_nil
      | succ limit =>
          simp only [dedupeFrom] at hx
          split at hx
          · exact ih x hx
          · rename_i hnew
            rcases List.mem_cons.mp hx with hx | hx
            · rw [hx]
              unfold normalizeLine at hnew ⊢
              apply line_compactSpace
              intro hnil
              apply hnew
              simp [hnil]
            · exact ih x hx

theorem line_orElse {items default : List Text} (hitems : ∀ x ∈ items, Line x)
    (hdefault : ∀ x ∈ default, Line x) : ∀ x ∈ orElse items default, Line x := by
  unfold orElse
  split
  · exact hdefault
  · exact hitems

theorem orElse_ne_nil {items default : List Text} (h : default ≠ []) : orElse items default ≠ [] := by
  unfold orElse
  split
  · exact h
  · rename_i hitems
    rintro rfl
    exact hitems rfl

theorem line_none : ∀ x ∈ [txt "none"], Line x := by
  intro x hx
  rw [List.mem_singleton.mp hx]
  exact ⟨by decide, by decide, by decide⟩

theorem line_linesMatching (text : Text) (patterns : List Text) (limit : Nat) :
    ∀ x ∈ linesMatching uni lower text patterns limit, Line x := by
  unfold linesMatching dedupe
  exact line_dedupeFrom

theorem line_extractGoal (text : Text) : ∀ x ∈ extractGoal uni lower text, Line x := by
  unfold extractGoal
  apply line_orElse (line_linesMatching text _ 3)
  split
  · rename_i normalized hfound
    intro x hx
    rw [List.mem_singleton.mp hx]
    have hmem := List.mem_of_find?_eq_some hfound
    have hshape := List.find?_some hfound
    obtain ⟨line, -, rfl⟩ := List.mem_map.mp hmem
    unfold normalizeLine at hshape ⊢
    apply line_compactSpace
    intro hnil
    simp [hnil] at hshape
  · exact line_none

theorem extractGoal_ne_nil (text : Text) : extractGoal uni lower text ≠ [] := by
  unfold extractGoal
  apply orElse_ne_nil
  split <;> exact List.cons_ne_nil _ _

theorem extractNextActions_ne_nil (text nextStep : Text) :
    extractNextActions uni lower text nextStep ≠ [] := by
  unfold extractNextActions
  exact orElse_ne_nil (List.cons_ne_nil _ _)

/-- A section with a title of one line and with items, each of one line. -/
structure Listed (s : Text × List Text) : Prop where
  title : Line (headingOf s.1)
  items : s.2 ≠ []
  lines : ∀ x ∈ s.2, Line x

theorem line_headingOf : ∀ name ∈ sectionOrder, Line (headingOf name) := by
  have hlines : ∀ name ∈ sectionOrder, headingOf name ≠ [] ∧
      (∀ c ∈ headingOf name, isLineBoundary c = false) ∧
        ∀ c ∈ (headingOf name).getLast?, isSpace c = false := by decide
  intro name hname
  obtain ⟨hne, hunbroken, hclosed⟩ := hlines name hname
  exact ⟨hne, hunbroken, hclosed⟩

theorem names_extractSections (text nextStep : Text) :
    (extractSections uni lower text nextStep).map Prod.fst = sectionOrder := rfl

/-- The first section. -/
theorem extractSections_goal (text nextStep : Text) : extractSections uni lower text nextStep =
    (txt "Current goal", extractGoal uni lower text) ::
      (extractSections uni lower text nextStep).tail := by
  simp only [extractSections, List.tail_cons]

/-- The last section. -/
theorem extractSections_nextActions (text nextStep : Text) :
    extractSections uni lower text nextStep = (extractSections uni lower text nextStep).take 7 ++
      [(txt "Next actions", extractNextActions uni lower text nextStep)] := by
  simp only [extractSections, List.take_succ_cons, List.take_zero, List.cons_append, List.nil_append]

theorem items_extractSections (text nextStep : Text) :
    ∀ s ∈ extractSections uni lower text nextStep, s.2 ≠ [] ∧ ∀ x ∈ s.2, Line x := by
  have hmatching : ∀ items : List Text, (∀ x ∈ items, Line x) →
      orElse items [txt "none"] ≠ [] ∧ ∀ x ∈ orElse items [txt "none"], Line x :=
    fun items hitems => ⟨orElse_ne_nil (List.cons_ne_nil _ _), line_orElse hitems line_none⟩
  have htrace : ∀ x ∈ [txt "Large raw tool outputs, repeated prose, stack traces, and large diffs were intentionally compacted."],
      Line x := by
    intro x hx
    rw [List.mem_singleton.mp hx]
    exact ⟨by decide, by decide, by decide⟩
  simp only [extractSections, List.forall_mem_cons]
  exact ⟨⟨extractGoal_ne_nil text, line_extractGoal text⟩, hmatching _ line_dedupeFrom, hmatching _ line_dedupeFrom,
    hmatching _ line_dedupeFrom, hmatching _ line_dedupeFrom, hmatching _ line_dedupeFrom,
    ⟨orElse_ne_nil (List.cons_ne_nil _ _), line_orElse line_dedupeFrom htrace⟩,
    hmatching _ line_dedupeFrom, fun _ hs => absurd hs List.not_mem_nil⟩

theorem listed_extractSections (text nextStep : Text) :
    ∀ s ∈ extractSections uni lower text nextStep, Listed s := by
  intro s hs
  have hname : s.1 ∈ sectionOrder := by
    rw [← @names_extractSections uni lower text nextStep]
    exact List.mem_map_of_mem hs
  obtain ⟨hne, hitems⟩ := items_extractSections text nextStep s hs
  exact ⟨line_headingOf s.1 hname, hne, hitems⟩

theorem unbroken_limitWords {t : Text} (h : ∀ c ∈ t, isLineBoundary c = false) (limit : Int) :
    ∀ c ∈ limitWords t limit, isLineBoundary c = false := by
  unfold limitWords
  split
  · exact h
  · have hmark : ∀ c ∈ txt "...[truncated]", isLineBoundary c = false := by decide
    refine List.forall_mem_append.mpr ⟨fun c hc => ?_, hmark⟩
    have hjoin := (rstrip_isPrefix _).subset hc
    rcases mem_joinWith_words (fun w hw => (mem_words (List.mem_of_mem_take hw)).2) c hjoin with
      hspace | rfl
    · by_contra hne
      rw [AutoResearch.isSpace_of_lineBoundary (by simpa using hne)] at hspace
      cases hspace
    · decide

theorem line_limitWords {t : Text} (h : Line t) (limit : Int) : Line (limitWords t limit) := by
  refine ⟨?_, unbroken_limitWords h.unbroken limit, ?_⟩
  · unfold limitWords
    split
    · exact h.nonempty
    · exact List.append_ne_nil_of_right_ne_nil _ (List.cons_ne_nil _ _)
  · unfold limitWords
    split
    · exact h.closed
    · intro c hc
      rw [List.getLast?_append_of_ne_nil _ (by decide)] at hc
      cases hc
      decide

/-- A legacy block is a heading, an empty line, and lines. -/
theorem legacyBlock_lines {default : Int} {m : Text × Text} {block : List Text}
    (hm : m.1 = rollingCheckpoint ∨ m.1 = finalAssistantMessage)
    (h : legacyBlock uni default m = some block) :
    ∃ body : List Text, block = headingOf m.1 :: [] :: body ∧ body ≠ [] ∧ Line (headingOf m.1) ∧
      ∀ x ∈ body, Line x := by
  unfold legacyBlock at h
  generalize (if m.1 = rollingCheckpoint then 8 else 3) = limit at h
  split at h
  · cases h
  · simp only [] at h
    split at h
    · cases h
    · rename_i hbody
      rw [Option.some.injEq] at h
      refine ⟨_, h.symm, fun hnil => hbody ?_, ?_, fun x hx => ?_⟩
      · rw [List.map_eq_nil_iff] at hnil
        rw [hnil]
        rfl
      · have htitles : Line (headingOf rollingCheckpoint) ∧ Line (headingOf finalAssistantMessage) :=
          ⟨⟨by decide, by decide, by decide⟩, ⟨by decide, by decide, by decide⟩⟩
        rcases hm with hm | hm
        · exact hm ▸ htitles.1
        · exact hm ▸ htitles.2
      · obtain ⟨line, hline, rfl⟩ := List.mem_map.mp hx
        exact line_limitWords (line_dedupeFrom line hline) _

theorem legacyAt_title {t : Text} {m : Text × Text} (h : legacyAt t = some m) :
    m.1 = rollingCheckpoint ∨ m.1 = finalAssistantMessage := by
  unfold legacyAt at h
  split at h
  · cases h
    exact .inl rfl
  · cases h
    exact .inr rfl
  · cases h

theorem legacyFrom_title {t : Text} : ∀ {skip : Nat} {lineStart : Bool},
    ∀ m ∈ legacyFrom skip lineStart t, m.1 = rollingCheckpoint ∨ m.1 = finalAssistantMessage := by
  induction t with
  | nil =>
      intro skip lineStart m hm
      cases skip <;> exact absurd hm List.not_mem_nil
  | cons c t ih =>
      intro skip lineStart m hm
      cases skip with
      | succ skip => exact ih m hm
      | zero =>
          rw [legacyFrom] at hm
          split at hm
          · rename_i found hfound
            rcases List.mem_cons.mp hm with rfl | hm
            · split at hfound
              · exact legacyAt_title hfound
              · cases hfound
            · exact ih m hm
          · exact ih m hm

theorem lines_legacyBlock {default : Int} {m : Text × Text} {block : List Text}
    (hm : m.1 = rollingCheckpoint ∨ m.1 = finalAssistantMessage)
    (h : legacyBlock uni default m = some block) : Lines block := by
  obtain ⟨body, rfl, hne, hheading, hbody⟩ := legacyBlock_lines hm h
  obtain ⟨front, l, rfl⟩ := (List.eq_nil_or_concat body).resolve_left hne
  rw [List.concat_eq_append] at hbody ⊢
  refine ⟨?_, headingOf m.1 :: [] :: front, l, rfl, hbody l (by simp)⟩
  intro t ht
  rcases List.mem_cons.mp ht with rfl | ht
  · exact hheading.unbroken
  · rcases List.mem_cons.mp ht with rfl | ht
    · exact nofun
    · exact (hbody t ht).unbroken

theorem lines_compactLegacySections (default : Int) (text : Text) :
    ∀ block ∈ compactLegacySections uni default text, Lines block := by
  intro block hblock
  obtain ⟨m, hm, hsome⟩ := List.mem_filterMap.mp hblock
  exact lines_legacyBlock (legacyFrom_title m hm) hsome

/-! ## The lines of a handoff -/

def handoffTitle : Text := txt "# Latest Handoff"

/-- The lines of the text before it is trimmed. -/
def handoffLines (sections : List (Text × List Text)) (legacy : List (List Text)) : List Text :=
  [handoffTitle, [], handoffNote] ++ sections.flatMap sectionLines ++
    legacy.flatMap fun block => [] :: block

theorem Line.prepend {front t : Text} (h : Line t) (hfront : ∀ c ∈ front, isLineBoundary c = false) :
    Line (front ++ t) := by
  refine ⟨List.append_ne_nil_of_right_ne_nil _ h.nonempty,
    List.forall_mem_append.mpr ⟨hfront, h.unbroken⟩, ?_⟩
  rw [List.getLast?_append_of_ne_nil _ h.nonempty]
  exact h.closed

theorem Line.itemLine {t : Text} (h : Line t) : Line (itemLine t) := h.prepend (by decide)

theorem Lines.of_forall {ls : List Text} (hne : ls ≠ []) (h : ∀ l ∈ ls, Line l) : Lines ls := by
  obtain ⟨front, l, rfl⟩ := (List.eq_nil_or_concat ls).resolve_left hne
  exact ⟨fun m hm => (h m hm).unbroken, front, l, List.concat_eq_append, h l (by simp)⟩

theorem Lines.nil_cons {ls : List Text} (h : Lines ls) : Lines ([] :: ls) := by
  obtain ⟨front, l, rfl, hl⟩ := h.last
  exact ⟨List.forall_mem_cons.mpr ⟨nofun, h.unbroken⟩, [] :: front, l, rfl, hl⟩

theorem Listed.sectionLines {s : Text × List Text} (h : Listed s) : Lines (sectionLines s) := by
  refine Lines.nil_cons (Lines.of_forall (List.cons_ne_nil _ _) ?_)
  intro l hl
  rcases List.mem_cons.mp hl with rfl | hl
  · exact h.title
  · obtain ⟨x, hx, rfl⟩ := List.mem_map.mp hl
    exact (h.lines x hx).itemLine

theorem lines_title : Lines [handoffTitle, [], handoffNote] :=
  ⟨by decide, [handoffTitle, []], handoffNote, rfl, by decide, by decide, by decide⟩

theorem lines_handoffLines {sections : List (Text × List Text)} {legacy : List (List Text)}
    (hsections : ∀ s ∈ sections, Listed s) (hlegacy : ∀ block ∈ legacy, Lines block) :
    Lines (handoffLines sections legacy) :=
  (lines_title.flatMap fun s hs => (hsections s hs).sectionLines).flatMap fun block hb =>
    (hlegacy block hb).nil_cons

/-- The rendered text is its lines. -/
theorem rendered_eq {sections : List (Text × List Text)} {legacy : List (List Text)}
    (hsections : ∀ s ∈ sections, Listed s) (hlegacy : ∀ block ∈ legacy, Lines block) :
    joinWith (txt "\n\n") (renderSections sections :: legacy.map joinLines) =
      joinLines (handoffLines sections legacy) := by
  have hlines := lines_title.flatMap fun s hs => (hsections s hs).sectionLines
  have hrender : renderSections sections =
      joinLines ([handoffTitle, [], handoffNote] ++ sections.flatMap sectionLines) :=
    hlines.strip_joinLines (by decide)
  rw [hrender, Lines.joinWith_blocks hlines.ne_nil fun block hb => (hlegacy block hb).ne_nil]
  rfl

end Items

end RalphVault.Handoff
