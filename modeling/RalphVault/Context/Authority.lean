import Mathlib
import RalphVault.Context.CapsuleText

/-!
# Context — the authority line

Whether a capsule for a verified luna profile shows the line that says who
prevails. `_fit_lines` takes the lines from the front, and the ones of the plan
and of the state come first: each of them is shown when it fits by itself, and
the authority line only when there is room behind what is shown.
-/

namespace RalphVault.Context.Capsule

open Memory
open SessionStart (joinLines)

/-! ## Fewer lines -/

theorem utf8Len_lines {lines : List Text} (h : lines ≠ []) :
    utf8Len (joinLines lines) + 1 = (lines.map fun line => utf8Len line + 1).sum := by
  rw [joinLines]
  induction lines with
  | nil => exact absurd rfl h
  | cons line lines ih =>
      cases lines with
      | nil => simp [joinWith]
      | cons next lines =>
          have hrest := ih (List.cons_ne_nil _ _)
          have hfeed : utf8Len ['\n'] = 1 := rfl
          rw [List.map_cons, List.sum_cons, ← hrest]
          simp only [joinWith, utf8Len_append, hfeed]
          omega

/-- With lines left out a text still fits. -/
theorem fits_sublist {b w : Nat} {shorter lines : List Text} (h : shorter.Sublist lines)
    (hne : shorter ≠ []) (hfits : fits b w (joinLines lines) = true) :
    fits b w (joinLines shorter) = true := by
  have hlines : lines ≠ [] := by
    rintro rfl
    exact hne (List.sublist_nil.1 h)
  have hbytes := (h.map fun line => utf8Len line + 1).sum_le_sum fun n _ => Nat.zero_le n
  have hwords := (h.map wordCount).sum_le_sum fun n _ => Nat.zero_le n
  rw [← utf8Len_lines hne, ← utf8Len_lines hlines] at hbytes
  rw [← wordCount_lines, ← wordCount_lines] at hwords
  rw [fits, Bool.and_eq_true, decide_eq_true_iff, decide_eq_true_iff] at hfits ⊢
  have hcount : wordCount (joinLines lines) ≤ w := hfits.2
  exact ⟨by omega, le_trans hwords hcount⟩

/-! ## The heads of lines -/

/-- Two characters that a cleaned text keeps when it begins with them. -/
structure Keeps (c d : Char) : Prop where
  first : isAsciiAlnum c = true
  second : isAsciiAlnum d = true
  hex : isHex c = false ∨ isHex d = false
  digest : (foldCase c ≠ 's' ∨ foldCase d ≠ 'h') ∧ foldCase d ≠ 's'

/-- No pattern of a path starts at two characters that are kept. -/
theorem subPaths_kept {c d : Char} (starts : Place) (hfirst : ∀ t, starts none (c :: d :: t) = false)
    (hinside : ∀ t, starts (some c) t = false) (t : Text) :
    ∃ u, subPaths starts (c :: d :: t) = c :: d :: u := by
  rw [Capsule.subPaths, replaceFrom, if_neg (by simp [hfirst]), replaceFrom,
    if_neg (by simp [hinside])]
  exact ⟨_, rfl⟩

instance (c d : Char) : Decidable (Keeps c d) :=
  decidable_of_iff (isAsciiAlnum c = true ∧ isAsciiAlnum d = true ∧
      (isHex c = false ∨ isHex d = false) ∧
      (foldCase c ≠ 's' ∨ foldCase d ≠ 'h') ∧ foldCase d ≠ 's')
    ⟨fun h => ⟨h.1, h.2.1, h.2.2.1, h.2.2.2⟩, fun h => ⟨h.first, h.second, h.hex, h.digest⟩⟩

section Head

variable {c d : Char} (h : Keeps c d)

include h

theorem Keeps.digestLength_first (t : Text) : digestLength (c :: d :: t) = 0 := by
  have hnone : frontMatches digestMark (c :: d :: t) = false := by
    show (foldCase c == 's' && (foldCase d == 'h' && _)) = false
    rcases h.digest.1 with hc | hd
    · rw [beq_eq_false_iff_ne.mpr hc, Bool.false_and]
    · rw [beq_eq_false_iff_ne.mpr hd, Bool.false_and, Bool.and_false]
  simp [digestLength, hnone]

theorem Keeps.digestLength_second (t : Text) : digestLength (d :: t) = 0 := by
  have hd : (foldCase d == 's') = false := by simp [h.digest.2]
  have hnone : frontMatches digestMark (d :: t) = false := by
    show (foldCase d == 's' && _) = false
    rw [hd, Bool.false_and]
  simp [digestLength, hnone]

theorem Keeps.dropDigests (t : Text) : ∃ u, dropDigests 0 (c :: d :: t) = c :: d :: u := by
  refine ⟨Capsule.dropDigests 0 t, ?_⟩
  rw [Capsule.dropDigests, h.digestLength_first]
  show c :: Capsule.dropDigests 0 (d :: t) = _
  rw [Capsule.dropDigests, h.digestLength_second]

theorem Keeps.dropHexHashes (t : Text) : ∃ u, dropHexHashes (c :: d :: t) = c :: d :: u := by
  have hc := isWordChar_of_alnum h.first
  have hd := isWordChar_of_alnum h.second
  have hfirst : hexHashAt none (c :: d :: t) = false := by
    rw [hexHashAt, List.takeWhile_cons_of_pos hc, List.takeWhile_cons_of_pos hd]
    rcases h.hex with hhex | hhex <;> simp [hhex]
  have hsecond : hexHashAt (some c) (d :: t) = false :=
    hexHashAt_of_inside (by simp [wordStart, hc]) _
  rw [Capsule.dropHexHashes, replaceFrom, if_neg (by simp [hfirst]), replaceFrom,
    if_neg (by simp [hsecond])]
  exact ⟨_, rfl⟩

theorem Keeps.visible : ∀ e ∈ [c, d], isSpace e = false := by
  have hspace : ∀ e, isAsciiAlnum e = true → isSpace e = false := by
    intro e he
    cases hs : isSpace e with
    | false => rfl
    | true =>
        have hword := not_wordChar_of_space hs
        rw [isWordChar_of_alnum he] at hword
        cases hword
  intro e he
  rcases List.mem_pair.mp he with rfl | rfl
  · exact hspace _ h.first
  · exact hspace _ h.second

/-- A line that begins with the two characters still does when it is cleaned. -/
theorem Keeps.clean {limit : Nat} (hlimit : 3 < limit) (t : Text) :
    ∃ u, clean limit (c :: d :: t) = c :: u := by
  have hslash : (c == '/') = false := by
    cases hs : c == '/' with
    | false => rfl
    | true =>
        have hfirst := h.first
        rw [eq_of_beq hs] at hfirst
        cases hfirst
  have hcolon : (d == ':') = false := by
    cases hs : d == ':' with
    | false => rfl
    | true =>
        have hsecond := h.second
        rw [eq_of_beq hs] at hsecond
        cases hsecond
  have hinside : nameStart (some c) = false := by simp [nameStart, h.first]
  obtain ⟨t₁, h₁⟩ := compactSpace_front (List.cons_ne_nil c [d]) h.visible t
  obtain ⟨t₂, h₂⟩ := h.dropDigests t₁
  obtain ⟨t₃, h₃⟩ := h.dropHexHashes t₂
  have habsolute : ∀ u, absolutePathAt none (c :: d :: u) = false := fun u => by
    simp [absolutePathAt, frontMatches, hslash]
  have hwindows : ∀ u, windowsPathAt none (c :: d :: u) = false := fun u => by
    simp [windowsPathAt, frontMatches, hcolon]
  obtain ⟨t₄, h₄⟩ := subPaths_kept absolutePathAt habsolute
    (fun u => by simp [absolutePathAt, hinside]) t₃
  obtain ⟨t₅, h₅⟩ := subPaths_kept windowsPathAt hwindows
    (fun u => by simp [windowsPathAt, hinside]) t₄
  obtain ⟨t₆, h₆⟩ := compactSpace_front (List.cons_ne_nil c [d]) h.visible t₅
  have hsanitized : sanitized (c :: d :: t) = c :: d :: t₆ := by
    show compactSpace (subPaths windowsPathAt (subPaths absolutePathAt
      (Capsule.dropHexHashes (Capsule.dropDigests 0 (compactSpace ([c, d] ++ t)))))) = _
    rw [h₁]
    show compactSpace (subPaths windowsPathAt (subPaths absolutePathAt
      (Capsule.dropHexHashes (Capsule.dropDigests 0 (c :: d :: t₁))))) = _
    rw [h₂, h₃, h₄, h₅]
    exact h₆
  rw [Capsule.clean, hsanitized]
  split
  · -- the cut keeps the first character, which is no blank
    obtain ⟨n, hn⟩ : ∃ n, limit - 3 = n + 1 := ⟨limit - 4, by omega⟩
    have hc := h.visible c (by simp)
    rw [hn, List.take_succ_cons, ← List.nil_append (c :: _), rstrip_append_visible hc]
    exact ⟨_, rfl⟩
  · exact ⟨_, rfl⟩

end Head

/-- A line with a label that is not the one of the authority line. -/
def Labelled (line : Text) : Prop :=
  ∃ c d t, line = c :: d :: t ∧ Keeps c d ∧ c ≠ 'A'

theorem Labelled.clean_ne {line : Text} (h : Labelled line) : clean 500 line ≠ fullAuthority := by
  obtain ⟨c, d, t, rfl, hkeeps, hc⟩ := h
  obtain ⟨u, hu⟩ := hkeeps.clean (by decide : 3 < 500) t
  intro heq
  rw [hu, fullAuthority] at heq
  exact hc (List.cons.inj heq).1

theorem Labelled.lineIf {label value : Text} (h : ∀ t, Labelled (label ++ t)) :
    ∀ line ∈ lineIf label value, Labelled line := by
  intro line hline
  rw [Capsule.lineIf] at hline
  split at hline
  · cases hline
  · rw [List.mem_singleton.mp hline]
    exact h value

/-! ## The lines in front -/

section Front

variable (s : Source) (kind : Kind)

/-- The line a capsule begins with. -/
def headLine : Text :=
  match kind with
  | .delta => txt "Implementation progress update"
  | _ => txt "Implementation progress"

/-- The line of the plan. -/
def planLine : Text := clean 500 (txt "Progress: " ++ planText s kind .luna true)

/-- The line of the status and the phase, as it is shown. -/
def shownState : List Text := (stateLine s kind .luna).map (clean 500)

/-- The lines fit as long as there is the budget of the kind for them. -/
def Fits (lines : List Text) : Prop :=
  fits (budget kind .luna true).1 (budget kind .luna true).2 (joinLines lines) = true

/-- Lines that fit by themselves fit with the authority line behind them. -/
def Yields (lines : List Text) : Prop := Fits kind lines → Fits kind (lines ++ [fullAuthority])

instance (lines : List Text) : Decidable (Fits kind lines) := by
  unfold Fits
  infer_instance

/-- The head of a capsule and the line of the plan, if that fits. -/
def planLines : List Text :=
  if Fits kind [headLine kind, planLine s kind] then [headLine kind, planLine s kind]
  else [headLine kind]

/-- The line of the plan and the line of the state leave room for the authority
line, each of them where it is shown. -/
structure LeavesRoom : Prop where
  plan : Yields kind [headLine kind, planLine s kind]
  state : ∀ line ∈ shownState s kind, Yields kind (planLines s kind ++ [line])

end Front

/-! ## What is shown -/

section Shown

variable {s : Source} {kind : Kind}

/-- A turn of the loop behind a first line. -/
theorem fitLine_behind {b w : Nat} {selected : List Text} (h : selected ≠ []) (raw : Text) :
    fitLine b w selected raw =
      if (clean 500 raw).isEmpty = false ∧ fits b w (joinLines (selected ++ [clean 500 raw])) = true
      then selected ++ [clean 500 raw] else selected := by
  have hselected : selected.isEmpty = false := by simpa using h
  simp only [fitLine, hselected]
  split
  · next hempty => rw [if_neg (by simp [hempty])]
  · next hempty =>
    split
    · next hfits => rw [if_pos ⟨by simpa using hempty, hfits⟩]
    · next hfits => exact (if_neg fun hboth => hfits hboth.2).symm

theorem fitLine_head : fitLine (budget kind .luna true).1 (budget kind .luna true).2 []
    (headLine kind) = [headLine kind] := by
  cases kind <;> decide

theorem fits_head : Fits kind [headLine kind, fullAuthority] := by
  cases kind <;> decide

theorem clean_fullAuthority : clean 500 fullAuthority = fullAuthority := by decide

theorem fitLine_authority {b w : Nat} {selected : List Text} (h : selected ≠ []) :
    fitLine b w selected fullAuthority =
      if fits b w (joinLines (selected ++ [fullAuthority])) = true
      then selected ++ [fullAuthority] else selected := by
  have hfull : fullAuthority.isEmpty = false := rfl
  rw [fitLine_behind h, clean_fullAuthority, hfull]
  simp only [true_and]

theorem labelled_plan (t : Text) : Labelled (txt "Progress: " ++ t) :=
  ⟨'P', 'r', _, rfl, (by decide : Keeps 'P' 'r'), by decide⟩

theorem labelled_state : ∀ line ∈ stateLine s kind .luna, Labelled line := by
  intro line hline
  rw [stateLine] at hline
  split at hline
  · cases hline
  · split at hline
    all_goals
      rw [List.mem_singleton.mp hline]
      exact ⟨'S', 't', _, rfl, (by decide : Keeps 'S' 't'), by decide⟩

theorem ne_nil_of_labelled {line : Text} (h : Labelled line) : (clean 500 line).isEmpty = false := by
  obtain ⟨c, d, t, rfl, hkeeps, -⟩ := h
  obtain ⟨u, hu⟩ := hkeeps.clean (by decide : 3 < 500) t
  rw [hu]
  rfl

/-- The lines before the authority line that are shown. -/
def shownFront (s : Source) (kind : Kind) : List Text :=
  ([headLine kind, txt "Progress: " ++ planText s kind .luna true] ++ stateLine s kind .luna).foldl
    (fitLine (budget kind .luna true).1 (budget kind .luna true).2) []

theorem planLines_ne_nil : planLines s kind ≠ [] := by
  rw [planLines]
  split <;> exact List.cons_ne_nil _ _

theorem planLines_yields (h : Yields kind [headLine kind, planLine s kind]) :
    Fits kind (planLines s kind ++ [fullAuthority]) := by
  rw [planLines]
  split
  · next hfits => exact h hfits
  · exact fits_head

theorem yields_plan {lines : List Text} (hlines : (planLines s kind).Sublist lines)
    (h : Fits kind (lines ++ [fullAuthority])) : Yields kind [headLine kind, planLine s kind] := by
  intro hfits
  rw [planLines, if_pos hfits] at hlines
  exact fits_sublist (hlines.append_right _) (by simp) h

theorem shownFront_eq : shownFront s kind = planLines s kind ∧ shownState s kind = [] ∨
    ∃ line, shownState s kind = [line] ∧ line ≠ fullAuthority ∧
      shownFront s kind =
        if Fits kind (planLines s kind ++ [line]) then planLines s kind ++ [line]
        else planLines s kind := by
  have hplan : fitLine (budget kind .luna true).1 (budget kind .luna true).2 [headLine kind]
      (txt "Progress: " ++ planText s kind .luna true) = planLines s kind := by
    rw [fitLine_behind (List.cons_ne_nil _ _), ne_nil_of_labelled (labelled_plan _)]
    simp only [true_and]
    rfl
  have hstate : stateLine s kind .luna = [] ∨ ∃ line, stateLine s kind .luna = [line] := by
    rw [stateLine]
    split
    · exact .inl rfl
    · split <;> exact .inr ⟨_, rfl⟩
  rw [shownFront, List.foldl_append, List.foldl_cons, List.foldl_cons, List.foldl_nil,
    fitLine_head, hplan, shownState]
  obtain hnone | ⟨line, hline⟩ := hstate
  · rw [hnone]
    exact .inl ⟨rfl, rfl⟩
  · have hlabelled := labelled_state line (by rw [hline]; exact List.mem_singleton_self line)
    refine .inr ⟨clean 500 line, by rw [hline]; rfl, hlabelled.clean_ne, ?_⟩
    rw [hline, List.foldl_cons, List.foldl_nil, fitLine_behind planLines_ne_nil,
      ne_nil_of_labelled hlabelled]
    simp only [true_and]
    rfl

theorem shownFront_ne_nil : shownFront s kind ≠ [] := by
  obtain ⟨h, -⟩ | ⟨line, -, -, h⟩ := @shownFront_eq s kind
  · rw [h]
    exact planLines_ne_nil
  · rw [h]
    split
    · simp
    · exact planLines_ne_nil

theorem headLine_ne : headLine kind ≠ fullAuthority := by
  cases kind <;> decide

theorem not_mem_planLines : fullAuthority ∉ planLines s kind := by
  have hplan : planLine s kind ≠ fullAuthority := (labelled_plan _).clean_ne
  rw [planLines]
  split
  · simp [headLine_ne.symm, hplan.symm]
  · simp [headLine_ne.symm]

theorem not_mem_shownFront : fullAuthority ∉ shownFront s kind := by
  obtain ⟨h, -⟩ | ⟨line, -, hline, h⟩ := @shownFront_eq s kind
  · rw [h]
    exact not_mem_planLines
  · rw [h]
    split
    · simp [not_mem_planLines, hline.symm]
    · exact not_mem_planLines

/-- There is room behind the lines in front if and only if each of them leaves
some. -/
theorem fits_authority_iff :
    Fits kind (shownFront s kind ++ [fullAuthority]) ↔ LeavesRoom s kind := by
  obtain ⟨hfront, hstate⟩ | ⟨line, hstate, -, hfront⟩ := @shownFront_eq s kind
  · rw [hfront]
    constructor
    · intro h
      refine ⟨yields_plan (List.Sublist.refl _) h, fun line hline => ?_⟩
      rw [hstate] at hline
      cases hline
    · intro h
      exact planLines_yields h.plan
  · rw [hfront]
    constructor
    · intro h
      split at h
      · refine ⟨yields_plan (List.sublist_append_left _ _) h, fun l hl => ?_⟩
        rw [hstate, List.mem_singleton] at hl
        subst hl
        exact fun _ => h
      · next hfits =>
        refine ⟨yields_plan (List.Sublist.refl _) h, fun l hl => ?_⟩
        rw [hstate, List.mem_singleton] at hl
        subst hl
        exact fun hl => absurd hl hfits
    · intro h
      split
      · next hfits => exact h.state line (by rw [hstate]; exact List.mem_singleton_self _) hfits
      · exact planLines_yields h.plan

/-! ## The lines behind -/

theorem take_pointer (first : Text) {state : List Text} (h : state.length ≤ 1) (next : List Text) :
    ([first] ++ state ++ [fullAuthority] ++ next).take 3 =
      [first] ++ state ++ fullAuthority :: next.take (1 - state.length) := by
  match state with
  | [] => rfl
  | [line] => simp
  | _ :: _ :: _ => simp at h

theorem pointerLines_luna : ∃ rest,
    (pointerLines s kind .luna true).take 3 =
      [txt "Progress: " ++ planText s kind .luna true] ++ stateLine s kind .luna ++
        fullAuthority :: rest ∧
    ∀ line ∈ rest, Labelled line := by
  have hnext : ∀ line ∈ lineIf (txt "Next: ") (nextText s), Labelled line :=
    Labelled.lineIf fun t => ⟨'N', 'e', _, rfl, by decide, by decide⟩
  have hstate : (stateLine s kind .luna).length ≤ 1 := by
    rw [stateLine]
    split
    · exact Nat.zero_le 1
    · split <;> exact Nat.le_refl 1
  refine ⟨_, take_pointer _ hstate _, ?_⟩
  intro line hline
  exact hnext line (List.mem_of_mem_take hline)

theorem labelled_append {lines more : List Text} (h : ∀ line ∈ lines, Labelled line)
    (hmore : ∀ line ∈ more, Labelled line) : ∀ line ∈ lines ++ more, Labelled line := by
  intro line hline
  rcases List.mem_append.mp hline with hline | hline
  · exact h line hline
  · exact hmore line hline

/-- The lines behind the pointer. -/
def moreLines (s : Source) : Kind → List Text
  | .delta =>
      (if (latestSummary s).isEmpty then [] else [txt "Changed: " ++ clean 120 (latestSummary s)]) ++
        if (nextText s).isEmpty then [] else [txt "Next: " ++ clean 110 (nextText s)]
  | .expanded =>
      lineIf (txt "Objective: ") (clean 240 s.objective) ++
        lineIf (txt "Latest decision: ") (latestSummary s) ++
        lineIf (txt "Next: ") (nextText s) ++
        lineIf (txt "Blockers: ") (joinWith (txt "; ") ((shownItems s.openBlockers).take 3)) ++
        lineIf (txt "Questions: ") (joinWith (txt "; ") ((shownItems s.openQuestions).take 3)) ++
        lineIf (txt "Validation: ") (validationLine s.validation)
  | .full =>
      lineIf (txt "Latest decision: ") (latestSummary s) ++
        lineIf (txt "Next: ") (nextText s) ++
        lineIf (txt "Blockers: ") (joinWith (txt "; ") ((shownItems s.openBlockers).take 3)) ++
        lineIf (txt "Validation: ") (validationLine s.validation) ++
        if 0 < s.generation then [txt "Generation: " ++ decimalText s.generation.toNat] else []

theorem labelled_moreLines : ∀ line ∈ moreLines s kind, Labelled line := by
  have hdecision : ∀ t, Labelled (txt "Latest decision: " ++ t) := fun t =>
    ⟨'L', 'a', _, rfl, by decide, by decide⟩
  have hnext : ∀ t, Labelled (txt "Next: " ++ t) := fun t => ⟨'N', 'e', _, rfl, by decide, by decide⟩
  have hblockers : ∀ t, Labelled (txt "Blockers: " ++ t) := fun t =>
    ⟨'B', 'l', _, rfl, by decide, by decide⟩
  have hvalidation : ∀ t, Labelled (txt "Validation: " ++ t) := fun t =>
    ⟨'V', 'a', _, rfl, by decide, by decide⟩
  cases kind with
  | delta =>
      refine labelled_append ?_ ?_
      · split
        · exact nofun
        · intro line hline
          rw [List.mem_singleton.mp hline]
          exact ⟨'C', 'h', _, rfl, by decide, by decide⟩
      · split
        · exact nofun
        · intro line hline
          rw [List.mem_singleton.mp hline]
          exact hnext _
  | expanded =>
      refine labelled_append (labelled_append (labelled_append (labelled_append
        (labelled_append ?_ ?_) ?_) ?_) ?_) ?_
      · exact Labelled.lineIf fun t => ⟨'O', 'b', _, rfl, by decide, by decide⟩
      · exact Labelled.lineIf hdecision
      · exact Labelled.lineIf hnext
      · exact Labelled.lineIf hblockers
      · exact Labelled.lineIf fun t => ⟨'Q', 'u', _, rfl, by decide, by decide⟩
      · exact Labelled.lineIf hvalidation
  | full =>
      refine labelled_append (labelled_append (labelled_append (labelled_append ?_ ?_) ?_) ?_) ?_
      · exact Labelled.lineIf hdecision
      · exact Labelled.lineIf hnext
      · exact Labelled.lineIf hblockers
      · exact Labelled.lineIf hvalidation
      · split
        · intro line hline
          rw [List.mem_singleton.mp hline]
          exact ⟨'G', 'e', _, rfl, by decide, by decide⟩
        · exact nofun

/-- Behind the lines in front come the authority line and lines with other labels. -/
theorem capsuleLines_luna : ∃ rest,
    (capsuleLines s kind .luna true).1 =
      [headLine kind, txt "Progress: " ++ planText s kind .luna true] ++ stateLine s kind .luna ++
        fullAuthority :: rest ∧
    ∀ line ∈ rest, Labelled line := by
  obtain ⟨rest, hrest, hlabelled⟩ := @pointerLines_luna s kind
  refine ⟨rest ++ moreLines s kind, ?_, labelled_append hlabelled labelled_moreLines⟩
  have hlines : (capsuleLines s kind .luna true).1 =
      headLine kind :: ((pointerLines s kind .luna true).take 3 ++ moreLines s kind) := by
    cases kind <;> simp [capsuleLines, pointerOnly, headLine, moreLines]
  rw [hlines, hrest]
  simp

/-- Lines with other labels leave the authority line as it is. -/
theorem mem_foldl_labelled {b w : Nat} {rest : List Text} (h : ∀ line ∈ rest, Labelled line) :
    ∀ {selected : List Text}, selected ≠ [] →
      (fullAuthority ∈ rest.foldl (fitLine b w) selected ↔ fullAuthority ∈ selected) := by
  induction rest with
  | nil => exact fun _ => Iff.rfl
  | cons line rest ih =>
      intro selected hne
      obtain ⟨hline, hrest⟩ := List.forall_mem_cons.mp h
      rw [List.foldl_cons, fitLine_behind hne]
      split
      · rw [ih hrest (by simp), List.mem_append, List.mem_singleton]
        exact or_iff_left hline.clean_ne.symm
      · exact ih hrest hne

/-! ## Lines of a text -/

theorem splitWhere_lines {lines : List Text} (hne : lines ≠ [])
    (h : ∀ line ∈ lines, ∀ c ∈ line, (c == '\n') = false) :
    splitWhere (· == '\n') (joinLines lines) = lines := by
  induction lines with
  | nil => exact absurd rfl hne
  | cons line lines ih =>
      obtain ⟨hline, hlines⟩ := List.forall_mem_cons.mp h
      cases lines with
      | nil => exact splitWhere_of_none hline
      | cons next lines =>
          have hjoin : joinLines (line :: next :: lines) =
              line ++ '\n' :: joinLines (next :: lines) := by
            simp [joinLines, joinWith]
          rw [hjoin, splitWhere_append (by decide), splitWhere_of_none hline,
            ih (List.cons_ne_nil _ _) hlines]
          rfl

theorem unbroken_clean (raw : Text) : ∀ c ∈ clean 500 raw, (c == '\n') = false := by
  have hsanitized : ∀ c ∈ sanitized raw, (c == '\n') = false := by
    intro c hc
    rcases compactSpace_chars _ c hc with hspace | rfl
    · cases hfeed : c == '\n' with
      | false => rfl
      | true =>
          rw [eq_of_beq hfeed] at hspace
          cases hspace
    · rfl
  intro c hc
  rw [clean] at hc
  split at hc
  · rcases List.mem_append.mp hc with hc | hc
    · obtain ⟨blanks, hblanks, -⟩ := exists_rstrip ((sanitized raw).take (500 - 3))
      have hhead : c ∈ (sanitized raw).take (500 - 3) := by
        rw [hblanks]
        exact List.mem_append_left _ hc
      exact hsanitized c (List.mem_of_mem_take hhead)
    · obtain rfl : c = '.' := by simpa [txt] using hc
      rfl
  · exact hsanitized c hc

/-- Behind a first line, lines are only added, and none of them has a line feed. -/
theorem foldl_unbroken {b w : Nat} (lines : List Text) : ∀ {selected : List Text}, selected ≠ [] →
    (∀ line ∈ selected, ∀ c ∈ line, (c == '\n') = false) →
      selected <+: lines.foldl (fitLine b w) selected ∧
        ∀ line ∈ lines.foldl (fitLine b w) selected, ∀ c ∈ line, (c == '\n') = false := by
  induction lines with
  | nil => exact fun _ h => ⟨List.prefix_rfl, h⟩
  | cons raw lines ih =>
      intro selected hne h
      rw [List.foldl_cons, fitLine_behind hne]
      split
      · have hmore : ∀ line ∈ selected ++ [clean 500 raw], ∀ c ∈ line, (c == '\n') = false := by
          intro line hline
          rcases List.mem_append.mp hline with hline | hline
          · exact h line hline
          · rw [List.mem_singleton.mp hline]
            exact unbroken_clean raw
        obtain ⟨hfront, hlines⟩ := ih (by simp) hmore
        exact ⟨(List.prefix_append _ _).trans hfront, hlines⟩
      · exact ih hne h

theorem unbroken_headLine : ∀ c ∈ headLine kind, (c == '\n') = false := by
  cases kind <;> decide

/-- The lines of a capsule for a verified luna profile. -/
def shownLines (s : Source) (kind : Kind) : List Text :=
  (capsuleLines s kind .luna true).1.foldl
    (fitLine (budget kind .luna true).1 (budget kind .luna true).2) []

theorem shownLines_spec : [headLine kind] <+: shownLines s kind ∧
    ∀ line ∈ shownLines s kind, ∀ c ∈ line, (c == '\n') = false := by
  obtain ⟨rest, hlines, -⟩ := @capsuleLines_luna s kind
  have hhead : ∀ line ∈ [headLine kind], ∀ c ∈ line, (c == '\n') = false := by
    intro line hline
    rw [List.mem_singleton.mp hline]
    exact unbroken_headLine
  rw [shownLines, hlines, List.append_assoc, List.cons_append, List.foldl_cons, fitLine_head]
  exact foldl_unbroken _ (List.cons_ne_nil _ _) hhead

theorem shownLines_ne_nil : shownLines s kind ≠ [] := by
  intro hnil
  have hprefix := (@shownLines_spec s kind).1
  rw [hnil] at hprefix
  exact absurd (List.prefix_nil.mp hprefix) (List.cons_ne_nil _ _)

theorem splitWhere_shownLines :
    splitWhere (· == '\n') (joinLines (shownLines s kind)) = shownLines s kind :=
  splitWhere_lines shownLines_ne_nil shownLines_spec.2

theorem joinLines_shownLines_ne_nil : joinLines (shownLines s kind) ≠ [] := by
  intro hnil
  have hsplit := @splitWhere_shownLines s kind
  rw [hnil] at hsplit
  have hprefix := (@shownLines_spec s kind).1
  rw [← hsplit] at hprefix
  have hempty : headLine kind = [] := by simpa [splitWhere] using hprefix
  revert hempty
  cases kind <;> decide

theorem mem_shownLines_iff : fullAuthority ∈ shownLines s kind ↔ LeavesRoom s kind := by
  obtain ⟨rest, hlines, hrest⟩ := @capsuleLines_luna s kind
  rw [← fits_authority_iff, shownLines, hlines, List.foldl_append, List.foldl_cons, ← shownFront,
    fitLine_authority shownFront_ne_nil, Fits]
  split
  · next hfits =>
    rw [mem_foldl_labelled hrest (by simp)]
    simp [hfits]
  · next hfits =>
    rw [mem_foldl_labelled hrest shownFront_ne_nil]
    simp [not_mem_shownFront, hfits]

/-- A capsule for a verified luna profile that is not empty has the authority line. -/
def ShowsAuthority (s : Source) (kind : Text) : Prop :=
  ∀ text, renderCapsule s kind lunaProfile true = some text → text ≠ [] →
    fullAuthority ∈ splitWhere (· == '\n') text

/-- **The authority line is shown** if and only if the lines of the plan and of
the state leave room for it. -/
theorem showsAuthority_iff (s : Source) (kind : Text) :
    ShowsAuthority s kind ↔ ∀ k, kindNamed kind = some k → LeavesRoom s k := by
  have hrender : ∀ k, kindNamed kind = some k →
      renderCapsule s kind lunaProfile true = some (joinLines (shownLines s k)) := by
    intro k hk
    rw [renderCapsule, hk]
    cases k <;> rfl
  constructor
  · intro h k hk
    have htext := h _ (hrender k hk)
    rw [splitWhere_shownLines, mem_shownLines_iff] at htext
    exact htext joinLines_shownLines_ne_nil
  · intro h text htext _
    cases hk : kindNamed kind with
    | none =>
        rw [renderCapsule, hk] at htext
        cases htext
    | some k =>
        rw [hrender k hk, Option.some.injEq] at htext
        rw [← htext, splitWhere_shownLines, mem_shownLines_iff]
        exact h k hk

end Shown

/-! ## A phase of many words -/

def deltaKind : Text := txt "delta"

def wordySource : Source := { plainSource with phase := (List.replicate 24 (txt "a ")).flatten }

/-- The words of the phase take the room of the authority line. -/
theorem authority_not_shown : ¬∀ s kind, ShowsAuthority s kind := by
  intro h
  have hrender : (renderCapsule wordySource deltaKind lunaProfile true).any (fun text =>
      !text.isEmpty && !(splitWhere (· == '\n') text).contains fullAuthority) = true := by
    decide +kernel
  rw [Option.any_eq_true] at hrender
  obtain ⟨text, htext, hmissing⟩ := hrender
  simp only [Bool.and_eq_true, Bool.not_eq_true', List.isEmpty_eq_false_iff,
    List.contains_eq_mem, decide_eq_false_iff_not] at hmissing
  exact hmissing.2 (h wordySource deltaKind text htext hmissing.1)

end RalphVault.Context.Capsule
