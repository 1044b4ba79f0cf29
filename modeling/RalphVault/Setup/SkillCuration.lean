import RalphVault.JsonText
import RalphVault.KeptLines
import RalphVault.MarkedBlock
import RalphVault.Outcome

/-!
# Setup — skill curation

`scripts/setup/curate-global-skills.py`: one block between two marker lines of
`config.toml` disables the skills that were discovered. `--apply` writes the
block, in its place or at the end of the text, and `--remove` takes it out. At
the end of a text that is not empty the block is set off by a separator, which
is outside the markers and stays.

Left out: the paths, the backups and the write itself.
-/

namespace RalphVault.Setup.SkillCuration

open Security KeptLines MarkedBlock
open Outcome (bind_eq_ok)

/-- `tomllib.loads`: the message of its error, if any. The empty text is a
document, and a carriage return stands before a line feed only. -/
structure Toml where
  error : Text → Option Text
  empty : error [] = none
  feeds : ∀ t, error t = none → ∀ s u, t = s ++ '\r' :: u → u.head? = some '\n'

/-! ## The block -/

def beginMarker : Text := txt "# BEGIN RALPH GLOBAL SKILL CURATION"
def endMarker : Text := txt "# END RALPH GLOBAL SKILL CURATION"

/-- `line.rstrip("\r\n") == marker`. -/
def isMarker (marker line : Text) : Bool := rstripNewline line == marker

def isBegin : Text → Bool := isMarker beginMarker
def isEnd : Text → Bool := isMarker endMarker

/-- `_managed_range`. -/
def managedRange (text : Text) : Except Text (Option (Nat × Nat)) :=
  match find isBegin isEnd (splitLines text) with
  | .none =>
      if contains beginMarker text || contains endMarker text then
        .error (txt "managed markers must occupy complete lines")
      else .ok none
  | .block start stop => .ok (some (start, stop))
  | .unbalanced => .error (txt "managed skill-curation block is unbalanced or duplicated")

def endsWith (tail t : Text) : Bool := tail.isSuffixOf t

/-- `separator`. -/
def separator (text : Text) : Text :=
  if text = [] then []
  else if endsWith ['\n'] text || endsWith ['\r'] text then ['\n'] else ['\n', '\n']

/-- `ending`. -/
def ending (line : Text) : Text :=
  if endsWith ['\r', '\n'] line then ['\r', '\n'] else if endsWith ['\n'] line then ['\n'] else []

/-- `_replace_managed_block`. -/
def replaceManagedBlock (text : Text) (replacement : Option Text) : Except Text Text :=
  (managedRange text).map fun
    | none => match replacement with
        | none => text
        | some block => text ++ separator text ++ block ++ ['\n']
    | some (start, stop) =>
        let lines := splitLines text
        let before := (lines.take start).flatten
        let after := (lines.drop (stop + 1)).flatten
        match replacement with
        | none => before ++ after
        | some block => before ++ block ++ ending (lines.getD stop []) ++ after

/-- The lines of one skill. -/
def skillLines (skillFile : Text) : List Text :=
  [[], txt "[[skills.config]]", txt "path = " ++ Json.quoteTo skillFile [], txt "enabled = false"]

/-- The lines between the markers. -/
def innerLines (skills : List Text) : List Text :=
  [txt "# Managed by scripts/setup/curate-global-skills.py.",
    txt "# Physical first-level skills are disabled; symlinked skills remain available."] ++
  (skills.flatMap skillLines ++ [[]])

/-- `render_managed_block`. -/
def renderManagedBlock (skills : List Text) : Text :=
  joinWith ['\n'] (beginMarker :: (innerLines skills ++ [endMarker]))

/-! ## Plans -/

/-- What is to be done, with the files of the skills that were discovered. -/
inductive Action where
  | apply (skills : List Text)
  | remove

/-- `replacement`. -/
def Action.replacement : Action → Option Text
  | .apply skills => some (renderManagedBlock skills)
  | .remove => none

section Plans

variable (toml : Toml)

/-- `_validate_toml`. -/
def validateToml (text label : Text) : Except Text Text :=
  match toml.error text with
  | some message => .error (label ++ txt " is not valid TOML: " ++ message)
  | none => .ok text

/-- `read_config`; a missing file is `none`. -/
def readConfig : Option Text → Except Text Text
  | none => .ok []
  | some text =>
      (validateToml toml text (txt "existing config")).bind fun text =>
        (managedRange text).map fun _ => text

/-- The updated text of `build_plan`. -/
def buildPlan (config : Option Text) (action : Action) : Except Text Text :=
  (readConfig toml config).bind fun original =>
    (replaceManagedBlock original action.replacement).bind fun updated =>
      validateToml toml updated (txt "generated config")

end Plans

/-! ## Line ends -/

theorem rstripNewline_append {t tail : Text} (h : ∀ c ∈ tail, c = '\r' ∨ c = '\n') :
    rstripNewline (t ++ tail) = rstripNewline t := by
  rw [rstripNewline, rstripNewline, List.reverse_append, List.dropWhile_append_of_pos]
  intro c hc
  simpa using h c (List.mem_reverse.mp hc)

theorem rstripNewline_of_last {t : Text} (h : ∀ c ∈ t.getLast?, c ≠ '\r' ∧ c ≠ '\n') :
    rstripNewline t = t := by
  rcases List.eq_nil_or_concat t with rfl | ⟨front, c, rfl⟩
  · rfl
  · have hc := h c (by simp)
    rw [rstripNewline, List.concat_eq_append, List.reverse_append, List.reverse_singleton,
      List.singleton_append, List.dropWhile_cons_of_neg (by simp [hc]), List.reverse_cons,
      List.reverse_reverse]

/-- What is left of a line once its end is gone. -/
theorem rstripNewline_cons {c : Char} {t : Text} (h : rstripNewline t ≠ []) :
    rstripNewline (c :: t) = c :: rstripNewline t := by
  have hdrop : t.reverse.dropWhile (fun c => c == '\r' || c == '\n') ≠ [] := by
    intro hnil
    exact h (by rw [rstripNewline, hnil]; rfl)
  rw [rstripNewline, rstripNewline, List.reverse_cons, List.dropWhile_append]
  simp [hdrop]

/-! ## The lines of a block -/

theorem joinWith_concat (ls : List Text) (l : Text) :
    joinWith ['\n'] (ls ++ [l]) = (ls.map (· ++ ['\n'])).flatten ++ l := by
  induction ls with
  | nil => rfl
  | cons l' ls ih =>
      have hne : ls ++ [l] ≠ [] := by simp
      obtain ⟨a, as, has⟩ := List.exists_cons_of_ne_nil hne
      rw [List.cons_append, List.map_cons, List.flatten_cons, List.append_assoc, ← ih, has, joinWith]
      exact nofun

/-- A line feed ends a line. -/
theorem endsLine_feed (l : Text) : EndsLine (l ++ ['\n']) := by
  intro c hc
  obtain rfl : '\n' = c := by simpa using hc
  decide

theorem uncut_feed (l u : Text) : Uncut (l ++ ['\n']) u := by
  intro hr
  simp at hr

theorem splitLines_lines (ls : List Text) (t : Text) :
    splitLines ((ls.map (· ++ ['\n'])).flatten ++ t) =
      (ls.flatMap fun l => splitLines (l ++ ['\n'])) ++ splitLines t := by
  induction ls with
  | nil => rfl
  | cons l ls ih =>
      rw [List.map_cons, List.flatten_cons, List.append_assoc,
        splitLines_append (endsLine_feed l) (uncut_feed l _), ih, List.flatMap_cons, List.append_assoc]

/-- Neither marker. -/
def Plain (line : Text) : Prop := isBegin line = false ∧ isEnd line = false

instance (line : Text) : Decidable (Plain line) := inferInstanceAs (Decidable (_ ∧ _))

theorem plain_of_last {line : Text} {c : Char} (h : (rstripNewline line).getLast? = some c)
    (hc : c ≠ 'N') : Plain line := by
  have hmarker : ∀ marker : Text, marker.getLast? = some 'N' → isMarker marker line = false :=
    fun marker hlast => by
      rw [isMarker, beq_eq_false_iff_ne]
      intro heq
      rw [heq, hlast] at h
      exact hc (Option.some.inj h).symm
  exact ⟨hmarker beginMarker (by decide), hmarker endMarker (by decide)⟩

/-- The lines of a text without line feeds and carriage returns, up to its last
character, end with this character or with another line boundary. -/
theorem last_of_splitLines {t : Text} {q : Char} (hq : isLineBoundary q = false)
    (h : ∀ c ∈ t, c ≠ '\r' ∧ c ≠ '\n') : ∀ w ∈ splitLines (t ++ [q, '\n']),
      ∃ d, (rstripNewline w).getLast? = some d ∧ (d = q ∨ isLineBoundary d = true) := by
  have hnewline : ∀ c : Char, isLineBoundary c = false → c ≠ '\r' ∧ c ≠ '\n' := by
    intro c hc
    constructor
    · rintro rfl
      exact absurd hc (by decide)
    · rintro rfl
      exact absurd hc (by decide)
  have hsingle : ∀ c : Char, c ≠ '\r' ∧ c ≠ '\n' → rstripNewline [c] = [c] := fun c hc =>
    rstripNewline_of_last fun d hd => by
      obtain rfl : c = d := by simpa using hd
      exact hc
  induction t with
  | nil =>
      intro w hw
      have hfeed : splitLines ['\n'] = [['\n']] := by decide
      rw [List.nil_append, splitLines_char hq, hfeed, List.mem_singleton] at hw
      have happend : rstripNewline ([q] ++ ['\n']) = rstripNewline [q] :=
        rstripNewline_append (by simp)
      have hstrip : rstripNewline w = [q] := by
        rw [hw, ← hsingle q (hnewline q hq)]
        exact happend
      exact ⟨q, by rw [hstrip]; rfl, .inl rfl⟩
  | cons c t ih =>
      obtain ⟨hc, ht⟩ := List.forall_mem_cons.mp h
      intro w hw
      rw [List.cons_append] at hw
      by_cases hboundary : isLineBoundary c = true
      · have hcut : Uncut [c] (t ++ [q, '\n']) := fun hr => absurd (by simpa using hr) hc.1
        rw [splitLines_boundary hboundary hcut] at hw
        rcases List.mem_cons.mp hw with rfl | hw
        · exact ⟨c, by rw [hsingle c hc]; rfl, .inr hboundary⟩
        · exact ih ht w hw
      · rw [splitLines_char (by simpa using hboundary)] at hw
        have hrest := ih ht
        cases hlines : splitLines (t ++ [q, '\n']) with
        | nil => exact absurd (splitLines_eq_nil hlines) (by simp)
        | cons l ls =>
            rw [hlines] at hw hrest
            rcases List.mem_cons.mp hw with rfl | hw
            · obtain ⟨d, hd, hdq⟩ := hrest l List.mem_cons_self
              have hne : rstripNewline l ≠ [] := by
                intro hnil
                rw [hnil] at hd
                cases hd
              refine ⟨d, ?_, hdq⟩
              rw [rstripNewline_cons hne]
              obtain ⟨a, as, has⟩ := List.exists_cons_of_ne_nil hne
              rw [has, List.getLast?_cons_cons, ← has, hd]
            · exact hrest w (List.mem_cons_of_mem _ hw)

/-- No line of the path is a marker. -/
theorem plain_path (skillFile : Text) :
    ∀ w ∈ splitLines (txt "path = " ++ Json.quoteTo skillFile [] ++ ['\n']), Plain w := by
  have hprintable : Json.Printable (Json.quoteTo skillFile []) := Json.printable_canonical (.str skillFile)
  have hquoted : Json.quoteTo skillFile [] = '"' :: (Json.escapeTo skillFile [] ++ ['"']) :=
    Json.quoteTo_eq skillFile []
  have hchars : ∀ c ∈ txt "path = " ++ '"' :: Json.escapeTo skillFile [], c ≠ '\r' ∧ c ≠ '\n' := by
    have hlow : ∀ c : Char, 32 ≤ c.toNat → c ≠ '\r' ∧ c ≠ '\n' := by
      intro c hc
      constructor
      · rintro rfl
        exact absurd hc (by decide)
      · rintro rfl
        exact absurd hc (by decide)
    intro c hc
    rcases List.mem_append.mp hc with hc | hc
    · exact (by decide : ∀ c ∈ txt "path = ", c ≠ '\r' ∧ c ≠ '\n') c hc
    · refine hlow c (hprintable c ?_)
      rw [hquoted]
      exact List.mem_append_left ['"'] hc
  have hsplit : txt "path = " ++ Json.quoteTo skillFile [] ++ ['\n'] =
      (txt "path = " ++ '"' :: Json.escapeTo skillFile []) ++ ['"', '\n'] := by
    rw [hquoted]
    simp
  intro w hw
  rw [hsplit] at hw
  obtain ⟨d, hd, hdq⟩ := last_of_splitLines (by decide) hchars w hw
  refine plain_of_last hd ?_
  rintro rfl
  rcases hdq with hdq | hdq
  · exact absurd hdq (by decide)
  · exact absurd hdq (by decide)

/-- The lines between the markers of a block. -/
def middle (skills : List Text) : List Text :=
  (innerLines skills).flatMap fun l => splitLines (l ++ ['\n'])

theorem plain_middle (skills : List Text) : ∀ w ∈ middle skills, Plain w := by
  intro w hw
  obtain ⟨l, hl, hw⟩ := List.mem_flatMap.mp hw
  have hfixed : ∀ l ∈ [txt "# Managed by scripts/setup/curate-global-skills.py.",
      txt "# Physical first-level skills are disabled; symlinked skills remain available.", [],
      txt "[[skills.config]]", txt "enabled = false"], ∀ w ∈ splitLines (l ++ ['\n']), Plain w := by
    decide
  rcases List.mem_append.mp hl with hl | hl
  · rcases List.mem_cons.mp hl with rfl | hl
    · exact hfixed _ (by simp) w hw
    · rw [List.mem_singleton.mp hl] at hw
      exact hfixed _ (by simp) w hw
  · rcases List.mem_append.mp hl with hl | hl
    · obtain ⟨skillFile, -, hl⟩ := List.mem_flatMap.mp hl
      simp only [skillLines, List.mem_cons, List.not_mem_nil, or_false] at hl
      rcases hl with rfl | rfl | rfl | rfl
      · exact hfixed _ (by simp) w hw
      · exact hfixed _ (by simp) w hw
      · exact plain_path skillFile w hw
      · exact hfixed _ (by simp) w hw
    · rw [List.mem_singleton.mp hl] at hw
      exact hfixed _ (by simp) w hw

/-- The ends that a block gets. -/
def IsEnding (e : Text) : Prop := e = [] ∨ e = ['\n'] ∨ e = ['\r', '\n']

theorem isEnding_ending (line : Text) : IsEnding (ending line) := by
  rw [ending]
  split
  · exact .inr (.inr rfl)
  · split
    · exact .inr (.inl rfl)
    · exact .inl rfl

theorem splitLines_block (skills : List Text) {e : Text} (he : IsEnding e) :
    splitLines (renderManagedBlock skills ++ e) =
      (beginMarker ++ ['\n']) :: (middle skills ++ [endMarker ++ e]) := by
  have hbegin : splitLines (beginMarker ++ ['\n']) = [beginMarker ++ ['\n']] := by decide
  have hend : splitLines (endMarker ++ e) = [endMarker ++ e] := by
    rcases he with rfl | rfl | rfl
    · decide
    · decide
    · decide
  have hlines : renderManagedBlock skills ++ e =
      ((beginMarker :: innerLines skills).map (· ++ ['\n'])).flatten ++ (endMarker ++ e) := by
    rw [renderManagedBlock, ← List.cons_append, joinWith_concat, List.append_assoc]
  rw [hlines, splitLines_lines, hend, List.flatMap_cons, hbegin]
  rfl

theorem begin_line : isBegin (beginMarker ++ ['\n']) = true ∧ isEnd (beginMarker ++ ['\n']) = false := by
  decide

theorem end_line {e : Text} (he : IsEnding e) :
    isEnd (endMarker ++ e) = true ∧ isBegin (endMarker ++ e) = false := by
  rcases he with rfl | rfl | rfl
  · decide
  · decide
  · decide

theorem ending_end {e : Text} (he : IsEnding e) : ending (endMarker ++ e) = e := by
  rcases he with rfl | rfl | rfl
  · decide
  · decide
  · decide

/-! ## Texts with a block -/

/-- The lines of a text around its block. -/
abbrev TextParts (text : Text) := Parts isBegin isEnd (splitLines text)

theorem not_both (line : Text) (h : isBegin line = true) : isEnd line = false := by
  have hbegin : rstripNewline line = beginMarker := by simpa [isBegin, isMarker] using h
  rw [isEnd, isMarker, hbegin]
  decide

variable {text : Text} {pre mid post : List Text} {first last : Text} {toml : Toml}

theorem managedRange_parts (h : TextParts text pre first mid last post) :
    managedRange text = .ok (some (pre.length, pre.length + 1 + mid.length)) := by
  rw [managedRange, h.find]

theorem parts_of_managedRange {range : Nat × Nat} (h : managedRange text = .ok (some range)) :
    ∃ pre first mid last post, TextParts text pre first mid last post := by
  rw [managedRange] at h
  split at h
  · split at h <;> cases h
  · rename_i start stop hfind
    obtain ⟨pre, first, mid, last, post, hparts, -, -⟩ := parts_of_find hfind not_both
    exact ⟨pre, first, mid, last, post, hparts⟩
  · cases h

/-- The block is replaced or removed, with nothing else. -/
theorem replaceManagedBlock_parts (h : TextParts text pre first mid last post)
    (replacement : Option Text) : replaceManagedBlock text replacement =
      .ok (match replacement with
        | none => pre.flatten ++ post.flatten
        | some block => pre.flatten ++ block ++ ending last ++ post.flatten) := by
  have hbefore : (splitLines text).take pre.length = pre := by
    rw [h.eq, List.take_left]
  have hassoc : splitLines text = (pre ++ first :: mid) ++ last :: post := by
    rw [h.eq]
    simp
  have hlength : pre.length + 1 + mid.length = (pre ++ first :: mid).length := by
    simp only [List.length_append, List.length_cons]
    omega
  have hlast : (splitLines text).getD (pre.length + 1 + mid.length) [] = last := by
    rw [hassoc, hlength, List.getD_eq_getElem?_getD, List.getElem?_append_right le_rfl, Nat.sub_self]
    rfl
  have hafter : (splitLines text).drop (pre.length + 1 + mid.length + 1) = post := by
    have hsnoc : (pre ++ first :: mid) ++ last :: post = ((pre ++ first :: mid) ++ [last]) ++ post := by
      simp
    have hsucc : (pre ++ first :: mid).length + 1 = ((pre ++ first :: mid) ++ [last]).length := by
      simp only [List.length_append, List.length_cons, List.length_nil]
    rw [hassoc, hlength, hsnoc, hsucc, List.drop_left]
  rw [replaceManagedBlock.eq_def, managedRange_parts h]
  cases replacement with
  | none =>
      show Except.ok (((splitLines text).take _).flatten ++ ((splitLines text).drop _).flatten) = _
      rw [hbefore, hafter]
  | some block =>
      show Except.ok (((splitLines text).take _).flatten ++ block ++
        ending ((splitLines text).getD _ []) ++ ((splitLines text).drop _).flatten) = _
      rw [hbefore, hafter, hlast]

/-- A text with a block between complete lines has its parts. -/
theorem parts_block {before after e : Text} {skills : List Text} (he : IsEnding e)
    (hbefore : EndsLine before) (hplainBefore : ∀ w ∈ splitLines before, Plain w)
    (hplainAfter : ∀ w ∈ splitLines after, Plain w) (hopen : e = [] → after = []) :
    TextParts (before ++ renderManagedBlock skills ++ e ++ after) (splitLines before)
      (beginMarker ++ ['\n']) (middle skills) (endMarker ++ e) (splitLines after) where
  eq := by
    have hhead : ∀ u, Uncut before (renderManagedBlock skills ++ u) := fun u _ hfeed => by
      have hfirst : (renderManagedBlock skills ++ u).head? = some '#' := rfl
      rw [hfirst] at hfeed
      exact absurd hfeed (by decide)
    have hblock : splitLines (renderManagedBlock skills ++ e ++ after) =
        splitLines (renderManagedBlock skills ++ e) ++ splitLines after := by
      rcases he with rfl | rfl | rfl
      · rw [hopen rfl, List.append_nil]
        exact (List.append_nil _).symm
      · exact splitLines_append (endsLine_feed _) (uncut_feed _ _)
      · have hfeed : renderManagedBlock skills ++ ['\r', '\n'] =
            (renderManagedBlock skills ++ ['\r']) ++ ['\n'] := by
          rw [List.append_assoc]
          rfl
        rw [hfeed]
        exact splitLines_append (endsLine_feed _) (uncut_feed _ _)
    rw [List.append_assoc, List.append_assoc, splitLines_append hbefore (hhead _), ← List.append_assoc,
      hblock, splitLines_block skills he]
    simp
  first := begin_line
  last := end_line he
  rest := by
    rintro w (hw | hw | hw)
    · exact hplainBefore w hw
    · exact plain_middle skills w hw
    · exact hplainAfter w hw

/-! ## Texts of a valid document -/

/-- A carriage return stands before a line feed only. -/
def Fed (text : Text) : Prop := ∀ s u, text = s ++ '\r' :: u → u.head? = some '\n'

/-- In a valid document the end marker ends its line with a line feed, or is the
last line. -/
theorem post_of_ending (h : TextParts text pre first mid last post) (hfed : Fed text)
    (hending : ending last = []) : post = [] := by
  by_contra hne
  have hsplit : splitLines text = (pre ++ first :: (mid ++ [last])) ++ post := by
    rw [h.eq]
    simp
  obtain ⟨-, -, hcut⟩ := splitLines_split hsplit
  obtain ⟨hends, huncut⟩ := hcut hne
  have hmarker : rstripNewline last = endMarker := by
    simpa [isEnd, isMarker] using h.last.1
  rcases List.eq_nil_or_concat last with rfl | ⟨front, c, rfl⟩
  · exact absurd hmarker (by decide)
  · rw [List.concat_eq_append] at *
    have hflat : (pre ++ first :: (mid ++ [front ++ [c]])).flatten =
        (pre ++ first :: (mid ++ [front])).flatten ++ [c] := by
      simp
    rw [hflat] at hends huncut
    have hc : isLineBoundary c = true := hends c (by simp)
    by_cases hfeed : c = '\n'
    · subst hfeed
      have hsuffix : endsWith ['\n'] (front ++ ['\n']) = true :=
        List.isSuffixOf_iff_suffix.mpr (List.suffix_append _ _)
      rw [ending, hsuffix] at hending
      split at hending <;> cases hending
    · by_cases hreturn : c = '\r'
      · subst hreturn
        refine huncut (by simp) (hfed (pre ++ first :: (mid ++ [front])).flatten post.flatten ?_)
        rw [← flatten_splitLines text, hsplit, List.flatten_append, hflat]
        simp
      · rw [rstripNewline_of_last (by simpa using ⟨hreturn, hfeed⟩)] at hmarker
        have hlast := congrArg List.getLast? hmarker
        rw [List.getLast?_concat] at hlast
        obtain rfl : c = 'N' := Option.some.inj hlast
        exact absurd hc (by decide)

/-- A marker that stands in a text with line feeds behind it stands in the text. -/
theorem infix_of_feeds {marker t tail : Text} (hmarker : ∀ c ∈ marker, c ≠ '\r' ∧ c ≠ '\n')
    (htail : ∀ c ∈ tail, c = '\r' ∨ c = '\n') (h : marker <:+: t ++ tail) : marker <:+: t := by
  obtain ⟨front, rest, hsplit⟩ := h
  rcases List.append_eq_append_iff.mp hsplit with ⟨more, ht, -⟩ | ⟨more, hfront, hrest⟩
  · exact ⟨front, more, ht.symm⟩
  · cases hmore : more.reverse with
    | nil =>
        obtain rfl : more = [] := by simpa using hmore
        exact ⟨front, [], by simpa using hfront⟩
    | cons c more' =>
        have hlast : more = more'.reverse ++ [c] := by
          rw [← List.reverse_reverse more, hmore, List.reverse_cons]
        have hc : c = '\r' ∨ c = '\n' := htail c (by rw [hrest, hlast]; simp)
        cases hm : marker.reverse with
        | nil =>
            obtain rfl : marker = [] := by simpa using hm
            exact List.nil_infix
        | cons d marker' =>
            -- the last character of the marker would be one of the line feeds
            have hend : marker = marker'.reverse ++ [d] := by
              rw [← List.reverse_reverse marker, hm, List.reverse_cons]
            rw [hend, hlast, ← List.append_assoc, ← List.append_assoc] at hfront
            obtain ⟨-, hd⟩ := List.append_inj' hfront rfl
            obtain rfl : d = c := by simpa using hd
            have hno := hmarker d (by rw [hend]; simp)
            exact absurd hc (by simp [hno])

theorem rstripNewline_starts (line : Text) : rstripNewline line <+: line := by
  have hsuffix : line.reverse.dropWhile (fun c => c == '\r' || c == '\n') <:+ line.reverse :=
    List.dropWhile_suffix _
  have hprefix := List.reverse_prefix.mpr hsuffix
  rwa [List.reverse_reverse] at hprefix

/-- A text that does not contain the markers has no line of them, also with line
feeds behind it. -/
theorem plain_feeds {tail : Text} (hbegin : contains beginMarker text = false)
    (hend : contains endMarker text = false) (htail : ∀ c ∈ tail, c = '\r' ∨ c = '\n') :
    ∀ w ∈ splitLines (text ++ tail), Plain w := by
  intro w hw
  have hinfix : rstripNewline w <:+: text ++ tail := by
    have hline : w <:+: (splitLines (text ++ tail)).flatten := List.infix_of_mem_flatten hw
    rw [flatten_splitLines] at hline
    exact (rstripNewline_starts w).isInfix.trans hline
  have hno : ∀ marker : Text, contains marker text = false →
      (∀ c ∈ marker, c ≠ '\r' ∧ c ≠ '\n') → isMarker marker w = false := by
    intro marker hcontains hchars
    rw [isMarker, beq_eq_false_iff_ne]
    intro heq
    rw [heq] at hinfix
    have hthere := contains_of_isInfix (infix_of_feeds hchars htail hinfix)
    rw [hcontains] at hthere
    cases hthere
  exact ⟨hno beginMarker hbegin (by decide), hno endMarker hend (by decide)⟩

/-! ## The place of the block -/

/-- Where the block of a text is, or goes: between two texts of complete lines
without markers. -/
structure Slot (text before e after : Text) : Prop where
  ending : IsEnding e
  ends : EndsLine before
  plainBefore : ∀ w ∈ splitLines before, Plain w
  plainAfter : ∀ w ∈ splitLines after, Plain w
  opened : e = [] → after = []
  replace : ∀ skills, replaceManagedBlock text (some (renderManagedBlock skills)) =
    .ok (before ++ renderManagedBlock skills ++ e ++ after)

theorem slot_of_parts (h : TextParts text pre first mid last post) (hfed : Fed text) :
    Slot text pre.flatten (ending last) post.flatten := by
  obtain ⟨hpre, -, hcut⟩ := splitLines_split h.eq
  have hsplit : splitLines text = (pre ++ first :: (mid ++ [last])) ++ post := by
    rw [h.eq]
    simp
  obtain ⟨-, hpost, -⟩ := splitLines_split hsplit
  refine ⟨isEnding_ending last, (hcut (List.cons_ne_nil _ _)).1, ?_, ?_, ?_, fun skills => ?_⟩
  · rw [hpre]
    exact fun w hw => h.rest w (.inl hw)
  · rw [hpost]
    exact fun w hw => h.rest w (.inr (.inr hw))
  · intro hending
    rw [post_of_ending h hfed hending]
    rfl
  · exact replaceManagedBlock_parts h (some (renderManagedBlock skills))

theorem separator_feeds (text : Text) : ∀ c ∈ separator text, c = '\r' ∨ c = '\n' := by
  intro c hc
  rw [separator] at hc
  split at hc
  · cases hc
  · split at hc <;> simp_all

theorem endsLine_separated (text : Text) : EndsLine (text ++ separator text) := by
  rw [separator]
  split
  · rename_i hnil
    rw [hnil]
    exact nofun
  · split
    · exact endsLine_feed text
    · rw [show text ++ ['\n', '\n'] = (text ++ ['\n']) ++ ['\n'] by simp]
      exact endsLine_feed _

theorem unmarked_of_none (h : managedRange text = .ok none) :
    contains beginMarker text = false ∧ contains endMarker text = false := by
  rw [managedRange] at h
  split at h
  · split at h
    · cases h
    · rename_i hcontains
      simpa using hcontains
  · cases h
  · cases h

theorem slot_of_none (h : managedRange text = .ok none) :
    Slot text (text ++ separator text) ['\n'] [] := by
  obtain ⟨hbegin, hend⟩ := unmarked_of_none h
  refine ⟨.inr (.inl rfl), endsLine_separated text, plain_feeds hbegin hend (separator_feeds text),
    fun _ hw => absurd hw List.not_mem_nil, fun _ => rfl, fun skills => ?_⟩
  rw [replaceManagedBlock.eq_def, h, List.append_nil]
  rfl

theorem exists_slot {range : Option (Nat × Nat)} (h : managedRange text = .ok range)
    (hfed : Fed text) : ∃ before e after, Slot text before e after := by
  cases range with
  | none => exact ⟨_, _, _, slot_of_none h⟩
  | some range =>
      obtain ⟨pre, first, mid, last, post, hparts⟩ := parts_of_managedRange h
      exact ⟨_, _, _, slot_of_parts hparts hfed⟩

variable {before e after : Text}

theorem Slot.parts (h : Slot text before e after) (skills : List Text) :
    TextParts (before ++ renderManagedBlock skills ++ e ++ after) (splitLines before)
      (beginMarker ++ ['\n']) (middle skills) (endMarker ++ e) (splitLines after) :=
  parts_block h.ending h.ends h.plainBefore h.plainAfter h.opened

/-- A text that was written has its block in the same place. -/
theorem Slot.again (h : Slot text before e after) (skills : List Text) :
    Slot (before ++ renderManagedBlock skills ++ e ++ after) before e after :=
  { h with
    replace := fun skills' => by
      rw [replaceManagedBlock_parts (h.parts skills), flatten_splitLines, flatten_splitLines,
        ending_end h.ending] }

/-! ## Plans -/

theorem validateToml_eq_ok {t u label : Text} :
    validateToml toml t label = .ok u ↔ toml.error t = none ∧ t = u := by
  rw [validateToml]
  cases toml.error t <;> simp

theorem managedRange_nil : managedRange [] = .ok none := by decide

/-- A config that is read is a valid document with at most one block. -/
theorem readConfig_eq_ok {config : Option Text} {t : Text} (h : readConfig toml config = .ok t) :
    t = config.getD [] ∧ toml.error t = none ∧ ∃ range, managedRange t = .ok range := by
  cases config with
  | none =>
      obtain rfl : [] = t := by simpa [readConfig] using h
      exact ⟨rfl, toml.empty, none, managedRange_nil⟩
  | some text =>
      obtain ⟨u, hu, hrange⟩ := bind_eq_ok.1 h
      obtain ⟨hvalid, rfl⟩ := validateToml_eq_ok.mp hu
      cases hmanaged : managedRange text with
      | error message =>
          rw [hmanaged] at hrange
          cases hrange
      | ok range =>
          rw [hmanaged] at hrange
          obtain rfl : text = t := by simpa [Except.map] using hrange
          exact ⟨rfl, hvalid, range, hmanaged⟩

theorem readConfig_some {t : Text} {range : Option (Nat × Nat)} (hvalid : toml.error t = none)
    (hrange : managedRange t = .ok range) : readConfig toml (some t) = .ok t := by
  rw [readConfig, validateToml_eq_ok.mpr ⟨hvalid, rfl⟩]
  show (managedRange t).map _ = _
  rw [hrange]
  rfl

theorem buildPlan_read {config : Option Text} {t : Text} (h : readConfig toml config = .ok t)
    (action : Action) : buildPlan toml config action =
      (replaceManagedBlock t action.replacement).bind fun updated =>
        validateToml toml updated (txt "generated config") := by
  rw [buildPlan, h]
  rfl

/-- The managed block of a text, with what is before and after it. -/
def ManagedAt (text before block after : Text) : Prop :=
  ∃ pre first mid last post, TextParts text pre first mid last post ∧ before = pre.flatten ∧
    block = (first :: (mid ++ [last])).flatten ∧ after = post.flatten

/-- What applying a set of skills to a config gives: it is given again, other
skills take their place, and removing the block gives the text that was there
before it. What is outside of the block stays as it is. -/
structure Reversible (toml : Toml) (config : Option Text) (skills : List Text) (managed : Text) :
    Prop where
  again : buildPlan toml (some managed) (.apply skills) = .ok managed
  last : ∀ others, buildPlan toml (some managed) (.apply others) =
    buildPlan toml config (.apply others)
  applied : ∀ before block after, ManagedAt (config.getD []) before block after →
    ∃ block', ManagedAt managed before block' after
  added : managedRange (config.getD []) = .ok none →
    ∃ gap block', ManagedAt managed (config.getD [] ++ gap) block' []
  removed : ∀ t, buildPlan toml config .remove = .ok t →
    (∀ before block after, ManagedAt (config.getD []) before block after → t = before ++ after) ∧
      (managedRange (config.getD []) = .ok none → t = config.getD [])
  back : managedRange (config.getD []) = .ok none →
    buildPlan toml (some managed) .remove = .ok (config.getD [])

/-- What was applied stands in the slot of the config. -/
theorem applied_slot {config : Option Text} {skills : List Text} {managed before e after : Text}
    (hslot : Slot (config.getD []) before e after)
    (h : buildPlan toml config (.apply skills) = .ok managed) :
    managed = before ++ renderManagedBlock skills ++ e ++ after ∧ toml.error managed = none := by
  obtain ⟨t, hread, hplan⟩ := bind_eq_ok.1 h
  obtain ⟨rfl, -, -⟩ := readConfig_eq_ok hread
  have hreplace := hslot.replace skills
  change replaceManagedBlock _ (Action.apply skills).replacement = _ at hreplace
  rw [hreplace] at hplan
  obtain ⟨hvalid, rfl⟩ := validateToml_eq_ok.mp hplan
  exact ⟨rfl, hvalid⟩

theorem Slot.read_applied {managed : Text} {skills : List Text} (h : Slot text before e after)
    (hmanaged : managed = before ++ renderManagedBlock skills ++ e ++ after)
    (hvalid : toml.error managed = none) : readConfig toml (some managed) = .ok managed := by
  have hrange := managedRange_parts (h.parts skills)
  rw [← hmanaged] at hrange
  exact readConfig_some hvalid hrange

theorem Slot.managedAt (h : Slot text before e after) (skills : List Text) :
    ∃ block, ManagedAt (before ++ renderManagedBlock skills ++ e ++ after) before block after :=
  ⟨_, _, _, _, _, _, h.parts skills, (flatten_splitLines before).symm, rfl,
    (flatten_splitLines after).symm⟩

theorem replaceManagedBlock_none (h : managedRange text = .ok none) :
    replaceManagedBlock text none = .ok text := by
  rw [replaceManagedBlock.eq_def, h]
  rfl

theorem append_separator_iff (text : Text) : text ++ separator text = text ↔ text = [] := by
  have hsep : separator text = [] ↔ text = [] := by
    rw [separator]
    split
    · rename_i hnil
      simp [hnil]
    · rename_i hne
      split <;> simp [hne]
  rw [← hsep]
  simp

/-- Removing what was applied to a text without a block leaves the separator. -/
theorem remove_applied {config : Option Text} {skills : List Text} {managed : Text}
    (hnone : managedRange (config.getD []) = .ok none)
    (h : buildPlan toml config (.apply skills) = .ok managed) :
    buildPlan toml (some managed) .remove =
      validateToml toml (config.getD [] ++ separator (config.getD [])) (txt "generated config") := by
  have hslot := slot_of_none hnone
  obtain ⟨hmanaged, hvalid⟩ := applied_slot hslot h
  rw [buildPlan_read (hslot.read_applied hmanaged hvalid), hmanaged]
  change (replaceManagedBlock _ none).bind _ = _
  rw [replaceManagedBlock_parts (hslot.parts skills), flatten_splitLines, flatten_splitLines,
    List.append_nil]
  rfl

/-- Curation of a config is reversible exactly when the config is empty or has a
block already. -/
theorem curation_reversible_iff (toml : Toml) (config : Option Text) (skills : List Text)
    (managed : Text) (h : buildPlan toml config (.apply skills) = .ok managed) :
    Reversible toml config skills managed ↔
      config.getD [] = [] ∨ managedRange (config.getD []) ≠ .ok none := by
  obtain ⟨t, hread, -⟩ := bind_eq_ok.1 h
  obtain ⟨rfl, hvalid, range, hrange⟩ := readConfig_eq_ok hread
  have hfed : Fed (config.getD []) := toml.feeds _ hvalid
  obtain ⟨before, e, after, hslot⟩ := exists_slot hrange hfed
  obtain ⟨hmanaged, hmanagedValid⟩ := applied_slot hslot h
  have hreadManaged := hslot.read_applied hmanaged hmanagedValid
  have hlast : ∀ others, buildPlan toml (some managed) (.apply others) =
      buildPlan toml config (.apply others) := by
    intro others
    rw [buildPlan_read hreadManaged, buildPlan_read hread]
    change (replaceManagedBlock _ (some (renderManagedBlock others))).bind _ =
      (replaceManagedBlock _ (some (renderManagedBlock others))).bind _
    rw [hslot.replace, hmanaged, (hslot.again skills).replace]
  constructor
  · intro hreversible
    by_contra hcontra
    rw [not_or, not_not] at hcontra
    have hback := hreversible.back hcontra.2
    rw [remove_applied hcontra.2 h, validateToml_eq_ok, append_separator_iff] at hback
    exact hcontra.1 hback.2
  · intro hcases
    refine ⟨(hlast skills).trans h, hlast, ?_, ?_, fun u hu => ⟨?_, fun hnone => ?_⟩, fun hnone => ?_⟩
    · rintro _ _ _ ⟨pre, first, mid, last, post, hparts, rfl, -, rfl⟩
      have hparted := slot_of_parts hparts hfed
      obtain ⟨hmanaged', -⟩ := applied_slot hparted h
      rw [hmanaged']
      exact hparted.managedAt skills
    · intro hnone
      have hnew := slot_of_none hnone
      obtain ⟨hmanaged', -⟩ := applied_slot hnew h
      rw [hmanaged']
      exact ⟨separator (config.getD []), hnew.managedAt skills⟩
    · rintro _ _ _ ⟨pre, first, mid, last, post, hparts, rfl, -, rfl⟩
      rw [buildPlan_read hread] at hu
      change (replaceManagedBlock _ none).bind _ = _ at hu
      rw [replaceManagedBlock_parts hparts] at hu
      exact (validateToml_eq_ok.mp hu).2.symm
    · rw [buildPlan_read hread] at hu
      change (replaceManagedBlock _ none).bind _ = _ at hu
      rw [replaceManagedBlock_none hnone] at hu
      exact (validateToml_eq_ok.mp hu).2.symm
    · have hempty : config.getD [] = [] := hcases.resolve_right (not_not.mpr hnone)
      rw [remove_applied hnone h, hempty]
      exact validateToml_eq_ok.mpr ⟨toml.empty, rfl⟩

/-! ## A separator that stays -/

/-- A carriage return without a line feed behind it. -/
def bareReturn : Text → Bool
  | [] => false
  | c :: t => (c == '\r' && t.head? != some '\n') || bareReturn t

/-- A reader that takes every text without such a carriage return. -/
def sampleToml : Toml where
  error t := if bareReturn t then some (txt "Invalid statement") else none
  empty := rfl
  feeds := by
    intro t ht s u hsplit
    have hbare : bareReturn t = false := by
      cases hb : bareReturn t with
      | false => rfl
      | true => simp [hb] at ht
    subst hsplit
    induction s with
    | nil =>
        simp only [List.nil_append, bareReturn, beq_self_eq_true, Bool.true_and,
          Bool.or_eq_false_iff, bne_eq_false_iff_eq] at hbare
        exact hbare.1
    | cons c s ih =>
        simp only [List.cons_append, bareReturn, Bool.or_eq_false_iff] at hbare
        exact ih (by simp [hbare.2]) hbare.2

def sampleConfig : Text := txt "a = 1\n"

def sampleSkills : List Text := [txt "/home/u/.agents/skills/demo/SKILL.md"]

def sampleManaged (config : Text) : Text :=
  config ++ separator config ++ renderManagedBlock sampleSkills ++ ['\n']

theorem buildPlan_sample (config : Text) (h : config = [] ∨ config = sampleConfig) :
    buildPlan sampleToml (some config) (.apply sampleSkills) = .ok (sampleManaged config) := by
  rcases h with rfl | rfl
  · decide +kernel
  · decide +kernel

/-- On an empty config everything that is applied can be taken back. -/
theorem curation_reversible_empty :
    Reversible sampleToml (some []) sampleSkills (sampleManaged []) :=
  (curation_reversible_iff sampleToml (some []) sampleSkills (sampleManaged [])
    (buildPlan_sample [] (.inl rfl))).mpr (.inl rfl)

/-- Behind a config of one line an empty line stays. -/
theorem curation_leaves_separator : ¬∀ config skills managed,
    buildPlan sampleToml config (.apply skills) = .ok managed →
      Reversible sampleToml config skills managed := by
  intro h
  have hplan := buildPlan_sample sampleConfig (.inr rfl)
  have hnone : managedRange ((some sampleConfig).getD []) = .ok none := by decide
  have hback := (h _ _ _ hplan).back hnone
  rw [remove_applied hnone hplan, validateToml_eq_ok, append_separator_iff] at hback
  exact absurd hback.2 (by decide)

end RalphVault.Setup.SkillCuration
