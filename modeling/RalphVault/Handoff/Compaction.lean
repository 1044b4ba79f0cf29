import RalphVault.Blanks
import RalphVault.SessionStart.Reducer

/-!
# Handoff — compaction

`compact_handoff_summary` and what it calls, of
`.codex/hooks/shared/handoff_compaction.py`. The lower case of a text is
the interpreter's.
-/

namespace RalphVault.Handoff

open Memory Regex
open Security (redactText boundary lit litCI space)
open SessionStart (splitlines joinLines)

/-! ## Patterns -/

section Patterns

variable (uni : Unicode)

/-- `DEAD_END_RE`. -/
def deadEndPattern : Regex Char :=
  seq [boundary uni,
    anyOf [litCI (txt "dead end"), litCI (txt "false start"), litCI (txt "ignore this"),
      litCI (txt "discarded"), litCI (txt "failed attempt"), litCI (txt "not useful")],
    boundary uni]

def nameChar (c : Char) : Bool := isAsciiAlnum c || c == '_' || c == '-'
def fileChar (c : Char) : Bool := nameChar c || c == '.'

/-- `FILE_RE`. -/
def filePattern : Regex Char :=
  anyOf [
    seq [atLeast 1 (seq [opt (lit ['.']), atLeast 1 (chr nameChar), lit ['/']]),
      atLeast 1 (chr fileChar)],
    seq [atLeast 1 (chr fileChar), lit ['.'],
      anyOf [lit (txt "py"), lit (txt "sh"), lit (txt "md"), lit (txt "json"), lit (txt "toml"),
        lit (txt "yaml"), lit (txt "yml")]]]

/-- `[^\n]{0,220}`. -/
def restOfLine : Regex Char := upTo 220 (chr fun c => c != '\n')

/-- `^` under `(?m)`. -/
def lineStart : Regex Char := look fun l _ => l == none || l == some '\n'

/-- `COMMAND_RE`. -/
def commandPattern : Regex Char :=
  seq [lineStart, star true space, opt (lit (txt "$ ")),
    opt (seq [lit (txt "PYTEST_DISABLE_PLUGIN_AUTOLOAD=1"), atLeast 1 space]),
    anyOf [seq [lit (txt "python"), opt (lit ['3'])], lit (txt "bash"), lit (txt "git"),
      lit (txt "rg"), lit (txt "sed"), lit (txt "pytest"), lit (txt "ruff"), lit (txt "mypy"),
      lit (txt "npm"), lit (txt "pnpm"), lit (txt "make")],
    boundary uni, restOfLine]

/-- `MEMORY_RE`. -/
def memoryPattern : Regex Char :=
  seq [boundary uni,
    anyOf [litCI (txt "selected_memory_ids"), litCI (txt "memory_rejected"),
      seq [litCI (txt "fallback"), opt (litCI (txt "_used"))], litCI (txt "recall_status")],
    boundary uni, restOfLine]

end Patterns

def rawOutputMarkers : List Text :=
  [txt "Traceback (most recent call last):", txt "\u0060\u0060\u0060diff", txt "diff --git ",
    txt "Original token count:", txt "Chunk ID:", txt "Wall time:", txt "Process exited with code"]

/-! ## Words and lines -/

/-- `_limit_words`. -/
def limitWords (t : Text) (limit : Int) : Text :=
  if limit ≤ 0 ∨ ((words t).length : Int) ≤ limit then t
  else rstrip (joinWith [' '] ((words t).take limit.toNat)) ++ txt "...[truncated]"

section Lines

variable (uni : Unicode) (lower : Text → Text)

/-- `_normalize_line`. -/
def normalizeLine (line : Text) : Text := compactSpace (redactText uni line).1

/-- `_is_raw_or_dead_line`. -/
def isRawOrDeadLine (line : Text) : Bool :=
  isBlank line || test (deadEndPattern uni) line || rawOutputMarkers.any fun marker => contains marker line

/-- `_dedupe`: `limit` more lines may be kept. -/
def dedupeFrom (seen : List Text) : Nat → List Text → List Text
  | _, [] => []
  | 0, _ :: _ => []
  | limit + 1, line :: lines =>
      let normalized := normalizeLine uni line
      if normalized.isEmpty || seen.contains normalized then dedupeFrom seen (limit + 1) lines
      else normalized :: dedupeFrom (normalized :: seen) limit lines

def dedupe (lines : List Text) (limit : Nat) : List Text := dedupeFrom uni [] limit lines

/-- `_lines_matching`. -/
def linesMatching (text : Text) (patterns : List Text) (limit : Nat) : List Text :=
  dedupe uni ((splitlines text).filter fun line => !isRawOrDeadLine uni line &&
    patterns.any fun pattern => contains (lower pattern) (lower line)) limit

/-- `text.strip(chars)`. -/
def stripChars (chars : Text) (t : Text) : Text :=
  ((t.dropWhile chars.contains).reverse.dropWhile chars.contains).reverse

/-- `_extract_files`. -/
def extractFiles (text : Text) : List Text :=
  dedupe uni (((findall filePattern text).map (stripChars (txt "\u0060.,:;"))).filter fun path =>
    !(splitOn '/' path).any fun part =>
      [txt ".git", txt "__pycache__", txt "node_modules", txt ".ralph-codex"].contains part) 12

/-- The group `cmd` of a match: it starts at the first letter. -/
def commandOf (found : Text) : Text :=
  strip ((afterPrefix (txt "$ ") (lstrip found)).getD (lstrip found))

/-- `_extract_commands`. -/
def extractCommands (text : Text) : List Text :=
  dedupe uni ((findall (commandPattern uni) text).map fun found =>
    let command := commandOf found
    if 180 < command.length then rstrip (command.take 180) ++ txt "...[truncated]" else command) 8

/-- `_extract_memory_trace`. -/
def extractMemoryTrace (text : Text) : List Text := dedupe uni (findall (memoryPattern uni) text) 4

def orElse (items default : List Text) : List Text := if items.isEmpty then default else items

/-- `_extract_goal`. -/
def extractGoal (text : Text) : List Text :=
  orElse (linesMatching uni lower text [txt "objective:", txt "goal:", txt "task:", txt "current goal"] 3)
    (match ((splitlines text).map (normalizeLine uni)).find? fun normalized =>
        !normalized.isEmpty && !startsWith ['#'] normalized && !isRawOrDeadLine uni normalized with
      | some normalized => [normalized]
      | none => [txt "none"])

/-- `_extract_next_actions`. -/
def extractNextActions (text nextStep : Text) : List Text :=
  orElse (dedupe uni ((if (strip nextStep).isEmpty then [] else [strip nextStep]) ++
    linesMatching uni lower text
      [txt "next action", txt "next:", txt "continue", txt "todo", txt "follow up"] 5) 5) [txt "none"]

/-! ## Sections -/

/-- `SECTION_ORDER`. -/
def sectionOrder : List Text :=
  [txt "Current goal", txt "Success criteria", txt "Key files", txt "Decisions",
    txt "Commands run", txt "Known blockers", txt "Do not re-read", txt "Next actions"]

/-- `_extract_sections`, in the order in which they are rendered. -/
def extractSections (text nextStep : Text) : List (Text × List Text) :=
  let matching := fun patterns limit => orElse (linesMatching uni lower text patterns limit) [txt "none"]
  [(txt "Current goal", extractGoal uni lower text),
    (txt "Success criteria", matching [txt "done when", txt "success", txt "criteria",
      txt "validation passed", txt "passes"] 5),
    (txt "Key files", orElse (extractFiles uni text) [txt "none"]),
    (txt "Decisions", matching [txt "decision", txt "implemented", txt "changed", txt "preserve",
      txt "kept", txt "validated"] 6),
    (txt "Commands run", orElse (extractCommands uni text) [txt "none"]),
    (txt "Known blockers", matching [txt "blocker", txt "failed", txt "unable", txt "risk",
      txt "not run"] 5),
    (txt "Do not re-read", orElse (extractMemoryTrace uni text)
      [txt "Large raw tool outputs, repeated prose, stack traces, and large diffs were intentionally compacted."]),
    (txt "Next actions", extractNextActions uni lower text nextStep)]

def headingOf (name : Text) : Text := txt "## " ++ name
def itemLine (item : Text) : Text := txt "- " ++ item

/-- The lines of one section. -/
def sectionLines (s : Text × List Text) : List Text := [] :: headingOf s.1 :: s.2.map itemLine

def handoffNote : Text :=
  txt "This handoff is non-authoritative project context. Current user instructions and repo files win."

/-- `_render_sections`: no section is without an item. -/
def renderSections (sections : List (Text × List Text)) : Text :=
  strip (joinLines ([txt "# Latest Handoff", [], handoffNote] ++ sections.flatMap sectionLines))

/-! ## Legacy sections -/

def rollingCheckpoint : Text := txt "Rolling Checkpoint"
def finalAssistantMessage : Text := txt "Final Assistant Message"

/-- What `LEGACY_SECTION_RE` takes as the body: everything up to a line that
starts a section. -/
def bodyOf : Bool → Text → Text
  | _, [] => []
  | lineStart, c :: t =>
      if lineStart && startsWith (txt "## ") (c :: t) then [] else c :: bodyOf (c == '\n') t

/-- The head of a match with the given title. -/
def legacyHead (title : Text) : Text := txt "## " ++ title ++ txt "\n\n"

/-- A match of `LEGACY_SECTION_RE` at the start of a line: its title and its
body. -/
def legacyAt (t : Text) : Option (Text × Text) :=
  match afterPrefix (legacyHead rollingCheckpoint) t, afterPrefix (legacyHead finalAssistantMessage) t with
  | some rest, _ => some (rollingCheckpoint, bodyOf true rest)
  | none, some rest => some (finalAssistantMessage, bodyOf true rest)
  | none, none => none

/-- `LEGACY_SECTION_RE.finditer`: `skip` characters still belong to the last
match. -/
def legacyFrom : Nat → Bool → Text → List (Text × Text)
  | _, _, [] => []
  | skip + 1, _, c :: t => legacyFrom skip (c == '\n') t
  | 0, lineStart, c :: t =>
      match if lineStart then legacyAt (c :: t) else none with
      | some m =>
          m :: legacyFrom ((legacyHead m.1).length + m.2.length - 1) (c == '\n') t
      | none => legacyFrom 0 (c == '\n') t

/-- The lines of the block a legacy section becomes, if it becomes one. -/
def legacyBlock (defaultMaxWords : Int) (m : Text × Text) : Option (List Text) :=
  if m.1 = finalAssistantMessage ∧ defaultMaxWords < (words m.2).length then none
  else
    let bodyLines := dedupe uni ((splitlines m.2).filter fun line => !isRawOrDeadLine uni line)
      (if m.1 = rollingCheckpoint then 8 else 3)
    if bodyLines.isEmpty then none
    else some (headingOf m.1 :: [] :: bodyLines.map fun line =>
      limitWords line (if m.1 = finalAssistantMessage then 600 else 40))

/-- `_compact_legacy_sections`, each block as its lines. -/
def compactLegacySections (defaultMaxWords : Int) (text : Text) : List (List Text) :=
  (legacyFrom 0 true text).filterMap (legacyBlock uni defaultMaxWords)

/-! ## The budget -/

/-- The state of the loop of `_trim_to_budget`. -/
structure Trim where
  kept : List Text
  currentSection : Text
  protectedSeen : List Text
  words : Nat

def protectedSections : List Text := [txt "Current goal", txt "Next actions"]

def Trim.section (s : Trim) (line : Text) : Text :=
  if startsWith (txt "## ") line then strip (line.drop 3) else s.currentSection

/-- `protected_first_item`. -/
def Trim.firstItem (s : Trim) (line : Text) : Bool :=
  startsWith (txt "- ") line && protectedSections.contains (s.section line) &&
    !s.protectedSeen.contains (s.section line)

def Trim.lineToKeep (s : Trim) (line : Text) : Text :=
  if s.firstItem line && 16 < wordCount line then limitWords line 16 else line

def isHeading (line : Text) : Bool := startsWith ['#'] line

/-- One turn of the loop. -/
def Trim.step (maxWords : Int) (s : Trim) (line : Text) : Trim :=
  if isHeading line || ((s.words + wordCount (s.lineToKeep line) : Nat) : Int) ≤ maxWords ||
      s.firstItem line then
    ⟨s.kept ++ [s.lineToKeep line], s.section line,
      if s.firstItem line then s.section line :: s.protectedSeen else s.protectedSeen,
      s.words + wordCount (s.lineToKeep line)⟩
  else { s with currentSection := s.section line }

def trimMark (maxWords : Int) : Text :=
  txt "[handoff compacted: word_budget=" ++ Json.intText maxWords ++ [']']

/-- The lines kept of a text that is over its budget. -/
def keptLines (maxWords : Int) (lines : List Text) : List Text :=
  (lines.foldl (Trim.step maxWords) ⟨[], [], [], 0⟩).kept

/-- `_trim_to_budget`. -/
def trimToBudget (rendered : Text) (maxWords : Int) : Text :=
  if maxWords ≤ 0 ∨ (wordCount rendered : Int) ≤ maxWords then rendered
  else strip (joinLines (keptLines maxWords (splitlines rendered) ++ ['\n' :: trimMark maxWords]))

/-- The text before it is trimmed. -/
def renderedHandoff (defaultMaxWords : Int) (summary nextStep : Text) : Text :=
  let clean := (redactText uni summary).1
  let cleanNext := (redactText uni nextStep).1
  joinWith (txt "\n\n") (renderSections (extractSections uni lower clean cleanNext) ::
    (compactLegacySections uni defaultMaxWords clean).map joinLines)

/-- `compact_handoff_summary`. -/
def compactHandoffSummary (defaultMaxWords : Int) (summary nextStep : Text) (maxWords : Int) : Text :=
  trimToBudget (renderedHandoff uni lower defaultMaxWords summary nextStep) maxWords

end Lines

end RalphVault.Handoff
