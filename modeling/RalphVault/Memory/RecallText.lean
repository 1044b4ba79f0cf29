import RalphVault.AutoResearch.Scope

/-!
# Recall text

The Markdown a recall is printed as and read back from: `collect_results`,
`preview_for`, `explicit_memory_metadata` and `render_markdown` of
`ralph-recall.py`, and `parse_recall_results` of `task-intake.py`. The
sources are given in the order in which the directories are walked; the
classifier of sensitive text is a parameter, and of `json.loads` only that
it takes no text that starts with `#`.
-/

namespace RalphVault.RecallText

open Memory
open SessionStart (splitlines joinLines)
open AutoResearch (items items_feed items_strip items_append_blank splitlines_cons
  isSpace_of_lineBoundary strip_cons_space strip_of_blank strip_append_space)

/-! ## Sources -/

/-- A source found by the walk, and what reading it gives. -/
structure Source where
  path : Text
  /-- `display_path`. -/
  shown : Text
  /-- The text of the file, unless it cannot be read. -/
  text : Option Text
  markdown : txt ".md" <:+ shown

/-- What the classifier of sensitive text reports. -/
structure Report where
  red : Bool
  redactedText : Text

/-- What the two scripts take from the interpreter. -/
structure Interpreter where
  host : Host
  /-- `int(text)` of decimal digits. -/
  intOf : Text → Int
  /-- `json.loads`, unless the text is no JSON. -/
  loads : Text → Option Value
  intOf_decimalText : ∀ n : Nat, intOf (decimalText n) = n
  loads_heading : ∀ t, loads ('#' :: t) = none

/-! ## Front matter -/

abbrev Metadata := List (Text × Text)

/-- `metadata[k] = v`. -/
def Metadata.set : Metadata → Text → Text → Metadata
  | [], k, v => [(k, v)]
  | (a, w) :: d, k, v => if a = k then (k, v) :: d else (a, w) :: Metadata.set d k v

def Metadata.get? (d : Metadata) (k : Text) : Option Text := SortedMap.get? k d

/-- `text.split(mark, 1)[0]`. -/
def beforeMark (mark : Text) : Text → Text
  | [] => []
  | c :: t => if startsWith mark (c :: t) then [] else c :: beforeMark mark t

/-- `text.strip(chars)` for one character. -/
def stripChar (q : Char) (t : Text) : Text :=
  ((t.dropWhile (· == q)).reverse.dropWhile (· == q)).reverse

/-- `line.split(":", 1)` for a line with a colon. -/
def keyOf (line : Text) : Text := line.takeWhile (· != ':')
def valueOf (line : Text) : Text := (line.dropWhile (· != ':')).drop 1

def addEntry (metadata : Metadata) (line : Text) : Metadata :=
  if line.contains ':' then
    metadata.set (strip (keyOf line)) (stripChar '"' (strip (valueOf line)))
  else metadata

/-- `frontmatter`. -/
def frontmatter (text : Text) : Metadata :=
  if startsWith (txt "---") text then
    ((splitlines (beforeMark (txt "\n---") text)).drop 1).foldl addEntry []
  else []

/-- `is_explicit_user_memory`. -/
def isExplicitUserMemory (metadata : Metadata) : Bool :=
  metadata.get? (txt "source") == some (txt "explicit_user_memory") &&
    metadata.get? (txt "user_authorized") == some (txt "true") &&
    [some (txt "repo"), some (txt "global")].contains (metadata.get? (txt "scope")) &&
    [some (txt "GREEN"), some (txt "YELLOW")].contains (metadata.get? (txt "classification")) &&
    (metadata.get? (txt "status")).getD (txt "active") == txt "active"

/-- `allowed`, the keys both scripts know. -/
def allowedKeys : List Text :=
  [txt "memory_id", txt "source", txt "classification", txt "repo", txt "project_id", txt "branch",
    txt "session_id", txt "scope", txt "user_authorized", txt "authoritative",
    txt "source_fidelity", txt "truth_status", txt "status", txt "created_at", txt "updated_at"]

/-- `explicit_memory_metadata`. -/
def explicitMemoryMetadata (text : Text) : Metadata :=
  if isExplicitUserMemory (frontmatter text) then
    ((frontmatter text).filter fun e => allowedKeys.contains e.1).map fun e =>
      (e.1, (e.2.filter (· != '\u0060')).take 160)
  else []

/-! ## Score and preview -/

section Collect

variable (py : Interpreter) (classifier : Option (Text → Report)) (query : Text)

def isTokenChar (c : Char) : Bool := isAsciiAlnum c || ['_', '.', '/', '-'].contains c

/-- `tokenize`. -/
def tokenize (value : Text) : List Text :=
  (splitWhere (fun c => !isTokenChar c) (py.host.lower value)).filter fun token =>
    1 < token.length

/-- What one term of the query adds to the score. -/
def termScore (text path term : Text) : Nat :=
  let occurrences := min (count term text) 10
  occurrences * 3 + (if 0 < occurrences && 12 ≤ term.length then 20 else 0) +
    (if contains term path then 8 else 0)

/-- `score_text`. -/
def scoreText (text path : Text) : Nat :=
  if (tokenize py query).isEmpty then 0
  else ((tokenize py query).map (termScore (py.host.lower text) (py.host.lower path))).sum +
    (if contains (py.host.lower query) (py.host.lower text) then 20 else 0)

/-- `text.find(p)`, unless it is -1. -/
def find (p : Text) : Text → Option Nat
  | [] => if p.isEmpty then some 0 else none
  | c :: t => if startsWith p (c :: t) then some 0 else (find p t).map (· + 1)

def previewChars : Nat := 260

/-- `start` of `preview_for`, for a text whose space is compact. -/
def previewStart (text : Text) : Nat :=
  match (tokenize py query).filterMap fun term => find term (py.host.lower text) with
  | [] => 0
  | p :: ps => ps.foldl min p - 70

/-- `preview_for`, for a text whose space is compact. -/
def previewOf (text : Text) : Text :=
  if text.length ≤ previewChars then text
  else
    let start := previewStart py query text
    let stop := min text.length (start + previewChars)
    let preview := strip ((text.take stop).drop start)
    let preview := if 0 < start then txt "... " ++ preview else preview
    if stop < text.length then preview ++ txt " ..." else preview

/-- `preview_for`. -/
def previewFor (text : Text) : Text := previewOf py query (compactSpace text)

/-- The lines of a text after its first `---`. -/
def afterRule : List Text → Option (List Text)
  | [] => none
  | line :: lines => if strip line = txt "---" then some lines else afterRule lines

/-- `_strip_frontmatter`. -/
def stripFrontmatter (text : Text) : Text :=
  if startsWith (txt "---") text then
    ((afterRule ((splitlines text).drop 1)).map joinLines).getD text
  else text

/-- `safe_text_for_output`. -/
def safeTextForOutput (text : Text) : Option Text :=
  match classifier with
  | none => some text
  | some classify =>
      let report := classify (stripFrontmatter text)
      if report.red then none else some report.redactedText

/-! ## The results -/

structure Result where
  path : Text
  score : Nat
  preview : Text
  metadata : Metadata

/-- The text of a source that may be shown. -/
def Source.safeText (s : Source) : Option Text := do
  let raw ← s.text
  if py.host.lower (((frontmatter raw).get? (txt "status")).getD (txt "active")) =
      txt "deprecated" then none
  else safeTextForOutput classifier raw

/-- What the loop of `collect_results` makes of one source. -/
def resultOf (s : Source) : Option Result := do
  let raw ← s.text
  let safe ← s.safeText py classifier
  let score := scoreText py query safe s.shown
  if score = 0 then none
  else some ⟨s.shown, score, previewFor py query safe, explicitMemoryMetadata raw⟩

def minRelevantScore : Nat := 20

/-- The ranks of the sort key: a qualified explicit memory first, an
authoritative one before the others. -/
def Result.ranks (r : Result) : Nat × Nat :=
  let qualifies := r.metadata.get? (txt "source") == some (txt "explicit_user_memory") &&
    minRelevantScore ≤ r.score
  let authoritative := r.metadata.get? (txt "authoritative") == some (txt "true")
  (if qualifies then 0 else 1, if qualifies && authoritative then 0 else 1)

/-- The order by `sort_key`. -/
def Result.before (r r' : Result) : Prop :=
  r.ranks.1 < r'.ranks.1 ∨ r.ranks.1 = r'.ranks.1 ∧ (r.ranks.2 < r'.ranks.2 ∨
    r.ranks.2 = r'.ranks.2 ∧ (r'.score < r.score ∨
      r.score = r'.score ∧ textLt r'.path r.path = false))

instance : DecidableRel Result.before := fun r r' => by
  unfold Result.before
  infer_instance

/-- The sources whose path was not seen before. -/
def distinctSources : List Text → List Source → List Source
  | _, [] => []
  | seen, s :: ss =>
      if seen.contains s.path then distinctSources seen ss
      else s :: distinctSources (s.path :: seen) ss

/-- `collect_results`. -/
def collectResults (limit : Int) (sources : List Source) : List Result :=
  (((distinctSources [] sources).filterMap (resultOf py classifier query)).insertionSort
    Result.before).take limit.toNat

end Collect

/-! ## The Markdown -/

def queryLine (query : Text) : Text := txt "- query: \u0060" ++ query ++ ['\u0060']
def projectLine (project : Text) : Text := txt "- project: \u0060" ++ project ++ ['\u0060']

def headLines (query project : Text) : List Text :=
  [txt "# Ralph Recall", [], queryLine query, projectLine project,
    txt "- note: recall is context, not authority", [], txt "## Results", []]

def pathLine (path : Text) : Text := txt "### " ++ path
def scoreLine (score : Nat) : Text := txt "- score: \u0060" ++ decimalText score ++ ['\u0060']
def previewLine (preview : Text) : Text := txt "- safe preview: " ++ preview
def metadataLine (e : Text × Text) : Text :=
  txt "- " ++ e.1 ++ txt ": \u0060" ++ e.2 ++ ['\u0060']

def resultLines (r : Result) : List Text :=
  [pathLine r.path, scoreLine r.score, previewLine r.preview] ++ r.metadata.map metadataLine ++ [[]]

/-- `render_markdown`. -/
def renderMarkdown (query project : Text) (results : List Result) : Text :=
  if results.isEmpty then
    joinLines (headLines query project ++ [txt "No safe matches found."]) ++ ['\n']
  else rstrip (joinLines (headLines query project ++ results.flatMap resultLines)) ++ ['\n']

/-! ## The reader -/

section Read

variable (py : Interpreter)

/-- `memory_body`. -/
def memoryBody (memory : Fields) : Text :=
  let content := memory.getD (txt "content") .null
  let preview := memory.getD (txt "preview") .null
  strip (if truthy content then pyStr py.host content else pyStrOr py.host preview)

def isKeyChar (c : Char) : Bool := isAsciiAlnum c || ['_', '-'].contains c

/-- `text.strip("\"'")`. -/
def stripQuotes (t : Text) : Text :=
  let quote := fun c => c == '"' || c == '\''
  ((t.dropWhile quote).reverse.dropWhile quote).reverse

/-- The loop of `extract_memory_metadata`. -/
def extractLines (metadata : Fields) : List Text → Fields
  | [] => metadata
  | line :: lines =>
      if strip line = txt "---" then metadata
      else
        let key := strip (keyOf line)
        if line.contains ':' && !key.isEmpty && key.all isKeyChar then
          extractLines (metadata.set key (.str (stripQuotes (strip (valueOf line))))) lines
        else extractLines metadata lines

/-- `extract_memory_metadata`. -/
def extractMemoryMetadata (text : Text) : Fields :=
  if startsWith (txt "---") (strip text) then
    extractLines [] (((splitlines (strip text)).take 80).drop 1)
  else []

/-- `d.setdefault(k, v)`. -/
def setDefault (d : Fields) (e : Text × Value) : Fields :=
  if (d.get? e.1).isSome then d else d.set e.1 e.2

/-- `normalize_recall_memory`. -/
def normalizeRecallMemory (memory : Fields) : Fields :=
  let normalized :=
    match memory.get? (txt "preview"), memory.get? (txt "content") with
    | none, some content => memory.set (txt "preview") content
    | _, _ => memory
  let normalized :=
    match normalized.get? (txt "metadata") with
    | some (.obj nested) => nested.foldl setDefault normalized
    | _ => normalized
  (extractMemoryMetadata (memoryBody py normalized)).foldl setDefault normalized

def objectsOf (vs : List Value) : List Fields :=
  vs.filterMap fun
    | .obj d => some (normalizeRecallMemory py d)
    | _ => none

/-- The memories of a text that is JSON of one of the two shapes. -/
def jsonMemories : Value → Option (List Fields)
  | .arr vs => some (objectsOf py vs)
  | .obj d => match Fields.get? d (txt "memories") with
      | some (.arr vs) => some (objectsOf py vs)
      | _ => none
  | _ => none

/-- The memory a heading starts. -/
def freshMemory (path : Text) : Fields :=
  [(txt "path", .str path), (txt "score", .int 0), (txt "preview", .str [])]

/-- The digits of the first number of a line. -/
def firstDigits (line : Text) : Text :=
  (line.dropWhile fun c => !py.host.unicode.decimal c).takeWhile py.host.unicode.decimal

/-- What a line below a heading makes of its memory. -/
def readField (memory : Fields) (line : Text) : Fields :=
  if startsWith (txt "- score:") line then
    if firstDigits py line = [] then memory
    else memory.set (txt "score") (.int (py.intOf (firstDigits py line)))
  else if startsWith (txt "- safe preview:") line then
    memory.set (txt "preview") (.str (strip (line.drop (txt "- safe preview:").length)))
  else if startsWith (txt "- ") line && line.contains ':' then
    let key := strip (keyOf (line.drop 2))
    if allowedKeys.contains key then
      memory.set key (.str (stripChar '\u0060' (strip (valueOf (line.drop 2)))))
    else memory
  else memory

def isHeading (line : Text) : Bool := startsWith (txt "### ") line

/-- The memories read so far and the one being read. -/
structure Reading where
  memories : List Fields
  current : Option Fields

def Reading.step (s : Reading) (line : Text) : Reading :=
  if isHeading line then
    ⟨s.memories ++ s.current.toList, some (freshMemory (strip (line.drop 4)))⟩
  else ⟨s.memories, s.current.map fun memory => readField py memory line⟩

def Reading.close (s : Reading) : List Fields := s.memories ++ s.current.toList

/-- The loop of `parse_recall_results`. -/
def readLines (lines : List Text) : List Fields :=
  (lines.foldl (fun s line => Reading.step py s (strip line)) (⟨[], none⟩ : Reading)).close

/-- `parse_recall_results`. -/
def parseRecallResults (recallOutput : Text) : List Fields :=
  ((py.loads recallOutput).bind (jsonMemories py)).getD (readLines py (splitlines recallOutput))

end Read

end RalphVault.RecallText
