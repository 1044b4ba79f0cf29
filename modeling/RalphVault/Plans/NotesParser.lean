import RalphVault.Memory.Value
import RalphVault.Plans.Consolidated

/-!
# Plans — the notes parser

`NotesHTMLParser` and `valid_non_initial_entries` of
`implementation_notes_lib.py`: what is read of a notes document, and when a
document is refused. The tokenizer of `html.parser` is a parameter: it turns
the text into the calls the handlers receive.

Left out: the fields outside of the entries, which only the migration reads.
-/

namespace RalphVault.Plans.Notes

open Store

/-- A call of `html.parser`. -/
inductive Call where
  | startTag (tag : Text) (attrs : List (Text × Option Text))
  | endTag (tag : Text)
  | data (text : Text)
  | comment (text : Text)

structure ParsedEntry where
  category : Text
  area : Text
  fields : List (Text × Text)
deriving DecidableEq

/-- `entry.fields.get(name, "")`. -/
def ParsedEntry.get (e : ParsedEntry) (name : Text) : Text := (e.fields.lookup name).getD []

/-- `entry.fields[name] = text`. -/
def ParsedEntry.set (e : ParsedEntry) (name text : Text) : ParsedEntry :=
  { e with fields := (e.fields.filter fun f => f.1 ≠ name) ++ [(name, text)] }

/-- The attributes of `NotesHTMLParser`: the sections opened stand for their
counts, latest first, as the anchors for their dictionary. -/
structure NotesParser where
  hasMain : Bool
  hasCsp : Bool
  sectionStack : List Text
  sectionsOpened : List Text
  anchorSections : List (Text × Text)
  entries : List ParsedEntry
  currentEntry : Option ParsedEntry
  currentFieldTag : Text
  currentFieldText : Text
  pendingDt : Text
deriving DecidableEq

def NotesParser.empty : NotesParser := ⟨false, false, [], [], [], [], none, [], [], []⟩

/-- `current_section`. -/
def NotesParser.currentSection (p : NotesParser) : Text :=
  (p.sectionStack.find? fun category => !category.isEmpty).getD []

/-- `values.get(name, "")`, where the last of two attributes counts. -/
def attrValue (attrs : List (Text × Option Text)) (name : Text) : Text :=
  ((attrs.reverse.lookup name).getD none).getD []

section Handlers

variable (lower : Text → Text)

def NotesParser.meta (p : NotesParser) (attrs : List (Text × Option Text)) : NotesParser :=
  if lower (attrValue attrs (txt "http-equiv")) = txt "content-security-policy" then
    let content := attrValue attrs (txt "content")
    { p with
      hasCsp := contains (txt "default-src 'none'") content &&
        contains (txt "style-src 'unsafe-inline'") content }
  else p

def NotesParser.openSection (p : NotesParser) (attrs : List (Text × Option Text)) : NotesParser :=
  let category := attrValue attrs (txt "data-entry-section")
  { p with
    sectionStack := category :: p.sectionStack
    sectionsOpened := if category.isEmpty then p.sectionsOpened else category :: p.sectionsOpened }

def NotesParser.openArticle (p : NotesParser) (attrs : List (Text × Option Text)) : NotesParser :=
  if txt "entry" ∈ words (attrValue attrs (txt "class")) then
    { p with
      currentEntry := some ⟨attrValue attrs (txt "data-entry-kind"), p.currentSection, []⟩
      pendingDt := [] }
  else p

/-- `handle_starttag`. -/
def NotesParser.startTag (p : NotesParser) (tag : Text) (attrs : List (Text × Option Text)) :
    NotesParser :=
  let p := if tag = txt "meta" then p.meta lower attrs else p
  let p := if tag = txt "main" ∧ attrValue attrs (txt "data-implementation-notes") = txt "true" then
    { p with hasMain := true } else p
  let p := if tag = txt "section" then p.openSection attrs else p
  let p := if tag = txt "article" then p.openArticle attrs else p
  if tag = txt "dt" ∨ tag = txt "dd" ∧ (p.currentEntry.isSome ∨ p.pendingDt ≠ []) then
    { p with currentFieldTag := tag, currentFieldText := [] }
  else p

/-- The end of the `dt` or the `dd` that is open. -/
def NotesParser.endField (p : NotesParser) (tag : Text) : NotesParser :=
  let text := Memory.compactSpace p.currentFieldText
  let p :=
    if tag = txt "dt" then { p with pendingDt := text }
    else if tag = txt "dd" ∧ p.pendingDt ≠ [] then
      { p with
        currentEntry := p.currentEntry.map fun e => e.set p.pendingDt text
        pendingDt := [] }
    else p
  { p with currentFieldTag := [], currentFieldText := [] }

/-- `handle_endtag`. -/
def NotesParser.endTag (p : NotesParser) (tag : Text) : NotesParser :=
  let p := if tag = p.currentFieldTag then p.endField tag else p
  let p := if tag = txt "article" then
    match p.currentEntry with
    | some e => { p with entries := p.entries ++ [e], currentEntry := none, pendingDt := [] }
    | none => p
    else p
  if tag = txt "section" then { p with sectionStack := p.sectionStack.tail } else p

def anchorHead : Text := txt "IMPLEMENTATION_NOTES_"

def anchorTail : Text := txt "_ANCHOR"

/-- The group of `IMPLEMENTATION_NOTES_([A-Z_]+)_ANCHOR`, matched in full. -/
def anchorGroup (t : Text) : Option Text := do
  let rest ← afterPrefix anchorHead t
  let group ← (afterPrefix anchorTail.reverse rest.reverse).map List.reverse
  if !group.isEmpty && group.all fun c => isAsciiUpper c || c == '_' then some group else none

/-- `handle_comment`. -/
def NotesParser.comment (p : NotesParser) (text : Text) : NotesParser :=
  match anchorGroup (Memory.strip text) with
  | none => p
  | some group =>
      let normalized := (lower group).map fun c => if c = '_' then '-' else c
      { p with anchorSections := (normalized, p.currentSection) :: p.anchorSections }

/-- One call of the tokenizer. -/
def NotesParser.handle (p : NotesParser) : Call → NotesParser
  | .startTag tag attrs => p.startTag lower tag attrs
  | .endTag tag => p.endTag tag
  | .data text =>
      if p.currentFieldTag = [] then p
      else { p with currentFieldText := p.currentFieldText ++ text }
  | .comment text => p.comment lower text

/-- `parser.feed(text)`, from the calls the text is turned into. -/
def feed (calls : List Call) : NotesParser := calls.foldl (NotesParser.handle lower) .empty

end Handlers

/-! ## The entries of a document -/

/-- `CATEGORY_ORDER`, which has the members of `ALLOWED_CATEGORIES`. -/
def categoryOrder : List Text :=
  [txt "decision", txt "deviation", txt "tradeoff", txt "open-question", txt "validation",
    txt "summary"]

def requiredFields : List Text :=
  [txt "Timestamp", txt "Category", txt "Decision", txt "Reason", txt "Impact",
    txt "Related files", txt "Status"]

/-- The check of the sections and of their anchors. -/
def checkSections (p : NotesParser) : Except Text Unit :=
  categoryOrder.forM fun category =>
    if p.sectionsOpened.count category ≠ 1 then
      .error (txt "implementation notes document must contain exactly one " ++ category ++
        txt " section")
    else if p.anchorSections.lookup category ≠ some category then
      .error (txt "implementation notes " ++ category ++ txt " anchor is outside its matching section")
    else .ok ()

/-- The check of an entry. -/
def checkEntry (e : ParsedEntry) : Except Text Unit :=
  if e.category ∉ categoryOrder then
    .error (txt "implementation notes document contains an unknown entry category: " ++ e.category)
  else if e.area ≠ e.category then
    .error (txt "implementation notes " ++ e.category ++ txt " entry is outside its matching section")
  else
    let missing := requiredFields.filter fun name => (e.get name).isEmpty
    if missing ≠ [] then
      .error (txt "implementation notes " ++ e.category ++ txt " entry is missing required fields: " ++
        joinWith [',', ' '] missing)
    else if e.get (txt "Category") ≠ e.category then
      .error (txt "implementation notes entry category field does not match its data-entry-kind")
    else .ok ()

/-- `valid_non_initial_entries`, without the summaries. -/
def validNonInitialEntries (env : Env) (lower : Text → Text) (tokenize : Text → List Call)
    (text : Text) : Except Text (List ParsedEntry) := do
  Consolidated.ensureNotRed env (txt "implementation notes file") text
  let parser := feed lower (tokenize text)
  if !parser.hasMain then
    .error (txt "implementation notes document is missing the notes main marker")
  else if !parser.hasCsp then
    .error (txt "implementation notes document is missing the restrictive CSP")
  else do
    checkSections parser
    let entries := parser.entries.filter fun e => e.category ≠ txt "initial"
    entries.forM checkEntry
    return entries.filter fun e => e.category ≠ txt "summary"

end RalphVault.Plans.Notes
