import RalphVault.Occurrence
import RalphVault.Plans.LegacyViews

/-!
# Plans — the consolidated notes

`consolidated_notes_artifacts.py`: the items of the sections of all plans, the
two artifacts that hold them, and the append of the items that an artifact
does not hold yet. An item is held when its key, or the key it had before
operation identifiers were part of it, is in the text of the artifact.

Left out: the choice and the check of the two paths, and the count of what an
append would add.
-/

namespace RalphVault.Plans.Consolidated

open Store Occurrence

/-! ## Sections and items -/

structure ConsolidatedEntry where
  category : Text
  timestamp : Text
  decision : Text
  reason : Text
  impact : Text
  relatedFiles : Text
  status : Text
  operationId : Text
deriving DecidableEq

/-- A section, with the text of its plan path and the name of its notes. -/
structure PlanSection where
  slug : Text
  planPath : Text
  notesName : Text
  schema : Text
  status : Text
  sourceSha256 : Text
  entries : List ConsolidatedEntry
  legacyExcerpt : Text
deriving DecidableEq

structure ConsolidatedItem where
  key : Text
  planSection : PlanSection
  category : Text
  timestamp : Text
  title : Text
  rows : List (Text × Text)
  legacyKey : Text
deriving DecidableEq

/-- `"\0".join(parts)`. -/
def payload (parts : List Text) : Text := joinWith ['\x00'] parts

/-- `item_key`. -/
def itemKey (env : Env) (parts : List Text) : Text := env.sha256 (payload parts)

def commonRows (s : PlanSection) : List (Text × Text) :=
  [(txt "Plan", s.planPath), (txt "Notes", s.notesName), (txt "Plan status", s.status),
    (txt "Schema", s.schema), (txt "Source SHA256", s.sourceSha256)]

/-- `CATEGORY_LABELS.get(category, category)`. -/
def categoryLabel (category : Text) : Text :=
  match categoryOrder.find? fun c => Named.name c = category with
  | some c => c.label
  | none => category

/-- The parts of the key of an entry. -/
def entryParts (s : PlanSection) (e : ConsolidatedEntry) : List Text :=
  [s.slug, e.category, e.timestamp, e.operationId, e.decision, e.reason, e.impact,
    e.relatedFiles, e.status]

/-- The parts of the key that an entry had without its operation identifier. -/
def entryLegacyParts (s : PlanSection) (e : ConsolidatedEntry) : List Text :=
  [s.slug, e.category, e.timestamp, e.decision, e.reason, e.impact, e.relatedFiles, e.status]

def legacyParts (s : PlanSection) : List Text :=
  [s.slug, txt "legacy", s.sourceSha256, s.legacyExcerpt]

def entryRows (s : PlanSection) (e : ConsolidatedEntry) : List (Text × Text) :=
  let given (t : Text) := orText t (txt "n/a")
  commonRows s ++ [(txt "Timestamp", given e.timestamp), (txt "Category", e.category),
    (txt "Operation ID", given e.operationId), (txt "Decision", given e.decision),
    (txt "Reason", given e.reason), (txt "Impact", given e.impact),
    (txt "Related files", given e.relatedFiles), (txt "Entry status", given e.status)]

def entryItem (env : Env) (s : PlanSection) (e : ConsolidatedEntry) : ConsolidatedItem where
  key := itemKey env (entryParts s e)
  planSection := s
  category := e.category
  timestamp := e.timestamp
  title := categoryLabel e.category
  rows := entryRows s e
  legacyKey := itemKey env (entryLegacyParts s e)

def legacyItem (env : Env) (s : PlanSection) : ConsolidatedItem where
  key := itemKey env (legacyParts s)
  planSection := s
  category := txt "legacy"
  timestamp := []
  title := txt "Legacy Notes"
  rows := commonRows s ++ [(txt "Legacy text", s.legacyExcerpt)]
  legacyKey := []

def sectionItems (env : Env) (s : PlanSection) : List ConsolidatedItem :=
  if s.schema = txt "legacy" then [legacyItem env s] else s.entries.map (entryItem env s)

/-- The order of tuples of texts. -/
def tupleLe : List Text → List Text → Bool
  | [], _ => true
  | _ :: _, [] => false
  | a :: as, b :: bs => textLt a b || (!textLt b a && tupleLe as bs)

def sortKey (item : ConsolidatedItem) : List Text :=
  [item.planSection.slug, item.timestamp, item.category, item.key]

/-- `consolidated_items`. -/
def consolidatedItems (env : Env) (sections : List PlanSection) : List ConsolidatedItem :=
  (sections.flatMap (sectionItems env)).mergeSort fun a b => tupleLe (sortKey a) (sortKey b)

/-! ## The two artifacts -/

/-- `HTML_ANCHOR`. -/
def htmlAnchor : Text := txt "    <!-- CONSOLIDATED_IMPLEMENTATION_NOTES_APPEND_ANCHOR -->"

/-- `MD_ANCHOR`. -/
def mdAnchor : Text := txt "<!-- CONSOLIDATED_IMPLEMENTATION_NOTES_MD_APPEND_ANCHOR -->"

def htmlKeyOpen : Text := txt "data-consolidated-key=\""

/-- The key of a match of `HTML_KEY_RE`, and how long it is with its quote. -/
def htmlKeyBody (t : Text) : Option (Text × Nat) :=
  let k := t.takeWhile (· != '"')
  if k ≠ [] ∧ k.length < t.length then some (k, k.length + 1) else none

/-- `HTML_KEY_RE.findall`. -/
def htmlKeys (t : Text) : List Text := findAll htmlKeyOpen htmlKeyBody 0 t

def mdKeyOpen : Text := txt "<!-- consolidated-key: "

/-- `[0-9a-f]`. -/
def isHexLower (c : Char) : Bool := isAsciiDigit c || (97 ≤ c.toNat && c.toNat ≤ 102)

/-- The key of a match of `MD_KEY_RE`, and how long it is with its close. -/
def mdKeyBody (t : Text) : Option (Text × Nat) :=
  let k := t.take 64
  if k.length = 64 ∧ k.all isHexLower = true ∧ (txt " -->").isPrefixOf (t.drop 64) = true then
    some (k, 68)
  else none

/-- `MD_KEY_RE.findall`. -/
def mdKeys (t : Text) : List Text := findAll mdKeyOpen mdKeyBody 0 t

/-- The lines of `html_shell` up to the root of the repository. -/
def htmlHeadLines : List Text :=
  [txt "<!doctype html>",
    txt "<html lang=\"en\">",
    txt "<head>",
    txt "  <meta charset=\"utf-8\">",
    txt "  <meta name=\"viewport\" content=\"width=device-width, initial-scale=1\">",
    txt "  <meta http-equiv=\"Content-Security-Policy\" content=\"default-src 'none'; " ++
      txt "style-src 'unsafe-inline'\">",
    txt "  <title>Consolidated Implementation Notes</title>",
    txt "  <style>",
    txt "    :root \x7b color-scheme: light; --bg: #f7f8fb; --surface: #fff; " ++
      txt "--surface-muted: #eef3f8; --text: #172033; --muted: #627086; --line: #d8e0ea; " ++
      txt "--accent: #126b5d; --accent-warm: #8a5a12; --shadow: 0 18px 54px rgba(23, 32, " ++
      txt "51, 0.08); \x7d",
    txt "    * \x7b box-sizing: border-box; \x7d",
    txt "    body \x7b margin: 0; background: linear-gradient(180deg, rgba(18, 107, 93, " ++
      txt "0.07), transparent 300px), var(--bg); color: var(--text); font-family: Inter, " ++
      txt "ui-sans-serif, system-ui, -apple-system, BlinkMacSystemFont, \"Segoe UI\", " ++
      txt "sans-serif; line-height: 1.58; \x7d",
    txt "    .page \x7b width: min(1180px, calc(100% - 32px)); margin: 0 auto; padding: " ++
      txt "44px 0 64px; \x7d",
    txt "    .hero, .entry \x7b background: var(--surface); border: 1px solid " ++
      txt "var(--line); border-radius: 8px; box-shadow: var(--shadow); \x7d",
    txt "    .hero \x7b padding: 34px; \x7d",
    txt "    .entry \x7b margin-top: 18px; padding: 20px; border-left: 4px solid " ++
      txt "var(--accent); \x7d",
    txt "    .entry[data-entry-kind=\"legacy\"] \x7b border-left-color: " ++
      txt "var(--accent-warm); \x7d",
    txt "    .eyebrow \x7b margin: 0 0 8px; color: var(--accent); font-size: 0.76rem; " ++
      txt "font-weight: 800; letter-spacing: 0.08em; text-transform: uppercase; \x7d",
    txt "    h1, h2, h3 \x7b line-height: 1.2; letter-spacing: 0; \x7d",
    txt "    h1 \x7b margin: 0; max-width: 920px; font-size: 2.7rem; \x7d",
    txt "    h2 \x7b margin: 0 0 12px; font-size: 1.5rem; \x7d",
    txt "    h3 \x7b margin: 0 0 12px; color: var(--accent); \x7d",
    txt "    p, dd \x7b overflow-wrap: anywhere; \x7d",
    txt "    .summary-text \x7b margin: 12px 0 0; max-width: 780px; color: var(--muted); " ++
      txt "\x7d",
    txt "    .meta-grid \x7b display: grid; grid-template-columns: repeat(3, minmax(0, " ++
      txt "1fr)); gap: 12px; margin-top: 24px; \x7d",
    txt "    .meta-card \x7b margin: 0; min-width: 0; padding: 12px 14px; background: " ++
      txt "var(--surface-muted); border: 1px solid var(--line); border-radius: 8px; \x7d",
    txt "    .meta-card dt \x7b margin-bottom: 4px; color: var(--muted); font-size: " ++
      txt "0.74rem; font-weight: 780; letter-spacing: 0.06em; text-transform: uppercase; " ++
      txt "\x7d",
    txt "    .meta-card dd \x7b margin: 0; overflow-wrap: anywhere; font-weight: 650; " ++
      txt "\x7d",
    txt "    dl \x7b display: grid; grid-template-columns: 170px minmax(0, 1fr); gap: " ++
      txt "8px 16px; margin: 0; \x7d",
    txt "    dt \x7b color: var(--muted); font-weight: 700; \x7d",
    txt "    dd \x7b margin: 0; \x7d",
    txt "    .excerpt-cell \x7b min-width: 0; \x7d",
    txt "    .excerpt-details \x7b border: 1px solid var(--line); border-radius: 8px; " ++
      txt "background: #fbfcfe; padding: 10px 12px; \x7d",
    txt "    .excerpt-details summary \x7b cursor: pointer; color: var(--accent-warm); " ++
      txt "font-weight: 780; \x7d",
    txt "    .excerpt-text \x7b margin: 10px 0 0; max-height: 280px; overflow: auto; " ++
      txt "white-space: pre-wrap; overflow-wrap: anywhere; color: #273247; \x7d",
    txt "    code \x7b padding: 0.1em 0.35em; background: var(--surface); border: 1px " ++
      txt "solid var(--line); border-radius: 6px; font-family: ui-monospace, " ++
      txt "SFMono-Regular, Menlo, Consolas, monospace; font-size: 0.92em; \x7d",
    txt "    @media (max-width: 900px) \x7b .page \x7b width: min(100% - 20px, 1180px); " ++
      txt "padding: 20px 0 40px; \x7d .hero, .entry \x7b padding: 20px; \x7d h1 \x7b " ++
      txt "font-size: 2rem; \x7d .meta-grid \x7b grid-template-columns: 1fr; \x7d dl \x7b " ++
      txt "grid-template-columns: 1fr; \x7d \x7d",
    txt "  </style>",
    txt "</head>",
    txt "<body>",
    txt "  <main class=\"page\" data-consolidated-implementation-notes=\"true\">",
    txt "    <header class=\"hero\">",
    txt "      <p class=\"eyebrow\">Implementation Notes</p>",
    txt "      <h1>Consolidated Implementation Notes</h1>",
    txt "      <p class=\"summary-text\">Append-only view of implementation decisions " ++
      txt "consolidated from per-plan notes.</p>",
    txt "      <dl class=\"meta-grid\" aria-label=\"Consolidation metadata\">",
    txt "        <div class=\"meta-card\"><dt>Canonical repo root</dt><dd><code>"]

/-- The lines from the root to the anchor. -/
def htmlMetaLines : List Text :=
  [txt "</code></dd></div>",
    txt "        <div class=\"meta-card\"><dt>Mode</dt><dd>append ordered</dd></div>",
    txt "        <div class=\"meta-card\"><dt>Source files</dt><dd>per-plan HTML " ++
      txt "notes</dd></div>",
    txt "      </dl>",
    txt "    </header>",
    txt ""]

def htmlHead (primaryRoot : Text) : Text :=
  joinWith ['\n'] htmlHeadLines ++ htmlEscape primaryRoot ++ joinWith ['\n'] htmlMetaLines

def htmlTail : Text := txt "\n  </main>\n</body>\n</html>\n"

/-- `html_shell`. -/
def htmlShell (primaryRoot : Text) : Text := htmlHead primaryRoot ++ (htmlAnchor ++ htmlTail)

/-- `text.replace(c, new)` of one character. -/
def replaceChar (c : Char) (new : Text) (t : Text) : Text :=
  t.flatMap fun d => if d = c then new else [d]

/-- `markdown_escape`. -/
def markdownEscape (t : Text) : Text :=
  ['\u0060', '*', '_', '[', ']', '(', ')', '!'].foldl
    (fun escaped c => replaceChar c ['\\', c] escaped)
    (replaceChar '\\' ['\\', '\\'] (htmlEscape t))

def mdHead (primaryRoot : Text) : Text :=
  txt "# Consolidated Implementation Notes\n\nCanonical repo root: " ++ ['\u0060'] ++
    markdownEscape primaryRoot ++ ['\u0060'] ++
    txt "\n\nThis file is append-only. It consolidates per-plan implementation notes " ++
    txt "without replacing the source HTML notes.\n\n"

/-- `markdown_shell`. -/
def markdownShell (primaryRoot : Text) : Text := mdHead primaryRoot ++ (mdAnchor ++ ['\n'])

/-- `render_html_row`. -/
def renderHtmlRow (row : Text × Text) : Text :=
  let value := orText (htmlEscape row.2) (txt "n/a")
  if row.1 = txt "Legacy text" then
    txt "          <dt>" ++ htmlEscape row.1 ++
      txt "</dt><dd class=\"excerpt-cell\"><details class=\"excerpt-details\">" ++
      txt "<summary>Show full legacy text</summary><div class=\"excerpt-text\">" ++ value ++
      txt "</div></details></dd>"
  else txt "          <dt>" ++ htmlEscape row.1 ++ txt "</dt><dd>" ++ value ++ txt "</dd>"

/-- `render_html_item`. -/
def renderHtmlItem (item : ConsolidatedItem) : Text :=
  txt "\n    <article class=\"entry\" data-consolidated-key=\"" ++ item.key ++
    txt "\" data-plan-slug=\"" ++ htmlEscape item.planSection.slug ++
    txt "\" data-entry-kind=\"" ++ htmlEscape item.category ++
    txt "\">\n      <p class=\"eyebrow\">" ++ htmlEscape item.planSection.schema ++
    txt " notes</p>\n      <h2>" ++ htmlEscape item.planSection.slug ++
    txt "</h2>\n      <h3>" ++ htmlEscape item.title ++ txt "</h3>\n      <dl>\n" ++
    joinWith ['\n'] (item.rows.map renderHtmlRow) ++ txt "\n      </dl>\n    </article>\n"

/-- The lines of a row in the Markdown artifact. -/
def renderMarkdownRow (row : Text × Text) : List Text :=
  if row.1 = txt "Legacy text" then
    [[], txt "**Legacy text:**", [], markdownEscape (orText row.2 (txt "n/a"))]
  else
    [txt "- **" ++ markdownEscape row.1 ++ txt ":** " ++
      markdownEscape (orText row.2 (txt "n/a"))]

/-- `render_markdown_item`. -/
def renderMarkdownItem (item : ConsolidatedItem) : Text :=
  joinWith ['\n']
    ([txt "\n<!-- consolidated-key: " ++ item.key ++ txt " -->",
      txt "## " ++ markdownEscape item.planSection.slug, [],
      txt "### " ++ markdownEscape item.title, []] ++ item.rows.flatMap renderMarkdownRow) ++
    ['\n']

/-! ## The append -/

/-- What `read_text` makes of the line ends of a file. -/
def readNewlines : Text → Text
  | [] => []
  | '\r' :: '\n' :: t => '\n' :: readNewlines t
  | c :: t => (if c = '\r' then '\n' else c) :: readNewlines t

/-- `item_seen`. -/
def itemSeen (item : ConsolidatedItem) (seen : List Text) : Bool :=
  seen.contains item.key || (!item.legacyKey.isEmpty && seen.contains item.legacyKey)

/-- `ensure_not_red`: the message when it raises. -/
def ensureNotRed (env : Env) (label value : Text) : Except Text Unit :=
  if env.red value then
    let labels := joinWith [','] ((Security.scanText env.unicode value).map Security.Finding.label)
    .error (label ++ txt " contains RED-sensitive material; refusing to persist it (" ++
      orText labels (txt "classified_red") ++ txt ")")
  else .ok ()

/-- One of the two artifacts: its label, its path, its shell, its anchor, its
keys and how it renders an item. -/
structure Artifact where
  label : Text
  path : Text
  shell : Text
  anchor : Text
  keys : Text → List Text
  render : ConsolidatedItem → Text

def Artifact.missingAnchor (a : Artifact) : Text :=
  txt "consolidated " ++ a.label ++ txt " append anchor not found: " ++ a.path

/-- The text that an append starts from. -/
def Artifact.start (a : Artifact) (file : Option Text) (rebuild : Bool) : Text :=
  match file with
  | some t => if rebuild then a.shell else readNewlines t
  | none => a.shell

/-- `prepared_artifact`: the text, the number of items added, and whether to write. -/
def preparedArtifact (env : Env) (a : Artifact) (file : Option Text) (items : List ConsolidatedItem)
    (rebuild : Bool) : Except Text (Text × Nat × Bool) :=
  let text := a.start file rebuild
  if !contains a.anchor text then .error a.missingAnchor
  else
    let missing := items.filter fun item => !itemSeen item (a.keys text)
    if missing.isEmpty && file.isSome && !rebuild then .ok (text, 0, false)
    else
      let addition := missing.flatMap a.render
      match ensureNotRed env
        (txt "consolidated implementation notes " ++ a.label ++ txt " append") addition with
      | .error e => .error e
      | .ok () => .ok (replaceFirst a.anchor (addition ++ a.anchor) text, missing.length, true)

/-- The two files. -/
structure Artifacts where
  html : Option Text
  md : Option Text
deriving DecidableEq

def htmlArtifact (env : Env) (path : Text) : Artifact where
  label := txt "HTML"
  path := path
  shell := htmlShell env.primaryRoot
  anchor := htmlAnchor
  keys := htmlKeys
  render := renderHtmlItem

def mdArtifact (env : Env) (path : Text) : Artifact where
  label := txt "Markdown"
  path := path
  shell := markdownShell env.primaryRoot
  anchor := mdAnchor
  keys := mdKeys
  render := renderMarkdownItem

/-- `validate_consolidated_targets` of one of two distinct files. -/
def validTarget (a : Artifact) (file : Option Text) : Except Text Unit :=
  if file.all fun t => contains a.anchor (readNewlines t) then .ok () else .error a.missingAnchor

/-- What is in a file afterwards. -/
def written (file : Option Text) (prepared : Text × Nat × Bool) : Option Text :=
  if prepared.2.2 then some prepared.1 else file

/-- `append_consolidated_artifacts` to two distinct files. Both texts are
prepared before either is written. -/
def appendConsolidatedArtifacts (env : Env) (htmlPath mdPath : Text) (rebuild : Bool)
    (sections : List PlanSection) (files : Artifacts) : Except Text Artifacts := do
  let html := htmlArtifact env htmlPath
  let md := mdArtifact env mdPath
  validTarget html files.html
  validTarget md files.md
  let items := consolidatedItems env sections
  let preparedHtml ← preparedArtifact env html files.html items rebuild
  let preparedMd ← preparedArtifact env md files.md items rebuild
  pure ⟨written files.html preparedHtml, written files.md preparedMd⟩

end RalphVault.Plans.Consolidated
