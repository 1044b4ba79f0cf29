import RalphVault.Handoff.Compaction
import RalphVault.Memory.Value
import RalphVault.PurePath
import RalphVault.Security.SensitiveContent

/-!
# Claude import

`import-claude-code.py --apply`: the source files of a tree, the text that is
taken from each, and the writes of a run. A run writes a note and then its
index record, for one text after another, and may end anywhere. What a run
writes is judged by the hashes of the run and by the names of the notes; the
hashes that `existing_hashes` looks for are not in the records.

The counters of the summary and the report are left out.
-/

namespace RalphVault.ClaudeImport

open Memory Regex

/-- The host of the import. -/
structure Host extends Memory.Host where
  /-- `json.loads`, unless the text is no JSON. -/
  loads : Text → Option Value
  /-- `load_sensitive_classifier` finds the classifier. -/
  classifier : Bool

/-! ## Source files -/

/-- A file below the root. What `stat` and `read` raise is `none`. -/
structure SourceFile where
  below : List Name
  isFile : Bool
  /-- `st_mtime` -/
  modified : Option Rat
  /-- The decoded text. -/
  content : Option Text

/-- The arguments that the writes depend on. -/
structure Args where
  claudeRoot : PurePath
  sinceDays : Option Nat
  limit : Option Nat
  includeToolResults : Bool
  maxSessionChars : Nat
  project : Text
  projectId : Text
  workspaceRoot : Text

/-- `SKIP_PATH_PARTS`. -/
def skipPathParts : List Text :=
  [txt ".env", txt "id_rsa", txt "id_ed25519", txt "secret", txt "secrets", txt "token",
    txt "credential", txt "wallet", txt "keystore", txt "private"]

/-- `path.stem` and `path.suffix` of a name. -/
def splitSuffix (name : Text) : Text × Text :=
  let tail := (name.reverse.takeWhile (· != '.')).length
  if tail + 1 < name.length ∧ 0 < tail then
    (name.take (name.length - tail - 1), name.drop (name.length - tail - 1))
  else (name, [])

def SourceFile.name (file : SourceFile) : Text := (file.below.getLast?.map Subtype.val).getD []

/-- `**/memory/*.md`. -/
def SourceFile.isMemoryNote (file : SourceFile) : Bool :=
  (file.below.dropLast.getLast?.map Subtype.val) == some (txt "memory") &&
    (txt ".md").isSuffixOf file.name

/-- `**/*.jsonl`. -/
def SourceFile.isSession (file : SourceFile) : Bool := (txt ".jsonl").isSuffixOf file.name

/-- The order of paths, by their components. -/
def SourceFile.before (a b : SourceFile) : Bool :=
  !List.lex (b.below.map Subtype.val) (a.below.map Subtype.val) textLt

section Read

variable (host : Host) (args : Args)

/-- `path_is_sensitive`. -/
def pathIsSensitive (path : PurePath) : Bool :=
  (path.parts.map fun part => host.lower part.1).any fun part =>
    part != txt "private" && skipPathParts.any fun marker => contains marker part

/-- `within_since`, and the files whose `stat` fails. -/
def withinSince (now : Rat) (file : SourceFile) : Bool :=
  match args.sinceDays with
  | none => true
  | some days => file.modified.any fun modified => now - days * 86400 ≤ modified

/-- `iter_source_files`. -/
def iterSourceFiles (now : Rat) (tree : List SourceFile) : List SourceFile :=
  let candidates := (tree.filter SourceFile.isMemoryNote).insertionSort (SourceFile.before · ·) ++
    (tree.filter SourceFile.isSession).insertionSort (SourceFile.before · ·)
  let files := candidates.filter fun file =>
    !pathIsSensitive host (args.claudeRoot.join file.below) && file.isFile &&
      withinSince args now file
  match args.limit with
  | none => files
  | some n => files.take n

/-- `a or b or …`, each a value or missing. -/
def firstTruthy (vs : List (Option Value)) : Option Value := (vs.filterMap id).find? truthy

mutual
/-- `text_from_content`. -/
def textFromContent : Value → List Text
  | .str t => if strip t = [] then [] else [strip t]
  | .obj fields =>
      let field k := Fields.get? fields k
      let named (vs : List (Option Value)) (default : Text) :=
        ((firstTruthy vs).map (pyStr host.toHost)).getD default
      let blockType := pyStrOr host.toHost ((field (txt "type")).getD .null)
      if contains (txt "tool_result") blockType then
        if !args.includeToolResults then []
        else if (field (txt "content")).isSome then fieldTexts (txt "content") fields
        else [txt "[tool_result metadata id=" ++
          named [field (txt "tool_use_id"), field (txt "id")] (txt "unknown") ++ [']']]
      else if contains (txt "tool") blockType && (field (txt "text")).isNone then
        [txt "[tool metadata name=" ++
          named [field (txt "name"), field (txt "tool_name")] blockType ++ txt " id=" ++
          named [field (txt "id"), field (txt "tool_use_id")] (txt "unknown") ++ [']']]
      else if (field (txt "text")).isSome then fieldTexts (txt "text") fields
      else if args.includeToolResults then fieldTexts (txt "content") fields
      else []
  | .arr items => itemTexts items
  | _ => []

def itemTexts : List Value → List Text
  | [] => []
  | item :: items => textFromContent item ++ itemTexts items

/-- The texts of the member with a key. -/
def fieldTexts (key : Text) : List (Text × Value) → List Text
  | [] => []
  | (k, v) :: fields => if k = key then textFromContent v else fieldTexts key fields
end

/-- `extract_jsonl_entry`. -/
def extractJsonlEntry : Value → List Text
  | .obj obj =>
      let message := match Fields.get? obj (txt "message") with
        | some (.obj message) => message
        | _ => obj
      let text (vs : List (Option Value)) (default : Text) :=
        ((firstTruthy vs).map (pyStr host.toHost)).getD default
      let role := text [Fields.get? message (txt "role"), Fields.get? obj (txt "role"),
        Fields.get? obj (txt "type")] (txt "entry")
      let entryType := text [Fields.get? obj (txt "type"), Fields.get? message (txt "type")] []
      if contains (txt "tool_result") entryType && !args.includeToolResults then []
      else
        -- a value that is null counts as missing
        let present (d : Fields) (k : Text) := match Fields.get? d k with
          | some .null => none
          | o => o
        let content := (present message (txt "content")).or
          ((present obj (txt "content")).or (present obj (txt "text")))
        let parts := textFromContent host args (content.getD .null)
        let parts := if parts = [] then
          textFromContent host args ((Fields.get? message (txt "text")).getD .null) else parts
        (parts.filter (compactSpace · ≠ [])).map fun part => role ++ txt ": " ++ compactSpace part
  | _ => []

/-- The loop over the lines of a session. -/
def sessionLines (lines : List Text) : List Text → List Text
  | [] => lines
  | raw :: raws =>
      if strip raw = [] then sessionLines lines raws
      else match host.loads (strip raw) with
        | none => sessionLines lines raws
        | some obj =>
            let lines := lines ++ extractJsonlEntry host args obj
            if args.maxSessionChars ≤ (lines.map (·.length + 1)).sum then lines
            else sessionLines lines raws

structure ImportCandidate where
  source : Text
  originPath : Text
  stem : Text
  content : Text

/-- `read_memory_markdown` or `read_jsonl_session`, by the suffix. -/
def readSource (file : SourceFile) : Option ImportCandidate :=
  let markdown := (splitSuffix file.name).2 = txt ".md"
  (file.content.map fun text =>
    if markdown then strip text
    else strip (joinWith ['\n'] (sessionLines host args [] (splitOn '\n' text)))).bind fun content =>
      if content = [] then none
      else some {
        source := if markdown then txt "claude_memory_md" else txt "claude_jsonl_session"
        originPath := (args.claudeRoot.join file.below).text
        stem := (splitSuffix file.name).1
        content := content }

/-- `safe_report`: the text of a candidate that is not RED. -/
def safeReport (candidate : ImportCandidate) : Option Text :=
  if host.classifier && Security.isRed host.unicode candidate.content then none
  else
    let safe := if host.classifier then (Security.redactText host.unicode candidate.content).1
      else candidate.content
    if candidate.source = txt "claude_jsonl_session" ∧ args.maxSessionChars < safe.length then
      some (rstrip (safe.take args.maxSessionChars) ++ txt "\n...[truncated]\n")
    else some safe

/-! ## Notes and records -/

/-- What a note is rendered from. -/
structure Note where
  createdAt : Text
  classification : Text
  source : Text
  originPath : Text
  project : Text
  projectId : Text
  workspaceRoot : Text
  digest : Text
  text : Text

/-- `yaml_scalar`. -/
def yamlScalar (value : Text) : Text := (Json.str value).asciiDumps

/-- `render_import_note`. -/
def Note.render (note : Note) : Text :=
  let metadata := [(txt "created_at", note.createdAt),
    (txt "classification", note.classification), (txt "source", note.source),
    (txt "origin_path", note.originPath), (txt "project", note.project),
    (txt "source_project_id", note.projectId), (txt "source_project_slug", note.project),
    (txt "source_workspace_root", note.workspaceRoot), (txt "hash", note.digest),
    (txt "imported_by", txt "import-claude-code.py")]
  joinWith ['\n'] (txt "---" :: (metadata.map fun m => m.1 ++ txt ": " ++ yamlScalar m.2) ++
    [txt "---", [], note.text, []])

structure PreparedImport where
  source : Text
  originPath : Text
  classification : Text
  digest : Text
  filename : Text
  bytes : Nat
  duplicate : Bool
  projectId : Text
  workspaceRoot : Text

/-- `asdict(item)`, which is what a record of the index says. -/
def PreparedImport.asdict (item : PreparedImport) : Fields :=
  [(txt "source", .str item.source), (txt "origin_path", .str item.originPath),
    (txt "classification", .str item.classification), (txt "digest", .str item.digest),
    (txt "filename", .str item.filename), (txt "bytes", .int item.bytes),
    (txt "duplicate", .bool item.duplicate), (txt "project_id", .str item.projectId),
    (txt "workspace_root", .str item.workspaceRoot)]

/-- The import directory: the notes by their names, and the index. -/
structure ImportDir where
  notes : List (Text × Note)
  index : List PreparedImport

/-- `existing_hashes`. -/
def existingHashes (index : List PreparedImport) : List Text :=
  index.filterMap fun item => (Fields.get? item.asdict (txt "hash")).bind asText

/-- `slugify`. -/
def slugify (value : Text) : Text :=
  let separators : Regex Char :=
    atLeast 1 (chr fun c => !(isAsciiAlnum c || c == '.' || c == '_' || c == '-'))
  let slug := Handoff.stripChars (txt "-._")
    (subn separators (txt "-") (host.lower (strip value))).1
  if slug = [] then txt "claude-import" else slug

/-- `content_hash`. -/
def contentHash (text : Text) : Text := host.sha256 (strip text)

/-- The item and the note of a candidate. -/
def preparedImport (createdAt : Text) (candidate : ImportCandidate) (safe : Text)
    (duplicate : Bool) : PreparedImport × Note :=
  let digest := contentHash host safe
  let note := {
    createdAt := createdAt
    classification := txt "YELLOW"
    source := candidate.source
    originPath := candidate.originPath
    project := args.project
    projectId := args.projectId
    workspaceRoot := args.workspaceRoot
    digest := digest
    text := strip safe }
  ({ source := candidate.source
     originPath := candidate.originPath
     classification := txt "YELLOW"
     digest := digest
     filename := slugify host candidate.stem ++ txt "-" ++ digest.take 12 ++ txt ".md"
     bytes := utf8Len note.render
     duplicate := duplicate
     projectId := args.projectId
     workspaceRoot := args.workspaceRoot }, note)

/-- The loop of `prepare_imports`, with the hashes seen before. -/
def prepareFrom (createdAt : Text) : List Text → List SourceFile → List (PreparedImport × Note)
  | _, [] => []
  | hashes, file :: files =>
      match (readSource host args file).bind fun c => (safeReport host args c).map (c, ·) with
      | none => prepareFrom createdAt hashes files
      | some (candidate, safe) =>
          preparedImport host args createdAt candidate safe
              (hashes.contains (contentHash host safe)) ::
            prepareFrom createdAt (contentHash host safe :: hashes) files

end Read

/-! ## Runs -/

/-- A run with `--apply`: when it is made, with what, and over which files. A
run that is cut off has written some notes, and some records of these. -/
structure Run where
  args : Args
  now : Rat
  createdAt : Text
  tree : List SourceFile
  cut : Option (Nat × Nat)

section Runs

variable (host : Host)

/-- `prepare_imports`. -/
def prepareImports (index : List PreparedImport) (r : Run) : List (PreparedImport × Note) :=
  prepareFrom host r.args r.createdAt (existingHashes index)
    (iterSourceFiles host r.args r.now r.tree)

/-- The loop of `apply_imports`: what is written when these names exist. -/
def writes : List Text → List (PreparedImport × Note) → List (PreparedImport × Note)
  | _, [] => []
  | names, entry :: entries =>
      if entry.1.duplicate ∨ entry.1.filename ∈ names then writes names entries
      else entry :: writes (entry.1.filename :: names) entries

def ImportDir.names (dir : ImportDir) : List Text := dir.notes.map Prod.fst

/-- What a complete run writes. -/
def ImportDir.writes (dir : ImportDir) (r : Run) : List (PreparedImport × Note) :=
  ClaudeImport.writes dir.names (prepareImports host dir.index r)

/-- The notes and the records that a run has written when it ends. -/
def ImportDir.written (dir : ImportDir) (r : Run) :
    List (PreparedImport × Note) × List (PreparedImport × Note) :=
  match r.cut with
  | none => (dir.writes host r, dir.writes host r)
  | some (notes, records) =>
      ((dir.writes host r).take notes, (dir.writes host r).take (min notes records))

def ImportDir.apply (dir : ImportDir) (r : Run) : ImportDir where
  notes := dir.notes ++ (dir.written host r).1.map fun entry => (entry.1.filename, entry.2)
  index := dir.index ++ (dir.written host r).2.map Prod.fst

/-- The directory after some runs, which is empty before the first. -/
def reached (runs : List Run) : ImportDir := runs.foldl (ImportDir.apply host) ⟨[], []⟩

/-- A text has one note, and one record names this note. -/
def ExactlyOnce (dir : ImportDir) (text : Text) : Prop :=
  (dir.notes.map fun note => note.2.text).count text = 1 ∧
    ∀ note ∈ dir.notes, note.2.text = text → (dir.index.map PreparedImport.filename).count note.1 = 1

/-- Every note has one record, every record is of a note, and no two notes have
one name or one text. -/
structure Matched (dir : ImportDir) : Prop where
  index : dir.index.map PreparedImport.filename = dir.names
  names : dir.names.Nodup
  texts : (dir.notes.map fun note => note.2.text).Nodup

/-- The import is exactly once: the directory matches its index, each text of a
run that was not cut off has one note with one record, and after such a run the
same sources write nothing. -/
structure ImportedOnce (runs : List Run) : Prop where
  matched : Matched (reached host runs)
  once : ∀ front r back, runs = front ++ r :: back → r.cut = none →
    ∀ entry ∈ prepareImports host (reached host front).index r,
      ExactlyOnce (reached host runs) entry.2.text
  again : ∀ front r, runs = front ++ [r] → r.cut = none → ∀ r', r'.args = r.args →
    iterSourceFiles host r'.args r'.now r'.tree = iterSourceFiles host r.args r.now r.tree →
      (reached host runs).writes host r' = []

/-- A run leaves the records of all its notes. No two of its texts have one
digest, and a note or a text to be written has the name of another exactly if it
has its text. -/
structure Clear (dir : ImportDir) (r : Run) : Prop where
  lossless : (dir.written host r).2 = (dir.written host r).1
  digests : ∀ a ∈ prepareImports host dir.index r, ∀ b ∈ prepareImports host dir.index r,
    a.1.digest = b.1.digest → a.2.text = b.2.text
  apart : ∀ a ∈ prepareImports host dir.index r, ∀ b ∈ prepareImports host dir.index r,
    a.1.duplicate = false → b.1.duplicate = false →
      a.1.filename = b.1.filename → a.2.text = b.2.text
  kept : ∀ note ∈ dir.notes, ∀ a ∈ prepareImports host dir.index r, a.1.duplicate = false →
    (note.1 = a.1.filename ↔ note.2.text = a.2.text)

/-- All runs are clear where they begin. -/
def AllClear : ImportDir → List Run → Prop
  | _, [] => True
  | dir, r :: runs => Clear host dir r ∧ AllClear (dir.apply host r) runs

end Runs

/-! ## The hashes of a run -/

section Prepare

variable {host : Host} {args : Args} {createdAt : Text}

/-- No record has the key that is looked for. -/
theorem existingHashes_eq_nil (index : List PreparedImport) : existingHashes index = [] := by
  have hkey : ∀ item : PreparedImport, Fields.get? item.asdict (txt "hash") = none := by
    intro item
    rfl
  refine List.filterMap_eq_nil_iff.mpr fun item _ => ?_
  rw [hkey]
  rfl

theorem prepareFrom_digest {files : List SourceFile} {hashes : List Text} :
    ∀ entry ∈ prepareFrom host args createdAt hashes files,
      entry.1.digest = host.sha256 entry.2.text := by
  induction files generalizing hashes with
  | nil => exact fun entry h => absurd h List.not_mem_nil
  | cons file files ih =>
      intro entry h
      rw [prepareFrom] at h
      split at h
      · exact ih entry h
      · rcases List.mem_cons.mp h with rfl | h
        · rfl
        · exact ih entry h

/-- Among the entries that are no duplicates each new digest comes once. -/
theorem prepareFrom_fresh {files : List SourceFile} {hashes : List Text} :
    (((prepareFrom host args createdAt hashes files).filter fun entry => !entry.1.duplicate).map
      fun entry => entry.1.digest).Nodup ∧
    ∀ entry ∈ prepareFrom host args createdAt hashes files,
      (entry.1.duplicate = false → entry.1.digest ∉ hashes) ∧
      (entry.1.digest ∉ hashes → ∃ first ∈ prepareFrom host args createdAt hashes files,
        first.1.duplicate = false ∧ first.1.digest = entry.1.digest) := by
  induction files generalizing hashes with
  | nil => exact ⟨List.nodup_nil, fun entry h => absurd h List.not_mem_nil⟩
  | cons file files ih =>
      rw [prepareFrom]
      split
      · exact ih
      · rename_i candidate safe _
        obtain ⟨hnodup, hrest⟩ := @ih (contentHash host safe :: hashes)
        constructor
        · cases hseen : hashes.contains (contentHash host safe) with
          | true => simpa [preparedImport, hseen] using hnodup
          | false =>
              have hkept : (!(preparedImport host args createdAt candidate safe false).1.duplicate) =
                  true := rfl
              rw [List.filter_cons_of_pos (p := fun entry : PreparedImport × Note => !entry.1.duplicate)
                hkept, List.map_cons, List.nodup_cons]
              refine ⟨fun hmem => ?_, hnodup⟩
              obtain ⟨entry, hentry, hdigest⟩ := List.mem_map.mp hmem
              obtain ⟨hentry, hdup⟩ := List.mem_filter.mp hentry
              refine (hrest entry hentry).1 (by simpa using hdup) ?_
              rw [hdigest]
              exact List.mem_cons_self
        · intro entry h
          rcases List.mem_cons.mp h with rfl | h
          · constructor
            · intro hdup hmem
              have hseen : hashes.contains (contentHash host safe) = false := hdup
              rw [List.contains_eq_mem, decide_eq_false_iff_not] at hseen
              exact hseen hmem
            · intro hnew
              refine ⟨_, List.mem_cons_self, ?_, rfl⟩
              show hashes.contains (contentHash host safe) = false
              rw [List.contains_eq_mem, decide_eq_false_iff_not]
              exact hnew
          · obtain ⟨hnot, hfirst⟩ := hrest entry h
            refine ⟨fun hdup hmem => hnot hdup (List.mem_cons_of_mem _ hmem), fun hnew => ?_⟩
            by_cases heq : entry.1.digest = contentHash host safe
            · refine ⟨_, List.mem_cons_self, ?_, heq.symm⟩
              show hashes.contains (contentHash host safe) = false
              rw [List.contains_eq_mem, decide_eq_false_iff_not, ← heq]
              exact hnew
            · obtain ⟨first, hmem, hdup, hdigest⟩ := hfirst fun hmem =>
                (List.mem_cons.mp hmem).elim heq hnew
              exact ⟨first, List.mem_cons_of_mem _ hmem, hdup, hdigest⟩

/-- The names and the duplicates do not depend on when a run is made. -/
theorem prepareFrom_names (createdAt' : Text) (files : List SourceFile) (hashes : List Text) :
    (prepareFrom host args createdAt' hashes files).map (fun entry => (entry.1.filename, entry.1.duplicate)) =
      (prepareFrom host args createdAt hashes files).map
        fun entry => (entry.1.filename, entry.1.duplicate) := by
  induction files generalizing hashes with
  | nil => rfl
  | cons file files ih =>
      rw [prepareFrom, prepareFrom]
      split
      · exact ih hashes
      · rw [List.map_cons, List.map_cons, ih]
        rfl

end Prepare

/-! ## What a run writes -/

section Writes

variable {names : List Text} {entries : List (PreparedImport × Note)}

theorem writes_sublist : (writes names entries).Sublist entries := by
  induction entries generalizing names with
  | nil => exact List.Sublist.refl _
  | cons entry entries ih =>
      rw [writes]
      split
      · exact ih.trans (List.sublist_cons_self _ _)
      · exact ih.cons_cons entry

theorem writes_new : ∀ entry ∈ writes names entries,
    entry.1.duplicate = false ∧ entry.1.filename ∉ names := by
  induction entries generalizing names with
  | nil => exact fun entry h => absurd h List.not_mem_nil
  | cons first entries ih =>
      intro entry h
      rw [writes] at h
      split at h
      · exact ih entry h
      · rename_i hnew
        rw [not_or, Bool.not_eq_true] at hnew
        rcases List.mem_cons.mp h with rfl | h
        · exact hnew
        · obtain ⟨hdup, hname⟩ := ih entry h
          exact ⟨hdup, fun hmem => hname (List.mem_cons_of_mem _ hmem)⟩

theorem writes_nodup : ((writes names entries).map fun entry => entry.1.filename).Nodup := by
  induction entries generalizing names with
  | nil => exact List.nodup_nil
  | cons first entries ih =>
      rw [writes]
      split
      · exact ih
      · rw [List.map_cons, List.nodup_cons]
        refine ⟨fun hmem => ?_, ih⟩
        obtain ⟨entry, hentry, hname⟩ := List.mem_map.mp hmem
        refine (writes_new entry hentry).2 ?_
        rw [hname]
        exact List.mem_cons_self

/-- The name of an entry that is no duplicate exists after the run. -/
theorem exists_writes : ∀ entry ∈ entries, entry.1.duplicate = false →
    entry.1.filename ∈ names ∨
      ∃ written ∈ writes names entries, written.1.filename = entry.1.filename := by
  induction entries generalizing names with
  | nil => exact fun entry h => absurd h List.not_mem_nil
  | cons first entries ih =>
      intro entry h hdup
      rw [writes]
      split
      · rename_i hold
        rcases List.mem_cons.mp h with rfl | h
        · rw [hdup] at hold
          exact .inl (hold.resolve_left (by decide))
        · exact ih entry h hdup
      · rcases List.mem_cons.mp h with rfl | h
        · exact .inr ⟨entry, List.mem_cons_self, rfl⟩
        · rcases ih entry h hdup with hname | ⟨written, hwritten, hname⟩
          · rcases List.mem_cons.mp hname with heq | hname
            · exact .inr ⟨first, List.mem_cons_self, heq.symm⟩
            · exact .inl hname
          · exact .inr ⟨written, List.mem_cons_of_mem _ hwritten, hname⟩

theorem writes_eq_nil (h : ∀ entry ∈ entries, entry.1.duplicate = false →
    entry.1.filename ∈ names) : writes names entries = [] := by
  induction entries with
  | nil => rfl
  | cons first entries ih =>
      obtain ⟨hfirst, hrest⟩ := List.forall_mem_cons.mp h
      rw [writes, if_pos, ih hrest]
      cases hdup : first.1.duplicate with
      | true => exact .inl rfl
      | false => exact .inr (hfirst hdup)

end Writes

section Steps

variable {host : Host} {dir : ImportDir} {r r' : Run} {runs front back : List Run}

theorem written_sublist : (dir.written host r).1.Sublist (dir.writes host r) := by
  unfold ImportDir.written
  split
  · exact List.Sublist.refl _
  · exact List.take_sublist _ _

/-- **A clear run keeps the notes matched with the index.** -/
theorem Matched.apply (h : Matched dir) (hclear : Clear host dir r) :
    Matched (dir.apply host r) := by
  have hsub : (dir.written host r).1.Sublist (dir.writes host r) := written_sublist
  have hnew : ∀ entry ∈ (dir.written host r).1, entry ∈ prepareImports host dir.index r ∧
      entry.1.duplicate = false ∧ entry.1.filename ∉ dir.names := by
    intro entry hentry
    have hwrites := hsub.subset hentry
    exact ⟨writes_sublist.subset hwrites, writes_new entry hwrites⟩
  constructor
  · have hrecords : (dir.written host r).2 = (dir.written host r).1 := hclear.lossless
    show (dir.index ++ (dir.written host r).2.map Prod.fst).map PreparedImport.filename =
      (dir.notes ++ (dir.written host r).1.map fun entry => (entry.1.filename, entry.2)).map Prod.fst
    rw [hrecords, List.map_append, List.map_append, List.map_map, List.map_map, h.index]
    rfl
  · show ((dir.notes ++ (dir.written host r).1.map fun entry =>
      (entry.1.filename, entry.2)).map Prod.fst).Nodup
    rw [List.map_append, List.map_map]
    refine List.nodup_append.mpr ⟨h.names, (hsub.map _).nodup writes_nodup, ?_⟩
    intro name hname name' hname' heq
    obtain ⟨entry, hentry, rfl⟩ := List.mem_map.mp hname'
    rw [heq] at hname
    exact (hnew entry hentry).2.2 hname
  · show ((dir.notes ++ (dir.written host r).1.map fun entry =>
      (entry.1.filename, entry.2)).map fun note => note.2.text).Nodup
    rw [List.map_append, List.map_map]
    refine List.nodup_append.mpr ⟨h.texts, ?_, ?_⟩
    · -- two notes of the run with one text have one digest
      have hdigests : ((dir.written host r).1.map fun entry => entry.1.digest).Nodup := by
        have hfilter : (dir.written host r).1.Sublist
            ((prepareImports host dir.index r).filter fun entry => !entry.1.duplicate) := by
          have hall : (dir.written host r).1.filter (fun entry => !entry.1.duplicate) =
              (dir.written host r).1 :=
            List.filter_eq_self.mpr fun entry hentry => by rw [(hnew entry hentry).2.1]; rfl
          rw [← hall]
          exact (hsub.trans writes_sublist).filter _
        exact (hfilter.map _).nodup prepareFrom_fresh.1
      have hmap : (dir.written host r).1.map (fun entry => entry.1.digest) =
          ((dir.written host r).1.map fun entry => entry.2.text).map host.sha256 := by
        rw [List.map_map]
        exact List.map_congr_left fun entry hentry => prepareFrom_digest entry (hnew entry hentry).1
      rw [hmap] at hdigests
      exact hdigests.of_map
    · intro text htext text' htext' heq
      obtain ⟨note, hnote, rfl⟩ := List.mem_map.mp htext
      obtain ⟨entry, hentry, rfl⟩ := List.mem_map.mp htext'
      obtain ⟨hprepared, hdup, hname⟩ := hnew entry hentry
      refine hname ?_
      rw [← (hclear.kept note hnote entry hprepared hdup).mpr heq]
      exact List.mem_map_of_mem hnote

/-- A clear run that is not cut off leaves a note of each of its texts. -/
theorem exists_note (hclear : Clear host dir r) (hcut : r.cut = none) :
    ∀ entry ∈ prepareImports host dir.index r,
      ∃ note ∈ (dir.apply host r).notes, note.2.text = entry.2.text := by
  intro entry hentry
  have hwritten : (dir.written host r).1 = dir.writes host r := by
    rw [ImportDir.written, hcut]
  obtain ⟨first, hfirst, hdup, hdigest⟩ := (prepareFrom_fresh.2 entry hentry).2
    (by rw [existingHashes_eq_nil]; exact List.not_mem_nil)
  have htext := hclear.digests first hfirst entry hentry hdigest
  rcases exists_writes first hfirst hdup with hname | ⟨other, hother, hname⟩
  · obtain ⟨note, hnote, hnote'⟩ := List.mem_map.mp hname
    refine ⟨note, List.mem_append_left _ hnote, ?_⟩
    rw [← htext]
    exact (hclear.kept note hnote first hfirst hdup).mp hnote'
  · refine ⟨(other.1.filename, other.2), List.mem_append_right _ ?_, ?_⟩
    · rw [hwritten]
      exact List.mem_map_of_mem (f := fun entry => (entry.1.filename, entry.2)) hother
    · rw [← htext]
      exact hclear.apart other (writes_sublist.subset hother) first hfirst
        (writes_new other hother).1 hdup hname

/-- After a run that is not cut off the same sources write nothing. -/
theorem writes_again (hcut : r.cut = none) (hargs : r'.args = r.args)
    (hsources : iterSourceFiles host r'.args r'.now r'.tree =
      iterSourceFiles host r.args r.now r.tree) :
    (dir.apply host r).writes host r' = [] := by
  have hwritten : (dir.written host r).1 = dir.writes host r := by
    rw [ImportDir.written, hcut]
  refine writes_eq_nil fun entry hentry hdup => ?_
  unfold prepareImports at hentry
  rw [hsources, hargs, existingHashes_eq_nil] at hentry
  have hnames := @prepareFrom_names host r.args r.createdAt r'.createdAt
    (iterSourceFiles host r.args r.now r.tree) []
  have hmem := List.mem_map_of_mem (f := fun e : PreparedImport × Note =>
    (e.1.filename, e.1.duplicate)) hentry
  rw [hnames] at hmem
  obtain ⟨first, hfirst, heq⟩ := List.mem_map.mp hmem
  rw [Prod.mk.injEq, hdup] at heq
  have hprepared : first ∈ prepareImports host dir.index r := by
    rw [prepareImports, existingHashes_eq_nil]
    exact hfirst
  show entry.1.filename ∈ (dir.notes ++ (dir.written host r).1.map fun entry =>
    (entry.1.filename, entry.2)).map Prod.fst
  rw [List.map_append, List.map_map, hwritten, ← heq.1]
  rcases exists_writes first hprepared heq.2 with hname | ⟨other, hother, hname⟩
  · exact List.mem_append_left _ hname
  · rw [← hname]
    exact List.mem_append_right _ (List.mem_map_of_mem
      (f := Prod.fst ∘ fun entry : PreparedImport × Note => (entry.1.filename, entry.2)) hother)

theorem AllClear.matched (h : AllClear host dir runs) (hdir : Matched dir) :
    Matched (runs.foldl (ImportDir.apply host) dir) := by
  induction runs generalizing dir with
  | nil => exact hdir
  | cons r runs ih => exact ih h.2 (hdir.apply h.1)

theorem AllClear.clear (h : AllClear host dir (front ++ r :: back)) :
    Clear host (front.foldl (ImportDir.apply host) dir) r := by
  induction front generalizing dir with
  | nil => exact h.1
  | cons first front ih => exact ih h.2

/-- A note stays. -/
theorem notes_foldl : dir.notes ⊆ (runs.foldl (ImportDir.apply host) dir).notes := by
  induction runs generalizing dir with
  | nil => exact List.Subset.refl _
  | cons r runs ih => exact fun note h => ih (List.mem_append_left _ h)

theorem Matched.exactlyOnce (h : Matched dir) {note : Text × Note} (hnote : note ∈ dir.notes) :
    ExactlyOnce dir note.2.text := by
  constructor
  · exact List.count_eq_one_of_mem h.texts (List.mem_map_of_mem hnote)
  · intro note' hnote' _
    rw [h.index]
    exact List.count_eq_one_of_mem h.names (List.mem_map_of_mem hnote')

/-- **In every sequence of clear runs the import is exactly once.** -/
theorem AllClear.importedOnce (h : AllClear host ⟨[], []⟩ runs) : ImportedOnce host runs := by
  have hmatched : Matched (reached host runs) :=
    h.matched ⟨rfl, List.nodup_nil, List.nodup_nil⟩
  refine ⟨hmatched, ?_, ?_⟩
  · intro front r back hruns hcut entry hentry
    rw [hruns] at h
    obtain ⟨note, hnote, htext⟩ := exists_note h.clear hcut entry hentry
    rw [← htext]
    refine hmatched.exactlyOnce ?_
    rw [hruns, reached, List.foldl_append, List.foldl_cons]
    exact notes_foldl hnote
  · intro front r hruns hcut r' hargs hsources
    rw [hruns, reached, List.foldl_append, List.foldl_cons, List.foldl_nil]
    exact writes_again hcut hargs hsources

end Steps

/-! ## A run that is cut off -/

/-- A host with the digest of the one text below. -/
def asciiHost : Host where
  toHost := Host.ascii fun _ =>
    txt "00ecd8c6e2426efd5f4493e47a58811e32a30c403b158c1ad8ce083de7ca69c7"
  loads _ := none
  classifier := true

def noteFile : SourceFile where
  below := (PurePath.parse (txt "app/memory/rules.md")).parts
  isFile := true
  modified := none
  content := some (txt "Run the tests.\n")

def noteRun (cut : Option (Nat × Nat)) : Run where
  args := {
    claudeRoot := PurePath.parse (txt "/claude")
    sinceDays := none
    limit := none
    includeToolResults := false
    maxSessionChars := 12000
    project := txt "app"
    projectId := []
    workspaceRoot := [] }
  now := 0
  createdAt := txt "2026-01-01T00:00:00+00:00"
  tree := [noteFile]
  cut := cut

/-- A run that is cut off before its first write, and a whole one. -/
theorem importedOnce_rerun : ImportedOnce asciiHost [noteRun (some (0, 0)), noteRun none] := by
  refine AllClear.importedOnce ⟨⟨rfl, ?_, ?_, ?_⟩, ⟨rfl, ?_, ?_, ?_⟩, trivial⟩
  · decide
  · decide
  · exact fun note h => absurd h List.not_mem_nil
  · decide
  · decide
  · decide

/-- The record of a note is lost between the two writes, and no run makes up
for it. -/
theorem record_lost : ¬ImportedOnce asciiHost [noteRun (some (1, 0)), noteRun none] := by
  intro h
  have hindex : (reached asciiHost [noteRun (some (1, 0)), noteRun none]).index.map
      PreparedImport.filename ≠ (reached asciiHost [noteRun (some (1, 0)), noteRun none]).names := by
    decide
  exact hindex h.matched.index

end RalphVault.ClaudeImport
