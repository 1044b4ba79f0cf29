import Mathlib
import RalphVault.Blanks
import RalphVault.Memory.RecallText
import RalphVault.Outcome
import RalphVault.Security.Quiet
import RalphVault.SessionStart.Fence

/-!
# Vault — the graduation of inbox notes

`_vault_graduation.py`: each note of the inbox of a project is classified and
compared with the curated notes, and with `apply` the candidates of a clear
target become notes of the vault.

Left out: the report and the events, which go to the runtime directory, the
fixed `aristotle` texts, and the directories `init_vault` creates.
-/

namespace RalphVault.Vault

open Memory (strip compactSpace)
open RecallText (Metadata addEntry find)
open SessionStart (splitlines)

/-! ## The machine -/

structure Machine where
  unicode : Unicode
  /-- `str.lower`. -/
  lower : Text → Text
  /-- `str.upper`. -/
  upper : Text → Text
  /-- `hashlib.sha256(text.encode("utf-8")).hexdigest()`. -/
  sha256 : Text → Text
  /-- `os.environ.get("RALPH_PROJECT_ID", "").strip()`. -/
  activeProjectId : Text

/-- The directories of curated notes: four of the project, two of the vault and
one of the runtime. -/
inductive Directory where
  | wiki
  | decisions
  | sessions
  | handoffs
  | globalWiki
  | globalDecisions
  | layers
deriving DecidableEq

/-- A path of the vault. -/
abbrev NotePath := Directory × Text

/-- A file, with its text unless it cannot be read. -/
structure NoteFile where
  path : NotePath
  text : Option Text

abbrev NoteTree := List NoteFile

/-- A note of the inbox. -/
structure Candidate where
  path : Text
  raw : Text

/-! ## Texts -/

def fence : Text := txt "---\n"

def fenceEnd : Text := txt "\n---"

/-- `parse_frontmatter`. -/
def parseFrontmatter (text : Text) : Metadata :=
  if startsWith fence text then
    match find fenceEnd (text.drop 4) with
    | none => []
    | some stop => (splitlines ((text.drop 4).take stop)).foldl addEntry []
  else []

/-- `strip_frontmatter`. -/
def stripFrontmatter (text : Text) : Text :=
  if startsWith fence text then
    match find fenceEnd (text.drop 4) with
    | none => text
    | some stop => (text.drop 4).drop (stop + 4)
  else text

def truncationMark : Text := txt "...[truncated]"

/-- `compact_text`. -/
def compactText (text : Text) (limit : Nat) : Text :=
  let compact := compactSpace (stripFrontmatter text)
  if compact.length ≤ limit then compact else rstrip (compact.take limit) ++ truncationMark

section Review

variable (m : Machine)

def isKept (c : Char) : Bool := isAsciiLower c || isAsciiDigit c

/-- `normalize`. -/
def normalize (text : Text) : Text :=
  joinWith [' '] ((splitWhere (fun c => !isKept c) (m.lower text)).filter fun part => !part.isEmpty)

/-- `content_hash`. -/
def contentHash (text : Text) : Text := m.sha256 (strip text)

/-- `yaml_scalar`. -/
def yamlScalar (value : Text) : Text := Json.asciiDumps (.str value)

/-! ## The curated notes -/

/-- The order of `curated_paths`. -/
def directories : List Directory :=
  [.wiki, .decisions, .sessions, .handoffs, .globalWiki, .globalDecisions, .layers]

def isMarkdown (name : Text) : Bool := (txt ".md").isSuffixOf name

/-- The readable notes of `curated_paths`. -/
def curated (vault : NoteTree) : List Text :=
  directories.flatMap fun directory =>
    ((vault.filter fun file => file.path.1 = directory ∧ isMarkdown file.path.2 = true).mergeSort
      fun a b => !textLt b.path.2 a.path.2).filterMap NoteFile.text

/-- `existing_normalized`. -/
def existingNormalized (vault : NoteTree) : Text :=
  joinWith ['\n'] ((curated vault).map (normalize m))

/-! ## The target -/

inductive Target where
  | none
  | l1
  | decisions
  | sessions
  | wiki
deriving DecidableEq

def Target.text : Target → Text
  | none => txt "none"
  | l1 => txt "L1"
  | decisions => txt "vault/decisions"
  | sessions => txt "vault/sessions"
  | wiki => txt "vault/wiki"

def globalMarkers : List Text :=
  [txt "always", txt "never", txt "global", txt "default behavior", txt "l1"]

def decisionMarkers : List Text :=
  [txt "decision:", txt "decided:", txt "adr:", txt "architecture decision"]

def wikiMarkers : List Text :=
  [txt "knowledge:", txt "note:", txt "fact:", txt "pattern:", txt "validated:"]

def sessionMarkers : List Text := [txt "handoff:", txt "session:"]

/-- `any(marker in lowered for marker in markers)` -/
def marked (markers : List Text) (lowered : Text) : Bool :=
  markers.any fun marker => contains marker lowered

/-- `target_for`. -/
def targetFor (text : Text) : Target :=
  let lowered := m.lower text
  if marked globalMarkers lowered then .l1
  else if marked decisionMarkers lowered then .decisions
  else if marked sessionMarkers lowered then .sessions
  else if marked wikiMarkers lowered then .wiki
  else .none

/-- `confidence_for`, in hundredths. -/
def confidenceFor (text : Text) (target : Target) : Int :=
  let lowered := m.lower text
  let score : Int := 58
  let score := if target = .decisions ∨ target = .wiki then score + 12 else score
  let score := if marked (decisionMarkers ++ wikiMarkers) lowered then score + 12 else score
  let score := if 8 ≤ (words text).length then score + 5 else score
  let score := if target = .l1 then max score 70 else score
  let score := if target = .none then score - 8 else score
  min 90 (max 0 score)

/-! ## The decision -/

inductive Verdict where
  | skip
  | askUser
  | autoGraduate
deriving DecidableEq

inductive Reason where
  | redClassification
  | sourceProjectMismatch
  | duplicateExisting
  | l1OrGlobalRequiresUser
  | missingSourceProjectId
  | highConfidenceProjectScopedTarget
  | ambiguousOrLowConfidenceTarget
  | lowSignal
deriving DecidableEq

structure Decision where
  sourcePath : Text
  candidateHash : Text
  verdict : Verdict
  target : Target
  confidence : Int
  reason : Reason
  classification : Text
  candidatePreview : Option Text
  findings : List Security.Finding
  sourceProjectId : Text
  sourceProjectSlug : Text
  targetPath : Option NotePath

def red : Text := txt "RED"

/-- `CLASSIFICATIONS`. -/
def classifications : List Text := [txt "GREEN", red, txt "YELLOW"]

/-- `decision_object`. -/
def decisionObject (sourcePath candidateHash : Text) (verdict : Verdict) (target : Target)
    (confidence : Int) (reason : Reason) (classification safeText : Text)
    (findings : List Security.Finding) (sourceProjectId sourceProjectSlug : Text) : Decision where
  sourcePath := sourcePath
  candidateHash := candidateHash
  verdict := verdict
  target := target
  confidence := confidence
  reason := reason
  classification := classification
  candidatePreview :=
    if verdict ≠ .skip ∨ classification ≠ red then some (compactText safeText 240) else none
  findings := findings
  sourceProjectId := sourceProjectId
  sourceProjectSlug := sourceProjectSlug
  targetPath := none

/-- The message of the `ValueError`. -/
def classificationError : Text :=
  txt "classification must be one of ['GREEN', 'RED', 'YELLOW']"

/-- `normalize_classification`, of a text. -/
def normalizeClassification (value : Text) : Except Text Text :=
  let classification := m.upper (strip value)
  if classification ∈ classifications then .ok classification
  else .error classificationError

/-- `classify_note`: the classification, the findings and the redacted text. -/
def classifyNote (text requested : Text) : Except Text (Text × List Security.Finding × Text) := do
  let requested ← normalizeClassification m requested
  let findings := Security.scanText m.unicode text
  let redacted := (Security.redactText m.unicode text).1
  return (if requested = red ∨ findings ≠ [] then red else requested, findings, redacted)

/-- `a or b` on texts. -/
def orText (a b : Text) : Text := if a.isEmpty then b else a

/-- `metadata.get(key) or ""` -/
def Candidate.field (c : Candidate) (key : Text) : Text :=
  ((parseFrontmatter c.raw).get? key).getD []

/-- `requested`. -/
def Candidate.requested (c : Candidate) : Text :=
  orText (c.field (txt "classification")) (txt "YELLOW")

/-- `source_project_id`. -/
def Candidate.sourceId (c : Candidate) : Text := c.field (txt "source_project_id")

/-- `source_project_slug`. -/
def Candidate.sourceSlug (c : Candidate) : Text :=
  orText (c.field (txt "source_project_slug")) (c.field (txt "project"))

/-- The branches of `evaluate_candidate` behind the classification. -/
def decide (existing sourceId text : Text) : Verdict × Target × Reason :=
  let normalized := normalize m text
  let target := targetFor m text
  let confidence := confidenceFor m text target
  if m.activeProjectId ≠ [] ∧ sourceId ≠ [] ∧ sourceId ≠ m.activeProjectId then
    (.skip, target, .sourceProjectMismatch)
  else if normalized ≠ [] ∧ contains normalized existing = true then
    (.skip, target, .duplicateExisting)
  else if target = .l1 then (.askUser, .l1, .l1OrGlobalRequiresUser)
  else if m.activeProjectId ≠ [] ∧ sourceId = [] ∧ (target = .decisions ∨ target = .wiki) then
    (.askUser, target, .missingSourceProjectId)
  else if (target = .decisions ∨ target = .wiki) ∧ 75 ≤ confidence then
    (.autoGraduate, target, .highConfidenceProjectScopedTarget)
  else if 60 ≤ confidence then (.askUser, target, .ambiguousOrLowConfidenceTarget)
  else (.skip, target, .lowSignal)

/-- `evaluate_candidate`. -/
def evaluateCandidate (existing : Text) (c : Candidate) : Except Text Decision := do
  let (classification, findings, safeText) ← classifyNote m c.raw c.requested
  let hash := contentHash m c.raw
  if classification = red then
    return decisionObject c.path hash .skip .none 0 .redClassification red [] findings c.sourceId
      c.sourceSlug
  else
    let text := compactText safeText 500
    let (verdict, target, reason) := decide m existing c.sourceId text
    return decisionObject c.path hash verdict target (confidenceFor m text (targetFor m text)) reason
      classification text [] c.sourceId c.sourceSlug

/-! ## The graduated notes -/

/-- `target_dir`, unless it raises. -/
def targetDir : Target → Except Text Directory
  | .decisions => .ok .decisions
  | .wiki => .ok .wiki
  | .sessions => .ok .sessions
  | target => .error (txt "unsupported graduation target: " ++ target.text)

/-- The preview of a decision, as the note has it. -/
def Decision.preview (d : Decision) (default : Text) : Text := d.candidatePreview.getD default

/-- The front matter of a graduated note. -/
def noteHeader (project now : Text) (d : Decision) : List (Text × Text) :=
  [(txt "title", (d.preview (txt "Graduated memory")).take 80),
    (txt "classification", d.classification), (txt "scope", txt "project"),
    (txt "project", project), (txt "source", txt "vault-inbox-review"),
    (txt "source_hash", d.candidateHash), (txt "target", d.target.text), (txt "created_at", now)]

/-- A line of the front matter. -/
def rowText (row : Text × Text) : Text := row.1 ++ txt ": " ++ yamlScalar row.2

/-- `render_graduated_note`, for the slug of a project. -/
def renderGraduatedNote (project now : Text) (d : Decision) : Text :=
  joinWith ['\n'] ([txt "---"] ++ ((noteHeader project now d).map rowText) ++
    [txt "---", [], strip (d.preview []), []])

/-- The name of the note of a decision. -/
def noteName (d : Decision) : Text := d.candidateHash.take 12 ++ txt ".md"

/-- `graduate`: the vault behind it, and the decision with its path. -/
def graduate (project now : Text) (vault : NoteTree) (d : Decision) :
    Except Text (NoteTree × Decision) :=
  if d.verdict ≠ .autoGraduate then .ok (vault, d)
  else do
    let directory ← targetDir d.target
    let path := (directory, noteName d)
    let vault :=
      if vault.any fun file => file.path = path then vault
      else vault ++ [⟨path, some (renderGraduatedNote project now d)⟩]
    return (vault, { d with targetPath := some path })

/-- The loop over the decisions. -/
def graduateAll (project now : Text) (vault : NoteTree) :
    List Decision → Except Text (NoteTree × List Decision)
  | [] => .ok (vault, [])
  | d :: ds => do
      let (vault, d) ← graduate project now vault d
      let (vault, ds) ← graduateAll project now vault ds
      return (vault, d :: ds)

/-- `review`, for the slug of a project: the vault behind it and the decisions. -/
def review (project now : Text) (apply : Bool) (inbox : List Candidate) (vault : NoteTree) :
    Except Text (NoteTree × List Decision) := do
  let existing := existingNormalized m vault
  let decisions ← inbox.mapM (evaluateCandidate m existing)
  if apply then graduateAll project now vault decisions else return (vault, decisions)

/-! ## What a review does to a candidate -/

/-- The redacted text of a candidate without its front matter, its space compact. -/
def Candidate.whole (c : Candidate) : Text :=
  compactSpace (stripFrontmatter (Security.redactText m.unicode c.raw).1)

/-- The text the decision is taken on. -/
def Candidate.text (c : Candidate) : Text :=
  compactText (Security.redactText m.unicode c.raw).1 500

def Candidate.normalized (c : Candidate) : Text := normalize m (c.text m)

def Candidate.target (c : Candidate) : Target := targetFor m (c.text m)

/-- The first 240 characters of the text, which the note shows. -/
def Candidate.excerpt (c : Candidate) : Text := strip (compactText (c.text m) 240)

/-- The classification asked for is a known one. -/
def Candidate.Classified (c : Candidate) : Prop :=
  m.upper (strip c.requested) ∈ classifications

instance (c : Candidate) : Decidable (c.Classified m) :=
  inferInstanceAs (Decidable (_ ∈ _))

/-- A text that comes from the active project, that no curated note has, and
that asks for the decisions or for the wiki of the project and for no global
layer. -/
def Clear (existing sourceId text : Text) : Prop :=
  (m.activeProjectId ≠ [] → sourceId = m.activeProjectId) ∧
    ¬ (normalize m text ≠ [] ∧ contains (normalize m text) existing = true) ∧
    (targetFor m text = .decisions ∨ targetFor m text = .wiki)

instance (existing sourceId text : Text) : Decidable (Clear m existing sourceId text) :=
  inferInstanceAs (Decidable (_ ∧ _))

/-- A candidate that becomes a note: it is not RED and its text is clear. -/
def Candidate.Graduates (existing : Text) (c : Candidate) : Prop :=
  c.Classified m ∧ m.upper (strip c.requested) ≠ red ∧
    Security.scanText m.unicode c.raw = [] ∧ Clear m existing c.sourceId (c.text m)

instance (existing : Text) (c : Candidate) : Decidable (c.Graduates m existing) :=
  inferInstanceAs (Decidable (_ ∧ _))

/-- The directory of a note that graduates. -/
def Candidate.directory (c : Candidate) : Directory :=
  if c.target m = .decisions then .decisions else .wiki

/-- The path of its note. -/
def Candidate.notePath (c : Candidate) : NotePath :=
  (c.directory m, (contentHash m c.raw).take 12 ++ txt ".md")

/-- The decision to make a note of a candidate. -/
def Candidate.graduation (c : Candidate) : Decision :=
  let target := c.target m
  decisionObject c.path (contentHash m c.raw) .autoGraduate target
    (confidenceFor m (c.text m) target) .highConfidenceProjectScopedTarget
    (m.upper (strip c.requested)) (c.text m) [] c.sourceId c.sourceSlug

variable {m}

/-- A text for the decisions or for the wiki has a marker. -/
theorem marked_of_target {text : Text}
    (h : targetFor m text = .decisions ∨ targetFor m text = .wiki) :
    marked (decisionMarkers ++ wikiMarkers) (m.lower text) = true := by
  rw [targetFor] at h
  rw [marked, List.any_append, Bool.or_eq_true]
  split at h
  · rcases h with h | h <;> cases h
  split at h
  · rename_i hdecision
    exact .inl hdecision
  split at h
  · rcases h with h | h <;> cases h
  split at h
  · rename_i hwiki
    exact .inr hwiki
  · rcases h with h | h <;> cases h

theorem confidenceFor_of_target {text : Text}
    (h : targetFor m text = .decisions ∨ targetFor m text = .wiki) :
    75 ≤ confidenceFor m text (targetFor m text) := by
  have hmarked := marked_of_target h
  have hne : targetFor m text ≠ .l1 ∧ targetFor m text ≠ .none := by
    rcases h with h | h <;> rw [h] <;> decide
  simp only [confidenceFor, if_pos h, if_pos hmarked, if_neg hne.1, if_neg hne.2]
  split <;> omega

theorem classifyNote_eq_ok {c : Candidate} (h : c.Classified m) :
    classifyNote m c.raw c.requested = .ok
      (if m.upper (strip c.requested) = red ∨ Security.scanText m.unicode c.raw ≠ [] then
          red else m.upper (strip c.requested),
        Security.scanText m.unicode c.raw, (Security.redactText m.unicode c.raw).1) := by
  rw [classifyNote, normalizeClassification]
  simp only [show m.upper (strip c.requested) ∈ classifications from h, if_true]
  rfl

/-- An unknown classification raises. -/
theorem evaluateCandidate_raises {existing : Text} {c : Candidate} (h : ¬ c.Classified m) :
    evaluateCandidate m existing c = .error classificationError := by
  have hraise : classifyNote m c.raw c.requested = .error classificationError := by
    rw [classifyNote, normalizeClassification]
    simp only [show ¬ m.upper (strip c.requested) ∈ classifications from h, if_false]
    rfl
  rw [evaluateCandidate, hraise]
  rfl

theorem decide_of_clear {existing sourceId text : Text} (h : Clear m existing sourceId text) :
    decide m existing sourceId text =
      (.autoGraduate, targetFor m text, .highConfidenceProjectScopedTarget) := by
  obtain ⟨hproject, hfresh, htarget⟩ := h
  have hlocal : targetFor m text ≠ .l1 := by
    rcases htarget with h | h <;> rw [h] <;> decide
  simp only [decide]
  rw [if_neg (fun hother => hother.2.2 (hproject hother.1)), if_neg hfresh, if_neg hlocal,
    if_neg, if_pos ⟨htarget, confidenceFor_of_target htarget⟩]
  rintro ⟨hactive, hnone, -⟩
  exact hactive ((hproject hactive).symm.trans hnone)

/-- The branches graduate a clear text only. -/
theorem clear_of_decide {existing sourceId text : Text}
    (h : (decide m existing sourceId text).1 = .autoGraduate) : Clear m existing sourceId text := by
  simp only [decide] at h
  split at h
  · cases h
  rename_i hproject
  split at h
  · cases h
  rename_i hfresh
  split at h
  · cases h
  split at h
  · cases h
  rename_i hnamed
  split at h
  · rename_i htarget
    refine ⟨fun hactive => ?_, hfresh, htarget.1⟩
    by_contra hother
    by_cases hnone : sourceId = []
    · exact hnamed ⟨hactive, hnone, htarget.1⟩
    · exact hproject ⟨hactive, hnone, hother⟩
  split at h
  · cases h
  · cases h

/-- **The decision on a candidate**: a graduation if it graduates, and no graduation otherwise. -/
theorem evaluateCandidate_spec {c : Candidate} (existing : Text) (h : c.Classified m) :
    ∃ d, evaluateCandidate m existing c = .ok d ∧ d.targetPath = none ∧
      (c.Graduates m existing → d = c.graduation m) ∧
      (¬ c.Graduates m existing → d.verdict ≠ .autoGraduate) := by
  rw [evaluateCandidate, classifyNote_eq_ok h]
  by_cases hred : m.upper (strip c.requested) = red ∨ Security.scanText m.unicode c.raw ≠ []
  · rw [if_pos hred]
    refine ⟨_, rfl, rfl, ?_, fun _ => ?_⟩
    · rintro ⟨-, hrequested, hclean, -⟩
      rcases hred with hred | hfound
      · exact absurd hred hrequested
      · exact absurd hclean hfound
    · show Verdict.skip ≠ .autoGraduate
      decide
  · rw [if_neg hred]
    obtain ⟨hrequested, hclean⟩ := not_or.1 hred
    simp only [bind, Except.bind, pure, Except.pure]
    rw [if_neg hrequested]
    refine ⟨_, rfl, rfl, ?_, ?_⟩
    · rintro ⟨-, -, -, hclear⟩
      have hdecide : decide m existing c.sourceId
          (compactText (Security.redactText m.unicode c.raw).1 500) = _ := decide_of_clear hclear
      rw [hdecide]
      rfl
    · intro hno hverdict
      exact hno ⟨h, hrequested, not_not.1 hclean, clear_of_decide hverdict⟩

/-! ## The notes a review adds -/

/-- The note of a candidate. -/
def Candidate.note (m : Machine) (project now : Text) (c : Candidate) : NoteFile :=
  ⟨c.notePath m, some (renderGraduatedNote project now (c.graduation m))⟩

/-- The vault behind the candidates: each that graduates to a free path adds its note. -/
def added (m : Machine) (project now existing : Text) (vault : NoteTree) :
    List Candidate → NoteTree
  | [] => vault
  | c :: cs =>
      added m project now existing
        (if c.Graduates m existing ∧ c.notePath m ∉ vault.map NoteFile.path then
          vault ++ [c.note m project now] else vault) cs

/-- The path a decision gets. -/
def Candidate.target? (m : Machine) (existing : Text) (c : Candidate) : Option NotePath :=
  if c.Graduates m existing then some (c.notePath m) else none

theorem targetDir_of_graduates {existing : Text} {c : Candidate} (h : c.Graduates m existing) :
    targetDir (c.graduation m).target = .ok (c.directory m) := by
  show targetDir (c.target m) = .ok (c.directory m)
  rcases h.2.2.2.2.2 with htarget | htarget
  · rw [Candidate.directory, show c.target m = .decisions from htarget]
    rfl
  · rw [Candidate.directory, show c.target m = .wiki from htarget]
    rfl

/-- The loop over the decisions adds the notes and gives each graduation its path. -/
theorem graduateAll_spec (project now existing : Text) (vault : NoteTree) {inbox : List Candidate}
    {decisions : List Decision}
    (h : List.Forall₂ (fun c d => d.targetPath = none ∧
      (c.Graduates m existing → d = c.graduation m) ∧
      (¬ c.Graduates m existing → d.verdict ≠ .autoGraduate)) inbox decisions) :
    ∃ decided, graduateAll project now vault decisions =
        .ok (added m project now existing vault inbox, decided) ∧
      List.Forall₂ (fun c d => d.targetPath = c.target? m existing) inbox decided := by
  induction h generalizing vault with
  | nil => exact ⟨[], rfl, .nil⟩
  | @cons c d inbox decisions hhere _ ih =>
      obtain ⟨hnone, hyes, hno⟩ := hhere
      by_cases hgraduates : c.Graduates m existing
      · obtain rfl := hyes hgraduates
        have hstep : graduate project now vault (c.graduation m) =
            .ok (if c.notePath m ∉ vault.map NoteFile.path then vault ++ [c.note m project now]
              else vault, { c.graduation m with targetPath := some (c.notePath m) }) := by
          have hany : (vault.any fun file => file.path = c.notePath m) = true ↔
              c.notePath m ∈ vault.map NoteFile.path := by
            simp
          have hverdict : (c.graduation m).verdict = .autoGraduate := rfl
          rw [graduate, if_neg (not_not.2 hverdict), targetDir_of_graduates hgraduates]
          show Except.ok (if (vault.any fun file => file.path = c.notePath m) = true then vault
            else vault ++ [c.note m project now], _) = _
          by_cases hmem : c.notePath m ∈ vault.map NoteFile.path
          · rw [if_pos (hany.2 hmem), if_neg (not_not.2 hmem)]
            rfl
          · rw [if_neg (fun htrue => hmem (hany.1 htrue)), if_pos hmem]
            rfl
        obtain ⟨decided, hrest, hpaths⟩ := ih (if c.notePath m ∉ vault.map NoteFile.path then
          vault ++ [c.note m project now] else vault)
        refine ⟨{ c.graduation m with targetPath := some (c.notePath m) } :: decided, ?_,
          .cons ?_ hpaths⟩
        · rw [graduateAll, hstep]
          simp only [bind, Except.bind, hrest, added, hgraduates, true_and]
          rfl
        · rw [Candidate.target?, if_pos hgraduates]
      · obtain ⟨decided, hrest, hpaths⟩ := ih vault
        refine ⟨d :: decided, ?_, .cons ?_ hpaths⟩
        · rw [graduateAll, graduate, if_pos (hno hgraduates)]
          simp only [bind, Except.bind, hrest, added, hgraduates, false_and]
          rfl
        · rw [Candidate.target?, if_neg hgraduates, hnone]

section Added

variable {project now existing : Text}

theorem subset_added (vault : NoteTree) (cs : List Candidate) :
    vault ⊆ added m project now existing vault cs := by
  induction cs generalizing vault with
  | nil => exact fun _ h => h
  | cons c cs ih =>
      rw [added]
      split
      · exact fun file hfile => ih _ (List.mem_append_left _ hfile)
      · exact ih vault

/-- What is at a taken path stays. -/
theorem mem_added_of_taken {file : NoteFile} (cs : List Candidate) {vault : NoteTree}
    (h : file.path ∈ vault.map NoteFile.path) :
    file ∈ added m project now existing vault cs ↔ file ∈ vault := by
  induction cs generalizing vault with
  | nil => rfl
  | cons c cs ih =>
      rw [added]
      split
      · rename_i hnew
        have hne : file ≠ c.note m project now := by
          rintro rfl
          exact hnew.2 h
        rw [ih (by simp only [List.map_append, List.mem_append, h, true_or])]
        simp [hne]
      · exact ih h

/-- At a free path is the note of the first candidate that graduates to it. -/
theorem mem_added_of_free {file : NoteFile} (cs : List Candidate) {vault : NoteTree}
    (h : file.path ∉ vault.map NoteFile.path) :
    file ∈ added m project now existing vault cs ↔ ∃ r,
      (cs.find? fun c => c.Graduates m existing ∧ c.notePath m = file.path) = some r ∧
        file = r.note m project now := by
  induction cs generalizing vault with
  | nil =>
      have hmem : file ∉ vault := fun hfile => h (List.mem_map_of_mem hfile)
      simp [added, hmem]
  | cons c cs ih =>
      by_cases hhere : c.Graduates m existing ∧ c.notePath m = file.path
      · have hnew : c.notePath m ∉ vault.map NoteFile.path := by
          rw [hhere.2]
          exact h
        rw [added, if_pos ⟨hhere.1, hnew⟩, List.find?_cons_of_pos (by simpa using hhere),
          mem_added_of_taken cs (by rw [← hhere.2]; simp [Candidate.note])]
        have hmem : file ∉ vault := fun hfile => h (List.mem_map_of_mem hfile)
        simp [hmem]
      · rw [added, List.find?_cons_of_neg (by simpa using hhere)]
        split
        · rename_i hnew
          have hother : file.path ≠ c.notePath m := fun heq => hhere ⟨hnew.1, heq.symm⟩
          refine ih ?_
          rw [List.map_append, List.mem_append, not_or]
          exact ⟨h, by simpa [Candidate.note] using hother⟩
        · exact ih h

/-- Behind a review the path of each candidate that graduates is taken. -/
theorem path_mem_added {c : Candidate} {cs : List Candidate} (hc : c ∈ cs)
    (hgraduates : c.Graduates m existing) (vault : NoteTree) :
    c.notePath m ∈ (added m project now existing vault cs).map NoteFile.path := by
  by_cases htaken : c.notePath m ∈ vault.map NoteFile.path
  · obtain ⟨file, hfile, hpath⟩ := List.mem_map.1 htaken
    exact List.mem_map.2 ⟨file, subset_added vault cs hfile, hpath⟩
  · cases hfind : cs.find? fun r => r.Graduates m existing ∧ r.notePath m = c.notePath m with
    | none =>
        have := List.find?_eq_none.1 hfind c hc
        simp [hgraduates] at this
    | some r =>
        have hr := List.find?_some hfind
        have hpath : r.notePath m = c.notePath m := by
          have : r.Graduates m existing ∧ r.notePath m = c.notePath m := by simpa using hr
          exact this.2
        refine List.mem_map.2 ⟨r.note m project now, ?_, hpath⟩
        have hfree : (r.note m project now).path ∉ vault.map NoteFile.path := by
          show r.notePath m ∉ _
          rw [hpath]
          exact htaken
        refine (mem_added_of_free cs hfree).2 ⟨r, ?_, rfl⟩
        show (cs.find? fun s => s.Graduates m existing ∧ s.notePath m = r.notePath m) = some r
        rw [hpath]
        exact hfind

/-- Nothing is added if the paths are taken. -/
theorem added_eq_self {cs : List Candidate} {vault : NoteTree}
    (h : ∀ c ∈ cs, c.Graduates m existing → c.notePath m ∈ vault.map NoteFile.path) :
    added m project now existing vault cs = vault := by
  induction cs with
  | nil => rfl
  | cons c cs ih =>
      rw [added, if_neg]
      · exact ih fun d hd => h d (List.mem_cons_of_mem _ hd)
      · rintro ⟨hgraduates, hfree⟩
        exact hfree (h c List.mem_cons_self hgraduates)

end Added

/-! ## The run -/

theorem mapM_of_forall {α β : Type} {f : α → Except Text β} {P : α → β → Prop} {as : List α}
    (h : ∀ a ∈ as, ∃ b, f a = .ok b ∧ P a b) : ∃ bs, as.mapM f = .ok bs ∧ List.Forall₂ P as bs := by
  induction as with
  | nil => exact ⟨[], rfl, .nil⟩
  | cons a as ih =>
      obtain ⟨b, hb, hP⟩ := h a List.mem_cons_self
      obtain ⟨bs, hbs, hall⟩ := ih fun a ha => h a (List.mem_cons_of_mem _ ha)
      refine ⟨b :: bs, ?_, .cons hP hall⟩
      rw [List.mapM_cons, hb]
      simp only [bind, Except.bind, hbs]
      rfl

theorem ok_of_mapM {α β : Type} {f : α → Except Text β} {as : List α} {bs : List β}
    (h : as.mapM f = .ok bs) : ∀ a ∈ as, ∃ b, f a = .ok b := by
  induction as generalizing bs with
  | nil => simp
  | cons a as ih =>
      rw [List.mapM_cons] at h
      obtain ⟨b, hb, h⟩ := Outcome.bind_eq_ok.1 h
      obtain ⟨rest, hrest, -⟩ := Outcome.bind_eq_ok.1 h
      intro d hd
      obtain rfl | hmem := List.mem_cons.1 hd
      · exact ⟨b, hb⟩
      · exact ih hrest d hmem

/-- **A review of known classifications returns.** -/
theorem review_spec (project now : Text) {inbox : List Candidate} (vault : NoteTree)
    (h : ∀ c ∈ inbox, c.Classified m) : ∃ decided,
      review m project now true inbox vault =
        .ok (added m project now (existingNormalized m vault) vault inbox, decided) ∧
      List.Forall₂ (fun c d => d.targetPath = c.target? m (existingNormalized m vault)) inbox
        decided := by
  obtain ⟨decisions, hmap, hall⟩ := mapM_of_forall fun c hc =>
    evaluateCandidate_spec (existingNormalized m vault) (h c hc)
  obtain ⟨decided, hloop, hpaths⟩ := graduateAll_spec project now _ vault hall
  refine ⟨decided, ?_, hpaths⟩
  rw [review, hmap]
  exact hloop

/-- A review that returns has known classifications only. -/
theorem classified_of_review {project now : Text} {inbox : List Candidate} {vault : NoteTree}
    {result : NoteTree × List Decision} (h : review m project now true inbox vault = .ok result) :
    ∀ c ∈ inbox, c.Classified m := by
  obtain ⟨decisions, hmap, -⟩ := Outcome.bind_eq_ok.1 h
  intro c hc
  by_contra hunknown
  obtain ⟨d, hd⟩ := ok_of_mapM hmap c hc
  rw [evaluateCandidate_raises hunknown] at hd
  cases hd

/-! ## The curated notes -/

/-- A text without a line feed is in lines if it is in one of them. -/
theorem infix_lines {w : Text} (hw : w ≠ []) (hbreak : '\n' ∉ w) (lines : List Text) :
    w <:+: joinWith ['\n'] lines ↔ ∃ line ∈ lines, w <:+: line := by
  induction lines with
  | nil => simp [joinWith, hw]
  | cons line lines ih =>
      cases lines with
      | nil => simp [joinWith]
      | cons next lines =>
          have hsplit : joinWith ['\n'] (line :: next :: lines) =
              line ++ '\n' :: joinWith ['\n'] (next :: lines) := by simp [joinWith]
          rw [hsplit, List.exists_mem_cons_iff, ← ih]
          constructor
          · exact infix_append_cons hbreak
          · rintro (h | h)
            · exact h.trans (List.prefix_append line _).isInfix
            · exact h.trans ((List.suffix_cons '\n' _).trans (List.suffix_append line _)).isInfix

/-- The characters of a normalised text. -/
theorem mem_normalize {text : Text} {c : Char} (h : c ∈ normalize m text) :
    isKept c = true ∨ c = ' ' := by
  have hjoin : ∀ parts : List Text, (∀ part ∈ parts, ∀ d ∈ part, isKept d = true) →
      c ∈ joinWith [' '] parts → isKept c = true ∨ c = ' ' := by
    intro parts hparts
    induction parts with
    | nil => simp [joinWith]
    | cons part parts ih =>
        obtain ⟨hpart, hrest⟩ := List.forall_mem_cons.1 hparts
        cases parts with
        | nil => exact fun hc => .inl (hpart c hc)
        | cons next parts =>
            intro hc
            have hmem : c ∈ part ∨ c = ' ' ∨ c ∈ joinWith [' '] (next :: parts) := by
              simpa [joinWith, or_assoc] using hc
            rcases hmem with hmem | hblank | hmem
            · exact .inl (hpart c hmem)
            · exact .inr hblank
            · exact ih hrest hmem
  refine hjoin _ (fun part hpart d hd => ?_) h
  have := not_space_of_mem_splitWhere (List.mem_filter.1 hpart).1 d hd
  simpa using this

theorem newline_not_mem_normalize (text : Text) : '\n' ∉ normalize m text := by
  intro hmem
  rcases mem_normalize hmem with h | h
  · exact absurd h (by decide)
  · exact absurd h (by decide)

theorem mem_curated {vault : NoteTree} {text : Text} : text ∈ curated vault ↔
    ∃ file ∈ vault, isMarkdown file.path.2 = true ∧ file.text = some text := by
  simp only [curated, List.mem_flatMap, List.mem_filterMap, List.mem_mergeSort, List.mem_filter,
    decide_eq_true_iff]
  constructor
  · rintro ⟨directory, -, file, ⟨hfile, -, hname⟩, htext⟩
    exact ⟨file, hfile, hname, htext⟩
  · rintro ⟨file, hfile, hname, htext⟩
    refine ⟨file.path.1, ?_, file, ⟨hfile, rfl, hname⟩, htext⟩
    cases file.path.1 <;> decide

/-- A normalised text is found if one of the curated notes has it. -/
theorem contains_existing {vault : NoteTree} {text : Text} (h : normalize m text ≠ []) :
    contains (normalize m text) (existingNormalized m vault) = true ↔
      ∃ note ∈ curated vault, contains (normalize m text) (normalize m note) = true := by
  simp only [Security.contains_iff, existingNormalized]
  rw [infix_lines h (newline_not_mem_normalize text)]
  simp

/-- With more notes no more candidates graduate. -/
theorem graduates_mono {vault more : NoteTree} (h : vault ⊆ more) {c : Candidate}
    (hgraduates : c.Graduates m (existingNormalized m more)) :
    c.Graduates m (existingNormalized m vault) := by
  obtain ⟨hclassified, hrequested, hclean, hproject, hfresh, htarget⟩ := hgraduates
  refine ⟨hclassified, hrequested, hclean, hproject, ?_, htarget⟩
  rintro ⟨hne, hfound⟩
  obtain ⟨note, hnote, hin⟩ := (contains_existing hne).1 hfound
  obtain ⟨file, hfile, hname, htext⟩ := mem_curated.1 hnote
  exact hfresh ⟨hne, (contains_existing hne).2 ⟨note, mem_curated.2 ⟨file, h hfile, hname, htext⟩, hin⟩⟩

/-- **A second review changes no note.** -/
theorem review_again {project now now' : Text} {inbox : List Candidate} {vault : NoteTree}
    (h : ∀ c ∈ inbox, c.Classified m) :
    ∃ decided, review m project now' true inbox
        (added m project now (existingNormalized m vault) vault inbox) =
      .ok (added m project now (existingNormalized m vault) vault inbox, decided) := by
  obtain ⟨decided, hreview, -⟩ := review_spec project now'
    (added m project now (existingNormalized m vault) vault inbox) h
  refine ⟨decided, hreview.trans ?_⟩
  rw [added_eq_self]
  intro c hc hgraduates
  exact path_mem_added hc (graduates_mono (subset_added vault inbox) hgraduates) vault

/-! ## The text of a note -/

/-- What `ensure_ascii` writes of a printable character is printable. -/
theorem printable_asciiChar {c : Char} (h : 32 ≤ c.toNat) : Json.Printable (Json.asciiChar c) := by
  have hu : ∀ {n : Nat}, n < 0x10000 → Json.Printable ('\\' :: 'u' :: Json.hex4 n) := by
    intro n hn
    refine Json.printable_cons (by decide) (Json.printable_cons (by decide) ?_)
    intro d hd
    simp only [Json.hex4, List.mem_cons, List.not_mem_nil, or_false] at hd
    rcases hd with rfl | rfl | rfl | rfl <;> exact (Json.hexDigit_bounds _ (by omega)).1
  have hmax := Json.toNat_valid c
  unfold Json.asciiChar
  split
  · exact Json.printable_cons h (by simp [Json.Printable])
  split
  · rename_i hc
    exact hu hc
  · exact Json.printable_append (hu (by omega)) (hu (by omega))

theorem newline_not_mem_yamlScalar (value : Text) : '\n' ∉ yamlScalar value := by
  intro hmem
  obtain ⟨c, hc, hmem⟩ := List.mem_flatMap.1 hmem
  have hprintable := printable_asciiChar (Json.printable_canonical (.str value) c hc) _ hmem
  exact absurd hprintable (by decide)

/-- The front matter ends where it is closed, as no line of it starts with a dash. -/
theorem find_fenceEnd {rows : List Text} (hne : rows ≠ [])
    (h : ∀ row ∈ rows, '\n' ∉ row ∧ ∃ c u, row = c :: u ∧ c ≠ '-') (rest : Text) :
    find fenceEnd (joinWith ['\n'] rows ++ (fenceEnd ++ rest)) =
      some (joinWith ['\n'] rows).length := by
  have hskip : ∀ (row t : Text), '\n' ∉ row →
      find fenceEnd (row ++ t) = (find fenceEnd t).map (· + row.length) := by
    intro row t hrow
    induction row with
    | nil => simp
    | cons c row ih =>
        obtain ⟨hc, hrest⟩ := List.ne_and_not_mem_of_not_mem_cons hrow
        have hno : ¬ startsWith fenceEnd (c :: (row ++ t)) = true := by
          intro hstart
          obtain ⟨_, heq⟩ := List.isPrefixOf_iff_prefix.1 hstart
          exact hc (List.cons.inj heq).1
        rw [List.cons_append, find, if_neg hno, ih hrest, Option.map_map]
        congr 1
  induction rows with
  | nil => exact absurd rfl hne
  | cons row rows ih =>
      obtain ⟨⟨hrow, -⟩, hrows⟩ := List.forall_mem_cons.1 h
      cases rows with
      | nil =>
          have hstart : find fenceEnd (fenceEnd ++ rest) = some 0 := by
            show find fenceEnd ('\n' :: '-' :: '-' :: '-' :: rest) = some 0
            rw [find, if_pos]
            rfl
          show find fenceEnd (row ++ (fenceEnd ++ rest)) = _
          rw [hskip row _ hrow, hstart]
          simp [joinWith]
      | cons next rows =>
          have hsplit : joinWith ['\n'] (row :: next :: rows) =
              row ++ '\n' :: joinWith ['\n'] (next :: rows) := by simp [joinWith]
          obtain ⟨c, v, hnext, hdash⟩ := (hrows next List.mem_cons_self).2
          have hlater := ih (List.cons_ne_nil _ _) hrows
          -- The line feed in front of the next line does not close the front matter.
          have hno : ¬ startsWith fenceEnd
              ('\n' :: (joinWith ['\n'] (next :: rows) ++ (fenceEnd ++ rest))) = true := by
            intro hstart
            obtain ⟨_, heq⟩ := List.isPrefixOf_iff_prefix.1 hstart
            have htail := (List.cons.inj heq).2
            have hjoin : ∃ u, joinWith ['\n'] (next :: rows) = c :: u := by
              rw [hnext]
              cases rows with
              | nil => exact ⟨v, rfl⟩
              | cons _ _ => exact ⟨_, rfl⟩
            obtain ⟨u, hu⟩ := hjoin
            rw [hu, List.cons_append] at htail
            exact hdash (List.cons.inj htail).1.symm
          rw [hsplit, List.append_assoc, hskip row _ hrow, List.cons_append, find, if_neg hno, hlater]
          simp [Nat.add_comm]

def noteKeys : List Text :=
  [txt "title", txt "classification", txt "scope", txt "project", txt "source",
    txt "source_hash", txt "target", txt "created_at"]

theorem noteHeader_lines (project now : Text) (d : Decision) :
    ∀ row ∈ (noteHeader project now d).map rowText,
      '\n' ∉ row ∧ ∃ c u, row = c :: u ∧ c ≠ '-' := by
  have hkeys : ∀ key ∈ noteKeys, '\n' ∉ key ++ txt ": " ∧ key ≠ [] ∧ key.head? ≠ some '-' := by
    decide
  intro row hrow
  obtain ⟨pair, hpair, rfl⟩ := List.mem_map.1 hrow
  have hkey : pair.1 ∈ (noteHeader project now d).map Prod.fst := List.mem_map_of_mem hpair
  obtain ⟨hbreak, hne, hdash⟩ := hkeys pair.1 hkey
  obtain ⟨c, u, hcons⟩ := List.exists_cons_of_ne_nil hne
  refine ⟨?_, c, u ++ txt ": " ++ yamlScalar pair.2, ?_, ?_⟩
  · rw [rowText, List.mem_append, not_or]
    exact ⟨hbreak, newline_not_mem_yamlScalar _⟩
  · rw [rowText, hcons]
    rfl
  · rintro rfl
    rw [hcons] at hdash
    exact hdash rfl

/-- The text of a note behind its front matter. -/
theorem stripFrontmatter_note (project now : Text) (d : Decision) :
    stripFrontmatter (renderGraduatedNote project now d) =
      '\n' :: '\n' :: (strip (d.preview []) ++ ['\n']) := by
  have hrows : (noteHeader project now d).map rowText ≠ [] := List.cons_ne_nil _ _
  have hfind := find_fenceEnd hrows (noteHeader_lines project now d)
    ('\n' :: '\n' :: (strip (d.preview []) ++ ['\n']))
  have hshape : renderGraduatedNote project now d = fence ++
      (joinWith ['\n'] ((noteHeader project now d).map rowText) ++
        (fenceEnd ++ '\n' :: '\n' :: (strip (d.preview []) ++ ['\n']))) := by
    have hfront : [txt "---"] ++ (noteHeader project now d).map rowText ≠ [] :=
      List.cons_ne_nil _ _
    rw [renderGraduatedNote, SessionStart.joinWith_append_cons _ hfront]
    obtain ⟨row, rows, hcons⟩ := List.exists_cons_of_ne_nil hrows
    rw [hcons]
    show txt "---" ++ ['\n'] ++ joinWith ['\n'] (row :: rows) ++ ['\n'] ++
      joinWith ['\n'] [txt "---", [], strip (d.preview []), []] = _
    simp only [joinWith, fence, fenceEnd, List.append_assoc]
    rfl
  generalize joinWith ['\n'] ((noteHeader project now d).map rowText) = front at hfind hshape
  have hstart : ∀ t : Text, startsWith fence (fence ++ t) = true := fun t =>
    List.isPrefixOf_iff_prefix.2 (List.prefix_append _ _)
  rw [hshape, stripFrontmatter, if_pos (hstart _)]
  have hdrop : ∀ t : Text, (fence ++ t).drop 4 = t := fun t => rfl
  rw [hdrop, hfind]
  show (front ++ (fenceEnd ++ _)).drop (front.length + 4) = _
  rw [List.drop_append, List.drop_eq_nil_of_le (by omega), Nat.add_sub_cancel_left]
  rfl

/-! ## What the note has of the text -/

theorem newline_not_mem_whole (c : Candidate) : '\n' ∉ c.whole m := by
  intro hmem
  rcases compactSpace_chars _ _ hmem with h | h
  · exact absurd h (by decide)
  · exact absurd h (by decide)

theorem preview_graduation (c : Candidate) : strip ((c.graduation m).preview []) = c.excerpt m := by
  have hpreview : (c.graduation m).candidatePreview = some (compactText (c.text m) 240) := by
    simp only [Candidate.graduation, decisionObject]
    rw [if_pos (Or.inl (by decide))]
  rw [Decision.preview, hpreview, Option.getD_some, Candidate.excerpt]

/-- A note has a text behind its front matter if its excerpt has it. -/
theorem contains_note (project now : Text) (c r : Candidate) :
    contains (c.whole m) (stripFrontmatter (renderGraduatedNote project now (r.graduation m))) =
      true ↔ contains (c.whole m) (r.excerpt m) = true := by
  rw [stripFrontmatter_note, preview_graduation, Security.contains_iff, Security.contains_iff]
  have hinside : r.excerpt m <:+: '\n' :: '\n' :: (r.excerpt m ++ ['\n']) :=
    ⟨['\n', '\n'], ['\n'], by simp⟩
  refine ⟨fun h => ?_, fun h => h.trans hinside⟩
  by_cases hnil : c.whole m = []
  · rw [hnil]
    exact List.nil_infix
  · exact SessionStart.infix_body hnil (newline_not_mem_whole c) h

theorem exists_mem_splitWhere {q : Char → Bool} {t : Text} {c : Char} (hc : c ∈ t)
    (hq : q c = false) : ∃ part ∈ splitWhere q t, c ∈ part := by
  induction t with
  | nil => cases hc
  | cons d t ih =>
      rw [splitWhere]
      rcases List.mem_cons.1 hc with rfl | hmem
      · rw [if_neg (by simp [hq])]
        cases splitWhere q t with
        | nil => exact ⟨[c], List.mem_cons_self, List.mem_cons_self⟩
        | cons part parts => exact ⟨c :: part, List.mem_cons_self, List.mem_cons_self⟩
      · obtain ⟨part, hpart, hin⟩ := ih hmem
        split
        · exact ⟨part, List.mem_cons_of_mem _ hpart, hin⟩
        · cases hsplit : splitWhere q t with
          | nil =>
              rw [hsplit] at hpart
              cases hpart
          | cons first parts =>
              rw [hsplit] at hpart
              rcases List.mem_cons.1 hpart with rfl | hrest
              · exact ⟨d :: part, List.mem_cons_self, List.mem_cons_of_mem _ hin⟩
              · exact ⟨part, List.mem_cons_of_mem _ hrest, hin⟩

/-- A text that graduates has a marker, and so is not empty. -/
theorem normalized_ne_nil {existing : Text} {c : Candidate} (h : c.Graduates m existing) :
    c.normalized m ≠ [] := by
  have hmarked := marked_of_target h.2.2.2.2.2
  have hkept : ∀ marker ∈ decisionMarkers ++ wikiMarkers, (marker.any isKept) = true := by decide
  obtain ⟨marker, hmarker, hfound⟩ := List.any_eq_true.1 hmarked
  obtain ⟨d, hd, hisKept⟩ := List.any_eq_true.1 (hkept marker hmarker)
  have hmem : d ∈ m.lower (c.text m) := (Security.isInfix_of_contains hfound).subset hd
  obtain ⟨part, hpart, hin⟩ := exists_mem_splitWhere (q := fun c => !isKept c) hmem (by simp [hisKept])
  intro hnil
  have hparts : ∀ parts : List Text, joinWith [' '] parts = [] → ∀ p ∈ parts, p = [] := by
    intro parts hjoin
    cases parts with
    | nil => simp
    | cons first parts =>
        cases parts with
        | nil => simpa [joinWith] using hjoin
        | cons next parts => simp [joinWith] at hjoin
  have hpartNe : part ≠ [] := List.ne_nil_of_mem hin
  refine hpartNe (hparts _ hnil part (List.mem_filter.2 ⟨hpart, ?_⟩))
  simpa using hpartNe

/-! ## Exact reviews -/

section Exact

variable (m)

/-- The run gives a candidate a path that was free. -/
def Creates (inbox : List Candidate) (vault : NoteTree) (decided : List Decision) (c : Candidate)
    (p : NotePath) : Prop :=
  p ∉ vault.map NoteFile.path ∧ ∃ d, (c, d) ∈ inbox.zip decided ∧ d.targetPath = some p

/-- What a review leaves behind: candidates of one normalised text share one
new note and no note of it was there, the note created for a candidate has the
whole redacted text, and a second review changes nothing. -/
structure ExactRun (project : Text) (inbox : List Candidate) (vault behind : NoteTree)
    (decided : List Decision) : Prop where
  once : ∀ c p c' p', Creates inbox vault decided c p → Creates inbox vault decided c' p' →
    c.normalized m = c'.normalized m → p = p'
  fresh : ∀ c p, Creates inbox vault decided c p →
    ∀ note ∈ curated vault, contains (c.normalized m) (normalize m note) = false
  whole : ∀ c p, Creates inbox vault decided c p → ∃ text, ⟨p, some text⟩ ∈ behind ∧
    contains (c.whole m) (stripFrontmatter text) = true
  again : ∀ now, ∃ decided', review m project now true inbox behind = .ok (behind, decided')

/-- The review returns and is exact. -/
def Exact (project now : Text) (inbox : List Candidate) (vault : NoteTree) : Prop :=
  ∃ behind decided, review m project now true inbox vault = .ok (behind, decided) ∧
    ExactRun m project inbox vault behind decided

/-- A candidate that graduates to a free path. -/
def Candidate.New (vault : NoteTree) (c : Candidate) : Prop :=
  c.Graduates m (existingNormalized m vault) ∧ c.notePath m ∉ vault.map NoteFile.path

/-- The candidate whose note stands at a path: the first that graduates to it. -/
def holder (vault : NoteTree) (inbox : List Candidate) (p : NotePath) : Option Candidate :=
  inbox.find? fun r => r.Graduates m (existingNormalized m vault) ∧ r.notePath m = p

variable {m}

theorem creates_iff {inbox : List Candidate} {vault : NoteTree} {decided : List Decision}
    (h : List.Forall₂ (fun c d => d.targetPath = c.target? m (existingNormalized m vault)) inbox
      decided) (c : Candidate) (p : NotePath) :
    Creates inbox vault decided c p ↔ c ∈ inbox ∧ c.New m vault ∧ p = c.notePath m := by
  have hpath : ∀ (c : Candidate) (d : Decision),
      d.targetPath = c.target? m (existingNormalized m vault) →
      (d.targetPath = some p ↔ c.Graduates m (existingNormalized m vault) ∧ p = c.notePath m) := by
    intro c d hd
    rw [hd, Candidate.target?]
    split
    · rename_i hyes
      simp [hyes, eq_comm]
    · rename_i hno
      simp [hno]
  have hzip : (∃ d, (c, d) ∈ inbox.zip decided ∧ d.targetPath = some p) ↔
      c ∈ inbox ∧ c.Graduates m (existingNormalized m vault) ∧ p = c.notePath m := by
    induction h with
    | nil => simp
    | @cons a d inbox decided hhere _ ih =>
        simp only [List.zip_cons_cons, List.mem_cons, Prod.mk.injEq, or_and_right, exists_or, ih]
        constructor
        · rintro (⟨_, ⟨rfl, rfl⟩, htarget⟩ | ⟨hmem, hrest⟩)
          · exact .inl ⟨rfl, (hpath _ _ hhere).1 htarget⟩
          · exact .inr ⟨hmem, hrest⟩
        · rintro (⟨rfl, hrest⟩ | ⟨hmem, hrest⟩)
          · exact .inl ⟨d, ⟨rfl, rfl⟩, (hpath _ _ hhere).2 hrest⟩
          · exact .inr ⟨hmem, hrest⟩
  rw [Creates, hzip, Candidate.New]
  constructor
  · rintro ⟨hfree, hc, hgraduates, rfl⟩
    exact ⟨hc, ⟨hgraduates, hfree⟩, rfl⟩
  · rintro ⟨hc, ⟨hgraduates, hfree⟩, rfl⟩
    exact ⟨hfree, hc, hgraduates, rfl⟩

/-- An inbox with one note, which asks for an unknown classification. -/
def secretNote : Candidate where
  path := txt "secret.md"
  raw := txt "---\nclassification: SECRET\n---\nnote: x"

/-- A machine of an interpreter that knows ASCII only, with the digest of that note. -/
def asciiMachine : Machine where
  unicode := Unicode.ascii
  lower := Memory.asciiLower
  upper t := t.map fun c => if isAsciiLower c then Char.ofNat (c.toNat - 32) else c
  sha256 _ := txt "ddc72988905b972563fd6d4cd4a79cf7ca896834e2cc75b6928a2a100b06f0bd"
  activeProjectId := []

end Exact

end Review

end RalphVault.Vault
