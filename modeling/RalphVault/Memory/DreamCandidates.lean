import RalphVault.Grouping
import RalphVault.Memory.Value
import RalphVault.SessionStart.Reducer

/-!
# Dream — candidates

`extract_candidates` of `_dream_core.py`: the marked lines of the sources are
grouped by a normal form without punctuation. The layer, the text and what the
text adds to the score are those of the first line of a group; the sources, the
classification and the counts are gathered from all of them. A score is in
hundredths, which is what it is rounded to.
-/

namespace RalphVault.Dream

open Memory Regex Grouping
open Security (lit among space)
open SessionStart (splitlines joinLines)

/-! ## Sources and candidates -/

/-- The classification of a source that was not skipped. -/
inductive Classification where
  | green
  | yellow
deriving DecidableEq

structure SourceItem where
  relativePath : Text
  text : Text
  classification : Classification

inductive Layer where
  | l1
  | l2
  | l3
  | reportOnly
deriving DecidableEq

def Layer.name : Layer → Text
  | l1 => txt "L1"
  | l2 => txt "L2"
  | l3 => txt "L3"
  | reportOnly => txt "report-only"

structure Candidate where
  targetLayer : Layer
  classification : Classification
  text : Text
  sourcePaths : List Text
  sourceGroups : List Text
  confidence : Int
  hash : Text
  duplicateExisting : Bool
  duplicateCount : Nat

/-- `MARKERS`. -/
def markers : List Text :=
  [txt "decision", txt "learned", txt "root cause", txt "validated", txt "fixed", txt "checkpoint",
   txt "rule", txt "must", txt "should", txt "always", txt "never"]

/-- `L1_MARKERS`. -/
def l1Markers : List Text :=
  [txt "always", txt "never", txt "must", txt "red", txt "secret", txt "security"]

/-- `L2_MARKERS`. -/
def l2Markers : List Text :=
  [txt "repo", txt "project", txt "migration", txt "checkpoint", txt "local convention",
   txt "tests/unit"]

/-- `L3_MARKERS`. -/
def l3Markers : List Text := [txt "vault", txt "mivault", txt "index", txt "external note"]

def handoffs : Text := txt "handoffs"
def ledgers : Text := txt "ledgers"
def codexMemories : Text := txt "codex-memories"
def localNotes : Text := txt "local-notes"

def dashes : Text := txt "---"

/-! ## Lines -/

/-- `strip_frontmatter`. -/
def stripFrontmatter (text : Text) : Text :=
  if !startsWith dashes text then text
  else match (splitlines text).tail.dropWhile (fun line => strip line != dashes) with
    | [] => text
    | _ :: body => joinLines body

/-- `label.split("/", 1)[0]`. -/
def sourceGroup (label : Text) : Text := label.takeWhile (· != '/')

section Extract

variable (host : Host)

/-- `STRIP_PREFIX`. -/
def stripPrefix : Regex Char :=
  seq [look fun l _ => l == none, star true space,
    opt (anyOf [
      seq [among ['-', '*'], atLeast 1 space],
      seq [atLeast 1 (chr host.unicode.decimal), lit ['.'], atLeast 1 space],
      seq [between 1 6 (chr (· == '#')), atLeast 1 space],
      seq [lit ['>'], atLeast 1 space]])]

/-- One of the markers is in the text. -/
def hasMarker (ms : List Text) (text : Text) : Bool :=
  ms.any fun marker => contains marker (host.lower text)

/-- `candidate_lines`. -/
def candidateLines (text : Text) : List Text :=
  ((splitlines (stripFrontmatter text)).map fun raw =>
    strip (raw.drop ((matchLen (stripPrefix host) none raw).getD 0))).filter fun line =>
      !line.isEmpty && !startsWith ['|'] line && !startsWith dashes line && hasMarker host markers line

/-- `normalize_candidate`. -/
def normalizeCandidate (text : Text) : Text :=
  joinWith [' '] ((splitWhere (fun c => !(isAsciiLower c || isAsciiDigit c)) (host.lower text)).filter
    fun part => !part.isEmpty)

/-- `content_hash`. -/
def contentHash (text : Text) : Text := host.sha256 (strip text)

/-- `target_layer`. -/
def targetLayer (text : Text) : Layer :=
  if hasMarker host l3Markers text then .l3
  else if hasMarker host l2Markers text then .l2
  else if hasMarker host l1Markers text then .l1
  else .reportOnly

/-- `score_candidate`. -/
def scoreCandidate (text : Text) (sourceCount : Nat) (sourceKinds : List Text) : Int :=
  min 95 (max 0 (50 + (if 2 ≤ sourceCount then 10 else 0) +
    (if hasMarker host [txt "decision", txt "root cause", txt "validated"] text then 10 else 0) +
    (if handoffs ∈ sourceKinds ∧ ledgers ∈ sourceKinds then 10 else 0) +
    (if (codexMemories ∈ sourceKinds ∨ localNotes ∈ sourceKinds) ∧
      (handoffs ∈ sourceKinds ∨ ledgers ∈ sourceKinds) then 5 else 0) -
    (if 220 < text.length then 20 else 0) -
    (if (words text).length < 5 ∨ hasMarker host [txt "thing", txt "stuff", txt "todo"] text then 20
      else 0)))

/-! ## Candidates -/

/-- The digest of the normal form of a line. -/
def lineHash (line : Text) : Text := contentHash host (normalizeCandidate host line)

/-- The lines of a source that have a normal form. -/
def groupedLines (source : SourceItem) : List Text :=
  (candidateLines host source.text).filter fun line => !(normalizeCandidate host line).isEmpty

/-- A candidate as its first line makes it. -/
def newCandidate (layerText : Text) (source : SourceItem) (line : Text) : Candidate where
  targetLayer := targetLayer host line
  classification := source.classification
  text := line
  sourcePaths := []
  sourceGroups := []
  confidence := 50
  hash := lineHash host line
  duplicateExisting := contains (normalizeCandidate host line) (normalizeCandidate host layerText)
  duplicateCount := 1

/-- `if t not in ts: ts.append(t)`. -/
def appendNew (ts : List Text) (t : Text) : List Text := if t ∈ ts then ts else ts ++ [t]

/-- What a line of a source adds to its candidate. -/
def addSource (c : Candidate) (source : SourceItem) : Candidate :=
  { c with
    sourcePaths := appendNew c.sourcePaths source.relativePath
    sourceGroups := appendNew c.sourceGroups (sourceGroup source.relativePath)
    classification := if source.classification = .yellow then .yellow else c.classification }

/-- `finalize_candidates`, for one of them. -/
def finalize (c : Candidate) : Candidate :=
  { c with
    duplicateCount := c.sourcePaths.length
    sourceGroups := c.sourceGroups.mergeSort fun a b => !textLt b a
    confidence := scoreCandidate host c.text c.sourcePaths.length c.sourceGroups }

/-- The order of the candidates in a report. -/
def before (a b : Candidate) : Bool :=
  b.confidence < a.confidence || (a.confidence == b.confidence &&
    (textLt a.targetLayer.name b.targetLayer.name || (a.targetLayer == b.targetLayer &&
      !textLt (host.lower b.text) (host.lower a.text))))

/-- The lines of the sources, each with its source. -/
def sourceLines (sources : List SourceItem) : List (SourceItem × Text) :=
  sources.flatMap fun source => (groupedLines host source).map fun line => (source, line)

/-- `extract_candidates`, over the texts of the three layers. -/
def extractCandidates (layers : List Text) (sources : List SourceItem) : List Candidate × Nat :=
  let grouped := groups (fun p => lineHash host p.2)
    (fun p => newCandidate host (joinLines layers) p.1 p.2) (fun c p => addSource c p.1)
    (sourceLines host sources)
  let candidates := grouped.map fun g => finalize host g.2
  (candidates.mergeSort (before host),
    (candidates.filter fun c => 1 < c.duplicateCount || c.duplicateExisting).length)

/-! ## Scores -/

/-- What the sources add to a score. -/
def sourceScore (sourceCount : Nat) (sourceKinds : List Text) : Int :=
  50 + (if 2 ≤ sourceCount then 10 else 0) +
    (if handoffs ∈ sourceKinds ∧ ledgers ∈ sourceKinds then 10 else 0) +
    (if (codexMemories ∈ sourceKinds ∨ localNotes ∈ sourceKinds) ∧
      (handoffs ∈ sourceKinds ∨ ledgers ∈ sourceKinds) then 5 else 0)

/-- What the text of a candidate adds to its score. -/
def textScore (text : Text) : Int :=
  (if hasMarker host [txt "decision", txt "root cause", txt "validated"] text then 10 else 0) -
    (if 220 < text.length then 20 else 0) -
    (if (words text).length < 5 ∨ hasMarker host [txt "thing", txt "stuff", txt "todo"] text then 20
      else 0)

/-- The bounds of a score are never reached. -/
theorem scoreCandidate_eq (text : Text) (sourceCount : Nat) (sourceKinds : List Text) :
    scoreCandidate host text sourceCount sourceKinds =
      sourceScore sourceCount sourceKinds + textScore host text := by
  rw [scoreCandidate, sourceScore, textScore]
  split <;> split <;> split <;> split <;> split <;> split <;> rfl

theorem sourceScore_congr {n : Nat} {kinds kinds' : List Text} (h : ∀ g, g ∈ kinds ↔ g ∈ kinds') :
    sourceScore n kinds = sourceScore n kinds' := by
  simp only [sourceScore, h]

/-! ## What a candidate holds -/

/-- What of a candidate is taken from its first line. -/
def lineView (layers : List Text) (line : Text) : Layer × Int × Bool :=
  (targetLayer host line, textScore host line,
    contains (normalizeCandidate host line) (normalizeCandidate host (joinLines layers)))

variable {host} {layers : List Text}

/-- A candidate with its first line, and what it has gathered from its lines. -/
structure Gathered (host : Host) (layers : List Text) (line : Text)
    (ps : List (SourceItem × Text)) (c : Candidate) : Prop where
  text : c.text = line
  hash : c.hash = lineHash host line
  layer : c.targetLayer = targetLayer host line
  existing : c.duplicateExisting =
    contains (normalizeCandidate host line) (normalizeCandidate host (joinLines layers))
  nodup : c.sourcePaths.Nodup
  paths : ∀ q, q ∈ c.sourcePaths ↔ ∃ p ∈ ps, p.1.relativePath = q
  groups : ∀ g, g ∈ c.sourceGroups ↔ ∃ p ∈ ps, sourceGroup p.1.relativePath = g
  yellow : c.classification = .yellow ↔ ∃ p ∈ ps, p.1.classification = .yellow

theorem mem_appendNew {ts : List Text} {t u : Text} : u ∈ appendNew ts t ↔ u ∈ ts ∨ t = u := by
  rw [appendNew]
  split
  · next h =>
    constructor
    · exact .inl
    · rintro (hu | rfl)
      · exact hu
      · exact h
  · rw [List.mem_append, List.mem_singleton, eq_comm]

theorem nodup_appendNew {ts : List Text} (h : ts.Nodup) (t : Text) : (appendNew ts t).Nodup := by
  rw [appendNew]
  split
  · exact h
  · next ht =>
    rw [List.nodup_append]
    exact ⟨h, List.nodup_singleton t, by
      intro u hu v hv heq
      rw [List.mem_singleton.mp hv] at heq
      exact ht (heq ▸ hu)⟩

theorem Gathered.add {line : Text} {ps : List (SourceItem × Text)} {c : Candidate}
    (h : Gathered host layers line ps c) (p : SourceItem × Text) :
    Gathered host layers line (ps ++ [p]) (addSource c p.1) := by
  refine ⟨h.text, h.hash, h.layer, h.existing, nodup_appendNew h.nodup _, ?_, ?_, ?_⟩
  · intro q
    show q ∈ appendNew c.sourcePaths _ ↔ _
    rw [mem_appendNew, h.paths]
    simp [or_and_right, exists_or]
  · intro g
    show g ∈ appendNew c.sourceGroups _ ↔ _
    rw [mem_appendNew, h.groups]
    simp [or_and_right, exists_or]
  · show (if p.1.classification = .yellow then Classification.yellow else c.classification) =
      .yellow ↔ _
    have hmore : (∃ x ∈ ps ++ [p], x.1.classification = .yellow) ↔
        (∃ x ∈ ps, x.1.classification = .yellow) ∨ p.1.classification = .yellow := by
      simp [or_and_right, exists_or]
    rw [hmore, ← h.yellow]
    split
    · next hp => simp [hp]
    · next hp => simp [hp]

theorem gathered_first (p : SourceItem × Text) : Gathered host layers p.2 [p]
    (addSource (newCandidate host (joinLines layers) p.1 p.2) p.1) := by
  refine ⟨rfl, rfl, rfl, rfl, nodup_appendNew List.nodup_nil _, ?_, ?_, ?_⟩
  · intro q
    show q ∈ appendNew [] _ ↔ _
    rw [mem_appendNew]
    simp
  · intro g
    show g ∈ appendNew [] _ ↔ _
    rw [mem_appendNew]
    simp
  · show (if p.1.classification = .yellow then Classification.yellow else p.1.classification) =
      .yellow ↔ _
    simp

/-- The group of some lines: the first of them makes it, and all are gathered. -/
theorem gathered_content {ps : List (SourceItem × Text)} {c : Candidate}
    (h : content (fun p => newCandidate host (joinLines layers) p.1 p.2)
      (fun c p => addSource c p.1) ps = some c) :
    ∃ p rest, ps = p :: rest ∧ Gathered host layers p.2 ps c := by
  cases ps with
  | nil => cases h
  | cons p rest =>
      rw [content, Option.some.injEq] at h
      refine ⟨p, rest, rfl, ?_⟩
      rw [← h]
      have hfold : ∀ (rest done : List (SourceItem × Text)) (c : Candidate),
          Gathered host layers p.2 done c →
          Gathered host layers p.2 (done ++ rest) (rest.foldl (fun c p => addSource c p.1) c) := by
        intro rest
        induction rest with
        | nil =>
            intro done c hc
            rw [List.append_nil]
            exact hc
        | cons q rest ih =>
            intro done c hc
            have hnext := ih (done ++ [q]) _ (hc.add q)
            rwa [List.append_assoc] at hnext
      exact hfold rest [p] _ (gathered_first p)

/-! ## The same candidate -/

/-- Two candidates of one normal form with the same layer, classification,
score, sources and flags. -/
structure Same (c d : Candidate) : Prop where
  hash : c.hash = d.hash
  layer : c.targetLayer = d.targetLayer
  classification : c.classification = d.classification
  confidence : c.confidence = d.confidence
  paths : ∀ q, q ∈ c.sourcePaths ↔ q ∈ d.sourcePaths
  groups : ∀ g, g ∈ c.sourceGroups ↔ g ∈ d.sourceGroups
  existing : c.duplicateExisting = d.duplicateExisting
  count : c.duplicateCount = d.duplicateCount

theorem Same.symm {c d : Candidate} (h : Same c d) : Same d c :=
  ⟨h.hash.symm, h.layer.symm, h.classification.symm, h.confidence.symm, fun q => (h.paths q).symm,
    fun g => (h.groups g).symm, h.existing.symm, h.count.symm⟩

theorem Same.trans {c d e : Candidate} (h : Same c d) (h' : Same d e) : Same c e :=
  ⟨h.hash.trans h'.hash, h.layer.trans h'.layer, h.classification.trans h'.classification,
    h.confidence.trans h'.confidence, fun q => (h.paths q).trans (h'.paths q),
    fun g => (h.groups g).trans (h'.groups g), h.existing.trans h'.existing,
    h.count.trans h'.count⟩

theorem mem_finalize_groups {c : Candidate} {g : Text} :
    g ∈ (finalize host c).sourceGroups ↔ g ∈ c.sourceGroups := by
  rw [finalize]
  exact List.mem_mergeSort

/-- The classification is settled by whether a source is yellow. -/
theorem classification_congr {a b : Classification} (h : a = .yellow ↔ b = .yellow) : a = b := by
  cases a <;> cases b <;> simp_all

/-- Candidates that have gathered the same lines are the same if and only if
their first lines give the same. -/
theorem same_finalize_iff {l l' : Text} {ps ps' : List (SourceItem × Text)} {c d : Candidate}
    (hc : Gathered host layers l ps c) (hd : Gathered host layers l' ps' d)
    (hperm : ∀ p, p ∈ ps ↔ p ∈ ps') (hhash : lineHash host l = lineHash host l') :
    Same (finalize host c) (finalize host d) ↔ lineView host layers l = lineView host layers l' := by
  have hpaths : ∀ q, q ∈ c.sourcePaths ↔ q ∈ d.sourcePaths := by
    intro q
    rw [hc.paths, hd.paths]
    simp only [hperm]
  have hgroups : ∀ g, g ∈ c.sourceGroups ↔ g ∈ d.sourceGroups := by
    intro g
    rw [hc.groups, hd.groups]
    simp only [hperm]
  have hcount : c.sourcePaths.length = d.sourcePaths.length :=
    ((List.perm_ext_iff_of_nodup hc.nodup hd.nodup).mpr hpaths).length_eq
  have hclass : c.classification = d.classification := by
    apply classification_congr
    rw [hc.yellow, hd.yellow]
    simp only [hperm]
  have hscore : scoreCandidate host c.text c.sourcePaths.length c.sourceGroups =
      scoreCandidate host d.text d.sourcePaths.length d.sourceGroups ↔
        textScore host l = textScore host l' := by
    rw [scoreCandidate_eq, scoreCandidate_eq, hcount, sourceScore_congr hgroups, hc.text, hd.text]
    omega
  rw [lineView, lineView, Prod.mk.injEq, Prod.mk.injEq]
  constructor
  · intro h
    refine ⟨?_, hscore.mp h.confidence, ?_⟩
    · rw [← hc.layer, ← hd.layer]
      exact h.layer
    · rw [← hc.existing, ← hd.existing]
      exact h.existing
  · intro ⟨hlayer, htext, hexisting⟩
    refine ⟨?_, ?_, hclass, hscore.mpr htext, hpaths, ?_, ?_, hcount⟩
    · show c.hash = d.hash
      rw [hc.hash, hd.hash, hhash]
    · show c.targetLayer = d.targetLayer
      rw [hc.layer, hd.layer, hlayer]
    · intro g
      rw [mem_finalize_groups, mem_finalize_groups, hgroups]
    · show c.duplicateExisting = d.duplicateExisting
      rw [hc.existing, hd.existing, hexisting]

/-! ## The candidates of the sources -/

/-- The lines of the sources with the normal form of a digest. -/
def linesOf (host : Host) (digest : Text) (sources : List SourceItem) : List (SourceItem × Text) :=
  (sourceLines host sources).filter fun p => lineHash host p.2 = digest

/-- The first line of a source with the normal form of a digest. -/
def firstLine (host : Host) (digest : Text) (source : SourceItem) : Option Text :=
  (groupedLines host source).find? fun line => lineHash host line = digest

theorem mem_extract {sources : List SourceItem} {c : Candidate} :
    c ∈ (extractCandidates host layers sources).1 ↔ ∃ digest b,
      content (fun p => newCandidate host (joinLines layers) p.1 p.2)
        (fun c p => addSource c p.1) (linesOf host digest sources) = some b ∧
      finalize host b = c := by
  have hholds : Holds (fun p : SourceItem × Text => lineHash host p.2)
      (fun p => newCandidate host (joinLines layers) p.1 p.2) (fun c p => addSource c p.1) _
      (sourceLines host sources) := holds_groups _
  rw [extractCandidates, List.mem_mergeSort, List.mem_map]
  constructor
  · intro ⟨g, hg, hc⟩
    exact ⟨g.1, g.2, (hholds.mem_iff g.1 g.2).mp hg, hc⟩
  · intro ⟨digest, b, hb, hc⟩
    exact ⟨(digest, b), (hholds.mem_iff digest b).mpr hb, hc⟩

theorem linesOf_cons (digest : Text) (source : SourceItem) (sources : List SourceItem) :
    linesOf host digest (source :: sources) =
      ((groupedLines host source).filter fun line => lineHash host line = digest).map
        (fun line => (source, line)) ++ linesOf host digest sources := by
  rw [linesOf, sourceLines, List.flatMap_cons, List.filter_append, List.filter_map]
  rfl

/-- The first of the lines of a digest is the first such line of a source. -/
theorem linesOf_head {digest : Text} {sources : List SourceItem} {p : SourceItem × Text}
    {rest : List (SourceItem × Text)} (h : linesOf host digest sources = p :: rest) :
    p.1 ∈ sources ∧ firstLine host digest p.1 = some p.2 := by
  induction sources with
  | nil => cases h
  | cons source sources ih =>
      rw [linesOf_cons] at h
      cases hlines : (groupedLines host source).filter fun line => lineHash host line = digest with
      | nil =>
          rw [hlines] at h
          obtain ⟨hmem, hfirst⟩ := ih h
          exact ⟨List.mem_cons_of_mem _ hmem, hfirst⟩
      | cons line lines =>
          rw [hlines] at h
          obtain ⟨rfl, -⟩ := List.cons.inj h
          refine ⟨List.mem_cons_self, ?_⟩
          rw [firstLine, ← List.head?_filter, hlines]
          rfl

theorem linesOf_first {digest line : Text} {source : SourceItem} {sources : List SourceItem}
    (h : firstLine host digest source = some line) :
    ∃ rest, linesOf host digest (source :: sources) = (source, line) :: rest := by
  rw [firstLine, ← List.head?_filter] at h
  obtain ⟨lines, hlines⟩ := List.head?_eq_some_iff.mp h
  rw [linesOf_cons, hlines]
  exact ⟨_, rfl⟩

theorem lineHash_of_linesOf {digest : Text} {sources : List SourceItem} {p : SourceItem × Text}
    (h : p ∈ linesOf host digest sources) : lineHash host p.2 = digest := by
  rw [linesOf, List.mem_filter, decide_eq_true_iff] at h
  exact h.2

theorem lineHash_of_firstLine {digest line : Text} {source : SourceItem}
    (h : firstLine host digest source = some line) : lineHash host line = digest := by
  have hfound := List.find?_some h
  exact of_decide_eq_true hfound

theorem mem_linesOf_perm {digest : Text} {sources sources' : List SourceItem}
    (h : sources.Perm sources') (p : SourceItem × Text) :
    p ∈ linesOf host digest sources ↔ p ∈ linesOf host digest sources' :=
  ((h.flatMap_right _).filter _).mem_iff

/-- The candidates of one list are those of the other. -/
def SameCandidates (cs ds : List Candidate) : Prop :=
  (∀ c ∈ cs, ∃ d ∈ ds, Same c d) ∧ ∀ d ∈ ds, ∃ c ∈ cs, Same c d

/-- The candidates do not depend on the order of the sources. -/
def OrderFree (host : Host) (layers : List Text) (sources : List SourceItem) : Prop :=
  ∀ sources', sources.Perm sources' → SameCandidates (extractCandidates host layers sources).1
    (extractCandidates host layers sources').1

/-- The first lines that two sources have for one digest give the same. -/
def FirstLinesAgree (host : Host) (layers : List Text) (sources : List SourceItem) : Prop :=
  ∀ a ∈ sources, ∀ b ∈ sources, ∀ digest l l', firstLine host digest a = some l →
    firstLine host digest b = some l' → lineView host layers l = lineView host layers l'

theorem FirstLinesAgree.same {sources sources' : List SourceItem}
    (h : FirstLinesAgree host layers sources) (hperm : sources.Perm sources') :
    ∀ c ∈ (extractCandidates host layers sources).1,
      ∃ d ∈ (extractCandidates host layers sources').1, Same c d := by
  intro c hc
  obtain ⟨digest, b, hb, rfl⟩ := mem_extract.mp hc
  obtain ⟨p, rest, hlines, hgathered⟩ := gathered_content hb
  have hsome : p ∈ linesOf host digest sources' :=
    (mem_linesOf_perm hperm p).mp (by rw [hlines]; exact List.mem_cons_self)
  obtain ⟨p', rest', hlines'⟩ := List.exists_cons_of_ne_nil (List.ne_nil_of_mem hsome)
  obtain ⟨b', hb'⟩ : ∃ b', content (fun p => newCandidate host (joinLines layers) p.1 p.2)
      (fun c p => addSource c p.1) (linesOf host digest sources') = some b' := by
    rw [hlines']
    exact ⟨_, rfl⟩
  obtain ⟨q, rest'', hq, hgathered'⟩ := gathered_content hb'
  obtain ⟨hp, hfirst⟩ := linesOf_head hlines
  obtain ⟨hq', hfirst'⟩ := linesOf_head hq
  have hhash : lineHash host p.2 = lineHash host q.2 := by
    rw [lineHash_of_linesOf (by rw [hlines]; exact List.mem_cons_self),
      lineHash_of_linesOf (by rw [hq]; exact List.mem_cons_self)]
  have hview := h p.1 hp q.1 (hperm.mem_iff.mpr hq') digest _ _ hfirst hfirst'
  exact ⟨_, mem_extract.mpr ⟨digest, b', hb', rfl⟩,
    (same_finalize_iff hgathered hgathered' (mem_linesOf_perm hperm) hhash).mpr hview⟩

/-- With a source in front, its first line makes the candidate of a digest. -/
theorem extract_front {digest line : Text} {source : SourceItem}
    (h : firstLine host digest source = some line) (sources : List SourceItem) :
    ∃ b, Gathered host layers line (linesOf host digest (source :: sources)) b ∧
      finalize host b ∈ (extractCandidates host layers (source :: sources)).1 := by
  obtain ⟨rest, hrest⟩ := linesOf_first h
  obtain ⟨b, hb⟩ : ∃ b, content (fun p => newCandidate host (joinLines layers) p.1 p.2)
      (fun c p => addSource c p.1) (linesOf host digest (source :: sources)) = some b := by
    rw [hrest]
    exact ⟨_, rfl⟩
  obtain ⟨p, rest', hp, hgathered⟩ := gathered_content hb
  rw [hrest] at hp
  obtain ⟨rfl, -⟩ := List.cons.inj hp
  exact ⟨b, hgathered, mem_extract.mpr ⟨digest, b, hb, rfl⟩⟩

/-- A digest has one candidate. -/
theorem extract_unique {sources : List SourceItem} {c d : Candidate}
    (hc : c ∈ (extractCandidates host layers sources).1)
    (hd : d ∈ (extractCandidates host layers sources).1) (h : c.hash = d.hash) : c = d := by
  have hhash : ∀ {digest : Text} {b : Candidate},
      content (fun p => newCandidate host (joinLines layers) p.1 p.2)
        (fun c p => addSource c p.1) (linesOf host digest sources) = some b → b.hash = digest := by
    intro digest b hb
    obtain ⟨p, rest, hlines, hgathered⟩ := gathered_content hb
    rw [hgathered.hash]
    exact lineHash_of_linesOf (by rw [hlines]; exact List.mem_cons_self)
  obtain ⟨digest, b, hb, rfl⟩ := mem_extract.mp hc
  obtain ⟨digest', b', hb', rfl⟩ := mem_extract.mp hd
  have hdigest : b.hash = b'.hash := h
  rw [hhash hb, hhash hb'] at hdigest
  subst hdigest
  rw [hb, Option.some.injEq] at hb'
  rw [hb']

/-- **The candidates do not depend on the order of the sources** if and only if
the first lines that the sources have for one normal form agree on the layer,
on what they add to the score, and on whether a layer has them. -/
theorem orderFree_iff (host : Host) (layers : List Text) (sources : List SourceItem) :
    OrderFree host layers sources ↔ FirstLinesAgree host layers sources := by
  constructor
  · intro h a ha b hb digest l l' hl hl'
    obtain ⟨front, back, rfl⟩ := List.append_of_mem ha
    have hperm : (front ++ a :: back).Perm (a :: (front ++ back)) := List.perm_middle
    obtain ⟨c, hc, hmem⟩ := @extract_front host layers _ _ _ hl (front ++ back)
    obtain ⟨front', back', hsplit⟩ := List.append_of_mem hb
    have hperm' : (front ++ a :: back).Perm (b :: (front' ++ back')) := by
      rw [hsplit]
      exact List.perm_middle
    obtain ⟨d, hd, hmem'⟩ := @extract_front host layers _ _ _ hl' (front' ++ back')
    -- both are the one candidate of the digest
    obtain ⟨e, he, hec⟩ := (h _ hperm).2 _ hmem
    obtain ⟨e', he', hed⟩ := (h _ hperm').2 _ hmem'
    have hhash : lineHash host l = lineHash host l' := by
      rw [lineHash_of_firstLine hl, lineHash_of_firstLine hl']
    have hsame : e = e' := by
      refine extract_unique he he' (hec.hash.trans (Eq.trans ?_ hed.hash.symm))
      show c.hash = d.hash
      rw [hc.hash, hd.hash, hhash]
    subst hsame
    exact (same_finalize_iff hc hd (mem_linesOf_perm (hperm.symm.trans hperm')) hhash).mp
      (hec.symm.trans hed)
  · intro h sources' hperm
    have h' : FirstLinesAgree host layers sources' := fun a ha b hb =>
      h a (hperm.mem_iff.mpr ha) b (hperm.mem_iff.mpr hb)
    refine ⟨h.same hperm, fun d hd => ?_⟩
    obtain ⟨c, hc, hsame⟩ := h'.same hperm.symm d hd
    exact ⟨c, hc, hsame.symm⟩

end Extract

/-! ## A rule with and without its punctuation -/

def unitRule : SourceItem where
  relativePath := txt "handoffs/latest.md"
  text := txt "- Always run tests/unit before a commit."
  classification := .green

def spacedRule : SourceItem where
  relativePath := txt "ledgers/learning.md"
  text := txt "Always run tests unit before a commit"
  classification := .green

/-- The layer of the rule is that of the file read first. -/
theorem candidates_depend_on_order :
    ¬∀ host layers sources, OrderFree host layers sources := by
  intro h
  let host := Host.ascii id
  have hperm : [unitRule, spacedRule].Perm [spacedRule, unitRule] := List.Perm.swap _ _ _
  obtain ⟨hsame, -⟩ := h host [] [unitRule, spacedRule] _ hperm
  have hfirst : (extractCandidates host [] [unitRule, spacedRule]).1.map Candidate.targetLayer =
      [.l2] := by decide +kernel
  have hsecond : (extractCandidates host [] [spacedRule, unitRule]).1.map Candidate.targetLayer =
      [.l1] := by decide +kernel
  obtain ⟨c, hc⟩ := List.length_eq_one_iff.mp (by simpa using congrArg List.length hfirst)
  obtain ⟨d, hd, hcd⟩ := hsame c (by rw [hc]; exact List.mem_singleton_self c)
  have hlayer : d.targetLayer ∈ [Layer.l1] := by
    rw [← hsecond]
    exact List.mem_map_of_mem hd
  rw [hc, List.map_singleton, List.cons.injEq] at hfirst
  rw [List.mem_singleton, ← hcd.layer, hfirst.1] at hlayer
  cases hlayer

end RalphVault.Dream
