import RalphVault.Memory.Value
import RalphVault.Security.Quiet

/-!
# Memory tree — nodes

`scripts/memory/memory_node.py`: the record of a memory node, the detector
for RED material and the checks a node passes before it is stored. The
members have the types the source declares; what is no such record is no
node.
-/

namespace RalphVault.Memory

open Regex

/-! ## Errors -/

inductive MemoryFault where
  | validation (message : String)
  | tree (message : String)
  | path (message : String)
  | other (message : String)

abbrev Memo := Except MemoryFault

def require (b : Bool) (e : MemoryFault) : Memo Unit := if b then .ok () else .error e

@[simp] theorem require_ok {b : Bool} {e : MemoryFault} {u : Unit} :
    require b e = .ok u ↔ b = true := by
  unfold require
  split <;> simp_all

theorem bind_ok {x : Memo β} {f : β → Memo γ} {c : γ} :
    (x >>= f) = .ok c ↔ ∃ b, x = .ok b ∧ f b = .ok c := by
  cases x with
  | error e => simp [bind, Except.bind]
  | ok b => simp [bind, Except.bind]

/-! ## RED material -/

section Red

variable (host : Host)

/-- `_red_terms`, as the alternatives of a separator: `_` stands for
`[_-]?`. -/
def redTerms : List Text :=
  [txt "api_key", txt "token", txt "access_token", txt "refresh_token", txt "client_secret",
   txt "password", txt "credential", txt "private_key", txt "database_url", txt "wallet",
   txt "seed_phrase", txt "mnemonic"]

/-- `['"]` with the backtick. -/
def optTick : Regex Char := opt (Security.among ['\'', '"', '`'])

/-- A term, under `(?i)`. -/
def termPattern (term : Text) : Regex Char :=
  seq (((splitOn '_' term).map Security.litCI).intersperse Security.optSep)

/-- `[A-Za-z0-9_]` under `(?i)`. -/
def isLabelChar (c : Char) : Bool := isAsciiLower (foldCase c) || isAsciiDigit c || c == '_'

/-- A label in front of a colon or an equals sign. -/
def labelPattern (term : Text) : Regex Char :=
  seq [look fun l _ => !(l.any isLabelChar), optTick, termPattern term, optTick,
    star true Security.space, Security.among [':', '=']]

def bearerPattern : Regex Char :=
  seq [Security.boundary host.unicode, Security.litCI (txt "bearer"),
    Security.boundary host.unicode, star true Security.space, opt (Security.among [':', '=']),
    star true Security.space,
    atLeast 16 (chr fun c => Security.alnumCI c || c == '_' || c == '.' || c == '-')]

/-- `contains_red_material` on a text. -/
def redText (t : Text) : Bool :=
  contains (txt ".env") (host.lower t) ||
    redTerms.any (fun term => test (labelPattern term) t) ||
    test (Security.jwtPattern host.unicode) t || test (bearerPattern host) t

/-- `contains_red_material`. -/
def containsRed : Value → Bool
  | .null => redText host []
  | v => redText host (pyStr host v)

/-- Parts of the texts the patterns match, in lower case. -/
def redFragments : List Text :=
  [txt "api", txt "token", txt "access", txt "refresh", txt "client", txt "password",
   txt "credential", txt "private", txt "database", txt "wallet", txt "seed", txt "mnemonic",
   txt "eyj", txt "bearer"]

theorem label_forces : ∀ term ∈ redTerms,
    Forces (labelPattern term) (Security.HasFragment redFragments) := by
  intro term hmem
  have hfirst : ∀ term ∈ redTerms, ∃ w ws, splitOn '_' term = w :: ws ∧
      Security.withFragment redFragments w = true := by
    simp only [redTerms, List.forall_mem_cons]
    refine ⟨⟨_, _, rfl, by decide⟩, ⟨_, _, rfl, by decide⟩, ⟨_, _, rfl, by decide⟩,
      ⟨_, _, rfl, by decide⟩, ⟨_, _, rfl, by decide⟩, ⟨_, _, rfl, by decide⟩,
      ⟨_, _, rfl, by decide⟩, ⟨_, _, rfl, by decide⟩, ⟨_, _, rfl, by decide⟩,
      ⟨_, _, rfl, by decide⟩, ⟨_, _, rfl, by decide⟩, ⟨_, _, rfl, by decide⟩, by simp⟩
  obtain ⟨w, ws, hsplit, hfragment⟩ := hfirst term hmem
  have hlit : Security.litCI w ∈
      ((splitOn '_' term).map Security.litCI).intersperse Security.optSep := by
    rw [hsplit]
    cases ws <;> simp
  unfold labelPattern
  apply Security.seq_forces (termPattern term)
  · simp
  · exact Security.seq_forces _ hlit (Security.litCI_forces hfragment)

/-- A text without the fragments is not RED. -/
theorem redText_of_quiet {t : Text} (henv : contains (txt ".env") (host.lower t) = false)
    (hquiet : Security.withFragment redFragments (t.map foldCase) = false) :
    redText host t = false := by
  have hnone : ∀ r : Regex Char, Forces r (Security.HasFragment redFragments) →
      test r t = false := by
    intro r hr
    by_contra htest
    rw [Bool.not_eq_false] at htest
    have hfound := (hr.of_test (Security.hasFragment_upward _) htest).with
    rw [hquiet] at hfound
    cases hfound
  have hlabels : redTerms.any (fun term => test (labelPattern term) t) = false :=
    List.any_eq_false.mpr fun term hterm => by simp [hnone _ (label_forces term hterm)]
  have hjwt : Forces (Security.jwtPattern host.unicode) (Security.HasFragment redFragments) :=
    Security.seq_forces (Security.lit (txt "eyJ")) (by simp) (Security.lit_forces (by decide))
  have hbearer : Forces (bearerPattern host) (Security.HasFragment redFragments) :=
    Security.seq_forces (Security.litCI (txt "bearer")) (by simp)
      (Security.litCI_forces (by decide))
  rw [redText, henv, hlabels, hnone _ hjwt, hnone _ hbearer]
  rfl

end Red

/-! ## Nodes -/

/-- `MemoryNode`. -/
structure MemoryNode where
  schemaVersion : Text
  nodeId : Text
  projectId : Text
  workspaceInstanceId : Text
  repoRemoteHash : Text
  branch : Text
  commit : Text
  sessionId : Text
  memoryType : Text
  sensitivity : Text
  authority : Text
  summary : Text
  createdOnBranch : Text
  visibility : Text
  promotionStatus : Text
  promotionEvidence : Fields
  detailedSummary : Text
  trigger : Fields
  topicTags : List Text
  entities : List Text
  sourcePaths : List Text
  sourceDescription : Text
  rawRef : Option Fields
  links : List Fields
  salience : Fields
  quality : Fields
  createdAt : Text
  updatedAt : Text
  compactionReason : Text

def rawRefValue : Option Fields → Value
  | none => .null
  | some d => .obj d

/-- The object in the file of a node, its members in key order. -/
def MemoryNode.toFields (n : MemoryNode) : Fields :=
  [(txt "authority", .str n.authority),
   (txt "branch", .str n.branch),
   (txt "commit", .str n.commit),
   (txt "compaction_reason", .str n.compactionReason),
   (txt "created_at", .str n.createdAt),
   (txt "created_on_branch", .str n.createdOnBranch),
   (txt "detailed_summary", .str n.detailedSummary),
   (txt "entities", textsValue n.entities),
   (txt "links", objectsValue n.links),
   (txt "memory_type", .str n.memoryType),
   (txt "node_id", .str n.nodeId),
   (txt "project_id", .str n.projectId),
   (txt "promotion_evidence", .obj n.promotionEvidence),
   (txt "promotion_status", .str n.promotionStatus),
   (txt "quality", .obj n.quality),
   (txt "raw_ref", rawRefValue n.rawRef),
   (txt "repo_remote_hash", .str n.repoRemoteHash),
   (txt "salience", .obj n.salience),
   (txt "schema_version", .str n.schemaVersion),
   (txt "sensitivity", .str n.sensitivity),
   (txt "session_id", .str n.sessionId),
   (txt "source_description", .str n.sourceDescription),
   (txt "source_paths", textsValue n.sourcePaths),
   (txt "summary", .str n.summary),
   (txt "topic_tags", textsValue n.topicTags),
   (txt "trigger", .obj n.trigger),
   (txt "updated_at", .str n.updatedAt),
   (txt "visibility", .str n.visibility),
   (txt "workspace_instance_id", .str n.workspaceInstanceId)]

/-! ## The record of an object -/

section FromDict

variable (host : Host)

/-- A member that is a text; null is the empty text. -/
def textMember (d : Fields) (k default : Text) : Option Text :=
  match d.get? k with
  | none => some default
  | some .null => some []
  | some v => asText v

def memberOf (read : Value → Option β) (d : Fields) (k : Text) (default : β) : Option β :=
  match d.get? k with
  | none => some default
  | some v => read v

def asRawRef : Value → Option (Option Fields)
  | .null => some none
  | .obj d => some (some d)
  | _ => none

/-- `deterministic_node_id`. -/
def deterministicNodeId (d : Fields) : Text :=
  txt "node_" ++ (host.sha256 (host.canonicalJson
    [(txt "project_id", d.getD (txt "project_id") (.str [])),
     (txt "memory_type", d.getD (txt "memory_type") (.str [])),
     (txt "summary", d.getD (txt "summary") (.str [])),
     (txt "source_paths", d.getD (txt "source_paths") (.arr [])),
     (txt "source_description", d.getD (txt "source_description") (.str []))])).take 32

def schemaVersion : Text := txt "ralph_memory_node_v2"

/-- `from_dict` before its checks. A record without a time of creation gets
the time of reading, which is left out. -/
def fromDict (d : Fields) : Option MemoryNode := do
  let branch ← textMember d (txt "branch") []
  let createdAt ← textMember d (txt "created_at") []
  pure {
    schemaVersion := ← textMember d (txt "schema_version") schemaVersion
    nodeId := ← textMember d (txt "node_id") (deterministicNodeId host d)
    projectId := ← textMember d (txt "project_id") []
    workspaceInstanceId := ← textMember d (txt "workspace_instance_id") []
    repoRemoteHash := ← textMember d (txt "repo_remote_hash") []
    branch := branch
    commit := ← textMember d (txt "commit") []
    sessionId := ← textMember d (txt "session_id") []
    memoryType := ← textMember d (txt "memory_type") []
    sensitivity := ← textMember d (txt "sensitivity") []
    authority := ← textMember d (txt "authority") []
    summary := ← textMember d (txt "summary") []
    createdOnBranch := ← textMember d (txt "created_on_branch") branch
    visibility := ← textMember d (txt "visibility") (txt "branch_local")
    promotionStatus := ← textMember d (txt "promotion_status") (txt "not_promoted")
    promotionEvidence := ← memberOf asObject d (txt "promotion_evidence") []
    detailedSummary := ← textMember d (txt "detailed_summary") []
    trigger := ← memberOf asObject d (txt "trigger") []
    topicTags := ← memberOf asTexts d (txt "topic_tags") []
    entities := ← memberOf asTexts d (txt "entities") []
    sourcePaths := ← memberOf asTexts d (txt "source_paths") []
    sourceDescription := ← textMember d (txt "source_description") []
    rawRef := ← memberOf asRawRef d (txt "raw_ref") none
    links := ← memberOf asObjects d (txt "links") []
    salience := ← memberOf asObject d (txt "salience") []
    quality := ← memberOf asObject d (txt "quality") []
    createdAt := createdAt
    updatedAt := ← textMember d (txt "updated_at") createdAt
    compactionReason := ← textMember d (txt "compaction_reason") [] }

/-- The file of a node gives the node back. -/
theorem fromDict_toFields (n : MemoryNode) : fromDict host n.toFields = some n := by
  have hraw : asRawRef (rawRefValue n.rawRef) = some n.rawRef := by
    cases n.rawRef <;> rfl
  have hmember : ∀ {β : Type} {read : Value → Option β} {k v b}, n.toFields.get? k = some v →
      read v = some b → ∀ default, memberOf read n.toFields k default = some b := by
    intro β read k v b h hv default
    simp only [memberOf, h, hv]
  -- the other members are read back by computation
  simp only [fromDict,
    hmember (rfl : n.toFields.get? (txt "topic_tags") = some (textsValue n.topicTags))
      (asTexts_textsValue _),
    hmember (rfl : n.toFields.get? (txt "entities") = some (textsValue n.entities))
      (asTexts_textsValue _),
    hmember (rfl : n.toFields.get? (txt "source_paths") = some (textsValue n.sourcePaths))
      (asTexts_textsValue _),
    hmember (rfl : n.toFields.get? (txt "raw_ref") = some (rawRefValue n.rawRef)) hraw,
    hmember (rfl : n.toFields.get? (txt "links") = some (objectsValue n.links))
      (asObjects_objectsValue _)]
  rfl

end FromDict

/-! ## Checks -/

def visibilityValues : List Text :=
  [txt "branch_local", txt "merge_candidate", txt "main_promoted", txt "deprecated_on_merge",
   txt "conflict"]

def linkRelations : List Text :=
  [txt "supports", txt "contradicts", txt "updates", txt "supersedes", txt "same_topic",
   txt "depends_on"]

/-- `SAFE_ID_RE`. -/
def isSafeId (t : Text) : Bool :=
  match t with
  | [] => false
  | c :: rest => isAsciiAlnum c && rest.length ≤ 127 &&
      rest.all fun c => isAsciiAlnum c || c == '.' || c == '_' || c == '-'

/-- `safe_identifier`. -/
def safeIdentifier (t : Text) (label : String) : Memo Text := do
  let text := strip t
  require (!text.isEmpty) (.validation s!"{label} is required")
  require (!(startsWith ['/'] text || text.contains '\\' || text.contains '/' ||
      contains ['.', '.'] text))
    (.validation s!"{label} is not a safe path segment")
  require (isSafeId text) (.validation s!"{label} contains unsupported characters")
  pure text

def isSha256 (t : Text) : Bool :=
  t.length = 64 && t.all fun c => isAsciiDigit c || (97 ≤ c.toNat && c.toNat ≤ 102)

section Checks

variable (host : Host)

/-- `assert_not_red`. -/
def assertNotRed (v : Value) (label : String) : Memo Unit :=
  require (!containsRed host v) (.validation s!"{label} contains RED material")

/-- `_confidence`, as a check. -/
def checkConfidence (n : MemoryNode) : Memo Unit :=
  match n.quality.getD (txt "confidence") .null with
  | .null => .error (.validation "quality.confidence is required")
  | v => match asFloat host v with
      | none => .error (.validation "quality.confidence must be numeric")
      | some q => require (0 ≤ q && q ≤ 1)
          (.validation "quality.confidence must be between 0 and 1")

/-- `_validate_raw_ref`. -/
def validateRawRef : Option Fields → Memo Unit
  | none => .ok ()
  | some d => do
      require (!(isTrue (d.getD (txt "unsafe") .null) || isFalse (d.getD (txt "safe") .null)))
        (.validation "raw_ref is marked unsafe")
      match d.getD (txt "sha256") .null with
      | .null => .ok ()
      | v =>
          require (isSha256 (pyStr host v))
            (.validation "raw_ref.sha256 must be a sha256 hex digest")

/-- `_validate_string_list`. -/
def validateStringList (ts : List Text) (label : String) : Memo Unit :=
  ts.forM fun t => if (strip t).isEmpty then .ok () else assertNotRed host (.str (strip t)) label

/-- The target of a link, `item.get("target_node_id", item.get("node_id"))`. -/
def targetValue (link : Fields) : Value :=
  link.getD (txt "target_node_id") (link.getD (txt "node_id") .null)

/-- One entry of `_validate_links`. -/
def validateLink (link : Fields) : Memo Unit := do
  let relation := strip (pyStr host (link.getD (txt "relation") (.str [])))
  require (relation.isEmpty || linkRelations.contains relation)
    (.validation "links relation is invalid")
  if truthy (targetValue link) then do
    let _ ← safeIdentifier (pyStr host (targetValue link)) "links.node_id"
    assertNotRed host (.obj link) "links"
  else assertNotRed host (.obj link) "links"

/-- The members `validate_node` scans for RED material, in its order. -/
def scannedFields (n : MemoryNode) : List (String × Value) :=
  [("summary", .str n.summary), ("detailed_summary", .str n.detailedSummary),
   ("created_on_branch", .str n.createdOnBranch), ("visibility", .str n.visibility),
   ("promotion_status", .str n.promotionStatus), ("promotion_evidence", .obj n.promotionEvidence),
   ("source_description", .str n.sourceDescription), ("trigger", .obj n.trigger),
   ("topic_tags", textsValue n.topicTags), ("entities", textsValue n.entities),
   ("compaction_reason", .str n.compactionReason)]

/-- `validate_node`. -/
def validateNode (n : MemoryNode) : Memo Unit := do
  require (n.schemaVersion == schemaVersion)
    (.validation s!"schema_version must be {String.ofList schemaVersion}")
  let _ ← safeIdentifier n.nodeId "node_id"
  let _ ← safeIdentifier n.projectId "project_id"
  require (!(strip n.branch).isEmpty) (.validation "branch is required")
  require (!(strip n.createdOnBranch).isEmpty) (.validation "created_on_branch is required")
  require (visibilityValues.contains n.visibility) (.validation "visibility is invalid")
  require (!(strip n.sessionId).isEmpty || !(strip n.commit).isEmpty)
    (.validation "session_id or commit is required")
  require (!n.sourcePaths.isEmpty || !(strip n.sourceDescription).isEmpty)
    (.validation "source_paths or source_description is required")
  require ([txt "GREEN", txt "YELLOW"].contains n.sensitivity)
    (.validation "sensitivity must be GREEN or YELLOW")
  require (n.authority == txt "non_authoritative")
    (.validation "authority must be non_authoritative")
  require (!(strip n.summary).isEmpty) (.validation "summary is required")
  require (!(n.memoryType == txt "negative_rule" &&
      (!truthy (n.quality.getD (txt "reason") .null) ||
        !truthy (n.quality.getD (txt "validation_evidence") .null))))
    (.validation "negative_rule requires reason and validation_evidence")
  require (!(n.memoryType == txt "hub" &&
      (n.rawRef.isSome || !isTrue (n.quality.getD (txt "synthetic") .null))))
    (.validation "hub nodes must be synthetic and raw-free")
  checkConfidence host n
  validateRawRef host n.rawRef
  n.links.forM (validateLink host)
  validateStringList host n.sourcePaths "source_paths"
  (scannedFields n).forM fun (label, v) => assertNotRed host v label

/-- The node is accepted. -/
def MemoryNode.Valid (n : MemoryNode) : Prop := validateNode host n = .ok ()

def MemoryNode.isValid (n : MemoryNode) : Bool :=
  match validateNode host n with
  | .ok () => true
  | .error _ => false

theorem MemoryNode.isValid_iff (n : MemoryNode) : n.isValid host = true ↔ n.Valid host := by
  unfold isValid Valid
  split <;> simp_all

end Checks

/-- A node with what the checks ask for and nothing else. -/
def plainNode (projectId nodeId branch summary : Text) : MemoryNode where
  schemaVersion := schemaVersion
  nodeId := nodeId
  projectId := projectId
  workspaceInstanceId := []
  repoRemoteHash := []
  branch := branch
  commit := []
  sessionId := txt "s"
  memoryType := txt "fact"
  sensitivity := txt "YELLOW"
  authority := txt "non_authoritative"
  summary := summary
  createdOnBranch := branch
  visibility := txt "branch_local"
  promotionStatus := txt "not_promoted"
  promotionEvidence := []
  detailedSummary := []
  trigger := []
  topicTags := []
  entities := []
  sourcePaths := []
  sourceDescription := txt "d"
  rawRef := none
  links := []
  salience := []
  quality := [(txt "confidence", .int 1), (txt "provenance_complete", .bool true)]
  createdAt := []
  updatedAt := []
  compactionReason := []

def demoHost : Host := Host.ascii id

def demoProject : Text := txt "p"

def devBranch : Text := txt "dev"

end RalphVault.Memory
