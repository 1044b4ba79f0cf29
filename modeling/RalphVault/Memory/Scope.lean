import RalphVault.Memory.TreeStore

/-!
# Memory tree — what a recall may return

The rules of `scripts/memory/recall_v2.py` on one payload: the branches and
worktrees it is visible in, its provenance and the first reason to reject it.
A payload is an object read from the index or from a node file.
-/

namespace RalphVault.Memory

/-- `Context`. -/
structure Context where
  projectId : Text
  workspaceInstanceId : Text
  branch : Text

inductive Risk where
  | low
  | medium
  | high
  deriving DecidableEq

/-- `analyze_query`. -/
structure Analysis where
  semanticTerms : List Text
  searchTerms : List Text
  intentTerms : List Text
  temporalTerms : List Text
  riskLevel : Risk
  exactFactMode : Bool
  mergeCandidateRequested : Bool

/-- The reference to the raw text as the index keeps it. -/
def entryRawRef : Option Fields → Value
  | none => .null
  | some [] => .null
  | some d => .obj [(txt "sha256", d.getD (txt "sha256") .null)]

/-- `_index_entry`, its members in key order. -/
def indexEntry (n : MemoryNode) : Fields :=
  [(txt "authority", .str n.authority),
   (txt "branch", .str n.branch),
   (txt "commit", .str n.commit),
   (txt "created_at", .str n.createdAt),
   (txt "created_on_branch", .str n.createdOnBranch),
   (txt "detailed_summary", .str n.detailedSummary),
   (txt "domain", .str (txt "general")),
   (txt "entities", textsValue n.entities),
   (txt "links", objectsValue n.links),
   (txt "memory_type", .str n.memoryType),
   (txt "node_id", .str n.nodeId),
   (txt "project_id", .str n.projectId),
   (txt "promotion_status", .str n.promotionStatus),
   (txt "quality", .obj n.quality),
   (txt "raw_ref", entryRawRef n.rawRef),
   (txt "repo_remote_hash", .str n.repoRemoteHash),
   (txt "salience", .obj n.salience),
   (txt "sensitivity", .str n.sensitivity),
   (txt "session_id", .str n.sessionId),
   (txt "source_description", .str n.sourceDescription),
   (txt "source_paths", textsValue n.sourcePaths),
   (txt "summary", .str n.summary),
   (txt "topic_tags", textsValue n.topicTags),
   (txt "trigger", .obj n.trigger),
   (txt "updated_at", .str n.updatedAt),
   (txt "visibility", .str n.visibility),
   (txt "workspace_instance_id", .str n.workspaceInstanceId)]

/-- `d[k]` if it is an object. -/
def objectAt (d : Fields) (k : Text) : Fields :=
  match d.getD k .null with
  | .obj o => o
  | _ => []

def qualityOf (d : Fields) : Fields := objectAt d (txt "quality")

section Scope

variable (host : Host)

/-- `compact_space`. -/
def compactValue : Value → Text
  | .null => []
  | v => compactSpace (pyStr host v)

def branchNeutral : List Text := [txt "*", txt "any", txt "global", txt "all"]

/-- `branch_visible`. -/
def branchVisible (nodeBranch activeBranch : Text) : Bool :=
  let value := compactSpace nodeBranch
  branchNeutral.contains (host.lower value) || value == compactSpace activeBranch

/-- `deprecated`. -/
def deprecated (d : Fields) : Bool :=
  isTrue ((qualityOf d).getD (txt "deprecated") .null) ||
    host.lower (pyStr host ((qualityOf d).getD (txt "status") (.str []))) == txt "deprecated"

/-- `provenance_complete`. -/
def provenanceComplete (d : Fields) : Bool :=
  (truthy (d.getD (txt "source_paths") .null) ||
      truthy (d.getD (txt "source_description") .null)) &&
    (truthy (d.getD (txt "session_id") .null) || truthy (d.getD (txt "commit") .null)) &&
    isTrue ((qualityOf d).getD (txt "provenance_complete") .null)

/-- `safe_fields`. -/
def safeFields (d : Fields) : Fields :=
  [txt "summary", txt "detailed_summary", txt "trigger", txt "topic_tags", txt "entities",
    txt "source_paths", txt "links", txt "quality", txt "promotion_evidence"].map fun k =>
      (k, d.getD k .null)

/-- `str(v or default)`. -/
def strOr (v : Value) (default : Text) : Text := if truthy v then pyStr host v else default

/-- `str(node.get("created_on_branch") or node.get("branch", ""))`. -/
def anchorBranch (d : Fields) : Text :=
  strOr host (d.getD (txt "created_on_branch") .null)
    (pyStr host (d.getD (txt "branch") (.str [])))

/-- `visibility_reject_reason`. -/
def visibilityRejectReason (d : Fields) (context : Context) (analysis : Analysis) :
    Option String :=
  let visibility := strOr host (d.getD (txt "visibility") .null) (txt "branch_local")
  if visibility = txt "conflict" then some "conflict"
  else if visibility = txt "deprecated_on_merge" then some "deprecated_on_merge"
  else if visibility = txt "main_promoted" then none
  else if visibility = txt "merge_candidate" && !analysis.mergeCandidateRequested then
    some "merge_candidate_unlabeled"
  else if branchVisible host (anchorBranch host d) context.branch then none
  else some "wrong_branch"

def isText (v : Value) (t : Text) : Bool := asText v == some t

/-- `hard_reject_reason`; no reason is the empty text. -/
def hardRejectReason (payload : Option Fields) (context : Context) (includeDeprecated : Bool)
    (analysis : Analysis) : Option String :=
  match payload with
  | none => some "invalid_node"
  | some d =>
      let workspace := compactValue host (d.getD (txt "workspace_instance_id") .null)
      if !isText (d.getD (txt "project_id") .null) context.projectId then some "wrong_project"
      else if isText (d.getD (txt "sensitivity") .null) (txt "RED") ||
          containsRed host (.obj (safeFields d)) then some "red"
      else match visibilityRejectReason host d context analysis with
        | some reason => some reason
        | none =>
            if !workspace.isEmpty && !context.workspaceInstanceId.isEmpty &&
                workspace != context.workspaceInstanceId then some "wrong_worktree"
            else if deprecated host d && !includeDeprecated then some "deprecated"
            else if !provenanceComplete d then some "missing_provenance"
            else if !isText (d.getD (txt "authority") .null) (txt "non_authoritative") then
              some "authority"
            else match fromDict host d with
              | none => some "invalid_node"
              | some n => if n.isValid host then none else some "invalid_node"

/-- The node is recalled in the context, if a query of the analysis finds
it. -/
def Recallable (n : MemoryNode) (context : Context) (analysis : Analysis) : Prop :=
  hardRejectReason host (some (indexEntry n)) context false analysis = none

end Scope

/-! ## The entry of a node -/

section Entry

variable {host : Host}

/-- The record an entry of the index stands for. -/
def entryNode (n : MemoryNode) : MemoryNode :=
  { n with
    schemaVersion := schemaVersion
    promotionEvidence := []
    rawRef := match n.rawRef with
      | none => none
      | some [] => none
      | some d => some [(txt "sha256", d.getD (txt "sha256") .null)]
    compactionReason := [] }

theorem fromDict_indexEntry (n : MemoryNode) :
    fromDict host (indexEntry n) = some (entryNode n) := by
  have hraw : asRawRef (entryRawRef n.rawRef) = some (entryNode n).rawRef := by
    rcases h : n.rawRef with _ | _ | ⟨a, d⟩ <;> simp [entryNode, entryRawRef, asRawRef, h]
  have hmember : ∀ {β : Type} {read : Value → Option β} {k v b}, (indexEntry n).get? k = some v →
      read v = some b → ∀ default, memberOf read (indexEntry n) k default = some b := by
    intro β read k v b h hv default
    simp only [memberOf, h, hv]
  -- the other members are read back by computation
  simp only [fromDict,
    hmember (rfl : (indexEntry n).get? (txt "topic_tags") = some (textsValue n.topicTags))
      (asTexts_textsValue _),
    hmember (rfl : (indexEntry n).get? (txt "entities") = some (textsValue n.entities))
      (asTexts_textsValue _),
    hmember (rfl : (indexEntry n).get? (txt "source_paths") = some (textsValue n.sourcePaths))
      (asTexts_textsValue _),
    hmember (rfl : (indexEntry n).get? (txt "raw_ref") = some (entryRawRef n.rawRef)) hraw,
    hmember (rfl : (indexEntry n).get? (txt "links") = some (objectsValue n.links))
      (asObjects_objectsValue _)]
  rfl

/-- Whether an entry is rejected does not depend on the time of the node. -/
theorem recallable_updatedAt {n : MemoryNode} {now : Text} {context : Context}
    {analysis : Analysis} :
    Recallable host { n with updatedAt := now } context analysis ↔
      Recallable host n context analysis := by
  have hvalid : (entryNode { n with updatedAt := now }).isValid host =
      (entryNode n).isValid host := rfl
  unfold Recallable hardRejectReason
  simp only [fromDict_indexEntry, hvalid]
  exact Iff.rfl

end Entry

end RalphVault.Memory
