import RalphVault.Memory.Scope

/-!
# Memory tree — consolidation

`scripts/memory/consolidate_tree.py`: the planner finds duplicates, links and
topics among the nodes it may see, and `apply_plan` marks the duplicates,
deprecates what is superseded, adds the links and creates the hubs, behind a
snapshot.
-/

namespace RalphVault.Memory

/-! ## Operations of a plan -/

structure DuplicateOp where
  canonical : Text
  duplicate : Text
  deriving DecidableEq

structure LinkOp where
  source : Text
  target : Text
  relation : Text
  evidence : Text
  deriving DecidableEq

/-- The report of `build_plan`, with the hubs it keeps for `apply_plan`. -/
structure Plan where
  projectId : Text
  nodesConsidered : Nat
  skipped : List (Text × String)
  duplicates : List DuplicateOp
  supersessions : List LinkOp
  links : List LinkOp
  hubs : List MemoryNode

/-- What a report says of one operation. -/
inductive Written where
  | markDuplicate (nodeId : Text)
  | superseded (nodeId : Text)
  | link (nodeId relation : Text)
  | createHub (nodeId : Text)

/-- The report of `apply_plan`. -/
structure ConsolidationReport where
  plan : Plan
  dryRun : Bool
  snapshotId : Option Text
  written : List Written
  restoredFromSnapshot : Bool
  error : Option MemoryFault
  restoreError : Option MemoryFault

/-- What the clock and the system give one call. -/
structure ConsolidationRun where
  stamp : Text
  /-- The time the `i`-th node is written. -/
  now : Nat → Text
  cuts : Nat → Cut

section Consolidation

variable (host : Host)

/-! ## The planner -/

/-- `norm` of a text. -/
def normText (t : Text) : Text := compactSpace (host.lower t)

/-- `[-a-z0-9_./]`. -/
def isWordChar (c : Char) : Bool :=
  isAsciiLower c || isAsciiDigit c || c == '_' || c == '.' || c == '/' || c == '-'

/-- `word_set`. -/
def wordSet (v : Value) : List Text :=
  (splitWhere (fun c => !isWordChar c) (normText host (pyStrOr host v))).filter fun w =>
    3 ≤ w.length

/-- `trigger_terms`. -/
def triggerTerms (n : MemoryNode) : List Text :=
  wordSet host (n.trigger.getD (txt "terms") (.arr [])) ++
    wordSet host (n.trigger.getD (txt "paths") (.arr []))

/-- `visible_for_consolidation`. -/
def visibleForConsolidation (n : MemoryNode) (branch : Text) : Bool :=
  let visibility := if n.visibility.isEmpty then txt "branch_local" else n.visibility
  if visibility = txt "main_promoted" then true
  else if visibility = txt "conflict" || visibility = txt "deprecated_on_merge" then false
  else (if n.createdOnBranch.isEmpty then n.branch else n.createdOnBranch) == branch

/-- `node_id` of a file. -/
def fileNodeId (name : Text) (f : NodeFile) : Text :=
  match f.payload with
  | none => stem name
  | some d => pyStr host (d.getD (txt "node_id") (.str (stem name)))

/-- One file in `safe_nodes`. -/
def safeNode (branch : Text) (f : NodeFile) : Except String MemoryNode :=
  match f.payload with
  | none => .error "invalid_node"
  | some d =>
      if isText (d.getD (txt "sensitivity") .null) (txt "RED") || containsRed host (.obj d) then
        .error "red"
      else match f.accepted host with
        | none => .error "invalid_node"
        | some n =>
            if visibleForConsolidation n branch then .ok n else .error "wrong_branch_scope"

def jsonFiles (tree : Tree) : List (Text × NodeFile) :=
  tree.nodes.files.filter fun e => isJsonName e.1

/-- `safe_nodes`, the nodes. -/
def safeNodes (branch : Text) (tree : Tree) : List MemoryNode :=
  (jsonFiles tree).filterMap fun e => (safeNode host branch e.2).toOption

/-- `safe_nodes`, what is skipped. -/
def skippedNodes (branch : Text) (tree : Tree) : List (Text × String) :=
  (jsonFiles tree).filterMap fun e =>
    match safeNode host branch e.2 with
    | .ok _ => none
    | .error reason => some (fileNodeId host e.1 e.2, reason)

/-- `overlap`. -/
def overlap (xs ys : List Text) : Bool := xs.any fun x => ys.contains x

/-- The pair is a duplicate. -/
def isDuplicatePair (left right : MemoryNode) : Bool :=
  normText host left.summary == normText host right.summary ||
    (overlap (triggerTerms host left) (triggerTerms host right) &&
      (overlap left.sourcePaths right.sourcePaths || overlap left.entities right.entities))

/-- Every node with every later one. -/
def pairs : List β → List (β × β)
  | [] => []
  | x :: xs => xs.map (fun y => (x, y)) ++ pairs xs

/-- The smaller identifier is the canonical one. -/
def duplicateOp (left right : MemoryNode) : DuplicateOp :=
  if textLt right.nodeId left.nodeId then ⟨right.nodeId, left.nodeId⟩
  else ⟨left.nodeId, right.nodeId⟩

/-- `dedupe_ops`: the first operation of each key. -/
def dedupeOps [DecidableEq κ] (key : β → κ) : List β → List κ → List β
  | [], _ => []
  | op :: ops, seen =>
      if key op ∈ seen then dedupeOps key ops seen
      else op :: dedupeOps key ops (key op :: seen)

/-- `duplicate_ops`. -/
def duplicateOps (nodes : List MemoryNode) : List DuplicateOp :=
  dedupeOps (fun op => (op.canonical, op.duplicate))
    ((pairs nodes).filterMap fun p =>
      if isDuplicatePair host p.1 p.2 then some (duplicateOp p.1 p.2) else none) []

def supersedes : Text := txt "supersedes"

/-- `link_target`. -/
def linkTarget (link : Fields) : Text :=
  pyStr host (link.getD (txt "target_node_id") (link.getD (txt "node_id") (.str [])))

/-- The relation and the target of a link are these. -/
def isLink (relation target : Text) (link : Fields) : Bool :=
  isText (link.getD (txt "relation") .null) relation && linkTarget host link == target

/-- `link_exists`. -/
def linkExists (n : MemoryNode) (relation target : Text) : Bool :=
  n.links.any (isLink host relation target)

/-- What a loop over a value runs through. -/
def iterate : Value → Memo (List Value)
  | .arr vs => .ok vs
  | .str t => .ok (t.map fun c => .str [c])
  | .obj fs => .ok (fs.map fun e => .str e.1)
  | _ => .error (.other "TypeError")

def isKnown (nodes : List MemoryNode) (t : Text) : Bool := nodes.any fun n => n.nodeId == t

/-- One entry of `supersedes_node_ids`; an entry that cannot be a key is an
error. -/
def supersedesOp (nodes : List MemoryNode) (n : MemoryNode) : Value → Memo (Option LinkOp)
  | .arr _ => .error (.other "TypeError")
  | .obj _ => .error (.other "TypeError")
  | .str t =>
      .ok (if isKnown nodes t then
        some ⟨n.nodeId, t, supersedes, txt "quality.supersedes_node_ids"⟩ else none)
  | _ => .ok none

/-- A link of the node that supersedes another one. -/
def existingOp (nodes : List MemoryNode) (n : MemoryNode) (link : Fields) : Option LinkOp :=
  if isText (link.getD (txt "relation") .null) supersedes &&
      isKnown nodes (linkTarget host link) then
    some ⟨n.nodeId, linkTarget host link, supersedes, txt "existing_supersedes_link"⟩
  else none

/-- One entry of `link_hints`. -/
def hintOp (nodes : List MemoryNode) (n : MemoryNode) : Value → Memo (Option LinkOp)
  | .obj members =>
      let hint : Fields := members
      let relation := pyStr host (hint.getD (txt "relation") (.str []))
      .ok (if linkRelations.contains relation && isKnown nodes (linkTarget host hint) then
        some ⟨n.nodeId, linkTarget host hint, relation, txt "quality.link_hints"⟩ else none)
  | _ => .error (.other "AttributeError")

/-- The links one node asks for. -/
def nodeHints (nodes : List MemoryNode) (n : MemoryNode) : Memo (List LinkOp) := do
  let superseded ← iterate (n.quality.getD (txt "supersedes_node_ids") (.arr []))
  let ops ← superseded.mapM (supersedesOp nodes n)
  let hints ← iterate (n.quality.getD (txt "link_hints") (.arr []))
  let hinted ← hints.mapM (hintOp host nodes n)
  pure (ops.filterMap id ++ n.links.filterMap (existingOp host nodes n) ++ hinted.filterMap id)

def linkKey (op : LinkOp) : Text × Text × Text := (op.source, op.target, op.relation)

/-- `hinted_links`. -/
def hintedLinks (nodes : List MemoryNode) : Memo (List LinkOp) := do
  let ops ← nodes.mapM (nodeHints host nodes)
  pure (dedupeOps linkKey ops.flatten [])

/-- `same_topic_links`. -/
def sameTopicLinks (nodes : List MemoryNode) : List LinkOp :=
  (pairs nodes).filterMap fun p =>
    if overlap p.1.topicTags p.2.topicTags &&
        !linkExists host p.1 (txt "same_topic") p.2.nodeId then
      some ⟨p.1.nodeId, p.2.nodeId, txt "same_topic", txt "topic_tags"⟩
    else none

/-- The links of a plan. -/
def linkOps (nodes : List MemoryNode) : Memo (List LinkOp) := do
  let hinted ← hintedLinks host nodes
  pure (dedupeOps linkKey (hinted ++ sameTopicLinks host nodes) [])

/-- The nodes of a topic, once for every time they name it. -/
def topicMembers (nodes : List MemoryNode) (topic : Text) : List MemoryNode :=
  nodes.flatMap fun n => (n.topicTags.filter (· == topic)).map fun _ => n

/-- The topics in their order. -/
def topics (nodes : List MemoryNode) : List Text :=
  (SortedMap.ofList textLt (nodes.flatMap fun n => n.topicTags.map fun t => (t, ()))).map Prod.fst

def hubId (project topic : Text) : Text :=
  txt "hub_" ++ (host.sha256 (project ++ [':'] ++ topic)).take 24

/-- The hub of a topic. -/
def hubNode (project branch topic created : Text) (first : MemoryNode)
    (members : List MemoryNode) : MemoryNode where
  schemaVersion := schemaVersion
  nodeId := hubId host project topic
  projectId := project
  workspaceInstanceId := first.workspaceInstanceId
  repoRemoteHash := first.repoRemoteHash
  branch := if branch.isEmpty then first.branch else branch
  createdOnBranch := if branch.isEmpty then first.createdOnBranch else branch
  visibility := txt "branch_local"
  promotionStatus := txt "not_promoted"
  promotionEvidence := [(txt "synthetic", .bool true),
    (txt "source_node_ids", textsValue (members.map (·.nodeId)))]
  commit := first.commit
  sessionId := txt "consolidation"
  memoryType := txt "hub"
  sensitivity := txt "YELLOW"
  authority := txt "non_authoritative"
  summary := txt "Synthetic hub for topic " ++ topic ++ ['.']
  detailedSummary := txt "Synthetic hub linking " ++ decimalText members.length ++
    txt " safe summary nodes for topic " ++ topic ++ ['.']
  trigger := [(txt "terms", textsValue [topic])]
  topicTags := [topic]
  entities := []
  sourcePaths := []
  sourceDescription := txt "Synthetic consolidation hub from safe MemoryNode summaries."
  rawRef := none
  links := members.map fun n => [(txt "relation", .str (txt "same_topic")),
    (txt "target_node_id", .str n.nodeId), (txt "evidence", .str (txt "hub_member"))]
  salience := [(txt "validation", .float (3 / 10))]
  quality := [(txt "confidence", .float (7 / 10)), (txt "provenance_complete", .bool true),
    (txt "validation_status", .str (txt "pass")), (txt "synthetic", .bool true)]
  createdAt := created
  updatedAt := created
  compactionReason := txt "synthetic_consolidation_hub"

/-- The hub of a topic, if the topic has two members and no hub in sight. -/
def topicHub (nodes : List MemoryNode) (project branch created topic : Text) :
    Option MemoryNode :=
  match topicMembers nodes topic with
  | first :: second :: rest =>
      if isKnown nodes (hubId host project topic) then none
      else some (hubNode host project branch topic created first (first :: second :: rest))
  | _ => none

/-- `hub_nodes`. -/
def hubNodes (nodes : List MemoryNode) (project branch created : Text) : List MemoryNode :=
  (topics nodes).filterMap (topicHub host nodes project branch created)

/-- `build_plan`. -/
def buildPlan (project branch created : Text) (tree : Tree) : Memo Plan := do
  let nodes := safeNodes host branch tree
  let links ← linkOps host nodes
  pure {
    projectId := project
    nodesConsidered := nodes.length
    skipped := skippedNodes host branch tree
    duplicates := duplicateOps host nodes
    supersessions := links.filter fun op => op.relation == supersedes
    links := links
    hubs := hubNodes host nodes project branch created }

/-! ## The application of a plan -/

/-- `add_link`. -/
def addLink (links : List Fields) (op : LinkOp) : List Fields :=
  if links.any (isLink host op.relation op.target) then links
  else links ++ [[(txt "relation", .str op.relation), (txt "target_node_id", .str op.target),
    (txt "evidence", .str op.evidence)]]

def markDuplicate (op : DuplicateOp) (n : MemoryNode) : MemoryNode :=
  { n with quality := ((n.quality.set (txt "duplicate_of") (.str op.canonical)).set
      (txt "deprecated") (.bool true)).set (txt "status") (.str (txt "duplicate")) }

def markSuperseded (n : MemoryNode) : MemoryNode :=
  { n with quality := ((n.quality.set (txt "deprecated") (.bool true)).set
      (txt "stale") (.bool true)).set (txt "status") (.str (txt "deprecated")) }

def withLink (op : LinkOp) (n : MemoryNode) : MemoryNode :=
  { n with links := addLink host n.links op }

/-- A node loaded, changed and updated; a node that is not there has no
members. -/
def changeNode (project nodeId : Text) (updates : MemoryNode → MemoryNode) (now : Text) :
    Operation := fun cut tree =>
  match loadNode host tree nodeId with
  | .ok none => (tree, some (.other "AttributeError"))
  | _ => updateNode host project nodeId updates now cut tree

/-- One write of a plan. -/
inductive Step where
  | duplicate (op : DuplicateOp)
  | supersede (op : LinkOp)
  | link (op : LinkOp)
  | hub (n : MemoryNode)

def Step.written : Step → Written
  | .duplicate op => .markDuplicate op.duplicate
  | .supersede op => .superseded op.target
  | .link op => .link op.source op.relation
  | .hub n => .createHub n.nodeId

def Step.operation (project now : Text) : Step → Operation
  | .duplicate op => changeNode host project op.duplicate (markDuplicate op) now
  | .supersede op => changeNode host project op.target markSuperseded now
  | .link op => changeNode host project op.source (withLink host op) now
  | .hub n => createNode host project n

/-- The writes of a plan in their order. -/
def Plan.steps (plan : Plan) : List Step :=
  plan.duplicates.map .duplicate ++ plan.supersessions.map .supersede ++
    plan.links.map .link ++ plan.hubs.map .hub

/-- The plan changes the tree. -/
def Plan.mutating (plan : Plan) : Bool :=
  !(plan.duplicates.isEmpty && plan.links.isEmpty && plan.hubs.isEmpty)

def consolidationSnapshot (stamp : Text) : Text := txt "consolidation_" ++ stamp

def planOperations (run : ConsolidationRun) (plan : Plan) : List Operation :=
  plan.steps.zipIdx.map fun s => s.1.operation host plan.projectId (run.now s.2)

/-- `apply_plan`. -/
def applyPlan (run : ConsolidationRun) (plan : Plan) (tree : Tree) :
    Memo (ConsolidationReport × Tree) := do
  let report : ConsolidationReport := ⟨plan, false, none, [], false, none, none⟩
  if plan.mutating then do
    let (outcome, tree') ← runGuarded host plan.projectId (consolidationSnapshot run.stamp)
      run.cuts (planOperations host run plan) tree
    let report := { report with snapshotId := some (consolidationSnapshot run.stamp) }
    pure (match outcome with
      | .done => ({ report with written := plan.steps.map Step.written }, tree')
      | .rolledBack e => ({ report with error := some e, restoredFromSnapshot := true }, tree')
      | .notRolledBack e e' => ({ report with error := some e, restoreError := some e' }, tree'))
  else pure (report, tree)

end Consolidation

end RalphVault.Memory
