import RalphVault.Memory.Node

/-!
# Memory tree — the store

`scripts/memory/tree_store.py` on the directory of one project: its node
files, its raw files and its snapshots. A file is its text; a node file comes
with the object its text decodes to, and what is no node is passed over by the
reader. An operation of the store gives back the tree it
leaves, also where it fails: an error of the system cuts it short before or
after its file is replaced. The index and the ledgers are left out here, as
are links, locks and permissions.
-/

namespace RalphVault.Memory

/-! ## Directories -/

/-- The files of a directory by name, in the order of their names. -/
structure Directory (β : Type) where
  files : List (Text × β)
  sorted : SortedMap.Sorted textLt files

namespace Directory

variable {β : Type}

def empty : Directory β := ⟨[], List.Pairwise.nil⟩

def get? (d : Directory β) (name : Text) : Option β := SortedMap.get? name d.files

def put (d : Directory β) (name : Text) (f : β) : Directory β :=
  ⟨SortedMap.insert textLt name f d.files, SortedMap.sorted_insert textLt_strict name f d.sorted⟩

theorem nodup (d : Directory β) : (d.files.map Prod.fst).Nodup := by
  rw [List.Nodup, List.pairwise_map]
  refine d.sorted.imp fun {a b} h hab => ?_
  rw [hab, textLt_irrefl] at h
  cases h

theorem mem_iff {d : Directory β} {name : Text} {f : β} :
    (name, f) ∈ d.files ↔ d.get? name = some f :=
  ⟨SortedMap.get?_of_mem d.nodup, SortedMap.mem_of_get?⟩

theorem get?_put (d : Directory β) (name name' : Text) (f : β) :
    (d.put name f).get? name' = if name = name' then some f else d.get? name' :=
  SortedMap.get?_insert name' name f d.files

/-- `f` on every file. -/
def map (f : β → β) (d : Directory β) : Directory β :=
  ⟨d.files.map fun e => (e.1, f e.2), by
    rw [SortedMap.Sorted, List.pairwise_map]
    exact d.sorted⟩

theorem get?_map (f : β → β) (d : Directory β) (name : Text) :
    (d.map f).get? name = (d.get? name).map f :=
  SortedMap.get?_map f name d.files

end Directory

/-! ## The tree of a project -/

/-- A file among the nodes: its text, and the object the text is. -/
structure NodeFile where
  text : Text
  payload : Option Fields

structure Snapshot where
  projectId : Text
  nodes : Directory NodeFile
  raw : Directory Text

structure Tree where
  nodes : Directory NodeFile
  raw : Directory Text
  snapshots : Directory Snapshot

def Tree.empty : Tree := ⟨Directory.empty, Directory.empty, Directory.empty⟩

def jsonSuffix : Text := txt ".json"

/-- `safe_segment`. -/
def safeSegment (t : Text) (label : String) : Memo Text := do
  let text := strip t
  require (!(text.isEmpty || startsWith ['/'] text || text.contains '\\' || text.contains '/' ||
      contains ['.', '.'] text))
    (.path s!"{label} is not a safe path segment")
  pure text

/-- The name of the file of a node. -/
def nodeName (nodeId : Text) : Text := strip nodeId ++ jsonSuffix

/-- `node_path`. -/
def nodePath (nodeId : Text) : Memo Text := do
  let _ ← safeSegment nodeId "node_id"
  pure (nodeName nodeId)

/-- `path.stem` of a file among the nodes. -/
def stem (name : Text) : Text := name.take (name.length - jsonSuffix.length)

/-- `*.json`. -/
def isJsonName (name : Text) : Bool := jsonSuffix.isSuffixOf name

/-- The files the reader lists: `*.json`, and not hidden. -/
def isNodeName (name : Text) : Bool := isJsonName name && !startsWith ['.'] name

/-- Where an error of the system cuts an operation short. -/
inductive Cut where
  | none
  | before
  | after
  deriving DecidableEq

def systemError : MemoryFault := .other "OSError"

section Store

variable (host : Host)

/-- The record of a file, if it is accepted. -/
def NodeFile.accepted (f : NodeFile) : Option MemoryNode :=
  (f.payload.bind (fromDict host)).filter fun n => n.isValid host

/-- The file a node is written to. -/
def fileOf (n : MemoryNode) : NodeFile := ⟨host.dumps n.toFields, some n.toFields⟩

/-- `load_node`. -/
def loadNode (tree : Tree) (nodeId : Text) : Memo (Option MemoryNode) := do
  let name ← nodePath nodeId
  pure ((tree.nodes.get? name).bind (NodeFile.accepted host))

/-- `list_nodes`. -/
def listNodes (tree : Tree) : Memo (List MemoryNode) := do
  let names := (tree.nodes.files.map Prod.fst).filter isNodeName
  let found ← names.mapM fun name => loadNode host tree (stem name)
  pure (found.filterMap id)

/-- What `_write_node` checks; the name of the file it writes. -/
def checkWrite (n : MemoryNode) : Memo Text := do
  validateNode host n
  let _ ← safeSegment n.projectId "project_id"
  nodePath n.nodeId

/-- The file of a node replaced in the tree of `project`; a node of another
project is written elsewhere. -/
def putNode (project name : Text) (n : MemoryNode) (tree : Tree) : Tree :=
  if strip n.projectId = strip project then
    { tree with nodes := tree.nodes.put name (fileOf host n) }
  else tree

/-- `_write_node`: the file is replaced, then the index is written from the
list of nodes. -/
def writeNode (project : Text) (cut : Cut) (n : MemoryNode) (tree : Tree) :
    Tree × Option MemoryFault :=
  match checkWrite host n with
  | .error e => (tree, some e)
  | .ok name =>
      if cut = .before then (tree, some systemError)
      else match listNodes host (putNode host project name n tree) with
        | .error e => (putNode host project name n tree, some e)
        | .ok _ =>
            (putNode host project name n tree, if cut = .after then some systemError else none)

/-- What `create_node` checks; what is in the tree of another project is left
open. -/
def checkCreate (project : Text) (n : MemoryNode) (tree : Tree) : Memo Unit := do
  validateNode host n
  let existing ← loadNode host tree n.nodeId
  require (existing.isNone || strip n.projectId != strip project)
    (.tree s!"node already exists: {String.ofList n.nodeId}")

/-- `create_node`. -/
def createNode (project : Text) (n : MemoryNode) (cut : Cut) (tree : Tree) :
    Tree × Option MemoryFault :=
  match checkCreate host project n tree with
  | .error e => (tree, some e)
  | .ok _ => writeNode host project cut n tree

/-- `current` with the updates of `update_node`: the identifiers are kept and
the time is set. -/
def updated (updates : MemoryNode → MemoryNode) (now : Text) (current : MemoryNode) :
    MemoryNode :=
  { updates current with
    nodeId := current.nodeId
    projectId := current.projectId
    updatedAt := now }

/-- `update_node`. -/
def updateNode (project nodeId : Text) (updates : MemoryNode → MemoryNode) (now : Text)
    (cut : Cut) (tree : Tree) : Tree × Option MemoryFault :=
  match loadNode host tree nodeId with
  | .error e => (tree, some e)
  | .ok none => (tree, some (.tree s!"node not found: {String.ofList nodeId}"))
  | .ok (some current) => writeNode host project cut (updated updates now current) tree

/-! ## Snapshots -/

/-- What `read_text` makes of the line ends. -/
def readText : Text → Text
  | '\r' :: '\n' :: t => '\n' :: readText t
  | c :: t => (if c = '\r' then '\n' else c) :: readText t
  | [] => []

/-- `snapshot_tree`. -/
def snapshotTree (project snapshotId : Text) (tree : Tree) : Memo Tree := do
  let name ← safeSegment snapshotId "snapshot_id"
  require (tree.snapshots.get? name).isNone
    (.tree s!"snapshot already exists: {String.ofList name}")
  pure { tree with snapshots := tree.snapshots.put name ⟨project, tree.nodes, tree.raw⟩ }

/-- One node file in `_validate_snapshot`. -/
def checkNodeFile (project : Text) (e : Text × NodeFile) : Memo Unit :=
  if isJsonName e.1 then
    match e.2.accepted host with
    | none => .error (.tree s!"snapshot node is invalid: {String.ofList e.1}")
    | some n => require (n.projectId == project) (.tree "snapshot node project_id mismatch")
  else .ok ()

/-- One raw file in `_validate_snapshot`. -/
def checkRawFile (e : Text × Text) : Memo Unit :=
  require (!((txt ".txt").isSuffixOf e.1 && redText host (readText e.2)))
    (.tree "snapshot raw file is unsafe")

/-- `_validate_snapshot`. -/
def validateSnapshot (project : Text) (s : Snapshot) : Memo Unit := do
  s.nodes.files.forM (checkNodeFile host project)
  s.raw.files.forM (checkRawFile host)

/-- A file among the nodes, read and written again. -/
def NodeFile.copied (f : NodeFile) : NodeFile := { f with text := readText f.text }

/-- `restore_snapshot`: the files of the snapshot in the place of all
others. -/
def restoreSnapshot (project snapshotId : Text) (tree : Tree) : Memo Tree := do
  let name ← safeSegment snapshotId "snapshot_id"
  match tree.snapshots.get? name with
  | none => .error (.tree s!"snapshot not found: {String.ofList snapshotId}")
  | some s => do
      require (s.projectId == project) (.tree "snapshot project_id mismatch")
      validateSnapshot host project s
      pure { tree with nodes := s.nodes.map NodeFile.copied, raw := s.raw.map readText }

/-! ## Runs of operations -/

/-- An operation on the tree. -/
abbrev Operation := Cut → Tree → Tree × Option MemoryFault

/-- The operations in order, the `i`-th one cut as `cuts i` says; the first
failure ends them. -/
def runOperations (cuts : Nat → Cut) : List Operation → Nat → Tree → Tree × Option MemoryFault
  | [], _, tree => (tree, none)
  | op :: ops, i, tree =>
      match op (cuts i) tree with
      | (tree', some e) => (tree', some e)
      | (tree', none) => runOperations cuts ops (i + 1) tree'

/-- What became of the operations. -/
inductive Outcome where
  | done
  | rolledBack (e : MemoryFault)
  | notRolledBack (e restoreError : MemoryFault)

/-- Operations behind a snapshot, which is restored when one of them
fails. -/
def runGuarded (project snapshotId : Text) (cuts : Nat → Cut) (ops : List Operation)
    (tree : Tree) : Memo (Outcome × Tree) := do
  let saved ← snapshotTree project snapshotId tree
  match runOperations cuts ops 0 saved with
  | (tree', none) => pure (.done, tree')
  | (tree', some e) =>
      match restoreSnapshot host project snapshotId tree' with
      | .ok restored => pure (.rolledBack e, restored)
      | .error e' => pure (.notRolledBack e e', tree')

/-! ## Trees the store writes -/

/-- Every node lies in the file of its identifier, in the tree of its
project. -/
def Filed (project : Text) (tree : Tree) : Prop :=
  ∀ name f n, tree.nodes.get? name = some f → isJsonName name = true →
    f.accepted host = some n → nodeName n.nodeId = name ∧ strip n.projectId = strip project

end Store

variable {host : Host}

/-! ## Names -/

theorem strip_of_no_space {t : Text} (h : ∀ c ∈ t, isSpace c = false) : strip t = t := by
  have hl : ∀ u : Text, (∀ c ∈ u, isSpace c = false) → u.dropWhile isSpace = u := by
    intro u hu
    cases u with
    | nil => rfl
    | cons c u => simp [hu c (by simp)]
  rw [strip, lstrip, hl t h, rstrip, hl t.reverse fun c hc => h c (List.mem_reverse.mp hc),
    List.reverse_reverse]

theorem isSpace_of_alnum {c : Char} (h : isAsciiAlnum c = true) : isSpace c = false := by
  have hc := h
  simp only [isAsciiAlnum, isAsciiLower, isAsciiUpper, isAsciiDigit, Bool.or_eq_true,
    Bool.and_eq_true, decide_eq_true_eq] at hc
  simp only [isSpace, Bool.or_eq_false_iff, Bool.and_eq_false_iff, decide_eq_false_iff_not,
    beq_eq_false_iff_ne]
  omega

theorem isSafeId_no_space {t : Text} (h : isSafeId t = true) : ∀ c ∈ t, isSpace c = false := by
  intro c hc
  cases t with
  | nil => cases hc
  | cons a t =>
      simp only [isSafeId, Bool.and_eq_true, List.all_eq_true, Bool.or_eq_true,
        beq_iff_eq] at h
      obtain ⟨⟨ha, -⟩, hall⟩ := h
      rcases List.mem_cons.mp hc with rfl | hc
      · exact isSpace_of_alnum ha
      · rcases hall c hc with ((hc | rfl) | rfl) | rfl
        · exact isSpace_of_alnum hc
        · decide
        · decide
        · decide

theorem safeSegment_ok {t u : Text} {label : String} :
    safeSegment t label = .ok u ↔
      (strip t).isEmpty = false ∧ startsWith ['/'] (strip t) = false ∧
        (strip t).contains '\\' = false ∧ (strip t).contains '/' = false ∧
        contains ['.', '.'] (strip t) = false ∧ u = strip t := by
  simp only [safeSegment, bind_ok, require_ok, Bool.not_eq_true', Bool.or_eq_false_iff, pure,
    Except.pure, Except.ok.injEq, and_assoc]
  constructor
  · rintro ⟨-, hne, hslash, hback, hin, hdots, rfl⟩
    exact ⟨hne, hslash, hback, hin, hdots, rfl⟩
  · rintro ⟨hne, hslash, hback, hin, hdots, rfl⟩
    exact ⟨(), hne, hslash, hback, hin, hdots, rfl⟩

theorem stem_nodeName (nodeId : Text) : stem (nodeName nodeId) = strip nodeId := by
  simp [stem, nodeName]

theorem isJsonName_nodeName (nodeId : Text) : isJsonName (nodeName nodeId) = true := by
  simp [isJsonName, nodeName, List.isSuffixOf_iff_suffix]

/-- An identifier the checks accept names a file the reader lists. -/
structure SafeName (nodeId : Text) : Prop where
  safe : isSafeId (strip nodeId) = true
  segment : ∃ t, safeSegment nodeId "node_id" = .ok t
  stripped : ∃ t, safeSegment (strip nodeId) "node_id" = .ok t

theorem safeName_of_identifier {nodeId t : Text} {label : String}
    (h : safeIdentifier nodeId label = .ok t) : SafeName nodeId := by
  simp only [safeIdentifier, bind_ok, require_ok, Bool.not_eq_true', Bool.or_eq_false_iff] at h
  obtain ⟨-, hne, -, ⟨⟨⟨hslash, hback⟩, hin⟩, hdots⟩, -, hsafe, -⟩ := h
  have hstrip := strip_of_no_space (isSafeId_no_space hsafe)
  refine ⟨hsafe, ⟨_, safeSegment_ok.mpr ⟨hne, hslash, hback, hin, hdots, rfl⟩⟩,
    strip nodeId, ?_⟩
  rw [safeSegment_ok, hstrip]
  exact ⟨hne, hslash, hback, hin, hdots, rfl⟩

namespace SafeName

variable {nodeId : Text}

theorem strip_strip (h : SafeName nodeId) : strip (strip nodeId) = strip nodeId :=
  strip_of_no_space (isSafeId_no_space h.safe)

theorem isNodeName (h : SafeName nodeId) : isNodeName (nodeName nodeId) = true := by
  have hdot : startsWith ['.'] (nodeName nodeId) = false := by
    have hsafe := h.safe
    unfold nodeName
    cases hid : strip nodeId with
    | nil =>
        rw [hid] at hsafe
        cases hsafe
    | cons c t =>
        rw [hid] at hsafe
        simp only [isSafeId, Bool.and_eq_true] at hsafe
        have hc : c ≠ '.' := by
          rintro rfl
          exact absurd hsafe.1.1 (by decide)
        simp [startsWith, List.isPrefixOf, Ne.symm hc]
  simp [Memory.isNodeName, isJsonName_nodeName, hdot]

theorem nodePath (h : SafeName nodeId) : nodePath nodeId = .ok (nodeName nodeId) := by
  obtain ⟨t, ht⟩ := h.segment
  simp [Memory.nodePath, ht, bind, Except.bind, pure, Except.pure]

end SafeName

theorem MemoryNode.Valid.safeName {n : MemoryNode} (h : n.Valid host) : SafeName n.nodeId := by
  simp only [MemoryNode.Valid, validateNode, bind_ok] at h
  obtain ⟨-, -, t, ht, -⟩ := h
  exact safeName_of_identifier ht

/-! ## What the operations do -/

theorem accepted_some {f : NodeFile} {n : MemoryNode} :
    f.accepted host = some n ↔ f.payload.bind (fromDict host) = some n ∧ n.Valid host := by
  rw [NodeFile.accepted, Option.filter_eq_some_iff, MemoryNode.isValid_iff]

theorem fileOf_record (n : MemoryNode) :
    (fileOf host n).payload.bind (fromDict host) = some n :=
  Option.bind_eq_some_iff.mpr ⟨n.toFields, rfl, fromDict_toFields host n⟩

theorem fileOf_accepted {n : MemoryNode} (h : n.Valid host) :
    (fileOf host n).accepted host = some n :=
  accepted_some.mpr ⟨fileOf_record n, h⟩

/-- The record the reader gives of the file `name`. -/
def Tree.node? (host : Host) (tree : Tree) (name : Text) : Option MemoryNode :=
  (tree.nodes.get? name).bind (NodeFile.accepted host)

theorem Tree.node?_some {tree : Tree} {name : Text} {n : MemoryNode} :
    tree.node? host name = some n ↔
      ∃ f, tree.nodes.get? name = some f ∧ f.accepted host = some n :=
  Option.bind_eq_some_iff

theorem Tree.node?_valid {tree : Tree} {name : Text} {n : MemoryNode}
    (h : tree.node? host name = some n) : n.Valid host := by
  obtain ⟨f, -, hf⟩ := Tree.node?_some.mp h
  exact (accepted_some.mp hf).2

theorem loadNode_ok {tree : Tree} {nodeId : Text} {found : Option MemoryNode} :
    loadNode host tree nodeId = .ok found ↔
      (∃ t, safeSegment nodeId "node_id" = .ok t) ∧ tree.node? host (nodeName nodeId) = found := by
  simp only [loadNode, nodePath, bind_ok, pure, Except.pure, Except.ok.injEq, Tree.node?]
  constructor
  · rintro ⟨name, ⟨t, ht, rfl⟩, hfound⟩
    exact ⟨⟨t, ht⟩, hfound⟩
  · rintro ⟨⟨t, ht⟩, hfound⟩
    exact ⟨_, ⟨t, ht, rfl⟩, hfound⟩

theorem checkWrite_ok {n : MemoryNode} {name : Text} (h : checkWrite host n = .ok name) :
    n.Valid host ∧ name = nodeName n.nodeId := by
  simp only [checkWrite, nodePath, bind_ok, pure, Except.pure, Except.ok.injEq] at h
  obtain ⟨⟨⟩, hvalid, -, -, -, -, rfl⟩ := h
  exact ⟨hvalid, rfl⟩

/-- The tree with the node `n` in its file. -/
def Tree.write (host : Host) (project : Text) (n : MemoryNode) (tree : Tree) : Tree :=
  putNode host project (nodeName n.nodeId) n tree

section Write

variable {project : Text} {cut : Cut} {n : MemoryNode} {tree tree' : Tree}

/-- A write leaves the tree or puts the valid node in its file; if it succeeds
it puts it. -/
theorem writeNode_cases {e : Option MemoryFault}
    (h : writeNode host project cut n tree = (tree', e)) :
    (n.Valid host ∧ tree' = tree.write host project n) ∨ (tree' = tree ∧ e ≠ none) := by
  unfold writeNode at h
  split at h
  · cases h
    exact .inr ⟨rfl, nofun⟩
  · rename_i name hname
    obtain ⟨hvalid, rfl⟩ := checkWrite_ok hname
    split at h
    · cases h
      exact .inr ⟨rfl, nofun⟩
    · split at h
      · cases h
        exact .inl ⟨hvalid, rfl⟩
      · cases h
        exact .inl ⟨hvalid, rfl⟩

@[simp] theorem Tree.write_raw : (tree.write host project n).raw = tree.raw := by
  unfold Tree.write putNode
  split <;> rfl

@[simp] theorem Tree.write_snapshots :
    (tree.write host project n).snapshots = tree.snapshots := by
  unfold Tree.write putNode
  split <;> rfl

theorem Tree.write_get? (hproject : strip n.projectId = strip project) (name : Text) :
    (tree.write host project n).nodes.get? name =
      if nodeName n.nodeId = name then some (fileOf host n) else tree.nodes.get? name := by
  rw [Tree.write, putNode, if_pos hproject]
  exact tree.nodes.get?_put (nodeName n.nodeId) name (fileOf host n)

theorem Tree.write_node? (hvalid : n.Valid host) (hproject : strip n.projectId = strip project)
    (name : Text) :
    (tree.write host project n).node? host name =
      if nodeName n.nodeId = name then some n else tree.node? host name := by
  unfold Tree.node?
  rw [Tree.write_get? hproject]
  split
  · exact fileOf_accepted hvalid
  · rfl

/-- A write keeps every node in the file of its identifier. -/
theorem Filed.write (h : Filed host project tree) : Filed host project (tree.write host project n) := by
  by_cases hproject : strip n.projectId = strip project
  · intro name f m hf hjson hm
    rw [Tree.write_get? hproject] at hf
    split at hf
    · rename_i hname
      cases hf
      obtain ⟨hnode, -⟩ := accepted_some.mp hm
      rw [fileOf_record, Option.some.injEq] at hnode
      subst hnode
      exact ⟨hname, hproject⟩
    · exact h name f m hf hjson hm
  · rw [Tree.write, putNode, if_neg hproject]
    exact h

theorem Filed.empty : Filed host project Tree.empty := by
  intro name f n hf
  cases hf

/-- Every node of the tree has the property. -/
def Tree.Every (host : Host) (P : MemoryNode → Prop) (tree : Tree) : Prop :=
  ∀ name n, tree.node? host name = some n → P n

theorem Tree.Every.empty {P : MemoryNode → Prop} : Tree.empty.Every host P := by
  intro name n hn
  cases hn

theorem Tree.Every.write {P : MemoryNode → Prop} (h : tree.Every host P) (hn : P n) :
    (tree.write host project n).Every host P := by
  intro name m hm
  by_cases hproject : strip n.projectId = strip project
  · rw [Tree.node?, Tree.write_get? hproject] at hm
    split at hm
    · rw [Option.bind_some, accepted_some, fileOf_record, Option.some.injEq] at hm
      rw [← hm.1]
      exact hn
    · exact h name m hm
  · rw [Tree.write, putNode, if_neg hproject] at hm
    exact h name m hm

/-- An update loads a node and writes it again with its updates, or leaves the
tree. -/
theorem updateNode_cases {nodeId now : Text} {updates : MemoryNode → MemoryNode}
    {e : Option MemoryFault}
    (h : updateNode host project nodeId updates now cut tree = (tree', e)) :
    (∃ current, tree.node? host (nodeName nodeId) = some current ∧
      (updated updates now current).Valid host ∧
      tree' = tree.write host project (updated updates now current)) ∨
    (tree' = tree ∧ e ≠ none) := by
  unfold updateNode at h
  split at h
  · cases h
    exact .inr ⟨rfl, nofun⟩
  · cases h
    exact .inr ⟨rfl, nofun⟩
  · rename_i current hload
    rcases writeNode_cases h with ⟨hvalid, rfl⟩ | hsame
    · exact .inl ⟨current, (loadNode_ok.mp hload).2, hvalid, rfl⟩
    · exact .inr hsame

/-- A creation writes a node that is not in the tree, or leaves the tree. -/
theorem createNode_cases {e : Option MemoryFault}
    (h : createNode host project n cut tree = (tree', e)) :
    (n.Valid host ∧ (strip n.projectId = strip project →
        tree.node? host (nodeName n.nodeId) = none) ∧
      tree' = tree.write host project n) ∨
    (tree' = tree ∧ e ≠ none) := by
  unfold createNode at h
  split at h
  · cases h
    exact .inr ⟨rfl, nofun⟩
  · rename_i hcheck
    rcases writeNode_cases h with ⟨hvalid, rfl⟩ | hsame
    · simp only [checkCreate, bind_ok, require_ok, loadNode_ok] at hcheck
      obtain ⟨-, -, found, ⟨-, rfl⟩, hnone⟩ := hcheck
      refine .inl ⟨hvalid, fun hproject => ?_, rfl⟩
      simpa [hproject] using hnone
    · exact .inr hsame

end Write

/-! ## Runs -/

theorem runOperations_cons {cuts : Nat → Cut} {op : Operation} {ops : List Operation} {i : Nat}
    {tree : Tree} :
    runOperations cuts (op :: ops) i tree =
      match (op (cuts i) tree).2 with
      | some e => ((op (cuts i) tree).1, some e)
      | none => runOperations cuts ops (i + 1) (op (cuts i) tree).1 := by
  rw [runOperations]
  rcases h : op (cuts i) tree with ⟨tree', e⟩
  cases e <;> rfl

/-- What every operation keeps, also where it fails, the run keeps. -/
theorem runOperations_keeps {P : Tree → Prop} {cuts : Nat → Cut} {ops : List Operation}
    (hstep : ∀ op ∈ ops, ∀ cut tree, P tree → P (op cut tree).1) {i : Nat} {tree : Tree}
    (h : P tree) : P (runOperations cuts ops i tree).1 := by
  induction ops generalizing i tree with
  | nil => exact h
  | cons op ops ih =>
      rw [runOperations_cons]
      have hop := hstep op (by simp) (cuts i) tree h
      split
      · exact hop
      · exact ih (fun op' hop' => hstep op' (by simp [hop'])) hop

section Keep

variable {project : Text} {cut : Cut} {tree : Tree} {P : Tree → Prop}

/-- What every write keeps, an update keeps. -/
theorem updateNode_keeps {nodeId now : Text} {updates : MemoryNode → MemoryNode}
    (hwrite : ∀ n, P (tree.write host project n)) (h : P tree) :
    P (updateNode host project nodeId updates now cut tree).1 := by
  rcases hop : updateNode host project nodeId updates now cut tree with ⟨tree', e⟩
  rcases updateNode_cases hop with ⟨current, -, -, rfl⟩ | ⟨rfl, -⟩
  · exact hwrite _
  · exact h

/-- What every write keeps, a creation keeps. -/
theorem createNode_keeps {n : MemoryNode} (hwrite : ∀ n, P (tree.write host project n))
    (h : P tree) : P (createNode host project n cut tree).1 := by
  rcases hop : createNode host project n cut tree with ⟨tree', e⟩
  rcases createNode_cases hop with ⟨-, -, rfl⟩ | ⟨rfl, -⟩
  · exact hwrite _
  · exact h

end Keep

/-! ## Guarded runs -/

section Guarded

variable {project : Text} {tree tree' : Tree} {snapshotId : Text} {cuts : Nat → Cut} {ops : List Operation}

/-- What a snapshot adds to the tree. -/
theorem snapshotTree_ok {saved : Tree} (h : snapshotTree project snapshotId tree = .ok saved) :
    ∃ name, safeSegment snapshotId "snapshot_id" = .ok name ∧
      saved = { tree with snapshots := tree.snapshots.put name ⟨project, tree.nodes, tree.raw⟩ } := by
  simp only [snapshotTree, bind_ok, pure, Except.pure, Except.ok.injEq] at h
  obtain ⟨name, hname, -, -, rfl⟩ := h
  exact ⟨name, hname, rfl⟩

/-- What a restoration makes of the tree it finds its snapshot in. -/
theorem restoreSnapshot_eq {name : Text} {s : Snapshot} {failed : Tree}
    (hname : safeSegment snapshotId "snapshot_id" = .ok name)
    (hs : failed.snapshots.get? name = some s) (hproject : s.projectId = project) :
    restoreSnapshot host project snapshotId failed =
      (validateSnapshot host project s).map fun _ =>
        { failed with nodes := s.nodes.map NodeFile.copied, raw := s.raw.map readText } := by
  simp only [restoreSnapshot, hname, hs, hproject, require, beq_self_eq_true, if_true, bind,
    Except.bind]
  cases validateSnapshot host project s <;> rfl

/-- A guarded run that fails: its operations fail, and the restoration
succeeds or leaves what they left. -/
theorem runGuarded_failed {outcome : Outcome}
    (h : runGuarded host project snapshotId cuts ops tree = .ok (outcome, tree'))
    (hfailed : outcome ≠ .done) :
    ∃ saved failed e, snapshotTree project snapshotId tree = .ok saved ∧
      runOperations cuts ops 0 saved = (failed, some e) ∧
      (restoreSnapshot host project snapshotId failed = .ok tree' ∨
        (∃ e', restoreSnapshot host project snapshotId failed = .error e') ∧ tree' = failed) := by
  simp only [runGuarded, bind_ok] at h
  obtain ⟨saved, hsaved, hrun⟩ := h
  split at hrun
  · simp only [pure, Except.pure, Except.ok.injEq, Prod.mk.injEq] at hrun
    exact absurd hrun.1.symm hfailed
  · rename_i failed e hops
    refine ⟨saved, failed, e, hsaved, hops, ?_⟩
    split at hrun
    · rename_i restored hrestored
      simp only [pure, Except.pure, Except.ok.injEq, Prod.mk.injEq] at hrun
      rw [← hrun.2]
      exact .inl hrestored
    · rename_i e' hrestored
      simp only [pure, Except.pure, Except.ok.injEq, Prod.mk.injEq] at hrun
      exact .inr ⟨⟨e', hrestored⟩, hrun.2.symm⟩

/-- A guarded run that is done. -/
theorem runGuarded_done
    (h : runGuarded host project snapshotId cuts ops tree = .ok (.done, tree')) :
    ∃ saved, snapshotTree project snapshotId tree = .ok saved ∧
      runOperations cuts ops 0 saved = (tree', none) := by
  simp only [runGuarded, bind_ok] at h
  obtain ⟨saved, hsaved, hrun⟩ := h
  refine ⟨saved, hsaved, ?_⟩
  split at hrun
  · rename_i hops
    simp only [pure, Except.pure, Except.ok.injEq, Prod.mk.injEq, true_and] at hrun
    rw [hops, hrun]
  · split at hrun
    · simp [pure, Except.pure] at hrun
    · simp [pure, Except.pure] at hrun

end Guarded

/-! ## Listing -/

theorem mapM_ok {f : β → Memo γ} {xs : List β} {ys : List γ} (h : xs.mapM f = .ok ys) :
    List.Forall₂ (fun x y => f x = .ok y) xs ys := by
  induction xs generalizing ys with
  | nil =>
      cases h
      exact .nil
  | cons x xs ih =>
      simp only [List.mapM_cons, bind_ok, pure, Except.pure, Except.ok.injEq] at h
      obtain ⟨y, hy, rest, hrest, rfl⟩ := h
      exact .cons hy (ih hrest)

theorem Forall₂.mem_right {R : β → γ → Prop} {xs : List β} {ys : List γ}
    (h : List.Forall₂ R xs ys) {y : γ} (hy : y ∈ ys) : ∃ x ∈ xs, R x y := by
  induction h with
  | nil => cases hy
  | cons hxy _ ih =>
      rcases List.mem_cons.mp hy with rfl | hy
      · exact ⟨_, by simp, hxy⟩
      · obtain ⟨x, hx, hR⟩ := ih hy
        exact ⟨x, by simp [hx], hR⟩

theorem Forall₂.mem_left {R : β → γ → Prop} {xs : List β} {ys : List γ}
    (h : List.Forall₂ R xs ys) {x : β} (hx : x ∈ xs) : ∃ y ∈ ys, R x y := by
  induction h with
  | nil => cases hx
  | cons hxy _ ih =>
      rcases List.mem_cons.mp hx with rfl | hx
      · exact ⟨_, by simp, hxy⟩
      · obtain ⟨y, hy, hR⟩ := ih hx
        exact ⟨y, by simp [hy], hR⟩

/-- The nodes of the list are those of the files, where every node lies in the
file of its identifier. -/
theorem mem_listNodes {project : Text} {tree : Tree} {nodes : List MemoryNode}
    (hfiled : Filed host project tree) (h : listNodes host tree = .ok nodes) {n : MemoryNode} :
    n ∈ nodes ↔ ∃ name, isJsonName name = true ∧ tree.node? host name = some n := by
  simp only [listNodes, bind_ok, pure, Except.pure, Except.ok.injEq] at h
  obtain ⟨found, hfound, rfl⟩ := h
  have hall := mapM_ok hfound
  simp only [List.mem_filterMap, id_eq, exists_eq_right]
  constructor
  · intro hn
    obtain ⟨name, -, hload⟩ := Forall₂.mem_right hall hn
    exact ⟨nodeName (stem name), isJsonName_nodeName _, (loadNode_ok.mp hload).2⟩
  · rintro ⟨name, hjson, hn⟩
    obtain ⟨f, hf, hacc⟩ := Tree.node?_some.mp hn
    obtain ⟨rfl, -⟩ := hfiled name f n hf hjson hacc
    have hsafe := (Tree.node?_valid hn).safeName
    have hname : nodeName n.nodeId ∈ (tree.nodes.files.map Prod.fst).filter isNodeName :=
      List.mem_filter.mpr ⟨List.mem_map.mpr ⟨(_, f), Directory.mem_iff.mpr hf, rfl⟩,
        hsafe.isNodeName⟩
    obtain ⟨found', hmem, hload⟩ := Forall₂.mem_left hall hname
    rw [stem_nodeName, loadNode_ok, nodeName, hsafe.strip_strip] at hload
    obtain ⟨-, hload⟩ := hload
    rw [← nodeName, hn] at hload
    rw [hload]
    exact hmem

end RalphVault.Memory
