import RalphVault.Memory.Consolidation
import RalphVault.Security.Quiet

/-!
# Memory tree — the rollback of a consolidation

Whether a failed `apply_plan` leaves the files as they were. The snapshot
copies every file, but its restoration checks the files more strictly than
the reader does and reads them as texts, so that it is exact on some trees
only.
-/

namespace RalphVault.Memory

variable {host : Host} {project : Text}

/-! ## Line ends -/

theorem readText_of_no_return {t : Text} (h : '\r' ∉ t) : readText t = t := by
  fun_induction readText t with
  | case1 t ih => simp at h
  | case2 c t hpair ih =>
      simp only [List.mem_cons, not_or] at h
      rw [if_neg (Ne.symm h.1), ih h.2]
  | case3 => rfl

theorem no_return_readText (t : Text) : '\r' ∉ readText t := by
  fun_induction readText t with
  | case1 t ih => simpa using ih
  | case2 c t hpair ih =>
      rw [List.mem_cons, not_or]
      refine ⟨?_, ih⟩
      split
      · decide
      · rename_i hc
        exact Ne.symm hc
  | case3 => simp

theorem readText_eq_iff {t : Text} : readText t = t ↔ '\r' ∉ t :=
  ⟨fun h => h ▸ no_return_readText t, readText_of_no_return⟩

/-! ## The checks of a restoration -/

theorem forM_ok {f : β → Memo Unit} {xs : List β} :
    xs.forM f = .ok () ↔ ∀ x ∈ xs, f x = .ok () := by
  induction xs with
  | nil => simp [pure, Except.pure]
  | cons x xs ih =>
      rw [List.forall_mem_cons, ← ih]
      simp only [List.forM_eq_forM, List.forM_cons, bind_ok]
      exact ⟨fun ⟨⟨⟩, hx, hxs⟩ => ⟨hx, hxs⟩, fun ⟨hx, hxs⟩ => ⟨(), hx, hxs⟩⟩

/-- The restoration accepts the files. -/
structure Checked (host : Host) (project : Text) (nodes : Directory NodeFile)
    (raw : Directory Text) : Prop where
  node : ∀ name f, nodes.get? name = some f → isJsonName name = true →
    ∃ n, f.accepted host = some n ∧ n.projectId = project
  raw : ∀ name t, raw.get? name = some t → (txt ".txt").isSuffixOf name = true →
    redText host (readText t) = false

theorem checkNodeFile_ok {e : Text × NodeFile} :
    checkNodeFile host project e = .ok () ↔
      (isJsonName e.1 = true → ∃ n, e.2.accepted host = some n ∧ n.projectId = project) := by
  unfold checkNodeFile
  split
  · rename_i hjson
    simp only [hjson, forall_const]
    split
    · rename_i hnone
      simp [hnone]
    · rename_i n hsome
      simp [hsome, beq_iff_eq]
  · rename_i hjson
    simp [hjson]

theorem checkRawFile_ok {e : Text × Text} :
    checkRawFile host e = .ok () ↔
      ((txt ".txt").isSuffixOf e.1 = true → redText host (readText e.2) = false) := by
  rw [checkRawFile, require_ok, Bool.not_eq_true', Bool.and_eq_false_imp]

theorem validateSnapshot_ok {s : Snapshot} :
    validateSnapshot host project s = .ok () ↔ Checked host project s.nodes s.raw := by
  rw [validateSnapshot, bind_ok]
  constructor
  · rintro ⟨⟨⟩, hnodes, hraw⟩
    rw [forM_ok] at hnodes hraw
    exact ⟨fun name f hf => checkNodeFile_ok.mp (hnodes (name, f) (Directory.mem_iff.mpr hf)),
      fun name t ht => checkRawFile_ok.mp (hraw (name, t) (Directory.mem_iff.mpr ht))⟩
  · rintro ⟨hnodes, hraw⟩
    refine ⟨(), ?_, ?_⟩
    · rw [forM_ok]
      exact fun e he => checkNodeFile_ok.mpr (hnodes e.1 e.2 (Directory.mem_iff.mp he))
    · rw [forM_ok]
      exact fun e he => checkRawFile_ok.mpr (hraw e.1 e.2 (Directory.mem_iff.mp he))

/-! ## What a rollback has to leave -/

/-- The files have the same contents. -/
structure SameFiles (tree tree' : Tree) : Prop where
  nodes : ∀ name, (tree'.nodes.get? name).map (·.text) = (tree.nodes.get? name).map (·.text)
  raw : ∀ name, tree'.raw.get? name = tree.raw.get? name

/-- However a plan fails on the tree, the files are as before. -/
def RollsBack (host : Host) (project : Text) (tree : Tree) : Prop :=
  ∀ run plan report tree', plan.projectId = project →
    applyPlan host run plan tree = .ok (report, tree') → report.error ≠ none →
    SameFiles tree tree'

/-- The restoration accepts the files and finds no carriage return in them. -/
structure Restorable (host : Host) (project : Text) (tree : Tree) : Prop
    extends Checked host project tree.nodes tree.raw where
  nodeReturn : ∀ name f, tree.nodes.get? name = some f → '\r' ∉ f.text
  rawReturn : ∀ name t, tree.raw.get? name = some t → '\r' ∉ t

/-! ## The operations of a plan -/

/-- What every write keeps, a changed node keeps. -/
theorem changeNode_keeps {nodeId now : Text} {updates : MemoryNode → MemoryNode} {cut : Cut}
    {tree : Tree} {P : Tree → Prop} (hwrite : ∀ n, P (tree.write host project n)) (h : P tree) :
    P (changeNode host project nodeId updates now cut tree).1 := by
  unfold changeNode
  split
  · exact h
  · exact updateNode_keeps hwrite h

/-- What every write keeps, every step of a plan keeps. -/
theorem Step.operation_keeps {step : Step} {now : Text} {cut : Cut} {tree : Tree}
    {P : Tree → Prop} (hwrite : ∀ n, P (tree.write host project n)) (h : P tree) :
    P (step.operation host project now cut tree).1 := by
  cases step with
  | duplicate op => exact changeNode_keeps hwrite h
  | supersede op => exact changeNode_keeps hwrite h
  | link op => exact changeNode_keeps hwrite h
  | hub n => exact createNode_keeps hwrite h

/-- What every write keeps, the run of a plan keeps. -/
theorem planOperations_keeps {run : ConsolidationRun} {plan : Plan} {P : Tree → Prop}
    (hwrite : ∀ n tree, P tree → P (tree.write host plan.projectId n)) {i : Nat} {tree : Tree}
    (h : P tree) : P (runOperations run.cuts (planOperations host run plan) i tree).1 := by
  refine runOperations_keeps (fun op hop cut tree h => ?_) h
  obtain ⟨step, -, rfl⟩ := List.mem_map.mp hop
  exact Step.operation_keeps (fun n => hwrite n tree h) h

/-- A plan that fails has a guarded run that fails. -/
theorem applyPlan_failed {run : ConsolidationRun} {plan : Plan} {tree tree' : Tree}
    {report : ConsolidationReport} (h : applyPlan host run plan tree = .ok (report, tree'))
    (herror : report.error ≠ none) :
    ∃ outcome, outcome ≠ .done ∧
      runGuarded host plan.projectId (consolidationSnapshot run.stamp) run.cuts
        (planOperations host run plan) tree = .ok (outcome, tree') := by
  simp only [applyPlan] at h
  split at h
  · simp only [bind_ok, pure, Except.pure, Except.ok.injEq] at h
    obtain ⟨⟨outcome, final⟩, hguarded, hreport⟩ := h
    cases outcome with
    | done =>
        simp only [Prod.mk.injEq] at hreport
        obtain ⟨rfl, rfl⟩ := hreport
        exact absurd rfl herror
    | rolledBack e =>
        simp only [Prod.mk.injEq] at hreport
        obtain ⟨-, rfl⟩ := hreport
        exact ⟨.rolledBack e, nofun, hguarded⟩
    | notRolledBack e e' =>
        simp only [Prod.mk.injEq] at hreport
        obtain ⟨-, rfl⟩ := hreport
        exact ⟨.notRolledBack e e', nofun, hguarded⟩
  · simp only [pure, Except.pure, Except.ok.injEq, Prod.mk.injEq] at h
    obtain ⟨rfl, -⟩ := h
    exact absurd rfl herror

section Applied

variable {run : ConsolidationRun} {plan : Plan} {tree tree' : Tree} {e e' : MemoryFault}

theorem applyPlan_rolledBack (hplan : plan.mutating = true)
    (h : runGuarded host plan.projectId (consolidationSnapshot run.stamp) run.cuts
      (planOperations host run plan) tree = .ok (.rolledBack e, tree')) :
    applyPlan host run plan tree =
      .ok (⟨plan, false, some (consolidationSnapshot run.stamp), [], true, some e, none⟩, tree') := by
  simp only [applyPlan, hplan, if_true, h, bind, Except.bind]
  rfl

theorem applyPlan_notRolledBack (hplan : plan.mutating = true)
    (h : runGuarded host plan.projectId (consolidationSnapshot run.stamp) run.cuts
      (planOperations host run plan) tree = .ok (.notRolledBack e e', tree')) :
    applyPlan host run plan tree =
      .ok (⟨plan, false, some (consolidationSnapshot run.stamp), [], false, some e, some e'⟩,
        tree') := by
  simp only [applyPlan, hplan, if_true, h, bind, Except.bind]
  rfl

end Applied

/-- On a restorable tree every failure is rolled back. -/
theorem rollsBack_of_restorable {tree : Tree} (h : Restorable host project tree) :
    RollsBack host project tree := by
  rintro run plan report tree' rfl happly herror
  obtain ⟨outcome, hfailed, hguarded⟩ := applyPlan_failed happly herror
  obtain ⟨saved, failed, e, hsaved, hops, hfinal⟩ := runGuarded_failed hguarded hfailed
  obtain ⟨name, hname, hstart⟩ := snapshotTree_ok hsaved
  let copy : Snapshot := ⟨plan.projectId, tree.nodes, tree.raw⟩
  have hstart : saved.snapshots.get? name = some copy := by
    rw [hstart]
    exact (tree.snapshots.get?_put name name copy).trans (if_pos rfl)
  have hwrite : ∀ n (t : Tree), t.snapshots.get? name = some copy →
      (t.write host plan.projectId n).snapshots.get? name = some copy := by
    intro n t ht
    rw [Tree.write_snapshots]
    exact ht
  have hsnapshots : failed.snapshots.get? name = some copy := by
    have hkept : (runOperations run.cuts (planOperations host run plan) 0 saved).1.snapshots.get?
        name = some copy := planOperations_keeps hwrite hstart
    rwa [hops] at hkept
  rw [restoreSnapshot_eq hname hsnapshots rfl, validateSnapshot_ok.mpr h.toChecked] at hfinal
  rcases hfinal with hfinal | ⟨⟨e', herr⟩, -⟩
  · cases hfinal
    constructor
    · intro file
      rw [Directory.get?_map]
      cases hf : tree.nodes.get? file with
      | none => rfl
      | some f =>
          simp only [Option.map_some, NodeFile.copied]
          rw [readText_of_no_return (h.nodeReturn file f hf)]
    · intro file
      rw [Directory.get?_map]
      cases ht : tree.raw.get? file with
      | none => rfl
      | some t => rw [Option.map_some, readText_of_no_return (h.rawReturn file t ht)]
  · cases herr

/-! ## A hub cut short -/

/-- A plan with nothing but the hub. -/
def hubPlan (project : Text) (hub : MemoryNode) : Plan where
  projectId := project
  nodesConsidered := 0
  skipped := []
  duplicates := []
  supersessions := []
  links := []
  hubs := [hub]

/-- A run whose first operation is cut short after its file is replaced. -/
def cutRun (stamp : Text) : ConsolidationRun := ⟨stamp, fun _ => [], fun _ => .after⟩

theorem exists_longer (names : List Text) : ∃ k, ∀ name ∈ names, name.length < k := by
  induction names with
  | nil => exact ⟨0, by simp⟩
  | cons name names ih =>
      obtain ⟨k, hk⟩ := ih
      refine ⟨k + name.length + 1, fun name' hname => ?_⟩
      rcases List.mem_cons.mp hname with rfl | hname
      · omega
      · have := hk name' hname
        omega

/-- There is room for one more snapshot. -/
theorem exists_stamp (project : Text) (tree : Tree) :
    ∃ stamp saved, snapshotTree project (consolidationSnapshot stamp) tree = .ok saved := by
  obtain ⟨k, hk⟩ := exists_longer (tree.snapshots.files.map Prod.fst)
  let stamp : Text := List.replicate k '0'
  have hchar : ∀ c ∈ consolidationSnapshot stamp, isAsciiAlnum c = true ∨ c = '_' := by
    intro c hc
    rcases List.mem_append.mp hc with hc | hc
    · have hall : ∀ c ∈ txt "consolidation_", isAsciiAlnum c = true ∨ c = '_' := by decide
      exact hall c hc
    · rw [List.eq_of_mem_replicate hc]
      exact .inl (by decide)
  have hnot : ∀ d, isAsciiAlnum d = false → d ≠ '_' → d ∉ consolidationSnapshot stamp := by
    intro d hd hd' hmem
    rcases hchar d hmem with h | h
    · rw [hd] at h
      cases h
    · exact hd' h
  have hstrip : strip (consolidationSnapshot stamp) = consolidationSnapshot stamp := by
    refine strip_of_no_space fun c hc => ?_
    rcases hchar c hc with h | rfl
    · exact isSpace_of_alnum h
    · decide
  have hdots : contains ['.', '.'] (consolidationSnapshot stamp) = false := by
    by_contra hin
    rw [Bool.not_eq_false] at hin
    exact hnot '.' (by decide) (by decide)
      ((Security.isInfix_of_contains hin).subset (by simp))
  have hname : safeSegment (consolidationSnapshot stamp) "snapshot_id" =
      .ok (consolidationSnapshot stamp) := by
    rw [safeSegment_ok, hstrip]
    refine ⟨rfl, rfl, ?_, ?_, hdots, rfl⟩
    · simpa using hnot '\\' (by decide) (by decide)
    · simpa using hnot '/' (by decide) (by decide)
  have hfree : tree.snapshots.get? (consolidationSnapshot stamp) = none := by
    refine SortedMap.get?_eq_none fun hmem => ?_
    have hlength := hk _ hmem
    simp [consolidationSnapshot, stamp] at hlength
  let copy : Snapshot := ⟨project, tree.nodes, tree.raw⟩
  refine ⟨stamp, ⟨tree.nodes, tree.raw, tree.snapshots.put (consolidationSnapshot stamp) copy⟩, ?_⟩
  rw [snapshotTree, hname]
  simp only [bind, Except.bind, hfree, Option.isNone_none, require, if_true]
  rfl

section Hub

variable {hub : MemoryNode} {tree : Tree}

/-- A hub without a file is written, and then its creation fails. -/
theorem createNode_cut (hvalid : hub.Valid host)
    (hfree : tree.nodes.get? (nodeName hub.nodeId) = none) :
    ∃ e, createNode host project hub .after tree = (tree.write host project hub, some e) := by
  have hload : loadNode host tree hub.nodeId = .ok none := by
    rw [loadNode_ok, Tree.node?, hfree]
    exact ⟨hvalid.safeName.segment, rfl⟩
  have hcheck : checkCreate host project hub tree = .ok () := by
    rw [checkCreate, hvalid, hload]
    rfl
  have hwrite : checkWrite host hub = .ok (nodeName hub.nodeId) := by
    have hchecks := hvalid
    simp only [MemoryNode.Valid, validateNode, bind_ok] at hchecks
    obtain ⟨-, -, -, -, t, ht, -⟩ := hchecks
    obtain ⟨u, hu⟩ := (safeName_of_identifier ht).segment
    have hu' : safeSegment hub.projectId "project_id" = .ok u := by
      rw [safeSegment_ok] at hu ⊢
      exact hu
    rw [checkWrite, hvalid, hu', hvalid.safeName.nodePath]
    rfl
  unfold createNode writeNode
  rw [hcheck, hwrite]
  simp only [reduceCtorEq, if_false, if_true]
  split
  · exact ⟨_, rfl⟩
  · exact ⟨_, rfl⟩

/-- If the failed creation of the hub is rolled back, the tree is
restorable. -/
theorem restorable_of_rollsBack (hvalid : hub.Valid host)
    (hproject : strip hub.projectId = strip project)
    (hfree : tree.nodes.get? (nodeName hub.nodeId) = none) (h : RollsBack host project tree) :
    Restorable host project tree := by
  obtain ⟨stamp, saved, hsaved⟩ := exists_stamp project tree
  obtain ⟨name, hname, hstart⟩ := snapshotTree_ok hsaved
  let copy : Snapshot := ⟨project, tree.nodes, tree.raw⟩
  have hcopy : saved.snapshots.get? name = some copy := by
    rw [hstart]
    exact (tree.snapshots.get?_put name name copy).trans (if_pos rfl)
  have hfree' : saved.nodes.get? (nodeName hub.nodeId) = none := by
    rw [hstart]
    exact hfree
  obtain ⟨e, hcreate⟩ : ∃ e, createNode host project hub .after saved =
      (saved.write host project hub, some e) := createNode_cut hvalid hfree'
  have hops : runOperations (cutRun stamp).cuts
      (planOperations host (cutRun stamp) (hubPlan project hub)) 0 saved =
      (saved.write host project hub, some e) := by
    change runOperations _ [createNode host project hub] 0 saved = _
    have hcut : createNode host project hub ((cutRun stamp).cuts 0) saved =
        (saved.write host project hub, some e) := hcreate
    rw [runOperations_cons, hcut]
  have hcopy' : (saved.write host project hub).snapshots.get? name = some copy := by
    rw [Tree.write_snapshots]
    exact hcopy
  have hrestore := @restoreSnapshot_eq host project _ name copy _ hname hcopy' rfl
  cases hv : validateSnapshot host project copy with
  | ok u =>
      rw [hv] at hrestore
      have hguarded : runGuarded host project (consolidationSnapshot stamp) (cutRun stamp).cuts
          (planOperations host (cutRun stamp) (hubPlan project hub)) tree =
          .ok (.rolledBack e, { saved.write host project hub with
            nodes := copy.nodes.map NodeFile.copied, raw := copy.raw.map readText }) := by
        rw [runGuarded, hsaved]
        simp only [bind, Except.bind, hops, hrestore]
        rfl
      have hsame := h (cutRun stamp) (hubPlan project hub) _ _ rfl
        (applyPlan_rolledBack (by rfl) hguarded) (by simp)
      refine ⟨validateSnapshot_ok.mp hv, fun file f hf => ?_, fun file t ht => ?_⟩
      · have hfile := hsame.nodes file
        rw [Directory.get?_map, show copy.nodes = tree.nodes from rfl, hf] at hfile
        exact readText_eq_iff.mp (Option.some.inj hfile)
      · have hfile := hsame.raw file
        rw [Directory.get?_map, show copy.raw = tree.raw from rfl, ht] at hfile
        exact readText_eq_iff.mp (Option.some.inj hfile)
  | error e' =>
      rw [hv] at hrestore
      have hguarded : runGuarded host project (consolidationSnapshot stamp) (cutRun stamp).cuts
          (planOperations host (cutRun stamp) (hubPlan project hub)) tree =
          .ok (.notRolledBack e e', saved.write host project hub) := by
        rw [runGuarded, hsaved]
        simp only [bind, Except.bind, hops, hrestore]
        rfl
      have hsame := h (cutRun stamp) (hubPlan project hub) _ _ rfl
        (applyPlan_notRolledBack (by rfl) hguarded) (by simp)
      have hfile := hsame.nodes (nodeName hub.nodeId)
      rw [Tree.write_get? hproject, if_pos rfl, hfree] at hfile
      cases hfile

end Hub

def firstNode : MemoryNode := plainNode demoProject (txt "a") devBranch (txt "x")

def secondNode : MemoryNode := plainNode demoProject (txt "b") devBranch (txt "x")

def corruptFile : NodeFile := ⟨['\x7b'], none⟩

/-- Two nodes of one summary and a file that is no object. -/
def corruptTree : Tree :=
  let nodes := (Tree.empty.write demoHost demoProject firstNode).write demoHost demoProject secondNode
  { nodes with nodes := nodes.nodes.put (nodeName (txt "c")) corruptFile }

/-- The plan that marks the second node as a duplicate of the first. -/
def duplicatePlan : Plan where
  projectId := demoProject
  nodesConsidered := 2
  skipped := [(txt "c", "invalid_node")]
  duplicates := [⟨firstNode.nodeId, secondNode.nodeId⟩]
  supersessions := []
  links := []
  hubs := []

/-- The application of the plan, cut short after its first file. -/
def demoConsolidation : Memo (ConsolidationReport × Tree) :=
  applyPlan demoHost (cutRun (txt "1")) duplicatePlan corruptTree

def fileText (tree : Tree) (name : Text) : Option Text := (tree.nodes.get? name).map (·.text)

theorem firstNode_valid : firstNode.Valid demoHost :=
  (MemoryNode.isValid_iff demoHost firstNode).mp (by decide +kernel)

end RalphVault.Memory
