import RalphVault.Memory.Scope

/-!
# Memory tree — promotion of a branch

`scripts/memory/promote_branch_memory.py`: the merge candidates of a branch
that have their evidence, their provenance and no conflict with the main
nodes become main nodes, behind a snapshot. All candidates are judged
against the main nodes found before the first of them is promoted.
-/

namespace RalphVault.Memory

/-! ## The judgement -/

section Judgement

variable (host : Host)

/-- `normalized_summary`. -/
def normalizedSummary (n : MemoryNode) : Text := host.lower (compactSpace n.summary)

/-- `candidate_branch`. -/
def candidateBranch (n : MemoryNode) : Text :=
  compactSpace (if n.createdOnBranch.isEmpty then n.branch else n.createdOnBranch)

/-- `safe_payload`. -/
def safePayload (n : MemoryNode) : Fields :=
  [(txt "summary", .str n.summary), (txt "detailed_summary", .str n.detailedSummary),
   (txt "trigger", .obj n.trigger), (txt "topic_tags", textsValue n.topicTags),
   (txt "entities", textsValue n.entities), (txt "source_paths", textsValue n.sourcePaths),
   (txt "source_description", .str n.sourceDescription),
   (txt "promotion_evidence", .obj n.promotionEvidence)]

/-- `evidence_reasons`. -/
def evidenceReasons (n : MemoryNode) : List String :=
  let has (passed listed : Text) : Bool :=
    isTrue (n.promotionEvidence.getD passed .null) ||
      truthy (n.promotionEvidence.getD listed .null)
  (if has (txt "tests_passed") (txt "tests") then [] else ["missing_tests_evidence"]) ++
    (if has (txt "gates_passed") (txt "gates") then [] else ["missing_gates_evidence"])

def shareOne (xs ys : List Text) : Bool := xs.any fun x => ys.contains x

/-- `conflicts_with_main` against one node. -/
def conflictsWith (candidate current : MemoryNode) : Bool :=
  normalizedSummary host candidate != normalizedSummary host current &&
    (shareOne candidate.sourcePaths current.sourcePaths ||
      (candidate.memoryType == current.memoryType &&
        shareOne (candidate.topicTags.map host.lower) (current.topicTags.map host.lower)))

/-- `conflicts_with_main`. -/
def conflictsWithMain (candidate : MemoryNode) (promoted : List MemoryNode) : Bool :=
  promoted.any (conflictsWith host candidate)

def mainPromoted : Text := txt "main_promoted"

def mergeCandidate : Text := txt "merge_candidate"

/-- `promotion_skip_reasons`. -/
def promotionSkipReasons (n : MemoryNode) (sourceBranch : Text) (mainNodes : List MemoryNode) :
    List String :=
  (if n.visibility = mergeCandidate then [] else ["not_merge_candidate"]) ++
    (if candidateBranch n = compactSpace sourceBranch then [] else ["wrong_source_branch"]) ++
    (if provenanceComplete n.toFields then [] else ["missing_provenance"]) ++
    evidenceReasons n ++
    (if containsRed host (.obj (safePayload n)) then ["unsafe_content"] else []) ++
    (if conflictsWithMain host n mainNodes then ["conflicts_with_main_promoted"] else [])

end Judgement

/-! ## The promotion -/

/-- A node as a report names it. -/
structure ReportItem where
  nodeId : Text
  visibility : Text

/-- The report of `promote_branch_memory`. -/
structure PromotionReport where
  dryRun : Bool
  projectId : Text
  sourceBranch : Text
  targetBranch : Text
  snapshotId : Option Text
  candidates : List ReportItem
  promoted : List ReportItem
  skipped : List (ReportItem × List String)
  restoredFromSnapshot : Bool
  error : Option MemoryFault
  restoreError : Option MemoryFault

/-- What the clock and the system give one call. -/
structure PromotionRun where
  stamp : Text
  /-- The time the `i`-th evidence is written. -/
  promotedAt : Nat → Text
  /-- The time the `i`-th node is written. -/
  now : Nat → Text
  cuts : Nat → Cut

section Promotion

variable (host : Host) (project sourceBranch targetBranch : Text) (run : PromotionRun)

/-- `promoted_evidence`. -/
def promotedEvidence (n : MemoryNode) (at' : Text) : Fields :=
  ((n.promotionEvidence.set (txt "promoted_from_branch") (.str sourceBranch)).set
    (txt "promoted_to_branch") (.str targetBranch)).set (txt "promoted_at") (.str at')

/-- The updates of a promotion, with the evidence of `n`. -/
def promotionUpdates (n : MemoryNode) (at' : Text) (current : MemoryNode) : MemoryNode :=
  { current with
    branch := targetBranch
    visibility := mainPromoted
    promotionStatus := txt "promoted"
    promotionEvidence := promotedEvidence sourceBranch targetBranch n at' }

/-- The promotion of one node, the `i`-th. -/
def promoteNode (e : MemoryNode × Nat) : Operation :=
  updateNode host project e.1.nodeId
    (promotionUpdates sourceBranch targetBranch e.1 (run.promotedAt e.2)) (run.now e.2)

def mainNodes (nodes : List MemoryNode) : List MemoryNode :=
  nodes.filter fun n => n.visibility = mainPromoted

/-- The nodes no reason speaks against. -/
def eligible (nodes : List MemoryNode) : List MemoryNode :=
  nodes.filter fun n => (promotionSkipReasons host n sourceBranch (mainNodes nodes)).isEmpty

def reportItem (n : MemoryNode) : ReportItem := ⟨n.nodeId, n.visibility⟩

def promotionReport (nodes : List MemoryNode) : PromotionReport where
  dryRun := false
  projectId := project
  sourceBranch := sourceBranch
  targetBranch := targetBranch
  snapshotId := none
  candidates := (eligible host sourceBranch nodes).map reportItem
  promoted := []
  skipped := (nodes.map fun n =>
      (reportItem n, promotionSkipReasons host n sourceBranch (mainNodes nodes))).filter
    fun e => !e.2.isEmpty
  restoredFromSnapshot := false
  error := none
  restoreError := none

def promotionSnapshot : Text := txt "promotion_" ++ run.stamp

/-- `promote_branch_memory` with `write=True`. -/
def promoteBranchMemory (tree : Tree) : Memo (PromotionReport × Tree) := do
  let nodes ← listNodes host tree
  let candidates := eligible host sourceBranch nodes
  let report := promotionReport host project sourceBranch targetBranch nodes
  if candidates.isEmpty then pure (report, tree)
  else do
    let (outcome, tree') ← runGuarded host project (promotionSnapshot run) run.cuts
      (candidates.zipIdx.map (promoteNode host project sourceBranch targetBranch run)) tree
    let report := { report with snapshotId := some (promotionSnapshot run) }
    pure (match outcome with
      | .done => ({ report with
          promoted := candidates.map fun n => ⟨n.nodeId, mainPromoted⟩ }, tree')
      | .rolledBack e => ({ report with error := some e, restoredFromSnapshot := true }, tree')
      | .notRolledBack e e' => ({ report with error := some e, restoreError := some e' }, tree'))

end Promotion

/-! ## What a promotion is for -/

section Spec

variable (host : Host)

/-- What the evidence, the provenance and the safety of a candidate of a
branch have to be. -/
structure Promotable (sourceBranch : Text) (n : MemoryNode) : Prop where
  visibility : n.visibility = mergeCandidate
  branch : candidateBranch n = compactSpace sourceBranch
  provenance : provenanceComplete n.toFields = true
  evidence : evidenceReasons n = []
  safe : containsRed host (.obj (safePayload n)) = false

/-- No two main nodes of the tree conflict. -/
def MainConsistent (tree : Tree) : Prop :=
  ∀ name name' n n', isJsonName name = true → isJsonName name' = true →
    tree.node? host name = some n → tree.node? host name' = some n' →
    n.visibility = mainPromoted → n'.visibility = mainPromoted →
    conflictsWith host n n' = false

/-- The candidates of the branch do not conflict with one another. -/
def CandidatesAgree (sourceBranch : Text) (tree : Tree) : Prop :=
  ∀ nodes, listNodes host tree = .ok nodes →
    ∀ n ∈ eligible host sourceBranch nodes, ∀ n' ∈ eligible host sourceBranch nodes,
      conflictsWith host n n' = false

/-- What a promotion that reports success leaves. -/
structure PromotionKept (sourceBranch : Text) (tree : Tree) (report : PromotionReport)
    (tree' : Tree) : Prop where
  main : MainConsistent host tree'
  promotable : ∀ item ∈ report.promoted, ∃ n,
    tree.node? host (nodeName item.nodeId) = some n ∧ Promotable host sourceBranch n
  others : ∀ name, (∀ item ∈ report.promoted, nodeName item.nodeId ≠ name) →
    tree'.nodes.get? name = tree.nodes.get? name
  raw : tree'.raw = tree.raw

end Spec

variable {host : Host} {project sourceBranch targetBranch : Text} {run : PromotionRun}

theorem mem_eligible {nodes : List MemoryNode} {n : MemoryNode} :
    n ∈ eligible host sourceBranch nodes ↔
      n ∈ nodes ∧ Promotable host sourceBranch n ∧
        conflictsWithMain host n (mainNodes nodes) = false := by
  simp only [eligible, List.mem_filter, List.isEmpty_iff, promotionSkipReasons,
    List.append_eq_nil_iff, ite_eq_left_iff, ite_eq_right_iff, reduceCtorEq, imp_false,
    not_not, Bool.not_eq_true, Bool.not_eq_false]
  constructor
  · rintro ⟨hn, ⟨⟨⟨⟨hv, hb⟩, hp⟩, he⟩, hs⟩, hc⟩
    exact ⟨hn, ⟨hv, hb, hp, he, hs⟩, hc⟩
  · rintro ⟨hn, ⟨hv, hb, hp, he, hs⟩, hc⟩
    exact ⟨hn, ⟨⟨⟨⟨hv, hb⟩, hp⟩, he⟩, hs⟩, hc⟩

/-! ## What a promotion does -/

/-- The node `n` once it is promoted. -/
def promotedNode (sourceBranch targetBranch : Text) (n : MemoryNode) (at' now : Text) :
    MemoryNode :=
  updated (promotionUpdates sourceBranch targetBranch n at') now n

theorem conflictsWith_promoted (n n' : MemoryNode) (s s' t t' a a' w w' : Text) :
    conflictsWith host (promotedNode s t n a w) (promotedNode s' t' n' a' w') =
      conflictsWith host n n' := rfl

theorem conflictsWith_promoted_left (n n' : MemoryNode) (s t a w : Text) :
    conflictsWith host (promotedNode s t n a w) n' = conflictsWith host n n' := rfl

theorem conflictsWith_comm (n n' : MemoryNode) :
    conflictsWith host n n' = conflictsWith host n' n := by
  have hshare : ∀ xs ys : List Text, shareOne xs ys = shareOne ys xs := by
    intro xs ys
    rw [Bool.eq_iff_iff]
    simp only [shareOne, List.any_eq_true, List.contains_iff_mem]
    exact ⟨fun ⟨x, hx, hy⟩ => ⟨x, hy, hx⟩, fun ⟨x, hx, hy⟩ => ⟨x, hy, hx⟩⟩
  have hbeq : ∀ a b : Text, (a == b) = (b == a) := fun a b => BEq.comm
  have hbne : ∀ a b : Text, (a != b) = (b != a) := fun a b => by rw [bne, hbeq, ← bne]
  simp only [conflictsWith]
  rw [hbne, hshare n.sourcePaths, hbeq n.memoryType, hshare (n.topicTags.map host.lower)]

/-- The state of a promotion after the candidates `done`: each is in its file,
promoted, and every other file is as it was. -/
structure Promoting (host : Host) (project sourceBranch targetBranch : Text) (tree₀ : Tree)
    (done : List MemoryNode) (tree : Tree) : Prop where
  filed : Filed host project tree
  promoted : ∀ e ∈ done, ∃ at' now, tree.node? host (nodeName e.nodeId) =
    some (promotedNode sourceBranch targetBranch e at' now)
  others : ∀ name, (∀ e ∈ done, nodeName e.nodeId ≠ name) →
    tree.nodes.get? name = tree₀.nodes.get? name
  raw : tree.raw = tree₀.raw

section Run

variable {tree₀ tree tree' : Tree} {done : List MemoryNode} {e : MemoryNode}

/-- What the file of a candidate holds: the candidate, promoted or not yet. -/
theorem Promoting.current
    (h : Promoting host project sourceBranch targetBranch tree₀ done tree)
    (hdone : ∀ e' ∈ done, tree₀.node? host (nodeName e'.nodeId) = some e')
    (he : tree₀.node? host (nodeName e.nodeId) = some e) {n : MemoryNode}
    (hn : tree.node? host (nodeName e.nodeId) = some n) :
    n = e ∨ ∃ at' now, n = promotedNode sourceBranch targetBranch e at' now := by
  by_cases hmem : ∃ e' ∈ done, nodeName e'.nodeId = nodeName e.nodeId
  · obtain ⟨e', he', hname⟩ := hmem
    obtain rfl : e' = e := by
      have h₀ := hdone e' he'
      rw [hname, he] at h₀
      exact (Option.some.inj h₀).symm
    obtain ⟨at', now, hat⟩ := h.promoted e' he'
    rw [hn] at hat
    exact .inr ⟨at', now, Option.some.inj hat⟩
  · refine .inl ?_
    have hsame := h.others (nodeName e.nodeId) fun e' he' hname => hmem ⟨e', he', hname⟩
    rw [Tree.node?, hsame, ← Tree.node?, he] at hn
    exact (Option.some.inj hn).symm

/-- One promotion: the candidate joins the promoted ones. -/
theorem Promoting.step (h : Promoting host project sourceBranch targetBranch tree₀ done tree)
    (hdone : ∀ e' ∈ done, tree₀.node? host (nodeName e'.nodeId) = some e')
    (he : tree₀.node? host (nodeName e.nodeId) = some e)
    {j : Nat} {cut : Cut}
    (hop : promoteNode host project sourceBranch targetBranch run (e, j) cut tree = (tree', none)) :
    Promoting host project sourceBranch targetBranch tree₀ (e :: done) tree' := by
  rcases updateNode_cases hop with ⟨current, hcurrent, hvalid, rfl⟩ | ⟨-, hnone⟩
  · obtain ⟨f, hf, hacc⟩ := Tree.node?_some.mp hcurrent
    obtain ⟨hname, hproject⟩ := h.filed _ f current hf (isJsonName_nodeName _) hacc
    have hnew : updated (promotionUpdates sourceBranch targetBranch e (run.promotedAt j))
        (run.now j) current =
        promotedNode sourceBranch targetBranch e (run.promotedAt j) (run.now j) := by
      rcases h.current hdone he hcurrent with rfl | ⟨at', now, rfl⟩ <;> rfl
    rw [hnew] at hvalid ⊢
    have hproject' : strip (promotedNode sourceBranch targetBranch e (run.promotedAt j)
        (run.now j)).projectId = strip project := by
      rcases h.current hdone he hcurrent with rfl | ⟨at', now, rfl⟩ <;> exact hproject
    have hwrite (name : Text) : (tree.write host project (promotedNode sourceBranch targetBranch e
        (run.promotedAt j) (run.now j))).node? host name =
        if nodeName e.nodeId = name then some (promotedNode sourceBranch targetBranch e
          (run.promotedAt j) (run.now j)) else tree.node? host name :=
      Tree.write_node? hvalid hproject' name
    refine ⟨h.filed.write, fun e' he' => ?_, fun name hname' => ?_, ?_⟩
    · rw [hwrite]
      by_cases hsame : nodeName e.nodeId = nodeName e'.nodeId
      · obtain rfl : e' = e := by
          rcases List.mem_cons.mp he' with rfl | he'
          · rfl
          · have h₀ := hdone e' he'
            rw [← hsame, he] at h₀
            exact (Option.some.inj h₀).symm
        exact ⟨_, _, if_pos rfl⟩
      · rw [if_neg hsame]
        rcases List.mem_cons.mp he' with rfl | he'
        · exact absurd rfl hsame
        · exact h.promoted e' he'
    · have hne : nodeName e.nodeId ≠ name := hname' e (by simp)
      rw [Tree.write_get? hproject', if_neg (by exact hne)]
      exact h.others name fun e' he' => hname' e' (by simp [he'])
    · rw [Tree.write_raw, h.raw]
  · exact absurd rfl hnone

/-- A run of promotions that succeeds. -/
theorem Promoting.runAll (h : Promoting host project sourceBranch targetBranch tree₀ done tree)
    (hdone : ∀ e' ∈ done, tree₀.node? host (nodeName e'.nodeId) = some e')
    {es : List (MemoryNode × Nat)}
    (hes : ∀ e ∈ es, tree₀.node? host (nodeName e.1.nodeId) = some e.1) {i : Nat}
    (hrun : runOperations run.cuts (es.map (promoteNode host project sourceBranch targetBranch run))
      i tree = (tree', none)) :
    ∃ all, (∀ e, e ∈ all ↔ e ∈ done ∨ e ∈ es.map Prod.fst) ∧
      Promoting host project sourceBranch targetBranch tree₀ all tree' := by
  induction es generalizing done i tree with
  | nil =>
      cases hrun
      exact ⟨done, by simp, h⟩
  | cons e es ih =>
      rw [List.map_cons, runOperations_cons] at hrun
      rcases hop : promoteNode host project sourceBranch targetBranch run e (run.cuts i) tree with
        ⟨next, fault⟩
      rw [hop] at hrun
      cases fault with
      | some e' => cases hrun
      | none =>
          have he := hes e (by simp)
          have hnext := h.step hdone he hop
          have hdone' : ∀ e' ∈ e.1 :: done, tree₀.node? host (nodeName e'.nodeId) = some e' := by
            intro e' he'
            rcases List.mem_cons.mp he' with rfl | he'
            · exact he
            · exact hdone e' he'
          obtain ⟨all, hall, hfinal⟩ := ih hnext hdone' (fun e' he' => hes e' (by simp [he'])) hrun
          refine ⟨all, fun e' => ?_, hfinal⟩
          rw [hall, List.map_cons, List.mem_cons, List.mem_cons, or_left_comm, or_assoc]

end Run

/-! ## Main nodes after a promotion -/

section Kept

variable {tree tree' : Tree} {nodes : List MemoryNode} {report : PromotionReport}

/-- A promotion that reports success leaves every eligible node promoted and
every other file as it was. -/
theorem promoteBranchMemory_success (hfiled : Filed host project tree)
    (hnodes : listNodes host tree = .ok nodes)
    (h : promoteBranchMemory host project sourceBranch targetBranch run tree = .ok (report, tree'))
    (hsuccess : report.error = none) :
    ∃ all, (∀ e, e ∈ all ↔ e ∈ eligible host sourceBranch nodes) ∧
      report.promoted = (eligible host sourceBranch nodes).map (fun n => ⟨n.nodeId, mainPromoted⟩) ∧
      Promoting host project sourceBranch targetBranch tree all tree' := by
  have hcandidate : ∀ e ∈ eligible host sourceBranch nodes,
      tree.node? host (nodeName e.nodeId) = some e := by
    intro e he
    obtain ⟨name, hjson, hn⟩ := (mem_listNodes hfiled hnodes).mp (mem_eligible.mp he).1
    obtain ⟨f, hf, hacc⟩ := Tree.node?_some.mp hn
    rw [(hfiled name f e hf hjson hacc).1]
    exact hn
  simp only [promoteBranchMemory, hnodes, bind_ok, Except.ok.injEq, exists_eq_left'] at h
  split at h
  · rename_i hempty
    simp only [pure, Except.pure, Except.ok.injEq, Prod.mk.injEq] at h
    obtain ⟨rfl, rfl⟩ := h
    rw [List.isEmpty_iff] at hempty
    exact ⟨[], by simp [hempty], by simp [promotionReport, hempty],
      hfiled, by simp, fun _ _ => rfl, rfl⟩
  · simp only [bind_ok, pure, Except.pure, Except.ok.injEq] at h
    obtain ⟨⟨outcome, final⟩, hguarded, hreport⟩ := h
    cases outcome with
    | done =>
        simp only [Prod.mk.injEq] at hreport
        obtain ⟨rfl, rfl⟩ := hreport
        obtain ⟨saved, hsaved, hops⟩ := runGuarded_done hguarded
        obtain ⟨name, -, hfiles⟩ := snapshotTree_ok hsaved
        have hsavedNodes : saved.nodes = tree.nodes := by rw [hfiles]
        have hsavedRaw : saved.raw = tree.raw := by rw [hfiles]
        have hstart : Promoting host project sourceBranch targetBranch tree [] saved :=
          ⟨fun name f n hf => hfiled name f n (hsavedNodes ▸ hf), by simp,
            fun name _ => by rw [hsavedNodes], hsavedRaw⟩
        obtain ⟨all, hall, hfinal⟩ := hstart.runAll (by simp)
          (fun e he => hcandidate e.1 (List.fst_mem_of_mem_zipIdx he)) hops
        refine ⟨all, fun e => ?_, rfl, hfinal⟩
        rw [hall, List.zipIdx_map_fst]
        simp
    | rolledBack e =>
        simp only [Prod.mk.injEq] at hreport
        obtain ⟨rfl, -⟩ := hreport
        cases hsuccess
    | notRolledBack e e' =>
        simp only [Prod.mk.injEq] at hreport
        obtain ⟨rfl, -⟩ := hreport
        cases hsuccess

/-- The node in a file after the promotion: a promoted candidate, or the node
that was there. -/
theorem Promoting.node_cases {all : List MemoryNode}
    (h : Promoting host project sourceBranch targetBranch tree all tree') {name : Text}
    {n : MemoryNode} (hn : tree'.node? host name = some n) :
    (∃ e ∈ all, ∃ at' now, n = promotedNode sourceBranch targetBranch e at' now) ∨
      tree.node? host name = some n := by
  by_cases hmem : ∃ e ∈ all, nodeName e.nodeId = name
  · obtain ⟨e, he, rfl⟩ := hmem
    obtain ⟨at', now, hat⟩ := h.promoted e he
    rw [hn] at hat
    exact .inl ⟨e, he, at', now, Option.some.inj hat⟩
  · have hsame := h.others name fun e he hname => hmem ⟨e, he, hname⟩
    rw [Tree.node?, hsame, ← Tree.node?] at hn
    exact .inr hn

/-- A promotion that reports success keeps the main nodes free of conflicts,
and does what it promises otherwise, exactly if its candidates do not
conflict with one another. -/
theorem promoteBranchMemory_kept_iff (hfiled : Filed host project tree)
    (hmain : MainConsistent host tree)
    (h : promoteBranchMemory host project sourceBranch targetBranch run tree = .ok (report, tree'))
    (hsuccess : report.error = none) :
    PromotionKept host sourceBranch tree report tree' ↔ CandidatesAgree host sourceBranch tree := by
  obtain ⟨nodes, hnodes⟩ : ∃ nodes, listNodes host tree = .ok nodes := by
    simp only [promoteBranchMemory, bind_ok] at h
    obtain ⟨nodes, hnodes, -⟩ := h
    exact ⟨nodes, hnodes⟩
  obtain ⟨all, hall, hpromoted, hfinal⟩ := promoteBranchMemory_success hfiled hnodes h hsuccess
  have hold : ∀ e ∈ eligible host sourceBranch nodes, ∀ name m, isJsonName name = true →
      tree.node? host name = some m → m.visibility = mainPromoted →
      conflictsWith host e m = false := by
    intro e he name m hjson hm hvisible
    have hmem := (mem_listNodes hfiled hnodes).mpr ⟨name, hjson, hm⟩
    have hnone := (mem_eligible.mp he).2.2
    rw [conflictsWithMain, List.any_eq_false] at hnone
    have hnot := hnone m (List.mem_filter.mpr ⟨hmem, by simpa using hvisible⟩)
    simpa using hnot
  constructor
  · intro hkept nodes' hnodes' n hn n' hn'
    obtain rfl : nodes = nodes' := Except.ok.inj (hnodes.symm.trans hnodes')
    obtain ⟨a, w, hat⟩ := hfinal.promoted n ((hall n).mpr hn)
    obtain ⟨a', w', hat'⟩ := hfinal.promoted n' ((hall n').mpr hn')
    have hfree := hkept.main _ _ _ _ (isJsonName_nodeName _) (isJsonName_nodeName _) hat hat' rfl rfl
    rwa [conflictsWith_promoted] at hfree
  · intro hagree
    refine ⟨?_, ?_, ?_, hfinal.raw⟩
    · intro name name' n n' hjson hjson' hn hn' hv hv'
      rcases hfinal.node_cases hn with ⟨e, he, a, w, rfl⟩ | hn
      · have he := (hall e).mp he
        rcases hfinal.node_cases hn' with ⟨e', he', a', w', rfl⟩ | hn'
        · rw [conflictsWith_promoted]
          exact hagree nodes hnodes e he e' ((hall e').mp he')
        · rw [conflictsWith_promoted_left]
          exact hold e he name' n' hjson' hn' hv'
      · rcases hfinal.node_cases hn' with ⟨e', he', a', w', rfl⟩ | hn'
        · rw [conflictsWith_comm, conflictsWith_promoted_left]
          exact hold e' ((hall e').mp he') name n hjson hn hv
        · exact hmain name name' n n' hjson hjson' hn hn' hv hv'
    · intro item hitem
      rw [hpromoted, List.mem_map] at hitem
      obtain ⟨e, he, rfl⟩ := hitem
      obtain ⟨name, hjson, hn⟩ := (mem_listNodes hfiled hnodes).mp (mem_eligible.mp he).1
      obtain ⟨f, hf, hacc⟩ := Tree.node?_some.mp hn
      refine ⟨e, ?_, (mem_eligible.mp he).2.1⟩
      rw [(hfiled name f e hf hjson hacc).1]
      exact hn
    · intro name hname
      refine hfinal.others name fun e he => ?_
      have hitem := hname ⟨e.nodeId, mainPromoted⟩
      rw [hpromoted] at hitem
      exact hitem (List.mem_map.mpr ⟨e, (hall e).mp he, rfl⟩)

end Kept

end RalphVault.Memory
