import RalphVault.Memory.Recall

/-!
# Memory tree — recall through the postings

Whether a recall finds through the postings what a recall over every node
finds. The postings are made of the texts in an entry, while a score looks at
the `str` of its members, the keys of the trigger included.
-/

namespace RalphVault.Memory

/-! ## Trees the store has written -/

section Written

variable {host : Host} {project : Text} {tree : Tree} {cut : Cut}

/-- Every file is one the store wrote. -/
def StoreWritten (host : Host) (project : Text) (tree : Tree) : Prop :=
  ∀ name f, tree.nodes.get? name = some f → ∃ n : MemoryNode, n.Valid host ∧
    strip n.projectId = strip project ∧ name = nodeName n.nodeId ∧ f = fileOf host n

theorem StoreWritten.empty : StoreWritten host project Tree.empty := by
  intro name f hf
  cases hf

theorem StoreWritten.write {n : MemoryNode} (h : StoreWritten host project tree) (hn : n.Valid host) :
    StoreWritten host project (tree.write host project n) := by
  by_cases hproject : strip n.projectId = strip project
  · intro name f hf
    rw [Tree.write_get? hproject] at hf
    split at hf
    · rename_i hname
      cases hf
      exact ⟨n, hn, hproject, hname.symm, rfl⟩
    · exact h name f hf
  · rw [Tree.write, putNode, if_neg hproject]
    exact h

/-- The nodes of a tree in the order of their files. -/
structure Stored (host : Host) (nodes : List MemoryNode) (tree : Tree) : Prop where
  files : tree.nodes.files = nodes.map fun n => (nodeName n.nodeId, fileOf host n)
  valid : ∀ n ∈ nodes, n.Valid host

theorem exists_map {β γ : Type} {P : β → Prop} {g : β → γ} {l : List γ}
    (h : ∀ c ∈ l, ∃ b, P b ∧ c = g b) : ∃ bs : List β, l = bs.map g ∧ ∀ b ∈ bs, P b := by
  induction l with
  | nil => exact ⟨[], rfl, by simp⟩
  | cons c l ih =>
      obtain ⟨b, hb, rfl⟩ := h c (by simp)
      obtain ⟨bs, rfl, hbs⟩ := ih fun c' hc' => h c' (by simp [hc'])
      exact ⟨b :: bs, rfl, by simpa [hb] using hbs⟩

theorem StoreWritten.stored (h : StoreWritten host project tree) : ∃ nodes, Stored host nodes tree := by
  have hall : ∀ e ∈ tree.nodes.files, ∃ n : MemoryNode, n.Valid host ∧
      e = (nodeName n.nodeId, fileOf host n) := by
    rintro ⟨name, f⟩ he
    obtain ⟨n, hn, -, rfl, rfl⟩ := h name f (Directory.mem_iff.mp he)
    exact ⟨n, hn, rfl⟩
  obtain ⟨nodes, hfiles, hvalid⟩ := exists_map hall
  exact ⟨nodes, hfiles, hvalid⟩

theorem mapM_ok_of {β γ : Type} {f : β → Memo γ} {g : β → γ} {xs : List β} (h : ∀ x ∈ xs, f x = .ok (g x)) :
    xs.mapM f = .ok (xs.map g) := by
  induction xs with
  | nil => rfl
  | cons x xs ih =>
      have hrest := ih fun x' hx' => h x' (by simp [hx'])
      simp [h x (by simp), hrest, bind, Except.bind, pure, Except.pure]

namespace Stored

variable {nodes : List MemoryNode} {n m : MemoryNode}

theorem names_nodup (h : Stored host nodes tree) :
    (nodes.map fun n => nodeName n.nodeId).Nodup := by
  have hnodup := tree.nodes.nodup
  rwa [h.files, List.map_map] at hnodup

theorem eq_of_name (h : Stored host nodes tree) (hn : n ∈ nodes) (hm : m ∈ nodes)
    (hname : nodeName n.nodeId = nodeName m.nodeId) : n = m :=
  List.inj_on_of_nodup_map h.names_nodup hn hm hname

theorem ids_nodup (h : Stored host nodes tree) : (nodes.map MemoryNode.nodeId).Nodup := by
  have hnames : (nodes.map fun n => nodeName n.nodeId) =
      (nodes.map MemoryNode.nodeId).map nodeName := by simp
  exact (hnames ▸ h.names_nodup).of_map

theorem node? (h : Stored host nodes tree) (hn : n ∈ nodes) :
    tree.node? host (nodeName n.nodeId) = some n := by
  have hmem : (nodeName n.nodeId, fileOf host n) ∈ tree.nodes.files := by
    rw [h.files]
    exact List.mem_map.mpr ⟨n, hn, rfl⟩
  exact Tree.node?_some.mpr ⟨_, Directory.mem_iff.mp hmem, fileOf_accepted (h.valid n hn)⟩

theorem mem_of_node? (h : Stored host nodes tree) {name : Text}
    (hn : tree.node? host name = some n) : n ∈ nodes := by
  obtain ⟨f, hf, hacc⟩ := Tree.node?_some.mp hn
  have hmem := Directory.mem_iff.mpr hf
  rw [h.files] at hmem
  obtain ⟨m, hm, heq⟩ := List.mem_map.mp hmem
  simp only [Prod.mk.injEq] at heq
  obtain ⟨-, rfl⟩ := heq
  rw [fileOf_accepted (h.valid m hm), Option.some.injEq] at hacc
  exact hacc ▸ hm

theorem listNodes (h : Stored host nodes tree) : listNodes host tree = .ok nodes := by
  have hnames : (tree.nodes.files.map Prod.fst).filter isNodeName =
      nodes.map fun n => nodeName n.nodeId := by
    rw [h.files, List.map_map, List.filter_eq_self.mpr]
    · rfl
    · intro name hname
      obtain ⟨n, hn, rfl⟩ := List.mem_map.mp hname
      exact (h.valid n hn).safeName.isNodeName
  have hload : (nodes.map fun n => nodeName n.nodeId).mapM
      (fun name => loadNode host tree (stem name)) = .ok (nodes.map some) := by
    rw [List.mapM_map]
    refine mapM_ok_of fun n hn => ?_
    have hsafe := (h.valid n hn).safeName
    rw [Function.comp_apply, stem_nodeName, loadNode_ok]
    refine ⟨hsafe.stripped, ?_⟩
    rw [nodeName, hsafe.strip_strip, ← nodeName]
    exact h.node? hn
  simp [Memory.listNodes, hnames, hload, bind, Except.bind, pure, Except.pure]

end Stored

end Written

/-! ## Ranking -/

section Ranking

variable {host : Host}

/-- What the loop of a recall sees of a match. -/
structure View where
  score : Rat
  key : Text
  item : Memo Fields

def View.before (v v' : View) : Prop :=
  v'.score < v.score ∨ v.score = v'.score ∧ textLt v'.key v.key = false

instance : DecidableRel View.before := fun v v' => by
  unfold View.before
  infer_instance

instance : Std.Total View.before where
  total v v' := by
    rcases lt_trichotomy v.score v'.score with h | h | h
    · exact .inr (.inl h)
    · cases hlt : textLt v'.key v.key with
      | false => exact .inl (.inr ⟨h, hlt⟩)
      | true =>
          refine .inr (.inr ⟨h.symm, ?_⟩)
          by_contra hlt'
          rw [Bool.not_eq_false] at hlt'
          have hself := textLt_trans hlt hlt'
          rw [textLt_irrefl] at hself
          cases hself
    · exact .inl (.inl h)

theorem textLt_false_trans {s t u : Text} (h : textLt t s = false) (h' : textLt u t = false) :
    textLt u s = false := by
  by_contra hlt
  rw [Bool.not_eq_false] at hlt
  by_cases hst : s = t
  · rw [← hst, hlt] at h'
    cases h'
  · have hts := textLt_trans hlt (textLt_total (Ne.symm hst) h)
    rw [h'] at hts
    cases hts

instance : IsTrans View View.before where
  trans u v w h h' := by
    rcases h with h | ⟨h, hkey⟩ <;> rcases h' with h' | ⟨h', hkey'⟩
    · exact .inl (h'.trans h)
    · exact .inl (h' ▸ h)
    · exact .inl (h ▸ h')
    · exact .inr ⟨h.trans h', textLt_false_trans hkey hkey'⟩

/-- The ranking does not depend on the order the matches come in, if their
identifiers differ. -/
theorem insertionSort_perm {l l' : List View} (h : l.Perm l') (hkeys : (l.map View.key).Nodup) :
    l.insertionSort View.before = l'.insertionSort View.before := by
  have hsort := List.perm_insertionSort View.before l
  refine @List.Perm.eq_of_pairwise _ View.before _ _ ?_ (List.pairwise_insertionSort _ _)
    (List.pairwise_insertionSort _ _)
    (hsort.trans (h.trans (List.perm_insertionSort View.before l').symm))
  intro v v' hv hv' hle hle'
  have hmem : v ∈ l := hsort.mem_iff.mp hv
  have hmem' : v' ∈ l := h.mem_iff.mpr ((List.perm_insertionSort View.before l').mem_iff.mp hv')
  refine List.inj_on_of_nodup_map hkeys hmem hmem' ?_
  rcases hle with hlt | ⟨heq, hkey⟩
  · rcases hle' with hlt' | ⟨heq', -⟩
    · exact absurd hlt (lt_asymm hlt')
    · exact absurd hlt (by simp [heq'])
  · rcases hle' with hlt' | ⟨-, hkey'⟩
    · exact absurd hlt' (by simp [heq])
    · by_contra hne
      have hlt := textLt_total hne hkey'
      rw [hkey] at hlt
      cases hlt

variable (env : RecallContext) (analysis : Analysis)

def viewOf (m : Match) : View :=
  ⟨m.score, m.key env.host, renderContext env.clock m.fields analysis.riskLevel m.score⟩

theorem rendered_eq (payloads : List Payload) :
    rendered env analysis payloads =
      (((matchesOf env analysis payloads).map (viewOf env analysis)).insertionSort
        View.before).map View.item := by
  rw [rendered, ranked, ← List.map_insertionSort (Match.before env.host) View.before _ _
    (fun _ _ _ _ => Iff.rfl), List.map_map]
  rfl

end Ranking

/-! ## Selection without bounds -/

section Select

variable {host : Host} {risk : Risk}

/-- A limit and a budget that are large enough let every item through. -/
theorem select_all {limit budget : Nat} {items : List Fields} {s : Selection}
    (hlimit : s.items.length + items.length ≤ limit)
    (hbudget : s.used + (items.map (estimateUnits host)).sum ≤ budget) :
    ∃ s', select host risk limit budget (items.map .ok) s = .ok s' ∧
      s'.items = s.items ++ items.map (withHint host risk) := by
  induction items generalizing s with
  | nil => exact ⟨s, rfl, by simp⟩
  | cons item items ih =>
      simp only [List.length_cons, List.map_cons, List.sum_cons] at hlimit hbudget
      have hlt : ¬ limit ≤ s.items.length := by omega
      have hfits : ¬ budget < s.used + estimateUnits host item := by omega
      obtain ⟨s', hs', hitems⟩ := ih (s := { s with
          items := s.items ++ [withHint host risk item]
          used := s.used + estimateUnits host item
          rawRecommended := s.rawRecommended ||
            truthy ((withHint host risk item).getD (txt "RAW_RECOMMENDED") .null) })
        (by simp only [List.length_append, List.length_singleton]; omega) (by simp only; omega)
      refine ⟨s', ?_, by simpa using hitems⟩
      simpa [select, hlt, hfits] using hs'

theorem withHint_nodeId (item : Fields) :
    (withHint host risk item).getD (txt "node_id") .null = item.getD (txt "node_id") .null := by
  unfold withHint
  split
  · rw [Fields.getD_set, if_neg (by decide), Fields.getD_set, if_neg (by decide)]
  · rfl

end Select

/-! ## Payloads of written nodes -/

section Payloads

variable {host : Host} {nodes : List MemoryNode} {tree : Tree}

def entryPayload (n : MemoryNode) : Payload := ⟨n.nodeId, some (indexEntry n)⟩

def nodePayload (n : MemoryNode) : Payload := ⟨strip n.nodeId, some n.toFields⟩

/-- A search term is found in the text of the entry. -/
def isPosted (host : Host) (analysis : Analysis) (n : MemoryNode) : Bool :=
  analysis.searchTerms.any fun s => contains s (entryText host (indexEntry n))

/-- The name of the file is not the identifier, so that the file counts as
one the index does not have. -/
def isReadAgain (n : MemoryNode) : Bool := strip n.nodeId != n.nodeId

theorem entry_nodeId (n : MemoryNode) (v : Value) :
    (indexEntry n).getD (txt "node_id") v = .str n.nodeId := rfl

/-- An entry is a complete payload. -/
theorem payloadOf_indexEntry (id : Text) (n : MemoryNode) :
    payloadOf host tree id (some (indexEntry n)) = .ok ⟨id, some (indexEntry n)⟩ := rfl

theorem entryId_indexEntry {n : MemoryNode} (h : n.Valid host) :
    entryId (indexEntry n) = some n.nodeId := by
  have hne : n.nodeId.isEmpty = false := by
    cases hid : n.nodeId with
    | nil =>
        have hsafe := h.safeName.safe
        rw [hid] at hsafe
        cases hsafe
    | cons c t => rfl
  simp [entryId, entry_nodeId, asText, hne]

namespace Stored

theorem entryIds (h : Stored host nodes tree) :
    (nodes.map indexEntry).filterMap entryId = nodes.map MemoryNode.nodeId := by
  rw [List.filterMap_map, ← List.filterMap_eq_map]
  refine List.filterMap_congr fun n hn => ?_
  simpa using entryId_indexEntry (h.valid n hn)

theorem entryById (h : Stored host nodes tree) {n : MemoryNode} (hn : n ∈ nodes) :
    entryById (nodes.map indexEntry) n.nodeId = some (indexEntry n) := by
  cases hfound : Memory.entryById (nodes.map indexEntry) n.nodeId with
  | none =>
      have hnone := List.find?_eq_none.mp hfound (indexEntry n)
        (List.mem_reverse.mpr (List.mem_map.mpr ⟨n, hn, rfl⟩))
      simp [entry_nodeId, isText, asText] at hnone
  | some e =>
      obtain ⟨m, hm, rfl⟩ := List.mem_map.mp (List.mem_reverse.mp (List.mem_of_find?_eq_some hfound))
      have hid := List.find?_some hfound
      simp only [entry_nodeId, isText, asText, beq_iff_eq, Option.some.injEq] at hid
      rw [List.inj_on_of_nodup_map h.ids_nodup hm hn hid]

theorem filePayloads (h : Stored host nodes tree) :
    filePayloads tree = nodes.map nodePayload := by
  rw [Memory.filePayloads, h.files, List.filter_eq_self.mpr]
  · rw [List.map_map]
    refine List.map_congr_left fun n _ => ?_
    simp [nodePayload, stem_nodeName, fileOf]
  · intro e he
    obtain ⟨n, hn, rfl⟩ := List.mem_map.mp he
    exact (h.valid n hn).safeName.isNodeName

theorem iterNodePayloads (h : Stored host nodes tree) :
    iterNodePayloads host ⟨tree, some (indexOf host nodes)⟩ = .ok (nodes.map entryPayload) := by
  have hpairs : (nodes.map indexEntry).filterMap (fun e => (entryId e).map (·, e)) =
      nodes.map fun n => (n.nodeId, indexEntry n) := by
    rw [List.filterMap_map, ← List.filterMap_eq_map]
    refine List.filterMap_congr fun n hn => ?_
    simp [entryId_indexEntry (h.valid n hn)]
  cases hnodes : nodes with
  | nil =>
      have hfiles := h.filePayloads
      rw [hnodes] at hfiles
      simp [Memory.iterNodePayloads, indexOf, hfiles, pure, Except.pure]
  | cons n rest =>
      rw [hnodes] at hpairs
      change List.mapM _ (List.filterMap _ (List.map indexEntry (n :: rest))) = _
      rw [hpairs, List.mapM_map]
      exact mapM_ok_of fun m _ => @payloadOf_indexEntry host tree m.nodeId m

/-- The file of a node is read again where its name is not the identifier. -/
theorem unindexedPayloads (h : Stored host nodes tree) :
    unindexedPayloads tree (nodes.map indexEntry) = (nodes.filter isReadAgain).map nodePayload := by
  rw [Memory.unindexedPayloads, h.entryIds, h.filePayloads, List.filter_map]
  congr 1
  refine List.filter_congr fun n hn => ?_
  have hcontains : (nodes.map MemoryNode.nodeId).contains (strip n.nodeId) =
      (strip n.nodeId == n.nodeId) := by
    rw [Bool.eq_iff_iff, List.contains_iff_mem, beq_iff_eq]
    constructor
    · intro hmem
      obtain ⟨m, hm, hid⟩ := List.mem_map.mp hmem
      have hname : nodeName m.nodeId = nodeName n.nodeId := by
        rw [nodeName, hid, (h.valid n hn).safeName.strip_strip, ← nodeName]
      rw [← hid, h.eq_of_name hm hn hname]
    · intro hid
      rw [hid]
      exact List.mem_map_of_mem hn
  exact congrArg not hcontains

/-- What the postings lead to. -/
theorem candidatePayloads (h : Stored host nodes tree) {query : Text}
    {order : List Text → List Text} (horder : SetOrder order) :
    ∃ payloads, candidatePayloads host order ⟨tree, some (indexOf host nodes)⟩
        (analyzeQuery host query) = .ok payloads ∧
      payloads.Perm
        ((nodes.filter (isPosted host (analyzeQuery host query))).map entryPayload ++
          (nodes.filter isReadAgain).map nodePayload) := by
  generalize hanalysis : analyzeQuery host query = analysis
  have hterm : ∀ s ∈ analysis.searchTerms, 3 ≤ s.length ∧ ∀ c ∈ s, isTermChar c = true :=
    fun s hs => mem_searchTerms (hanalysis ▸ hs)
  have hkept : analysis.searchTerms.filter (fun s => !s.isEmpty) = analysis.searchTerms := by
    refine List.filter_eq_self.mpr fun s hs => ?_
    have hlen := (hterm s hs).1
    cases s with
    | nil => simp at hlen
    | cons c s => rfl
  have hunindexed := h.unindexedPayloads
  unfold Memory.candidatePayloads
  simp only [indexOf, hkept]
  split
  · rename_i hempty
    have hnone : nodes.filter (isPosted host analysis) = [] :=
      List.filter_eq_nil_iff.mpr fun n _ => by simp [isPosted, List.isEmpty_iff.mp hempty]
    exact ⟨_, rfl, by rw [hunindexed, hnone]; exact .refl _⟩
  · have hids : (candidateIds (buildPostings host (nodes.map indexEntry))
        analysis.searchTerms).Perm ((nodes.filter (isPosted host analysis)).map
          MemoryNode.nodeId) := by
      refine (List.perm_ext_iff_of_nodup (candidateIds_nodup _ _)
        (h.ids_nodup.sublist (List.filter_sublist.map _))).mpr fun id => ?_
      simp only [mem_candidateIds, List.mem_map, List.mem_filter, isPosted, List.any_eq_true]
      constructor
      · rintro ⟨_, ⟨n, hn, rfl⟩, hid, s, hs, htok⟩
        rw [entryId_indexEntry (h.valid n hn), Option.some.injEq] at hid
        exact ⟨n, ⟨hn, s, hs, (exists_token_iff (hterm s hs).1 (hterm s hs).2).mp htok⟩, hid⟩
      · rintro ⟨n, ⟨hn, s, hs, hin⟩, rfl⟩
        exact ⟨_, ⟨n, hn, rfl⟩, entryId_indexEntry (h.valid n hn), s, hs,
          (exists_token_iff (hterm s hs).1 (hterm s hs).2).mpr hin⟩
    have horder' := (horder _).trans hids
    generalize order (candidateIds (buildPostings host (nodes.map indexEntry))
      analysis.searchTerms) = ids at horder'
    have hfound : ids.mapM (fun id => payloadOf host tree id
        (Memory.entryById (nodes.map indexEntry) id)) =
        .ok (ids.map fun id => ⟨id, Memory.entryById (nodes.map indexEntry) id⟩) := by
      refine mapM_ok_of fun id hid => ?_
      obtain ⟨n, hn, rfl⟩ := List.mem_map.mp (horder'.mem_iff.mp hid)
      rw [h.entryById (List.mem_of_mem_filter hn)]
      exact payloadOf_indexEntry n.nodeId n
    refine ⟨_, by rw [hfound]; rfl, ?_⟩
    rw [hunindexed]
    refine .append_right _ ((horder'.map _).trans (.of_eq ?_))
    rw [List.map_map]
    refine List.map_congr_left fun n hn => ?_
    simp [entryPayload, h.entryById (List.mem_of_mem_filter hn)]

end Stored

end Payloads

/-! ## Recall with and without the postings -/

section Lossless

variable (env : RecallContext)

/-- Recall through the index gives the items of the recall that scores every
node, at every limit and budget. -/
def Lossless (query : Text) (store : NodeStore) : Prop :=
  ∀ order, SetOrder order → ∀ limit budget,
    («recall» env order query limit budget store).map Report.memoryContext =
      (fullRecall env query limit budget store).map Report.memoryContext

/-- The payload is not rejected and has a score. -/
def isRecalled (analysis : Analysis) (d : Fields) : Bool :=
  (hardRejectReason env.host (some d) env.context env.includeDeprecated analysis).isNone &&
    0 < scoreNode env.host env.clock d analysis

/-- The entry is recalled, and a search term is found in its text. -/
def isFoundByEntry (analysis : Analysis) (n : MemoryNode) : Bool :=
  isPosted env.host analysis n && isRecalled env analysis (indexEntry n)

/-- The file is recalled, and it is read beside the entry. -/
def isFoundByFile (analysis : Analysis) (n : MemoryNode) : Bool :=
  isReadAgain n && isRecalled env analysis n.toFields

/-- A node is found, by its entry or by its file and not by both, if its entry
is recalled. -/
structure FoundOnce (analysis : Analysis) (n : MemoryNode) : Prop where
  found : isRecalled env analysis (indexEntry n) =
    (isFoundByEntry env analysis n || isFoundByFile env analysis n)
  once : (isFoundByEntry env analysis n && isFoundByFile env analysis n) = false

variable {env} {nodes : List MemoryNode} {tree : Tree} {analysis : Analysis}

/-- A node file scores as its entry does. -/
theorem scoreNode_toFields (host : Host) (clock : Clock) (n : MemoryNode) :
    scoreNode host clock n.toFields analysis = scoreNode host clock (indexEntry n) analysis := rfl

/-- A node file is shown as its entry is. -/
theorem renderContext_toFields (clock : Clock) (n : MemoryNode) (risk : Risk) (score : Rat) :
    renderContext clock n.toFields risk score = renderContext clock (indexEntry n) risk score := by
  have hraw : ∀ r, renderContext clock { n with rawRef := r }.toFields risk score =
      renderContext clock (indexEntry { n with rawRef := r }) risk score := by
    rintro (_ | _ | _) <;> cases risk <;> rfl
  exact hraw n.rawRef

/-- What the loop sees of a node. -/
def shown (env : RecallContext) (analysis : Analysis) (n : MemoryNode) : View :=
  ⟨scoreNode env.host env.clock (indexEntry n) analysis, n.nodeId,
    renderContext env.clock (indexEntry n) analysis.riskLevel
      (scoreNode env.host env.clock (indexEntry n) analysis)⟩

theorem judge_toOption (stem : Text) (d : Fields) :
    (judge env analysis ⟨stem, some d⟩).toOption =
      if isRecalled env analysis d then some ⟨scoreNode env.host env.clock d analysis, d⟩
      else none := by
  unfold judge isRecalled
  cases hreason : hardRejectReason env.host (some d) env.context env.includeDeprecated analysis with
  | some reason => simp [Except.toOption]
  | none =>
      by_cases hscore : scoreNode env.host env.clock d analysis ≤ 0
      · simp [hscore, not_lt.mpr hscore, Except.toOption]
      · simp [hscore, not_le.mp hscore, Except.toOption]

/-- The matches among payloads that show as their nodes do. -/
theorem views_map {payload : MemoryNode → Payload} {fields : MemoryNode → Fields}
    (hfields : ∀ n, (payload n).fields = some (fields n))
    (hview : ∀ n, viewOf env analysis
      ⟨scoreNode env.host env.clock (fields n) analysis, fields n⟩ = shown env analysis n)
    (ns : List MemoryNode) :
    (matchesOf env analysis (ns.map payload)).map (viewOf env analysis) =
      (ns.filter fun n => isRecalled env analysis (fields n)).map (shown env analysis) := by
  have hjudge : ∀ n, (judge env analysis (payload n)).toOption =
      if isRecalled env analysis (fields n) then
        some ⟨scoreNode env.host env.clock (fields n) analysis, fields n⟩ else none := fun n => by
    rw [← judge_toOption (payload n).stem, ← hfields]
  induction ns with
  | nil => rfl
  | cons n ns ih =>
      have hn := hjudge n
      rw [List.map_cons, matchesOf]
      rw [matchesOf] at ih
      split at hn
      · rename_i h
        simp only [List.filterMap_cons, hn, List.map_cons, hview]
        rw [ih, List.filter_cons, if_pos h, List.map_cons]
      · rename_i h
        simp only [List.filterMap_cons, hn]
        rw [ih, List.filter_cons, if_neg h]

variable {host : Host}

/-- The nodes a recall finds, a node once for each payload. -/
theorem views_candidates (h : Stored env.host nodes tree) {query : Text}
    {order : List Text → List Text} (horder : SetOrder order) :
    ∃ payloads, candidatePayloads env.host order ⟨tree, some (indexOf env.host nodes)⟩
        (analyzeQuery env.host query) = .ok payloads ∧
      ((matchesOf env (analyzeQuery env.host query) payloads).map
          (viewOf env (analyzeQuery env.host query))).Perm
        ((nodes.filter (isFoundByEntry env (analyzeQuery env.host query)) ++
          nodes.filter (isFoundByFile env (analyzeQuery env.host query))).map
            (shown env (analyzeQuery env.host query))) := by
  obtain ⟨payloads, hpayloads, hperm⟩ := @Stored.candidatePayloads _ _ _ h query _ horder
  generalize analyzeQuery env.host query = analysis at hpayloads hperm ⊢
  refine ⟨payloads, hpayloads, ((hperm.filterMap _).map _).trans (.of_eq ?_)⟩
  rw [List.filterMap_append, List.map_append, List.map_append]
  congr 1
  · refine (@views_map env analysis entryPayload indexEntry (fun _ => rfl)
      (fun _ => rfl) _).trans ?_
    rw [List.filter_filter]
    exact congrArg _ (List.filter_congr fun n _ => Bool.and_comm _ _)
  · refine (@views_map env analysis nodePayload MemoryNode.toFields (fun _ => rfl)
      (fun n => ?_) _).trans ?_
    · simp only [viewOf, shown, scoreNode_toFields, renderContext_toFields]
      rfl
    · rw [List.filter_filter]
      exact congrArg _ (List.filter_congr fun n _ => Bool.and_comm _ _)

/-- The nodes are the entries of the index. -/
theorem views_full (h : Stored env.host nodes tree) :
    ∃ payloads, iterNodePayloads env.host ⟨tree, some (indexOf env.host nodes)⟩ = .ok payloads ∧
      (matchesOf env analysis payloads).map (viewOf env analysis) =
        (nodes.filter fun n => isRecalled env analysis (indexEntry n)).map (shown env analysis) :=
  ⟨_, h.iterNodePayloads, views_map (fun _ => rfl) (fun _ => rfl) nodes⟩

/-- A part of the nodes has an identifier once, if it has its node. -/
theorem count_filter (h : Stored env.host nodes tree) {n : MemoryNode} (hn : n ∈ nodes)
    (p : MemoryNode → Bool) :
    ((nodes.filter p).map MemoryNode.nodeId).count n.nodeId = (p n).toNat := by
  have hnodup : ((nodes.filter p).map MemoryNode.nodeId).Nodup :=
    h.ids_nodup.sublist (List.filter_sublist.map _)
  cases hp : p n with
  | true =>
      exact List.count_eq_one_of_mem hnodup
        (List.mem_map.mpr ⟨n, List.mem_filter.mpr ⟨hn, hp⟩, rfl⟩)
  | false =>
      refine List.count_eq_zero_of_not_mem fun hmem => ?_
      obtain ⟨m, hm, hid⟩ := List.mem_map.mp hmem
      obtain ⟨hm, hpm⟩ := List.mem_filter.mp hm
      rw [List.inj_on_of_nodup_map h.ids_nodup hm hn hid, hp] at hpm
      cases hpm

/-- Where every node is found once, the parts make up the nodes that are
recalled. -/
theorem perm_of_foundOnce (h : ∀ n ∈ nodes, FoundOnce env analysis n) :
    (nodes.filter (isFoundByEntry env analysis) ++ nodes.filter (isFoundByFile env analysis)).Perm
      (nodes.filter fun n => isRecalled env analysis (indexEntry n)) := by
  have hentry : nodes.filter (isFoundByEntry env analysis) =
      (nodes.filter fun n => isRecalled env analysis (indexEntry n)).filter
        (isFoundByEntry env analysis) := by
    rw [List.filter_filter]
    refine List.filter_congr fun n hn => ?_
    rw [(h n hn).found]
    cases isFoundByEntry env analysis n <;> rfl
  have hfile : nodes.filter (isFoundByFile env analysis) =
      (nodes.filter fun n => isRecalled env analysis (indexEntry n)).filter
        fun n => !isFoundByEntry env analysis n := by
    rw [List.filter_filter]
    refine List.filter_congr fun n hn => ?_
    have honce := (h n hn).once
    rw [(h n hn).found]
    cases hby : isFoundByEntry env analysis n with
    | true =>
        rw [hby, Bool.true_and] at honce
        rw [honce]
        rfl
    | false => simp
  rw [hentry, hfile]
  exact List.filter_append_perm _ _

/-- Where the identifiers agree, every node is found once. -/
theorem foundOnce_of_perm (h : Stored env.host nodes tree)
    (hperm : ((nodes.filter (isFoundByEntry env analysis) ++
        nodes.filter (isFoundByFile env analysis)).map MemoryNode.nodeId).Perm
      ((nodes.filter fun n => isRecalled env analysis (indexEntry n)).map MemoryNode.nodeId))
    {n : MemoryNode} (hn : n ∈ nodes) : FoundOnce env analysis n := by
  have hcount := hperm.count_eq n.nodeId
  rw [List.map_append, List.count_append, count_filter h hn, count_filter h hn,
    count_filter h hn fun n => isRecalled env analysis (indexEntry n)] at hcount
  constructor
  · revert hcount
    cases isFoundByEntry env analysis n <;> cases isFoundByFile env analysis n <;>
      cases isRecalled env analysis (indexEntry n) <;> simp
  · revert hcount
    cases isFoundByEntry env analysis n <;> cases isFoundByFile env analysis n <;>
      cases isRecalled env analysis (indexEntry n) <;> simp

/-! ### What the loop makes of the nodes -/

theorem recallOver_items (limit budget : Nat) (payloads : List Payload) :
    (recallOver env analysis limit budget payloads).map Report.memoryContext =
      (select env.host analysis.riskLevel limit budget (rendered env analysis payloads)
        ⟨[], 0, [], analysis.riskLevel = .high⟩).map Selection.items := by
  unfold recallOver
  cases select env.host analysis.riskLevel limit budget (rendered env analysis payloads)
    ⟨[], 0, [], analysis.riskLevel = .high⟩ <;> rfl

/-- The items of shown nodes, with their identifiers. -/
theorem exists_items {views : List View}
    (h : ∀ v ∈ views, ∃ n, v = shown env analysis n) :
    ∃ items : List Fields, views.map View.item = items.map .ok ∧
      items.map (fun item => item.getD (txt "node_id") .null) =
        views.map fun v => Value.str v.key := by
  induction views with
  | nil => exact ⟨[], rfl, rfl⟩
  | cons v views ih =>
      obtain ⟨n, rfl⟩ := h v (by simp)
      obtain ⟨items, hitems, hids⟩ := ih fun v' hv' => h v' (by simp [hv'])
      obtain ⟨item, hitem, hid⟩ : ∃ item, (shown env analysis n).item = .ok item ∧
          item.getD (txt "node_id") .null = .str n.nodeId := ⟨_, rfl, rfl⟩
      exact ⟨item :: items, by simp [hitem, hitems], by simp [hid, hids, shown]⟩

/-- At a large limit and budget a recall shows the identifiers of all
matches. -/
theorem recallOver_ids {payloads : List Payload} {ns : List MemoryNode}
    (hviews : ((matchesOf env analysis payloads).map (viewOf env analysis)).Perm
      (ns.map (shown env analysis))) :
    ∃ (bound : Nat) (ids : List Value), ids.Perm (ns.map fun n => Value.str n.nodeId) ∧
      ∀ limit budget, bound ≤ limit → bound ≤ budget → ∃ items : List Fields,
        (recallOver env analysis limit budget payloads).map Report.memoryContext = .ok items ∧
          items.map (fun item => item.getD (txt "node_id") .null) = ids := by
  have hsorted := (List.perm_insertionSort View.before
    ((matchesOf env analysis payloads).map (viewOf env analysis))).trans hviews
  obtain ⟨items, hitems, hids⟩ := @exists_items env analysis _
    fun v hv => by
      obtain ⟨n, -, hn⟩ := List.mem_map.mp (hsorted.mem_iff.mp hv)
      exact ⟨n, hn.symm⟩
  refine ⟨items.length + (items.map (estimateUnits env.host)).sum,
    items.map fun item => item.getD (txt "node_id") .null, ?_, ?_⟩
  · rw [hids]
    exact (hsorted.map fun v => Value.str v.key).trans (.of_eq (by rw [List.map_map]))
  · intro limit budget hlimit hbudget
    obtain ⟨s, hs, hsitems⟩ := @select_all env.host analysis.riskLevel limit budget items
      ⟨[], 0, [], analysis.riskLevel = .high⟩ (by simp only [List.length_nil]; omega)
      (by simp only; omega)
    refine ⟨s.items, ?_, ?_⟩
    · rw [recallOver_items, rendered_eq, hitems, hs]
      rfl
    · rw [hsitems, List.nil_append, List.map_map]
      exact List.map_congr_left fun item _ => withHint_nodeId item

/-- The recalls of a written tree, by the payloads they go over. -/
structure Recalls (env : RecallContext) (query : Text) (nodes : List MemoryNode)
    (store : NodeStore) : Prop where
  stored : Stored env.host nodes store.tree
  candidates : ∀ order, SetOrder order → ∃ payloads,
    ((matchesOf env (analyzeQuery env.host query) payloads).map
        (viewOf env (analyzeQuery env.host query))).Perm
      ((nodes.filter (isFoundByEntry env (analyzeQuery env.host query)) ++
        nodes.filter (isFoundByFile env (analyzeQuery env.host query))).map
          (shown env (analyzeQuery env.host query))) ∧
    ∀ limit budget, «recall» env order query limit budget store =
      recallOver env (analyzeQuery env.host query) limit budget payloads
  full : ∃ payloads,
    (matchesOf env (analyzeQuery env.host query) payloads).map
        (viewOf env (analyzeQuery env.host query)) =
      (nodes.filter fun n => isRecalled env (analyzeQuery env.host query) (indexEntry n)).map
        (shown env (analyzeQuery env.host query)) ∧
    ∀ limit budget, fullRecall env query limit budget store =
      recallOver env (analyzeQuery env.host query) limit budget payloads

theorem Stored.indexed (h : Stored host nodes tree) :
    indexed host tree = .ok ⟨tree, some (indexOf host nodes)⟩ := by
  simp [Memory.indexed, h.listNodes, bind, Except.bind, pure, Except.pure]

theorem Stored.recalls (h : Stored env.host nodes tree) (query : Text) :
    Recalls env query nodes ⟨tree, some (indexOf env.host nodes)⟩ := by
  refine ⟨h, fun order horder => ?_, ?_⟩
  · obtain ⟨payloads, hpayloads, hviews⟩ := @views_candidates env _ _ h query order horder
    refine ⟨payloads, hviews, fun limit budget => ?_⟩
    simp only [«recall», hpayloads, bind, Except.bind]
  · obtain ⟨payloads, hpayloads, hviews⟩ := @views_full env _ _ (analyzeQuery env.host query) h
    refine ⟨payloads, hviews, fun limit budget => ?_⟩
    simp only [fullRecall, hpayloads, bind, Except.bind]

namespace Recalls

variable {query : Text} {store : NodeStore}

theorem foundOnce (h : Recalls env query nodes store) (hlossless : Lossless env query store)
    {n : MemoryNode} (hn : n ∈ nodes) : FoundOnce env (analyzeQuery env.host query) n := by
  refine foundOnce_of_perm h.stored ?_ hn
  obtain ⟨payloads, hviews, hrecall⟩ := h.candidates id fun ids => .refl ids
  obtain ⟨full, hfullviews, hfull⟩ := h.full
  obtain ⟨bound, ids, hids, hshow⟩ := recallOver_ids hviews
  obtain ⟨bound', ids', hids', hshow'⟩ := recallOver_ids (.of_eq hfullviews)
  have heq := hlossless id (fun ids => .refl ids) (bound + bound') (bound + bound')
  rw [hrecall, hfull] at heq
  obtain ⟨items, hitems, rfl⟩ := hshow (bound + bound') (bound + bound') (by omega) (by omega)
  obtain ⟨items', hitems', rfl⟩ := hshow' (bound + bound') (bound + bound') (by omega) (by omega)
  rw [hitems, hitems', Except.ok.injEq] at heq
  rw [heq] at hids
  have htexts : ∀ ns : List MemoryNode,
      (ns.map fun n => Value.str n.nodeId).filterMap asText = ns.map MemoryNode.nodeId :=
    fun ns => by
      rw [List.filterMap_map, ← List.filterMap_eq_map]
      rfl
  have hvalues := (hids.symm.trans hids').filterMap asText
  rwa [htexts, htexts] at hvalues

theorem lossless (h : Recalls env query nodes store)
    (hfound : ∀ n ∈ nodes, FoundOnce env (analyzeQuery env.host query) n) :
    Lossless env query store := by
  intro order horder limit budget
  obtain ⟨payloads, hviews, hrecall⟩ := h.candidates order horder
  obtain ⟨full, hfullviews, hfull⟩ := h.full
  have hsame := hviews.trans ((perm_of_foundOnce hfound).map _)
  rw [← hfullviews] at hsame
  have hkeys : (((matchesOf env (analyzeQuery env.host query) full).map
      (viewOf env (analyzeQuery env.host query))).map View.key).Nodup := by
    rw [hfullviews, List.map_map]
    exact h.stored.ids_nodup.sublist (List.filter_sublist.map _)
  rw [hrecall, hfull, recallOver_items, recallOver_items, rendered_eq, rendered_eq,
    insertionSort_perm hsame.symm hkeys]

end Recalls

/-- Recall through the index of a written tree loses nothing exactly if every
node whose entry is recalled is found once. -/
theorem recall_lossless_iff {project query : Text} {store : NodeStore}
    (hwritten : StoreWritten env.host project tree) (hindexed : indexed env.host tree = .ok store) :
    Lossless env query store ↔ ∀ name n, tree.node? env.host name = some n →
      FoundOnce env (analyzeQuery env.host query) n := by
  obtain ⟨nodes, h⟩ := hwritten.stored
  obtain rfl : store = ⟨tree, some (indexOf env.host nodes)⟩ :=
    Except.ok.inj (hindexed.symm.trans h.indexed)
  constructor
  · intro hlossless name n hn
    exact (h.recalls query).foundOnce hlossless (h.mem_of_node? hn)
  · intro hfound
    exact (h.recalls query).lossless fun n hn => hfound _ n (h.node? hn)

/-- A node with the word `terms` as a key of its trigger. -/
def keyedNode : MemoryNode :=
  { plainNode demoProject (txt "n1") devBranch (txt "note") with
    trigger := [(txt "terms", .arr [.str (txt "alpha")])] }

def keyedTree : Tree := Tree.empty.write demoHost demoProject keyedNode

def demoRecall : RecallContext where
  host := demoHost
  clock := ⟨fun _ => none, id⟩
  context := ⟨demoProject, [], devBranch⟩
  includeDeprecated := false

def keyQuery : Text := txt "terms"

theorem keyedNode_valid : keyedNode.Valid demoHost :=
  (MemoryNode.isValid_iff demoHost _).mp (by decide)

theorem keyedTree_written : StoreWritten demoHost demoProject keyedTree :=
  StoreWritten.empty.write keyedNode_valid

theorem keyedTree_stored : Stored demoHost [keyedNode] keyedTree :=
  ⟨rfl, by simpa using keyedNode_valid⟩

theorem keyedNode_recalled :
    isRecalled demoRecall (analyzeQuery demoHost keyQuery) (indexEntry keyedNode) = true := by
  have hquiet : containsRed demoHost (.obj (safeFields (indexEntry keyedNode))) = false :=
    redText_of_quiet demoHost (by decide +kernel) (by decide +kernel)
  have hvalid : (entryNode keyedNode).isValid demoHost = true := by decide
  have hreason : hardRejectReason demoHost (some (indexEntry keyedNode)) demoRecall.context false
      (analyzeQuery demoHost keyQuery) = none := by
    unfold hardRejectReason
    simp only [hquiet, fromDict_indexEntry, hvalid]
    decide
  have hscore : 0 < scoreNode demoHost demoRecall.clock (indexEntry keyedNode)
      (analyzeQuery demoHost keyQuery) := by
    decide +kernel
  exact Bool.and_eq_true_iff.mpr ⟨Option.isNone_iff_eq_none.mpr hreason, decide_eq_true hscore⟩

theorem keyedNode_not_found :
    isFoundByEntry demoRecall (analyzeQuery demoHost keyQuery) keyedNode = false ∧
      isFoundByFile demoRecall (analyzeQuery demoHost keyQuery) keyedNode = false := by
  have hposted : isPosted demoHost (analyzeQuery demoHost keyQuery) keyedNode = false := by
    decide
  have hagain : isReadAgain keyedNode = false := by decide
  simp [isFoundByEntry, isFoundByFile, demoRecall, hposted, hagain]

def keyedStore : NodeStore := ⟨keyedTree, some (indexOf demoHost [keyedNode])⟩

theorem keyedStore_indexed : indexed demoHost keyedTree = .ok keyedStore :=
  keyedTree_stored.indexed

/-- The recall that scores every node finds the node by the key, the one
through the index does not. -/
theorem keyedStore_not_lossless : ¬ Lossless demoRecall keyQuery keyedStore := by
  intro hlossless
  have hrecalls : Recalls demoRecall keyQuery [keyedNode] keyedStore :=
    Stored.recalls keyedTree_stored keyQuery
  have hfound : isRecalled demoRecall (analyzeQuery demoHost keyQuery) (indexEntry keyedNode) =
      (isFoundByEntry demoRecall (analyzeQuery demoHost keyQuery) keyedNode ||
        isFoundByFile demoRecall (analyzeQuery demoHost keyQuery) keyedNode) :=
    (hrecalls.foundOnce hlossless (List.mem_singleton_self keyedNode)).found
  rw [keyedNode_recalled, keyedNode_not_found.1, keyedNode_not_found.2] at hfound
  cases hfound

/-- The condition at the node with the key. -/
theorem keyedStore_lossless_iff : Lossless demoRecall keyQuery keyedStore ↔
    ∀ name n, keyedTree.node? demoHost name = some n →
      FoundOnce demoRecall (analyzeQuery demoHost keyQuery) n :=
  recall_lossless_iff keyedTree_written keyedStore_indexed

end Lossless

end RalphVault.Memory
