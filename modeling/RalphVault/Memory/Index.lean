import RalphVault.Memory.Query

/-!
# Memory tree — the index

The index of `scripts/memory/tree_store.py` and the payloads that
`scripts/memory/recall_v2.py` reads from it. An entry is as complete as a node
file, so that most payloads are entries; the postings tell which entries a
query can find. Identifiers of entries are texts.
-/

namespace RalphVault.Memory

/-- What a recall uses of `index.json`. -/
structure Index where
  nodes : List Fields
  postings : Option (List (Text × List Text))

/-- The tree of a project with its index, if it has a readable one. -/
structure NodeStore where
  tree : Tree
  index : Option Index

/-- A payload and the stem of the path it stands for. -/
structure Payload where
  stem : Text
  fields : Option Fields

/-- The identifier of an entry, if it has one. -/
def entryId (e : Fields) : Option Text :=
  (asText (e.getD (txt "node_id") .null)).filter fun id => !id.isEmpty

/-- `d[k]` if it is a list. -/
def itemsAt (d : Fields) (k : Text) : List Value :=
  match d.getD k .null with
  | .arr vs => vs
  | _ => []

/-- An entry is a complete payload if it has the keys of `_FAT_INDEX_KEYS`. -/
def isFat (e : Fields) : Bool :=
  [txt "authority", txt "sensitivity", txt "project_id"].all fun k => (e.get? k).isSome

section Index

variable (host : Host)

/-! ## Writing -/

/-- `" ".join(str(v) for v in vs)`. -/
def joinStr (vs : List Value) : Text := joinWith [' '] (vs.map (pyStr host))

def triggerText (e : Fields) : Text :=
  match e.getD (txt "trigger") .null with
  | .obj d => joinStr host (d.map Prod.snd)
  | v => pyStrOr host v

/-- The text of an entry that its tokens are taken from. -/
def entryText (e : Fields) : Text :=
  host.lower (joinWith [' ']
    [pyStr host (e.getD (txt "summary") (.str [])), triggerText host e,
     joinStr host (itemsAt e (txt "entities")), joinStr host (itemsAt e (txt "source_paths")),
     joinStr host (itemsAt e (txt "topic_tags")), joinStr host (itemsAt e (txt "links"))])

/-- `_entry_tokens`. -/
def entryTokens (e : Fields) : List Text :=
  ((runs (entryText host e)).filter fun tok => 3 ≤ tok.length).dedup

/-- `sorted(set(ids))`. -/
def sortedSet (ids : List Text) : List Text :=
  ids.dedup.insertionSort fun a b => textLt b a = false

/-- The tokens of the entries, each with the identifier of its entry. -/
def tokenPairs (entries : List Fields) : List (Text × Text) :=
  entries.flatMap fun e => match entryId e with
    | none => []
    | some id => (entryTokens host e).map fun tok => (tok, id)

/-- `_build_postings`. -/
def buildPostings (entries : List Fields) : List (Text × List Text) :=
  let pairs := tokenPairs host entries
  (pairs.map Prod.fst).dedup.map fun tok =>
    (tok, sortedSet ((pairs.filter fun pair => pair.1 = tok).map Prod.snd))

/-- The index `_write_index` makes of the nodes. -/
def indexOf (nodes : List MemoryNode) : Index :=
  ⟨nodes.map indexEntry, some (buildPostings host (nodes.map indexEntry))⟩

/-- The store after `_write_index`. -/
def indexed (tree : Tree) : Memo NodeStore := do
  let nodes ← listNodes host tree
  pure ⟨tree, some (indexOf host nodes)⟩

/-! ## Reading -/

/-- The payload of an identifier: its entry if that is complete, else what the
store loads. -/
def payloadOf (tree : Tree) (id : Text) (entry : Option Fields) : Memo Payload :=
  match entry.filter isFat with
  | some e => .ok ⟨id, some e⟩
  | none => do
      let node ← loadNode host tree id
      pure ⟨id, node.map MemoryNode.toFields⟩

/-- The node files, as they are. -/
def filePayloads (tree : Tree) : List Payload :=
  (tree.nodes.files.filter fun e => isNodeName e.1).map fun e => ⟨stem e.1, e.2.payload⟩

/-- `iter_node_payloads`. -/
def iterNodePayloads (store : NodeStore) : Memo (List Payload) :=
  match store.index with
  | some ⟨e :: es, _⟩ => ((e :: es).filterMap fun entry => (entryId entry).map (·, entry)).mapM
      fun (id, entry) => payloadOf host store.tree id (some entry)
  | _ => pure (filePayloads store.tree)

/-- `unindexed_payloads`. -/
def unindexedPayloads (tree : Tree) (entries : List Fields) : List Payload :=
  (filePayloads tree).filter fun p => !(entries.filterMap entryId).contains p.stem

/-- The identifiers with a token that contains a search term. -/
def candidateIds (postings : List (Text × List Text)) (searchTerms : List Text) : List Text :=
  ((postings.filter fun (tok, _) => searchTerms.any fun s => contains s tok).flatMap
    Prod.snd).dedup

/-- `by_id`: the last entry of an identifier counts. -/
def entryById (entries : List Fields) (id : Text) : Option Fields :=
  entries.reverse.find? fun e => isText (e.getD (txt "node_id") .null) id

/-- `candidate_payloads`. The identifiers come as a set; `order` lists them as
the set is gone through. -/
def candidatePayloads (order : List Text → List Text) (store : NodeStore) (analysis : Analysis) :
    Memo (List Payload) :=
  match store.index with
  | some ⟨entries, some postings⟩ =>
      let searchTerms := analysis.searchTerms.filter fun s => !s.isEmpty
      let unindexed := unindexedPayloads store.tree entries
      if searchTerms.isEmpty then pure unindexed
      else do
        let found ← (order (candidateIds postings searchTerms)).mapM fun id =>
          payloadOf host store.tree id (entryById entries id)
        pure (found ++ unindexed)
  | _ => iterNodePayloads host store

end Index

/-- An order in which sets are gone through. -/
def SetOrder (order : List Text → List Text) : Prop := ∀ ids, (order ids).Perm ids

/-! ## Tokens and identifiers -/

section Tokens

variable {host : Host}

/-- A search term is found in a token of an entry if it is found in the text
of the entry. -/
theorem exists_token_iff {e : Fields} {s : Text} (hlen : 3 ≤ s.length)
    (hchars : ∀ c ∈ s, isTermChar c = true) :
    (∃ tok ∈ entryTokens host e, contains s tok = true) ↔
      contains s (entryText host e) = true := by
  have hne : s ≠ [] := by
    rintro rfl
    simp at hlen
  rw [Security.contains_iff, ← exists_run_iff hne hchars]
  constructor
  · rintro ⟨tok, htok, hin⟩
    rw [entryTokens, List.mem_dedup, List.mem_filter] at htok
    exact ⟨tok, htok.1, Security.contains_iff.mp hin⟩
  · rintro ⟨tok, htok, hin⟩
    refine ⟨tok, ?_, Security.contains_iff.mpr hin⟩
    rw [entryTokens, List.mem_dedup, List.mem_filter]
    exact ⟨htok, by simpa using hlen.trans hin.length_le⟩

theorem mem_tokenPairs {entries : List Fields} {tok id : Text} :
    (tok, id) ∈ tokenPairs host entries ↔
      ∃ e ∈ entries, entryId e = some id ∧ tok ∈ entryTokens host e := by
  simp only [tokenPairs, List.mem_flatMap]
  constructor
  · rintro ⟨e, he, hmem⟩
    cases hid : entryId e with
    | none => simp [hid] at hmem
    | some id' =>
        simp only [hid, List.mem_map, Prod.mk.injEq] at hmem
        obtain ⟨tok', htok, rfl, rfl⟩ := hmem
        exact ⟨e, he, hid, htok⟩
  · rintro ⟨e, he, hid, htok⟩
    exact ⟨e, he, by simp [hid, htok]⟩

theorem mem_sortedSet {ids : List Text} {id : Text} : id ∈ sortedSet ids ↔ id ∈ ids := by
  rw [sortedSet, (List.perm_insertionSort _ _).mem_iff, List.mem_dedup]

/-- The postings find an entry by its tokens. -/
theorem mem_candidateIds {entries : List Fields} {searchTerms : List Text} {id : Text} :
    id ∈ candidateIds (buildPostings host entries) searchTerms ↔
      ∃ e ∈ entries, entryId e = some id ∧
        ∃ s ∈ searchTerms, ∃ tok ∈ entryTokens host e, contains s tok = true := by
  simp only [candidateIds, buildPostings, List.mem_dedup, List.mem_flatMap, List.mem_filter,
    List.mem_map, List.any_eq_true]
  constructor
  · rintro ⟨_, ⟨⟨tok, -, rfl⟩, s, hs, hin⟩, hid⟩
    simp only [mem_sortedSet, List.mem_map, List.mem_filter, decide_eq_true_eq] at hid
    obtain ⟨⟨tok', id'⟩, ⟨hpair, rfl⟩, rfl⟩ := hid
    obtain ⟨e, he, hid, htok⟩ := mem_tokenPairs.mp hpair
    exact ⟨e, he, hid, s, hs, _, htok, hin⟩
  · rintro ⟨e, he, hid, s, hs, tok, htok, hin⟩
    have hpair := mem_tokenPairs.mpr ⟨e, he, hid, htok⟩
    refine ⟨_, ⟨⟨tok, ⟨(tok, id), hpair, rfl⟩, rfl⟩, s, hs, hin⟩, ?_⟩
    simp only [mem_sortedSet, List.mem_map, List.mem_filter, decide_eq_true_eq]
    exact ⟨(tok, id), ⟨hpair, rfl⟩, rfl⟩

theorem candidateIds_nodup (postings : List (Text × List Text)) (searchTerms : List Text) :
    (candidateIds postings searchTerms).Nodup := List.nodup_dedup _

end Tokens

end RalphVault.Memory
