import RalphVault.Memory.Budget
import Mathlib

/-!
# Memory tree — recall beside rejected nodes

A store with further nodes, all of them rejected, against the store without
them: in the index or only among the files, with entries that are complete or
not. A set is gone through in any order, so that what a recall can show is a
set of outcomes.
-/

namespace RalphVault.Memory

/-! ## Lists with further items -/

/-- The second list is the first one with further items that have the
property. -/
inductive Adds {β : Type} (P : β → Prop) : List β → List β → Prop where
  | nil : Adds P [] []
  | keep {b : β} {l l' : List β} : Adds P l l' → Adds P (b :: l) (b :: l')
  | add {b : β} {l l' : List β} : P b → Adds P l l' → Adds P l (b :: l')

namespace Adds

variable {β γ : Type} {P : β → Prop} {l l' : List β}

theorem filterMap {f f' : β → Option γ} (h : Adds P l l') (hold : ∀ b ∈ l, f' b = f b)
    (hnew : ∀ b, P b → f' b = none) : l'.filterMap f' = l.filterMap f := by
  induction h with
  | nil => rfl
  | @keep b l l' _ ih =>
      simp only [List.filterMap_cons, hold b (by simp),
        ih fun b' hb' => hold b' (by simp [hb'])]
  | @add b l l' hb _ ih => simp only [List.filterMap_cons, hnew b hb, ih hold]

theorem map {Q : γ → Prop} {f : β → Option γ} (h : Adds P l l')
    (hQ : ∀ b, P b → ∀ c, f b = some c → Q c) :
    Adds Q (l.filterMap f) (l'.filterMap f) := by
  induction h with
  | nil => exact .nil
  | @keep b l l' _ ih =>
      cases hb : f b with
      | none => simpa [hb] using ih
      | some c => simpa [hb] using ih.keep
  | @add b l l' hadd _ ih =>
      cases hb : f b with
      | none => simpa [hb] using ih
      | some c => simpa [hb] using ih.add (hQ b hadd c hb)

theorem mem (h : Adds P l l') {b : β} (hb : b ∈ l) : b ∈ l' := by
  induction h with
  | nil => cases hb
  | keep _ ih =>
      rcases List.mem_cons.mp hb with rfl | hb
      · exact List.mem_cons_self
      · exact List.mem_cons_of_mem _ (ih hb)
  | add _ _ ih => exact List.mem_cons_of_mem _ (ih hb)

theorem mem_or (h : Adds P l l') {b : β} (hb : b ∈ l') : b ∈ l ∨ P b := by
  induction h with
  | nil => cases hb
  | keep _ ih =>
      rcases List.mem_cons.mp hb with rfl | hb
      · exact .inl List.mem_cons_self
      · exact (ih hb).imp_left (List.mem_cons_of_mem _)
  | add hadd _ ih =>
      rcases List.mem_cons.mp hb with rfl | hb
      · exact .inr hadd
      · exact ih hb

theorem mono {Q : β → Prop} (h : Adds P l l') (hQ : ∀ b ∈ l', P b → Q b) : Adds Q l l' := by
  induction h with
  | nil => exact .nil
  | keep _ ih => exact (ih fun b hb => hQ b (List.mem_cons_of_mem _ hb)).keep
  | add hadd _ ih =>
      exact .add (hQ _ List.mem_cons_self hadd) (ih fun b hb => hQ b (List.mem_cons_of_mem _ hb))

theorem refl (l : List β) : Adds P l l := by
  induction l with
  | nil => exact .nil
  | cons b l ih => exact ih.keep

theorem append {m m' : List β} (h : Adds P l l') (h' : Adds P m m') :
    Adds P (l ++ m) (l' ++ m') := by
  induction h with
  | nil => exact h'
  | keep _ ih => exact ih.keep
  | add hb _ ih => exact ih.add hb

theorem all {m : List β} (h : ∀ b ∈ m, P b) : Adds P [] m := by
  induction m with
  | nil => exact .nil
  | cons b m ih => exact .add (h b (by simp)) (ih fun b' hb' => h b' (by simp [hb']))

theorem reverse (h : Adds P l l') : Adds P l.reverse l'.reverse := by
  induction h with
  | nil => exact .nil
  | keep _ ih =>
      rw [List.reverse_cons, List.reverse_cons]
      exact ih.append (Adds.refl _)
  | @add b l l' hb _ ih =>
      rw [List.reverse_cons, ← List.append_nil l.reverse]
      exact ih.append (Adds.all (by simpa using hb))

theorem find? {q : β → Bool} (h : Adds P l l') (hnew : ∀ b, P b → q b = false) :
    l'.find? q = l.find? q := by
  induction h with
  | nil => rfl
  | keep _ ih => simp [List.find?_cons, ih]
  | add hb _ ih => simp [hnew _ hb, ih]

theorem of_filter {q : β → Bool} (hP : ∀ b, q b = false → P b) (l : List β) :
    Adds P (l.filter q) l := by
  induction l with
  | nil => exact .nil
  | cons b l ih =>
      cases hb : q b with
      | true => simpa [List.filter_cons, hb] using ih.keep
      | false => simpa [List.filter_cons, hb] using ih.add (hP b hb)

/-- What fails among the items fails alike, and the further ones give
nothing. -/
theorem mapM {δ : Type} {f f' : β → Memo γ} {g : γ → Option δ} (h : Adds P l l')
    (hold : ∀ b ∈ l, f' b = f b) (hnew : ∀ b, P b → ∃ c, f' b = .ok c ∧ g c = none) :
    (l'.mapM f').map (List.filterMap g) = (l.mapM f).map (List.filterMap g) := by
  induction h with
  | nil => rfl
  | @keep b l l' _ ih =>
      have hrest := ih fun b' hb' => hold b' (by simp [hb'])
      rw [List.mapM_cons, List.mapM_cons, hold b (by simp)]
      cases f b with
      | error e => rfl
      | ok c =>
          cases hl : l.mapM f with
          | error e =>
              cases hl' : l'.mapM f' with
              | error e' => simpa [hl, hl', bind, Except.bind, Except.map] using hrest
              | ok cs' => simp [hl, hl', Except.map] at hrest
          | ok cs =>
              cases hl' : l'.mapM f' with
              | error e' => simp [hl, hl', Except.map] at hrest
              | ok cs' =>
                  simp only [hl, hl', Except.map, Except.ok.injEq] at hrest
                  simp [bind, Except.bind, pure, Except.pure, Except.map, List.filterMap_cons, hrest]
  | @add b l l' hb _ ih =>
      obtain ⟨c, hc, hg⟩ := hnew b hb
      rw [List.mapM_cons, hc, ← ih hold]
      cases l'.mapM f' with
      | error e => rfl
      | ok cs => simp [bind, Except.bind, pure, Except.pure, Except.map, hg]

end Adds

/-! ## Rejected nodes beside a store -/

section Adding

variable (env : RecallContext) (analysis : Analysis)

/-- The payload is rejected before it is scored. -/
def IsRejected (d : Option Fields) : Prop :=
  hardRejectReason env.host d env.context env.includeDeprecated analysis ≠ none

/-- A token leads to an identifier. -/
def Posts (postings : List (Text × List Text)) (tok id : Text) : Prop :=
  ∃ ids, (tok, ids) ∈ postings ∧ id ∈ ids

/-- An index with further entries and postings, all of new identifiers. -/
structure AddsEntries (new : Text → Prop) (i i' : Index) : Prop where
  nodes : Adds (fun e => ∃ id, entryId e = some id ∧ new id) i.nodes i'.nodes
  old : ∀ e ∈ i.nodes, ∀ id, entryId e = some id → ¬ new id
  plain : i.postings = none → i'.postings = none ∧ (i.nodes = [] → i'.nodes = [])
  posted : ∀ ps, i.postings = some ps → ∃ ps', i'.postings = some ps' ∧
    ∀ tok id, Posts ps tok id ↔ Posts ps' tok id ∧ ¬ new id

inductive AddsToIndex (new : Text → Prop) : Option Index → Option Index → Prop where
  | none : AddsToIndex new none none
  | some {i i' : Index} : AddsEntries new i i' → AddsToIndex new (some i) (some i')

/-- A store with further nodes, in files or in the index, which have new
identifiers and are rejected however they are read. -/
structure AddsRejected (new : Text → Prop) (store store' : NodeStore) : Prop where
  strip : ∀ id, new (strip id) ↔ new id
  files : Adds (fun e : Text × NodeFile => new (stem e.1) ∧ IsRejected env analysis e.2.payload)
    store.tree.nodes.files store'.tree.nodes.files
  old : ∀ e ∈ store.tree.nodes.files, ¬ new (stem e.1)
  index : AddsToIndex new store.index store'.index
  reads : ∀ i', store'.index = some i' → ∀ id, new id → ∀ entry : Option Fields,
    (∀ e, entry = some e → e ∈ i'.nodes ∧ entryId e = some id) →
      ∃ p, payloadOf env.host store'.tree id entry = .ok p ∧ IsRejected env analysis p.fields

variable {env analysis} {new : Text → Prop} {store store' : NodeStore}

theorem judge_rejected {p : Payload} (h : IsRejected env analysis p.fields) :
    (judge env analysis p).toOption = none := by
  unfold judge
  cases hreason : hardRejectReason env.host p.fields env.context env.includeDeprecated analysis with
  | none => exact absurd hreason h
  | some reason => rfl

namespace AddsRejected

/-- The other files are found as before. -/
theorem get? (h : AddsRejected env analysis new store store') {id : Text} (hid : ¬ new id) :
    store'.tree.nodes.get? (nodeName id) = store.tree.nodes.get? (nodeName id) := by
  have hfiles : ∀ {l l' : List (Text × NodeFile)},
      Adds (fun e : Text × NodeFile => new (stem e.1) ∧ IsRejected env analysis e.2.payload) l l' →
        SortedMap.get? (nodeName id) l' = SortedMap.get? (nodeName id) l := by
    intro l l' hadds
    induction hadds with
    | nil => rfl
    | keep _ ih => simp [SortedMap.get?, ih]
    | @add e l l' hnew _ ih =>
        have hne : e.1 ≠ nodeName id := by
          intro heq
          refine hid ((h.strip id).mp ?_)
          rw [← stem_nodeName, ← heq]
          exact hnew.1
        simp [SortedMap.get?, hne, ih]
  exact hfiles h.files

theorem payloadOf (h : AddsRejected env analysis new store store') {id : Text} (hid : ¬ new id)
    (entry : Option Fields) :
    payloadOf env.host store'.tree id entry = payloadOf env.host store.tree id entry := by
  simp only [Memory.payloadOf, loadNode, nodePath]
  cases safeSegment id "node_id" with
  | error e => rfl
  | ok t => simp only [bind, Except.bind, pure, Except.pure, h.get? hid]

/-- What the files give beside the entries. -/
theorem files_matches (h : AddsRejected env analysis new store store') {ids ids' : List Text}
    (hids : ∀ s, ¬ new s → (s ∈ ids' ↔ s ∈ ids)) :
    matchesOf env analysis ((filePayloads store'.tree).filter fun p => !ids'.contains p.stem) =
      matchesOf env analysis ((filePayloads store.tree).filter fun p => !ids.contains p.stem) := by
  simp only [matchesOf, filePayloads, List.filter_map, List.filterMap_map, List.filterMap_filter]
  refine h.files.filterMap (fun e he => ?_) fun e he => ?_
  · have hsame : ids'.contains (stem e.1) = ids.contains (stem e.1) := by
      rw [Bool.eq_iff_iff, List.contains_iff_mem, List.contains_iff_mem]
      exact hids _ (h.old e he)
    simp only [Function.comp_apply, hsame]
  · have hnone := @judge_rejected env analysis ⟨stem e.1, e.2.payload⟩ he.2
    simp only [Function.comp_apply, hnone, ite_self]

end AddsRejected

/-- The identifiers of the old entries stay. -/
theorem AddsEntries.mem_ids {i i' : Index} (h : AddsEntries new i i') {s : Text} (hs : ¬ new s) :
    s ∈ i'.nodes.filterMap entryId ↔ s ∈ i.nodes.filterMap entryId := by
  simp only [List.mem_filterMap]
  constructor
  · rintro ⟨e, he, hid⟩
    rcases h.nodes.mem_or he with he | ⟨id, hid', hnew⟩
    · exact ⟨e, he, hid⟩
    · rw [hid, Option.some.injEq] at hid'
      exact absurd (hid' ▸ hnew) hs
  · rintro ⟨e, he, hid⟩
    exact ⟨e, h.nodes.mem he, hid⟩

theorem AddsEntries.entryById {i i' : Index} (h : AddsEntries new i i') {id : Text}
    (hid : ¬ new id) : entryById i'.nodes id = entryById i.nodes id := by
  refine h.nodes.reverse.find? fun e he => ?_
  obtain ⟨id', hid', hnew⟩ := he
  obtain ⟨htext, -⟩ := Option.filter_eq_some_iff.mp hid'
  rw [isText, htext, beq_eq_false_iff_ne]
  rintro heq
  cases heq
  exact hid hnew

theorem mem_candidateIds_iff {ps : List (Text × List Text)} {searchTerms : List Text} {id : Text} :
    id ∈ candidateIds ps searchTerms ↔
      ∃ tok, Posts ps tok id ∧ ∃ s ∈ searchTerms, contains s tok = true := by
  simp only [candidateIds, List.mem_dedup, List.mem_flatMap, List.mem_filter, List.any_eq_true,
    Posts]
  constructor
  · rintro ⟨⟨tok, ids⟩, ⟨hps, s, hs, hin⟩, hid⟩
    exact ⟨tok, ⟨ids, hps, hid⟩, s, hs, hin⟩
  · rintro ⟨tok, ⟨ids, hps, hid⟩, s, hs, hin⟩
    exact ⟨(tok, ids), ⟨hps, s, hs, hin⟩, hid⟩

namespace AddsRejected

/-- The payload of a new identifier, as the postings lead to it. -/
theorem reads_posted (h : AddsRejected env analysis new store store') {i' : Index}
    (hi : store'.index = some i') {id : Text} (hid : new id) :
    ∃ p, Memory.payloadOf env.host store'.tree id (Memory.entryById i'.nodes id) = .ok p ∧
      IsRejected env analysis p.fields := by
  refine h.reads i' hi id hid _ fun e he => ?_
  have hmem := List.mem_reverse.mp (List.mem_of_find?_eq_some he)
  have htext := List.find?_some he
  refine ⟨hmem, Option.filter_eq_some_iff.mpr ⟨by simpa [isText] using htext, ?_⟩⟩
  -- an identifier that is empty is not loaded
  cases hempty : id with
  | nil =>
      obtain ⟨p, hp, -⟩ := h.reads i' hi id hid none (by simp)
      subst hempty
      cases hp
  | cons c t => rfl

end AddsRejected

/-! ## What a recall can show -/

/-- The matches among the payloads of a store. -/
def storeMatches (env : RecallContext) (analysis : Analysis) (order : List Text → List Text)
    (store : NodeStore) : Memo (List Match) :=
  (candidatePayloads env.host order store analysis).map (matchesOf env analysis)

namespace AddsRejected

/-- The identifiers the postings lead to, in any order, and the files. -/
theorem found_matches (h : AddsRejected env analysis new store store') {i i' : Index}
    (hi' : store'.index = some i') (hadds : AddsEntries new i i') {ids ids' : List Text}
    (hids : Adds new ids ids') (hold : ∀ id ∈ ids, ¬ new id) :
    (ids'.mapM fun id => Memory.payloadOf env.host store'.tree id (entryById i'.nodes id)).map
        (fun found => matchesOf env analysis (found ++ unindexedPayloads store'.tree i'.nodes)) =
      (ids.mapM fun id => Memory.payloadOf env.host store.tree id (entryById i.nodes id)).map
        (fun found => matchesOf env analysis (found ++ unindexedPayloads store.tree i.nodes)) := by
  have hfound : (ids'.mapM fun id =>
        Memory.payloadOf env.host store'.tree id (entryById i'.nodes id)).map
          (List.filterMap fun p => (judge env analysis p).toOption) =
      (ids.mapM fun id => Memory.payloadOf env.host store.tree id (entryById i.nodes id)).map
          (List.filterMap fun p => (judge env analysis p).toOption) := by
    refine hids.mapM (fun id hid => ?_) fun id hid => ?_
    · rw [hadds.entryById (hold id hid), h.payloadOf (hold id hid)]
    · obtain ⟨p, hp, hrejected⟩ := h.reads_posted hi' hid
      exact ⟨p, hp, judge_rejected hrejected⟩
  have hfiles : matchesOf env analysis (unindexedPayloads store'.tree i'.nodes) =
      matchesOf env analysis (unindexedPayloads store.tree i.nodes) :=
    h.files_matches fun s hs => hadds.mem_ids hs
  have happend : ∀ found u : List Payload, matchesOf env analysis (found ++ u) =
      found.filterMap (fun p => (judge env analysis p).toOption) ++ matchesOf env analysis u :=
    fun _ _ => List.filterMap_append
  simp only [happend, hfiles]
  generalize (ids'.mapM fun id =>
    Memory.payloadOf env.host store'.tree id (entryById i'.nodes id)) = r' at hfound ⊢
  generalize (ids.mapM fun id =>
    Memory.payloadOf env.host store.tree id (entryById i.nodes id)) = r at hfound ⊢
  cases r' <;> cases r <;> simp_all [Except.map]

/-- Without postings every entry is read, or every file. -/
theorem iter_matches (h : AddsRejected env analysis new store store')
    (hplain : ∀ i, store.index = some i → i.postings = none) :
    (iterNodePayloads env.host store').map (matchesOf env analysis) =
      (iterNodePayloads env.host store).map (matchesOf env analysis) := by
  have hfiles : matchesOf env analysis (filePayloads store'.tree) =
      matchesOf env analysis (filePayloads store.tree) := by
    simpa using @files_matches env analysis new store store' h [] [] fun s _ => Iff.rfl
  obtain ⟨tree, index⟩ := store
  obtain ⟨tree', index'⟩ := store'
  cases h.index with
  | none => simpa [iterNodePayloads, Except.map, pure, Except.pure] using hfiles
  | @some i i' hadds =>
      obtain ⟨entries, postings⟩ := i
      obtain ⟨entries', postings'⟩ := i'
      obtain ⟨-, hempty⟩ := hadds.plain (hplain _ rfl)
      cases entries with
      | nil =>
          obtain rfl : entries' = [] := hempty rfl
          simpa [iterNodePayloads, Except.map, pure, Except.pure] using hfiles
      | cons e es =>
          obtain ⟨e', es', rfl⟩ : ∃ e' es', entries' = e' :: es' := by
            cases entries' with
            | nil => exact absurd (hadds.nodes.mem List.mem_cons_self) List.not_mem_nil
            | cons e' es' => exact ⟨e', es', rfl⟩
          have hnew := hadds.nodes.mono (Q := fun entry => entry ∈ e' :: es' ∧
            ∃ id, entryId entry = some id ∧ new id) fun entry hentry hid => ⟨hentry, hid⟩
          have hpairs := hnew.map (f := fun entry => (entryId entry).map (·, entry))
            (Q := fun pair => pair.2 ∈ e' :: es' ∧ entryId pair.2 = some pair.1 ∧ new pair.1)
            fun entry hentry pair hpair => by
              obtain ⟨hmem, id, hid, hidnew⟩ := hentry
              rw [hid, Option.map_some, Option.some.injEq] at hpair
              subst hpair
              exact ⟨hmem, hid, hidnew⟩
          refine hpairs.mapM (fun pair hpair => ?_) fun pair hpair => ?_
          · obtain ⟨entry, hentry, hmap⟩ := List.mem_filterMap.mp hpair
            obtain ⟨id, hid, rfl⟩ := Option.map_eq_some_iff.mp hmap
            exact h.payloadOf (hadds.old entry hentry id hid) _
          · obtain ⟨p, hp, hrejected⟩ := h.reads _ rfl pair.1 hpair.2.2 (some pair.2) (by
              rintro _ ⟨⟩
              exact ⟨hpair.1, hpair.2.1⟩)
            exact ⟨p, hp, judge_rejected hrejected⟩

/-- The postings lead to the old identifiers as before. -/
theorem candidateIds_iff {i i' : Index} (hadds : AddsEntries new i i')
    {ps ps' : List (Text × List Text)} (hps : i.postings = some ps) (hps' : i'.postings = some ps')
    (searchTerms : List Text) (id : Text) :
    id ∈ candidateIds ps searchTerms ↔ id ∈ candidateIds ps' searchTerms ∧ ¬ new id := by
  obtain ⟨_, hsame, hiff⟩ := hadds.posted ps hps
  obtain rfl := Option.some.inj (hps'.symm.trans hsame)
  simp only [mem_candidateIds_iff, hiff]
  constructor
  · rintro ⟨tok, ⟨hpost, hnew⟩, hs⟩
    exact ⟨⟨tok, hpost, hs⟩, hnew⟩
  · rintro ⟨⟨tok, hpost, hs⟩, hnew⟩
    exact ⟨tok, ⟨hpost, hnew⟩, hs⟩

/-- The order that lists one set in a given way. -/
def orderAs (set ids : List Text) (l : List Text) : List Text := if l = set then ids else l

@[simp] theorem orderAs_self (set ids : List Text) : orderAs set ids set = ids := if_pos rfl

theorem orderAs_setOrder {set ids : List Text} (h : ids.Perm set) : SetOrder (orderAs set ids) := by
  intro l
  unfold orderAs
  split
  · rename_i hl
    exact hl ▸ h
  · exact .refl l

end AddsRejected

theorem storeMatches_posted {tree : Tree} {entries : List Fields}
    {ps : List (Text × List Text)} {order : List Text → List Text}
    (hterms : (analysis.searchTerms.filter fun s => !s.isEmpty).isEmpty = false) :
    storeMatches env analysis order ⟨tree, some ⟨entries, some ps⟩⟩ =
      ((order (candidateIds ps (analysis.searchTerms.filter fun s => !s.isEmpty))).mapM
          fun id => payloadOf env.host tree id (entryById entries id)).map
        fun found => matchesOf env analysis (found ++ unindexedPayloads tree entries) := by
  simp only [storeMatches, candidatePayloads, hterms, Bool.false_eq_true, if_false, bind,
    Except.bind]
  cases (order (candidateIds ps (analysis.searchTerms.filter fun s => !s.isEmpty))).mapM
    fun id => payloadOf env.host tree id (entryById entries id) <;> rfl

section Ids

variable {set set' ids ids' : List Text}

/-- An order of the larger set gives one of the smaller set. -/
theorem exists_old_ids (hset : ∀ id, id ∈ set ↔ id ∈ set' ∧ ¬ new id) (hnodup : set.Nodup)
    (hnodup' : set'.Nodup) (hperm : ids'.Perm set') :
    ∃ ids : List Text, ids.Perm set ∧ Adds new ids ids' ∧ ∀ id ∈ ids, ¬ new id := by
  classical
  have hmem : ∀ id, id ∈ ids'.filter (fun id => !decide (new id)) ↔ id ∈ set := fun id => by
    rw [List.mem_filter, hperm.mem_iff, hset]
    simp
  refine ⟨ids'.filter fun id => !decide (new id), ?_, Adds.of_filter (by simp) ids', ?_⟩
  · exact (List.perm_ext_iff_of_nodup ((hperm.nodup_iff.mpr hnodup').filter _) hnodup).mpr hmem
  · intro id hid
    exact ((hset id).mp ((hmem id).mp hid)).2

/-- An order of the smaller set gives one of the larger set. -/
theorem exists_new_ids (hset : ∀ id, id ∈ set ↔ id ∈ set' ∧ ¬ new id) (hnodup : set.Nodup)
    (hnodup' : set'.Nodup) (hperm : ids.Perm set) :
    ∃ ids' : List Text, ids'.Perm set' ∧ Adds new ids ids' ∧ ∀ id ∈ ids, ¬ new id := by
  classical
  have hold : ∀ id ∈ ids, ¬ new id := fun id hid => ((hset id).mp (hperm.mem_iff.mp hid)).2
  refine ⟨ids ++ set'.filter fun id => decide (new id), ?_, ?_, hold⟩
  · refine (List.perm_ext_iff_of_nodup ?_ hnodup').mpr fun id => ?_
    · refine List.Nodup.append (hperm.nodup_iff.mpr hnodup) (hnodup'.filter _) ?_
      intro id hid hid'
      exact hold id hid (by simpa using (List.mem_filter.mp hid').2)
    · rw [List.mem_append, List.mem_filter, hperm.mem_iff, hset, decide_eq_true_eq]
      constructor
      · rintro (⟨hid, -⟩ | ⟨hid, -⟩) <;> exact hid
      · intro hid
        by_cases hnew : new id
        · exact .inr ⟨hid, hnew⟩
        · exact .inl ⟨hid, hnew⟩
  · have hnew : Adds new [] (set'.filter fun id => decide (new id)) :=
      Adds.all fun id hid => by simpa using (List.mem_filter.mp hid).2
    simpa using (Adds.refl ids).append hnew

end Ids

/-- Whatever order the sets of one store have, those of the other can have one
that gives the same matches. -/
theorem AddsRejected.storeMatches_iff (h : AddsRejected env analysis new store store')
    (r : Memo (List Match)) :
    (∃ order, SetOrder order ∧ storeMatches env analysis order store' = r) ↔
      ∃ order, SetOrder order ∧ storeMatches env analysis order store = r := by
  have hfixed : (∀ order order', storeMatches env analysis order store' =
      storeMatches env analysis order' store) →
      ((∃ order, SetOrder order ∧ storeMatches env analysis order store' = r) ↔
        ∃ order, SetOrder order ∧ storeMatches env analysis order store = r) := by
    intro hsame
    constructor
    · rintro ⟨order, -, rfl⟩
      exact ⟨id, fun ids => .refl ids, (hsame order id).symm⟩
    · rintro ⟨order, -, rfl⟩
      exact ⟨id, fun ids => .refl ids, hsame id order⟩
  have hiter := h.iter_matches
  have hfound := @found_matches env analysis new store store' h
  have hfiles := @files_matches env analysis new store store' h
  have hindex := h.index
  obtain ⟨tree, index⟩ := store
  obtain ⟨tree', index'⟩ := store'
  cases hindex with
  | none =>
      exact hfixed fun _ _ => hiter fun i hi => by cases hi
  | @some i i' hadds =>
      obtain ⟨entries, postings⟩ := i
      obtain ⟨entries', postings'⟩ := i'
      cases postings with
      | none =>
          obtain rfl : postings' = none := (hadds.plain rfl).1
          refine hfixed fun _ _ => hiter fun i hi => ?_
          cases hi
          rfl
      | some ps =>
          obtain ⟨ps', rfl, -⟩ := hadds.posted ps rfl
          cases hterms : (analysis.searchTerms.filter fun s => !s.isEmpty).isEmpty with
          | true =>
              refine hfixed fun _ _ => ?_
              have hunindexed := hfiles fun s hs => hadds.mem_ids hs
              simp only [storeMatches, candidatePayloads, hterms, if_true, pure, Except.pure,
                Except.map]
              exact congrArg Except.ok hunindexed
          | false =>
              have hcandidates := candidateIds_iff hadds rfl rfl
                (analysis.searchTerms.filter fun s => !s.isEmpty)
              simp only [storeMatches_posted hterms]
              constructor
              · rintro ⟨order, horder, rfl⟩
                obtain ⟨ids, hperm, hids, hold⟩ :=
                  exists_old_ids hcandidates (candidateIds_nodup _ _) (candidateIds_nodup _ _)
                    (horder _)
                refine ⟨orderAs _ ids, orderAs_setOrder hperm, ?_⟩
                rw [orderAs_self]
                exact (hfound rfl hadds hids hold).symm
              · rintro ⟨order, horder, rfl⟩
                obtain ⟨ids', hperm, hids, hold⟩ :=
                  exists_new_ids hcandidates (candidateIds_nodup _ _) (candidateIds_nodup _ _)
                    (horder _)
                refine ⟨orderAs _ ids', orderAs_setOrder hperm, ?_⟩
                rw [orderAs_self]
                exact hfound rfl hadds hids hold

/-! ## Isolation -/

/-- The rendered context and the selected identifiers of a report. -/
def Report.shown (report : Report) : List Fields × List Value :=
  (report.memoryContext, report.selectedMemoryIds)

/-- What a recall can show, or how it can fail. -/
def Shows (env : RecallContext) (query : Text) (limit budget : Nat) (store : NodeStore)
    (r : Memo (List Fields × List Value)) : Prop :=
  ∃ order, SetOrder order ∧ («recall» env order query limit budget store).map Report.shown = r

/-- The two stores show the same, at every limit and budget. -/
def SameShown (env : RecallContext) (query : Text) (store store' : NodeStore) : Prop :=
  ∀ limit budget r, Shows env query limit budget store' r ↔ Shows env query limit budget store r

/-- What is shown keeps to the limit and to the budget. -/
def WithinBounds (env : RecallContext) (query : Text) (store : NodeStore) : Prop :=
  ∀ limit budget items ids, Shows env query limit budget store (.ok (items, ids)) →
    items.length ≤ limit ∧ shownUnits env.host items ≤ budget

/-- The ranked matches as they are rendered. -/
def renderMatches (env : RecallContext) (analysis : Analysis) (ms : List Match) :
    List (Memo Fields) :=
  (ranked env ms).map fun m => renderContext env.clock m.fields analysis.riskLevel m.score

/-- There is a match, and the best one has an identifier. -/
def HasBest (env : RecallContext) (query : Text) (store : NodeStore) : Prop :=
  ∃ order ms item rest, SetOrder order ∧
    storeMatches env (analyzeQuery env.host query) order store = .ok ms ∧
    renderMatches env (analyzeQuery env.host query) ms = .ok item :: rest

def selectMatches (env : RecallContext) (analysis : Analysis) (limit budget : Nat)
    (ms : List Match) : Memo Selection :=
  select env.host analysis.riskLevel limit budget (renderMatches env analysis ms)
    ⟨[], 0, [], analysis.riskLevel = .high⟩

/-- What is shown depends on the matches only. -/
theorem recall_shown (order : List Text → List Text) (query : Text) (limit budget : Nat)
    (store : NodeStore) :
    («recall» env order query limit budget store).map Report.shown =
      (storeMatches env (analyzeQuery env.host query) order store >>= fun ms =>
        (selectMatches env (analyzeQuery env.host query) limit budget ms).map fun s =>
          (s.items, s.items.map fun item => item.getD (txt "node_id") .null)) := by
  simp only [«recall», storeMatches]
  cases candidatePayloads env.host order store (analyzeQuery env.host query) with
  | error e => rfl
  | ok payloads =>
      change (recallOver env (analyzeQuery env.host query) limit budget payloads).map Report.shown =
        (selectMatches env (analyzeQuery env.host query) limit budget
          (matchesOf env (analyzeQuery env.host query) payloads)).map _
      simp only [recallOver, selectMatches, renderMatches, rendered]
      cases select env.host (analyzeQuery env.host query).riskLevel limit budget
        ((ranked env (matchesOf env (analyzeQuery env.host query) payloads)).map fun m =>
          renderContext env.clock m.fields (analyzeQuery env.host query).riskLevel m.score)
        ⟨[], 0, [], (analyzeQuery env.host query).riskLevel = .high⟩ <;> rfl

/-- Rejected nodes leave what is shown as it is. -/
theorem AddsRejected.sameShown {query : Text}
    (h : AddsRejected env (analyzeQuery env.host query) new store store') :
    SameShown env query store store' := by
  intro limit budget r
  simp only [Shows, recall_shown]
  constructor
  · rintro ⟨order, horder, rfl⟩
    obtain ⟨order', horder', heq⟩ := (h.storeMatches_iff _).mp ⟨order, horder, rfl⟩
    exact ⟨order', horder', by rw [heq]⟩
  · rintro ⟨order, horder, rfl⟩
    obtain ⟨order', horder', heq⟩ := (h.storeMatches_iff _).mpr ⟨order, horder, rfl⟩
    exact ⟨order', horder', by rw [heq]⟩

/-- What is shown was selected. -/
theorem Shows.selected {query : Text} {limit budget : Nat} {items : List Fields}
    {ids : List Value} (h : Shows env query limit budget store (.ok (items, ids))) :
    ∃ order ms s, SetOrder order ∧
      storeMatches env (analyzeQuery env.host query) order store = .ok ms ∧
      selectMatches env (analyzeQuery env.host query) limit budget ms = .ok s ∧
      s.items = items := by
  obtain ⟨order, horder, hshown⟩ := h
  rw [recall_shown, bind_ok] at hshown
  obtain ⟨ms, hms, hselect⟩ := hshown
  cases hs : selectMatches env (analyzeQuery env.host query) limit budget ms with
  | error e =>
      rw [hs] at hselect
      cases hselect
  | ok s =>
      rw [hs] at hselect
      cases hselect
      exact ⟨order, ms, s, horder, hms, hs, rfl⟩

theorem withinBounds {query : Text}
    (h : (analyzeQuery env.host query).riskLevel = .high → ¬ HasBest env query store) :
    WithinBounds env query store := by
  intro limit budget items ids hshows
  obtain ⟨order, ms, s, horder, hms, hs, rfl⟩ := hshows.selected
  obtain ⟨hlimit, hbudget, hused⟩ := select_within (Nat.zero_le limit) (Nat.zero_le budget)
    (fun _ => rfl) hs
  refine ⟨hlimit, ?_⟩
  by_cases hrisk : (analyzeQuery env.host query).riskLevel = .high
  · -- no match can be shown
    cases hrender : renderMatches env (analyzeQuery env.host query) ms with
    | nil =>
        rw [selectMatches, hrender] at hs
        cases hs
        exact Nat.zero_le _
    | cons first rest =>
        cases first with
        | ok item => exact absurd ⟨order, ms, item, rest, horder, hms, hrender⟩ (h hrisk)
        | error e =>
            rw [selectMatches, hrender, select.eq_def] at hs
            dsimp only at hs
            split at hs
            · cases hs
              exact Nat.zero_le _
            · cases hs
  · rw [← hused hrisk]
    exact hbudget

/-- At high risk the best match is shown at a budget that its hint exceeds. -/
theorem HasBest.exceeds {query : Text} (h : HasBest env query store)
    (hrisk : (analyzeQuery env.host query).riskLevel = .high) :
    ∃ budget items ids, Shows env query 1 budget store (.ok (items, ids)) ∧
      budget < shownUnits env.host items := by
  obtain ⟨order, ms, item, rest, horder, hms, hrender⟩ := h
  have hselect : ∃ s, selectMatches env (analyzeQuery env.host query) 1
      (estimateUnits env.host item) ms = .ok s ∧ s.items = [withHint env.host .high item] := by
    rw [selectMatches, hrender, hrisk, select.eq_def]
    simp only [List.length_nil, if_false, Nat.zero_add, Nat.lt_irrefl,
      List.nil_append]
    rw [select.eq_def]
    cases rest <;> exact ⟨_, rfl, rfl⟩
  obtain ⟨s, hs, hitems⟩ := hselect
  refine ⟨estimateUnits env.host item, s.items,
    s.items.map fun item => item.getD (txt "node_id") .null, ⟨order, horder, ?_⟩, ?_⟩
  · rw [recall_shown, hms]
    change (selectMatches env (analyzeQuery env.host query) 1 (estimateUnits env.host item) ms).map
      _ = _
    rw [hs]
    rfl
  · obtain ⟨m, -, hm⟩ : ∃ m ∈ ranked env ms,
        renderContext env.clock m.fields (analyzeQuery env.host query).riskLevel m.score =
          .ok item := by
      have hmem : (.ok item : Memo Fields) ∈ renderMatches env (analyzeQuery env.host query) ms := by
        rw [hrender]
        exact List.mem_cons_self
      exact List.mem_map.mp hmem
    rw [hrisk] at hm
    rw [hitems, shownUnits, List.map_singleton, List.sum_singleton]
    exact estimateUnits_withHint hm

/-! ## Nodes the store adds -/

theorem strip_strip (t : Text) : strip (strip t) = strip t := by
  have hleft : lstrip (strip t) = strip t := by
    cases hstrip : strip t with
    | nil => rfl
    | cons c rest =>
        obtain ⟨tail, htail⟩ : c :: rest <+: lstrip t := hstrip ▸ List.rdropWhile_prefix isSpace (lstrip t)
        have hc : isSpace c = false := by
          have hhead := List.head?_dropWhile_not isSpace t
          have hfirst : (List.dropWhile isSpace t).head? = some c := by
            change (lstrip t).head? = some c
            rw [← htail]
            rfl
          simpa [hfirst] using hhead
        simp [lstrip, hc]
  have hright : rstrip (strip t) = strip t := List.rdropWhile_idempotent isSpace (lstrip t)
  rw [strip, hleft, hright]

theorem adds_insert {lt : Text → Text → Bool} {k : Text} {f : β} {l : List (Text × β)}
    {P : Text × β → Prop} (hfresh : ∀ e ∈ l, e.1 ≠ k) (hP : P (k, f)) :
    Adds P l (SortedMap.insert lt k f l) := by
  induction l with
  | nil => exact .add hP .nil
  | cons e l ih =>
      obtain ⟨a, g⟩ := e
      have hne : k ≠ a := fun h => hfresh (a, g) (by simp) h.symm
      simp only [SortedMap.insert, hne, if_false]
      split
      · exact .add hP (.refl _)
      · exact (ih fun e he => hfresh e (by simp [he])).keep

theorem posts_indexOf {host : Host} {nodes : List MemoryNode} {ps : List (Text × List Text)}
    (hps : (indexOf host nodes).postings = some ps) {tok id : Text} :
    Posts ps tok id ↔ ∃ n ∈ nodes, entryId (indexEntry n) = some id ∧
      tok ∈ entryTokens host (indexEntry n) := by
  cases hps
  simp only [Posts, buildPostings, List.mem_map, List.mem_dedup, Prod.mk.injEq]
  constructor
  · rintro ⟨_, ⟨_, -, rfl, rfl⟩, hid⟩
    simp only [mem_sortedSet, List.mem_map, List.mem_filter, decide_eq_true_eq] at hid
    obtain ⟨⟨tok', id'⟩, ⟨hpair, rfl⟩, rfl⟩ := hid
    obtain ⟨_, he, hid, htok⟩ := mem_tokenPairs.mp hpair
    obtain ⟨n, hn, rfl⟩ := List.mem_map.mp he
    exact ⟨n, hn, hid, htok⟩
  · rintro ⟨n, hn, hid, htok⟩
    have hpair := mem_tokenPairs.mpr ⟨_, List.mem_map_of_mem hn, hid, htok⟩
    refine ⟨_, ⟨tok, ⟨(tok, id), hpair, rfl⟩, rfl, rfl⟩, ?_⟩
    simp only [mem_sortedSet, List.mem_map, List.mem_filter, decide_eq_true_eq]
    exact ⟨(tok, id), ⟨hpair, rfl⟩, rfl⟩

section Writing

variable {nodes nodes' : List MemoryNode} {tree : Tree} {project : Text} {n : MemoryNode}

/-- The nodes of the tree after a new node was written. -/
theorem Stored.adds (h : Stored env.host nodes tree)
    (h' : Stored env.host nodes' (tree.write env.host project n))
    (hproject : strip n.projectId = strip project)
    (hfresh : ∀ m ∈ nodes, nodeName m.nodeId ≠ nodeName n.nodeId) :
    Adds (fun m => m = n) nodes nodes' := by
  have hnodes : ∀ ns : List MemoryNode,
      (ns.map fun m => (nodeName m.nodeId, fileOf env.host m)).filterMap
        (fun e => e.2.payload.bind (fromDict env.host)) = ns := fun ns => by
    rw [List.filterMap_map]
    exact (List.filterMap_congr fun m _ => fileOf_record m).trans List.filterMap_some
  have hfiles : Adds (fun e => e = (nodeName n.nodeId, fileOf env.host n)) tree.nodes.files
      (tree.write env.host project n).nodes.files := by
    rw [Tree.write, putNode, if_pos hproject]
    refine adds_insert (fun e he => ?_) rfl
    rw [h.files] at he
    obtain ⟨m, hm, rfl⟩ := List.mem_map.mp he
    exact hfresh m hm
  have hadds := hfiles.map (f := fun e => e.2.payload.bind (fromDict env.host))
    (Q := fun m => m = n) fun e he m hm => by
      rw [he, fileOf_record, Option.some.injEq] at hm
      exact hm.symm
  rwa [h.files, h'.files, hnodes, hnodes] at hadds

/-- A new node that is rejected, written to a store whose index is complete. -/
theorem Stored.addsRejected (h : Stored env.host nodes tree)
    (h' : Stored env.host nodes' (tree.write env.host project n))
    (hvalid : n.Valid env.host) (hproject : strip n.projectId = strip project)
    (hfresh : ∀ m ∈ nodes, nodeName m.nodeId ≠ nodeName n.nodeId)
    (hentry : IsRejected env analysis (some (indexEntry n)))
    (hfile : IsRejected env analysis (some n.toFields)) :
    AddsRejected env analysis (fun id => strip id = strip n.nodeId)
      ⟨tree, some (indexOf env.host nodes)⟩
      ⟨tree.write env.host project n, some (indexOf env.host nodes')⟩ := by
  have hadds := h.adds h' hproject hfresh
  have hnode : (tree.write env.host project n).node? env.host (nodeName n.nodeId) = some n := by
    rw [Tree.write_node? hvalid hproject, if_pos rfl]
  have hold : ∀ m ∈ nodes, strip m.nodeId ≠ strip n.nodeId := fun m hm heq =>
    hfresh m hm (by rw [nodeName, heq, ← nodeName])
  have hentries : ∀ ns : List MemoryNode,
      ns.filterMap (fun m => some (indexEntry m)) = ns.map indexEntry := fun ns =>
    congrFun List.filterMap_eq_map ns
  refine ⟨fun id => by rw [strip_strip], ?_, ?_, .some ⟨?_, ?_, ?_, ?_⟩, ?_⟩
  · have hfiles : (tree.write env.host project n).nodes.files =
        SortedMap.insert textLt (nodeName n.nodeId) (fileOf env.host n) tree.nodes.files := by
      rw [Tree.write, putNode, if_pos hproject]
      rfl
    rw [hfiles]
    refine adds_insert (fun e he => ?_) ⟨by rw [stem_nodeName, strip_strip], hfile⟩
    rw [h.files] at he
    obtain ⟨m, hm, rfl⟩ := List.mem_map.mp he
    exact hfresh m hm
  · intro e he
    rw [h.files] at he
    obtain ⟨m, hm, rfl⟩ := List.mem_map.mp he
    rw [stem_nodeName, strip_strip]
    exact hold m hm
  · have hmap := hadds.map (f := fun m => some (indexEntry m))
      (Q := fun e => ∃ id, entryId e = some id ∧ strip id = strip n.nodeId) ?_
    · rwa [hentries, hentries] at hmap
    · rintro m rfl e he
      cases he
      exact ⟨_, entryId_indexEntry hvalid, rfl⟩
  · intro e he id hid
    obtain ⟨m, hm, rfl⟩ := List.mem_map.mp he
    rw [entryId_indexEntry (h.valid m hm), Option.some.injEq] at hid
    exact hid ▸ hold m hm
  · intro hps
    cases hps
  · intro ps hps
    refine ⟨_, rfl, fun tok id => ?_⟩
    rw [posts_indexOf hps, posts_indexOf rfl]
    constructor
    · rintro ⟨m, hm, hid, htok⟩
      refine ⟨⟨m, hadds.mem hm, hid, htok⟩, ?_⟩
      rw [entryId_indexEntry (h.valid m hm), Option.some.injEq] at hid
      exact hid ▸ hold m hm
    · rintro ⟨⟨m, hm, hid, htok⟩, hne⟩
      rw [entryId_indexEntry (h'.valid m hm), Option.some.injEq] at hid
      rcases hadds.mem_or hm with hm' | rfl
      · exact ⟨m, hm', by rw [entryId_indexEntry (h.valid m hm'), hid], htok⟩
      · exact absurd (hid ▸ rfl) hne
  · rintro i' hi' id hid entry hentries
    cases hi'
    cases entry with
    | none =>
        obtain ⟨t, ht⟩ := hvalid.safeName.segment
        have hload : loadNode env.host (tree.write env.host project n) id = .ok (some n) := by
          refine loadNode_ok.mpr ⟨⟨t, ?_⟩, ?_⟩
          · rw [safeSegment_ok, hid]
            exact safeSegment_ok.mp ht
          · rw [nodeName, hid, ← nodeName]
            exact hnode
        refine ⟨⟨id, some n.toFields⟩, ?_, hfile⟩
        simp [Memory.payloadOf, hload]
    | some e =>
        obtain ⟨he, hidentry⟩ := hentries e rfl
        obtain ⟨m, hm, rfl⟩ := List.mem_map.mp he
        refine ⟨_, payloadOf_indexEntry id m, ?_⟩
        rw [entryId_indexEntry (h'.valid m hm), Option.some.injEq] at hidentry
        have hname : nodeName m.nodeId = nodeName n.nodeId := by
          rw [nodeName, hidentry, hid, ← nodeName]
        rw [h'.eq_of_name hm (h'.mem_of_node? hnode) hname]
        exact hentry

end Writing

/-! ## The condition -/

/-- A node that its entry finds gives a match to show. -/
theorem Stored.hasBest {nodes : List MemoryNode} {tree : Tree} {n : MemoryNode} {query : Text}
    (h : Stored env.host nodes tree) (hn : n ∈ nodes)
    (hfound : isFoundByEntry env (analyzeQuery env.host query) n = true) :
    HasBest env query ⟨tree, some (indexOf env.host nodes)⟩ := by
  obtain ⟨payloads, hpayloads, hviews⟩ := @views_candidates env _ _ h query id fun ids => .refl ids
  have hsorted := (List.perm_insertionSort View.before ((matchesOf env
    (analyzeQuery env.host query) payloads).map (viewOf env (analyzeQuery env.host query)))).trans
      hviews
  obtain ⟨items, hitems, -⟩ := @exists_items env (analyzeQuery env.host query) _ fun v hv => by
    obtain ⟨m, -, hm⟩ := List.mem_map.mp (hsorted.mem_iff.mp hv)
    exact ⟨m, hm.symm⟩
  rw [← rendered_eq] at hitems
  have hlength : 0 < items.length := by
    have hsame := congrArg List.length hitems
    rw [rendered_eq, List.length_map, hsorted.length_eq, List.length_map, List.length_append,
      List.length_map] at hsame
    have hmem := List.length_pos_of_mem (List.mem_filter.mpr ⟨hn, hfound⟩)
    omega
  obtain ⟨item, rest, rfl⟩ := List.exists_cons_of_length_pos hlength
  refine ⟨id, matchesOf env (analyzeQuery env.host query) payloads, item, rest.map .ok,
    fun ids => .refl ids, ?_, hitems⟩
  rw [storeMatches, hpayloads]
  rfl

end Adding

/-! ### A recall of high risk -/

def alphaNode : MemoryNode := plainNode demoProject (txt "n1") devBranch (txt "alpha")

/-- A node of another branch. -/
def otherNode : MemoryNode := plainNode demoProject (txt "n2") (txt "feature") (txt "alpha")

def alphaTree : Tree := Tree.empty.write demoHost demoProject alphaNode

def alphaStore : NodeStore := ⟨alphaTree, some (indexOf demoHost [alphaNode])⟩

def widerStore : NodeStore :=
  ⟨alphaTree.write demoHost demoProject otherNode, some (indexOf demoHost [alphaNode, otherNode])⟩

def quoteQuery : Text := txt "quote alpha"

theorem alphaNode_valid : alphaNode.Valid demoHost :=
  (MemoryNode.isValid_iff demoHost _).mp (by decide)

theorem otherNode_valid : otherNode.Valid demoHost :=
  (MemoryNode.isValid_iff demoHost _).mp (by decide)

theorem alphaTree_stored : Stored demoHost [alphaNode] alphaTree :=
  ⟨rfl, by simpa using alphaNode_valid⟩

theorem widerTree_stored : Stored demoHost [alphaNode, otherNode]
    (alphaTree.write demoHost demoProject otherNode) :=
  ⟨rfl, by simpa using ⟨alphaNode_valid, otherNode_valid⟩⟩

theorem isRejected_of_visibility {env : RecallContext} {analysis : Analysis} {d : Fields}
    {reason : String}
    (h : visibilityRejectReason env.host d env.context analysis = some reason) :
    IsRejected env analysis (some d) := by
  unfold IsRejected hardRejectReason
  simp only [h]
  split
  · simp
  · split <;> simp

/-- The node of the other branch is rejected. -/
theorem widerStore_adds : AddsRejected demoRecall (analyzeQuery demoHost quoteQuery)
    (fun id => strip id = strip otherNode.nodeId) alphaStore widerStore := by
  have hentry : visibilityRejectReason demoHost (indexEntry otherNode) demoRecall.context
      (analyzeQuery demoHost quoteQuery) = some "wrong_branch" := by decide
  have hfile : visibilityRejectReason demoHost otherNode.toFields demoRecall.context
      (analyzeQuery demoHost quoteQuery) = some "wrong_branch" := by decide
  exact @Stored.addsRejected demoRecall _ _ _ _ demoProject _ alphaTree_stored widerTree_stored
    otherNode_valid rfl (by decide) (isRejected_of_visibility hentry)
    (isRejected_of_visibility hfile)

theorem alphaNode_found :
    isFoundByEntry demoRecall (analyzeQuery demoHost quoteQuery) alphaNode = true := by
  have hquiet : containsRed demoHost (.obj (safeFields (indexEntry alphaNode))) = false :=
    redText_of_quiet demoHost (by decide +kernel) (by decide +kernel)
  have hvalid : (entryNode alphaNode).isValid demoHost = true := by decide
  have hreason : hardRejectReason demoHost (some (indexEntry alphaNode)) demoRecall.context false
      (analyzeQuery demoHost quoteQuery) = none := by
    unfold hardRejectReason
    simp only [hquiet, fromDict_indexEntry, hvalid]
    decide
  have hscore : 0 < scoreNode demoHost demoRecall.clock (indexEntry alphaNode)
      (analyzeQuery demoHost quoteQuery) := by
    decide +kernel
  have hposted : isPosted demoHost (analyzeQuery demoHost quoteQuery) alphaNode = true := by
    decide
  exact Bool.and_eq_true_iff.mpr ⟨hposted, Bool.and_eq_true_iff.mpr
    ⟨Option.isNone_iff_eq_none.mpr hreason, decide_eq_true hscore⟩⟩

end RalphVault.Memory
