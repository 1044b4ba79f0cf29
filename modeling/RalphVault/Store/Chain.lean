import RalphVault.Canonical
import RalphVault.HashChain
import RalphVault.Store.Host
import RalphVault.Store.Journal

/-!
# Implementation store — the chain of record hashes

A record hash is the digest of the canonical record without the hash
itself, and the record holds the hash of the record before it. So, as long
as the digests at hand do not collide, a record hash pins the journal up to
its record, and so does the cursor of a snapshot.
-/

namespace RalphVault.Store

/-! ## Encodings that lose nothing -/

theorem Dict.get?_eq (k : Text) (d : Dict) : d.get? k = SortedMap.get? k d := by
  induction d with
  | nil => rfl
  | cons m d ih =>
      obtain ⟨k', v⟩ := m
      rw [Dict.get?, SortedMap.get?, ih]

/-- Dictionaries with the same normal form have the same values. -/
theorem Dict.get?_of_norm {d d' : Dict} (hd : d.keys.Nodup) (hd' : d'.keys.Nodup)
    (h : Json.norm (.obj d) = Json.norm (.obj d')) (k : Text) :
    (d.get? k).map Json.norm = (d'.get? k).map Json.norm := by
  rw [Dict.get?_eq, Dict.get?_eq]
  exact Json.norm_obj_get? hd hd' h k

/-- The values with `P` are told apart by their encodings, however the members
of objects are ordered. -/
def Faithful (enc : β → Json) (P : β → Prop) : Prop :=
  ∀ b b', P b → P b' → Json.norm (enc b) = Json.norm (enc b') → b = b'

theorem faithful_str : Faithful Json.str fun _ => True := by
  intro t t' _ _ h
  simpa [Json.norm] using h

theorem faithful_bool : Faithful Json.bool fun _ => True := by
  intro b b' _ _ h
  simpa [Json.norm] using h

theorem faithful_nat : Faithful natJson fun _ => True := by
  intro n n' _ _ h
  simpa [natJson, Json.norm] using h

theorem faithful_name [Named β] : Faithful (nameJson (β := β)) fun _ => True := by
  intro b b' _ _ h
  simp only [nameJson, Json.norm, Json.str.injEq] at h
  exact Named.distinct b b' h

theorem faithful_texts : Faithful textsJson fun _ => True := by
  intro ts ts' _ _ h
  simp only [textsJson, Json.norm, Json.normItems_eq, List.map_map, Json.arr.injEq] at h
  have hstr : (Json.norm ∘ Json.str) = Json.str := by
    funext t
    rw [Function.comp_apply, Json.norm]
  rw [hstr] at h
  exact List.map_injective_iff.mpr (fun t t' ht => Json.str.inj ht) h

/-- An optional field. -/
theorem Faithful.option {enc : β → Json} {P : β → Prop} (h : Faithful enc P) {o o' : Option β}
    (ho : ∀ b, o = some b → P b) (ho' : ∀ b, o' = some b → P b)
    (heq : (o.map enc).map Json.norm = (o'.map enc).map Json.norm) : o = o' := by
  cases o with
  | none =>
      cases o' with
      | none => rfl
      | some b' => cases heq
  | some b =>
      cases o' with
      | none => cases heq
      | some b' => rw [h b b' (ho b rfl) (ho' b' rfl) (Option.some.inj heq)]

/-- A field of two dictionaries with the same normal form. -/
theorem Faithful.field {enc : β → Json} {P : β → Prop} (h : Faithful enc P) {d d' : Dict}
    {k : Text} {b b' : β} (heq : (d.get? k).map Json.norm = (d'.get? k).map Json.norm)
    (hd : d.get? k = some (enc b)) (hd' : d'.get? k = some (enc b')) (hb : P b) (hb' : P b') :
    b = b' := by
  rw [hd, hd'] at heq
  exact h b b' hb hb' (Option.some.inj heq)

theorem Git.keys_nodup (g : Git) : g.toDict.keys.Nodup := by
  show [txt "branch", txt "commit", txt "workspace_instance_id", txt "repository_id"].Nodup
  decide

theorem faithful_git : Faithful (fun g : Git => Json.obj g.toDict) fun _ => True := by
  intro g g' _ _ h
  have hget := Dict.get?_of_norm g.keys_nodup g'.keys_nodup h
  have h1 : g.branch = g'.branch :=
    faithful_str.field (hget (txt "branch")) rfl rfl trivial trivial
  have h2 : g.commit = g'.commit :=
    faithful_str.field (hget (txt "commit")) rfl rfl trivial trivial
  have h3 : g.workspaceInstanceId = g'.workspaceInstanceId :=
    faithful_str.field (hget (txt "workspace_instance_id")) rfl rfl trivial trivial
  have h4 : g.repositoryId = g'.repositoryId :=
    faithful_str.field (hget (txt "repository_id")) rfl rfl trivial trivial
  cases g
  cases g'
  simp only [Git.mk.injEq]
  exact ⟨h1, h2, h3, h4⟩

theorem Decision.keys_nodup (d : Decision) : d.toDict.keys.Nodup := by
  show [txt "event_id", txt "summary"].Nodup
  decide

theorem faithful_decision : Faithful decisionJson fun _ => True := by
  intro o o' _ _ h
  cases o with
  | none =>
      cases o' with
      | none => rfl
      | some d' => simp [decisionJson, Json.norm] at h
  | some d =>
      cases o' with
      | none => simp [decisionJson, Json.norm] at h
      | some d' =>
          have hget := Dict.get?_of_norm d.keys_nodup d'.keys_nodup h
          have h1 : d.eventId = d'.eventId :=
            faithful_str.field (hget (txt "event_id")) rfl rfl trivial trivial
          have h2 : d.summary = d'.summary :=
            faithful_str.field (hget (txt "summary")) rfl rfl trivial trivial
          cases d
          cases d'
          simp only [Option.some.injEq, Decision.mk.injEq]
          exact ⟨h1, h2⟩

/-- Sorted gates are in the order of the canonical text. -/
theorem faithful_validation : Faithful validationJson fun m => SortedMap.Sorted textLt m := by
  intro m m' hm hm' h
  simp only [validationJson, Json.norm, Json.normFields_eq, List.map_map] at h
  have hnorm : (fun e : Text × GateResult => (e.1, Json.norm (nameJson e.2))) =
      fun e => (e.1, nameJson e.2) := by
    funext e
    rw [nameJson, Json.norm]
  have hcomp : ((fun m : Text × Json => (m.1, m.2.norm)) ∘ fun e : Text × GateResult =>
      (e.1, nameJson e.2)) = fun e => (e.1, nameJson e.2) := hnorm
  rw [hcomp, Json.sortMembers_map, Json.sortMembers_map, Json.obj.injEq, Json.sortMembers,
    Json.sortMembers, SortedMap.ofList_of_sorted textLt_strict hm,
    SortedMap.ofList_of_sorted textLt_strict hm'] at h
  refine List.map_injective_iff.mpr ?_ h
  rintro ⟨k, v⟩ ⟨k', v'⟩ hkv
  simp only [Prod.mk.injEq] at hkv
  rw [hkv.1, faithful_name v v' trivial trivial (by rw [hkv.2])]

/-- The gates of a patch are sorted, as `_validation` returns them. -/
def StatePatch.Normal (p : StatePatch) : Prop :=
  ∀ m, p.validation = some m → SortedMap.Sorted textLt m

theorem Dict.keys_ofOptions_sublist (es : List (Text × Option Json)) :
    (Dict.ofOptions es).keys.Sublist (es.map Prod.fst) := by
  induction es with
  | nil => exact List.Sublist.slnil
  | cons e es ih =>
      obtain ⟨k, o⟩ := e
      cases o with
      | none => exact List.Sublist.cons k ih
      | some j => exact List.Sublist.cons_cons k ih

theorem StatePatch.keys_nodup (p : StatePatch) : p.toDict.keys.Nodup := by
  have hkeys : (p.members.map Prod.fst).Nodup := by
    rw [p.members_keys]
    decide
  exact hkeys.sublist (Dict.keys_ofOptions_sublist p.members)

theorem faithful_patch : Faithful (fun p : StatePatch => Json.obj p.toDict) StatePatch.Normal := by
  intro p p' hp hp' h
  have hget := Dict.get?_of_norm p.keys_nodup p'.keys_nodup h
  have hmember : ∀ {k : Text} {o o' : Option Json}, SortedMap.get? k p.members = some o →
      SortedMap.get? k p'.members = some o' → o.map Json.norm = o'.map Json.norm := by
    intro k o o' ho ho'
    have hk := hget k
    rw [p.get?_toDict, p'.get?_toDict, ho, ho'] at hk
    exact hk
  have hplanPath : p.planPath = p'.planPath :=
    faithful_str.option (fun _ _ => trivial) (fun _ _ => trivial)
      (hmember (k := txt "plan_path") rfl rfl)
  have hstatus : p.status = p'.status :=
    faithful_name.option (fun _ _ => trivial) (fun _ _ => trivial)
      (hmember (k := txt "status") rfl rfl)
  have hclassification : p.classification = p'.classification :=
    faithful_name.option (fun _ _ => trivial) (fun _ _ => trivial)
      (hmember (k := txt "classification") rfl rfl)
  have hphase : p.phase = p'.phase :=
    faithful_str.option (fun _ _ => trivial) (fun _ _ => trivial)
      (hmember (k := txt "phase") rfl rfl)
  have hobjective : p.objective = p'.objective :=
    faithful_str.option (fun _ _ => trivial) (fun _ _ => trivial)
      (hmember (k := txt "objective") rfl rfl)
  have hlatestDecision : p.latestDecision = p'.latestDecision :=
    faithful_decision.option (fun _ _ => trivial) (fun _ _ => trivial)
      (hmember (k := txt "latest_decision") rfl rfl)
  have hnextAction : p.nextAction = p'.nextAction :=
    faithful_str.option (fun _ _ => trivial) (fun _ _ => trivial)
      (hmember (k := txt "next_action") rfl rfl)
  have hopenBlockers : p.openBlockers = p'.openBlockers :=
    faithful_texts.option (fun _ _ => trivial) (fun _ _ => trivial)
      (hmember (k := txt "open_blockers") rfl rfl)
  have hopenQuestions : p.openQuestions = p'.openQuestions :=
    faithful_texts.option (fun _ _ => trivial) (fun _ _ => trivial)
      (hmember (k := txt "open_questions") rfl rfl)
  have hvalidation : p.validation = p'.validation :=
    faithful_validation.option hp hp' (hmember (k := txt "validation") rfl rfl)
  have hactiveFiles : p.activeFiles = p'.activeFiles :=
    faithful_texts.option (fun _ _ => trivial) (fun _ _ => trivial)
      (hmember (k := txt "active_files") rfl rfl)
  have hgit : p.git = p'.git :=
    faithful_git.option (fun _ _ => trivial) (fun _ _ => trivial)
      (hmember (k := txt "git") rfl rfl)
  have hmodelFamily : p.modelFamily = p'.modelFamily :=
    faithful_name.option (fun _ _ => trivial) (fun _ _ => trivial)
      (hmember (k := txt "model_family") rfl rfl)
  have hmodelSource : p.modelSource = p'.modelSource :=
    faithful_name.option (fun _ _ => trivial) (fun _ _ => trivial)
      (hmember (k := txt "model_source") rfl rfl)
  have hmodelVerified : p.modelVerified = p'.modelVerified :=
    faithful_bool.option (fun _ _ => trivial) (fun _ _ => trivial)
      (hmember (k := txt "model_verified") rfl rfl)
  have horigin : p.origin = p'.origin :=
    faithful_str.option (fun _ _ => trivial) (fun _ _ => trivial)
      (hmember (k := txt "origin") rfl rfl)
  have hintent : p.intent = p'.intent :=
    faithful_str.option (fun _ _ => trivial) (fun _ _ => trivial)
      (hmember (k := txt "intent") rfl rfl)
  cases p
  cases p'
  simp only [StatePatch.mk.injEq]
  exact ⟨hplanPath, hstatus, hclassification, hphase, hobjective, hlatestDecision, hnextAction, hopenBlockers, hopenQuestions, hvalidation, hactiveFiles, hgit, hmodelFamily, hmodelSource, hmodelVerified, horigin, hintent⟩

/-- A record as its validator returns it, as far as its encoding goes. -/
def Event.Normal (e : Event) : Prop := e.statePatch.Normal

/-- The record without its hash. -/
def Event.material (e : Event) : Dict := e.toDict.without [txt "record_hash"]

theorem Event.material_keys (e : Event) : e.material.keys.Nodup := by
  show [txt "schema_version", txt "sequence", txt "event_id", txt "operation_id", txt
    "timestamp", txt "kind", txt "summary", txt "reason", txt "next_action", txt "status",
    txt "classification", txt "phase", txt "plan_id", txt "plan_path", txt "references", txt
    "evidence_codes", txt "git", txt "writer_session_id", txt "model_family", txt
    "model_source", txt "model_verified", txt "origin", txt "intent", txt "state_patch", txt
    "operation_payload_hash", txt "state_semantic_hash", txt "previous_event_hash"].Nodup
  decide

/-- **Two records with the same material and the same hash are the same.** -/
theorem Event.eq_of_material {e e' : Event} (he : e.Normal) (he' : e'.Normal)
    (h : Json.canonical (.obj e.material) = Json.canonical (.obj e'.material))
    (hhash : e.recordHash = e'.recordHash) : e = e' := by
  have hget := Dict.get?_of_norm e.material_keys e'.material_keys (Json.canonical_inj h)
  have hsequence : e.sequence = e'.sequence :=
    faithful_nat.field (hget (txt "sequence")) rfl rfl trivial trivial
  have heventId : e.eventId = e'.eventId :=
    faithful_str.field (hget (txt "event_id")) rfl rfl trivial trivial
  have hoperationId : e.operationId = e'.operationId :=
    faithful_str.field (hget (txt "operation_id")) rfl rfl trivial trivial
  have htimestamp : e.timestamp = e'.timestamp :=
    faithful_str.field (hget (txt "timestamp")) rfl rfl trivial trivial
  have hkind : e.kind = e'.kind :=
    faithful_name.field (hget (txt "kind")) rfl rfl trivial trivial
  have hsummary : e.summary = e'.summary :=
    faithful_str.field (hget (txt "summary")) rfl rfl trivial trivial
  have hreason : e.reason = e'.reason :=
    faithful_str.field (hget (txt "reason")) rfl rfl trivial trivial
  have hnextAction : e.nextAction = e'.nextAction :=
    faithful_str.field (hget (txt "next_action")) rfl rfl trivial trivial
  have hstatus : e.status = e'.status :=
    faithful_name.field (hget (txt "status")) rfl rfl trivial trivial
  have hclassification : e.classification = e'.classification :=
    faithful_name.field (hget (txt "classification")) rfl rfl trivial trivial
  have hphase : e.phase = e'.phase :=
    faithful_str.field (hget (txt "phase")) rfl rfl trivial trivial
  have hplanId : e.planId = e'.planId :=
    faithful_str.field (hget (txt "plan_id")) rfl rfl trivial trivial
  have hplanPath : e.planPath = e'.planPath :=
    faithful_str.field (hget (txt "plan_path")) rfl rfl trivial trivial
  have hreferences : e.references = e'.references :=
    faithful_texts.field (hget (txt "references")) rfl rfl trivial trivial
  have hevidenceCodes : e.evidenceCodes = e'.evidenceCodes :=
    faithful_texts.field (hget (txt "evidence_codes")) rfl rfl trivial trivial
  have hgit : e.git = e'.git :=
    faithful_git.field (hget (txt "git")) rfl rfl trivial trivial
  have hwriterSessionId : e.writerSessionId = e'.writerSessionId :=
    faithful_str.field (hget (txt "writer_session_id")) rfl rfl trivial trivial
  have hmodelFamily : e.modelFamily = e'.modelFamily :=
    faithful_name.field (hget (txt "model_family")) rfl rfl trivial trivial
  have hmodelSource : e.modelSource = e'.modelSource :=
    faithful_name.field (hget (txt "model_source")) rfl rfl trivial trivial
  have hmodelVerified : e.modelVerified = e'.modelVerified :=
    faithful_bool.field (hget (txt "model_verified")) rfl rfl trivial trivial
  have horigin : e.origin = e'.origin :=
    faithful_str.field (hget (txt "origin")) rfl rfl trivial trivial
  have hintent : e.intent = e'.intent :=
    faithful_str.field (hget (txt "intent")) rfl rfl trivial trivial
  have hstatePatch : e.statePatch = e'.statePatch :=
    faithful_patch.field (hget (txt "state_patch")) rfl rfl he he'
  have hoperationPayloadHash : e.operationPayloadHash = e'.operationPayloadHash :=
    faithful_str.field (hget (txt "operation_payload_hash")) rfl rfl trivial trivial
  have hstateSemanticHash : e.stateSemanticHash = e'.stateSemanticHash :=
    faithful_str.field (hget (txt "state_semantic_hash")) rfl rfl trivial trivial
  have hpreviousEventHash : e.previousEventHash = e'.previousEventHash :=
    faithful_str.field (hget (txt "previous_event_hash")) rfl rfl trivial trivial
  cases e
  cases e'
  simp only [Event.mk.injEq]
  exact ⟨hsequence, heventId, hoperationId, htimestamp, hkind, hsummary, hreason, hnextAction,
    hstatus, hclassification, hphase, hplanId, hplanPath, hreferences, hevidenceCodes, hgit,
    hwriterSessionId, hmodelFamily, hmodelSource, hmodelVerified, horigin, hintent, hstatePatch,
    hoperationPayloadHash, hstateSemanticHash, hpreviousEventHash, hhash⟩

/-! ## Journals -/

section Journals

variable {env : Env}

/-- No digest of two records, one of each list, collides. -/
def CollisionFree (env : Env) (es es' : List Event) : Prop :=
  ∀ e ∈ es, ∀ e' ∈ es',
    env.sha256 (Json.canonical (.obj e.material)) = env.sha256 (Json.canonical (.obj e'.material)) →
      Json.canonical (.obj e.material) = Json.canonical (.obj e'.material)

/-- What `_validate_sequence_and_hashes` says of a journal. -/
theorem validateSequenceAndHashes_ok {es : List Event} :
    ∀ {n : Nat} {previous : Text}, validateSequenceAndHashes env n previous es = .ok () →
      HashChain.Linked Event.previousEventHash Event.recordHash previous es ∧
        (∀ i e, es[i]? = some e → e.sequence = n + i) ∧
        ∀ e ∈ es, e.recordHash = eventRecordHash env e := by
  induction es with
  | nil =>
      intro n previous _
      exact ⟨trivial, fun i e h => by simp at h, fun e h => by cases h⟩
  | cons e es ih =>
      intro n previous h
      simp only [validateSequenceAndHashes, bind_eq_ok, require_eq_ok, Bool.and_eq_true,
        beq_iff_eq] at h
      obtain ⟨_, hseq, _, hprevious, _, hhash, hrest⟩ := h
      obtain ⟨hlinked, hseqs, hhashes⟩ := ih hrest
      refine ⟨⟨hprevious, hlinked⟩, fun i e' he' => ?_, List.forall_mem_cons.mpr ⟨hhash.2, hhashes⟩⟩
      cases i with
      | zero =>
          cases he'
          exact hseq
      | succ i =>
          rw [hseqs i e' (by simpa using he')]
          omega

/-- **A record hash pins its record**, among records that do not collide. -/
theorem CollisionFree.eq {es es' : List Event} (h : CollisionFree env es es') {e e' : Event}
    (hmem : e ∈ es) (hmem' : e' ∈ es') (hn : e.Normal) (hn' : e'.Normal)
    (hhash : e.recordHash = eventRecordHash env e) (hhash' : e'.recordHash = eventRecordHash env e')
    (heq : e.recordHash = e'.recordHash) : e = e' := by
  have hdigest : eventRecordHash env e = eventRecordHash env e' := by
    rw [← hhash, ← hhash', heq]
  exact Event.eq_of_material hn hn' (h e hmem e' hmem' (List.append_cancel_left hdigest)) heq

/-- What `_validate_state_cursor` accepts: the start of the journal, or the
record it points to. -/
theorem validateStateCursor_ok {s : State} {es : List Event}
    (h : validateStateCursor s es = .ok ()) :
    s.lastEventSequence = 0 ∨
      ∃ e, es[s.lastEventSequence - 1]? = some e ∧ e.recordHash = s.lastEventHash := by
  simp only [validateStateCursor, bind_eq_ok, require_eq_ok] at h
  obtain ⟨_, -, h⟩ := h
  split at h
  · rename_i hzero
    exact .inl hzero
  · rw [require_eq_ok, Option.any_eq_true] at h
    obtain ⟨e, he, hhash⟩ := h
    exact .inr ⟨e, he, by simpa using hhash⟩

/-- Two journals with one record hash at the same place agree up to it. -/
theorem take_eq_of_recordHash {es es' : List Event} (hn : ∀ e ∈ es, e.Normal)
    (hn' : ∀ e ∈ es', e.Normal) (hfree : CollisionFree env es es')
    (h : validateSequenceAndHashes env 1 [] es = .ok ())
    (h' : validateSequenceAndHashes env 1 [] es' = .ok ()) {i : Nat} {e e' : Event}
    (he : es[i]? = some e) (he' : es'[i]? = some e') (heq : e.recordHash = e'.recordHash) :
    es.take (i + 1) = es'.take (i + 1) := by
  obtain ⟨hlinked, -, hhashes⟩ := validateSequenceAndHashes_ok h
  obtain ⟨hlinked', -, hhashes'⟩ := validateSequenceAndHashes_ok h'
  refine hlinked.take_eq hlinked' (fun r hr r' hr' hsame => ?_) he he' heq
  exact hfree.eq hr hr' (hn r hr) (hn' r' hr') (hhashes r hr) (hhashes' r' hr') hsame

/-- Two journals a cursor is accepted on agree up to it. -/
theorem take_eq_of_cursor {es es' : List Event} (hn : ∀ e ∈ es, e.Normal)
    (hn' : ∀ e ∈ es', e.Normal) (hfree : CollisionFree env es es')
    (h : validateSequenceAndHashes env 1 [] es = .ok ())
    (h' : validateSequenceAndHashes env 1 [] es' = .ok ()) {s : State}
    (hs : validateStateCursor s es = .ok ()) (hs' : validateStateCursor s es' = .ok ()) :
    es.take s.lastEventSequence = es'.take s.lastEventSequence := by
  rcases validateStateCursor_ok hs with hzero | ⟨e, he, hhash⟩
  · rw [hzero, List.take_zero, List.take_zero]
  · rcases validateStateCursor_ok hs' with hzero | ⟨e', he', hhash'⟩
    · rw [hzero, List.take_zero, List.take_zero]
    · by_cases hzero : s.lastEventSequence = 0
      · rw [hzero, List.take_zero, List.take_zero]
      · have htake := take_eq_of_recordHash hn hn' hfree h h' he he' (by rw [hhash, hhash'])
        rwa [Nat.sub_add_cancel (by omega)] at htake

end Journals

/-! Two first records of a plan `p`, and a host that tells them apart. -/

def startRecord (env : Env) (summary : Text) : Event :=
  let e : Event :=
    { sequence := 1
      eventId := txt "e1"
      operationId := txt "o1"
      timestamp := txt "2026-01-01T00:00:00+00:00"
      kind := .started
      summary := summary
      reason := []
      nextAction := []
      status := .planned
      classification := .green
      phase := []
      planId := txt "p"
      planPath := []
      references := []
      evidenceCodes := []
      git := ⟨[], [], [], []⟩
      writerSessionId := []
      modelFamily := .unknown
      modelSource := .unknown
      modelVerified := false
      origin := txt "implementation-progress"
      intent := txt "progress-maintenance"
      statePatch := ⟨none, none, none, none, none, none, none, none, none, none, none, none, none,
        none, none, none, none⟩
      operationPayloadHash := []
      stateSemanticHash := []
      previousEventHash := []
      recordHash := [] }
  { e with recordHash := eventRecordHash env e }

def startTable : DigestTable where
  rows := [(284519, List.replicate 64 '1'), (421138, List.replicate 64 '2')]
  digests := by decide +kernel

theorem startRecord_valid (env : Env) (summary : Text) :
    validateSequenceAndHashes env 1 [] [startRecord env summary] = .ok () := by
  have hhash : (startRecord env summary).recordHash =
      eventRecordHash env (startRecord env summary) := rfl
  have hne : (startRecord env summary).recordHash.isEmpty = false := rfl
  simp only [validateSequenceAndHashes, bind_eq_ok, require_eq_ok]
  exact ⟨(), rfl, (), rfl, (), by rw [hne, ← hhash]; simp, trivial⟩

theorem startRecord_collisionFree :
    CollisionFree (.host startTable) [startRecord (.host startTable) (txt "started")]
      [startRecord (.host startTable) (txt "altered")] := by
  intro e he e' he' hsame
  rw [List.mem_singleton] at he he'
  subst he he'
  exact absurd hsame (by decide +kernel)

end RalphVault.Store
