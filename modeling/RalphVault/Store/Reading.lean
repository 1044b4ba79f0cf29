import RalphVault.JsonText
import RalphVault.Store.Chain
import RalphVault.Store.Ledger

/-!
# Implementation store — files as texts

What the store writes is the canonical text of a record, and a reader
decodes it with `json.loads`, which gives the members of an object in key
order. The checks of the schema do not mind the order: a record that
passed validation once passes it again from the text it was written as.
The readers `read_json` and `read_jsonl` are then modelled on texts.
-/

namespace RalphVault.Store

/-! ## Members in key order -/

/-- The dictionary that is read back from the text of `d`. -/
def Dict.sorted (d : Dict) : Dict := Json.sortMembers (Json.normFields d)

theorem norm_obj (d : Dict) : Json.norm (.obj d) = .obj d.sorted := by
  rw [Json.norm, Dict.sorted]

theorem Dict.get?_sorted {d : Dict} (h : d.keys.Nodup) (k : Text) :
    d.sorted.get? k = (d.get? k).map Json.norm := by
  rw [Dict.sorted, Dict.get?_eq, Dict.get?_eq, Json.normFields_eq, Json.sortMembers_map,
    SortedMap.get?_map, Json.sortMembers, SortedMap.get?_ofList h]

/-- A member of the dictionary read back. -/
theorem Dict.getD_sorted {d : Dict} (h : d.keys.Nodup) {k : Text} {j j' : Json} (default : Json)
    (hk : d.get? k = some j) (hj : j.norm = j') : d.sorted.getD k default = j' := by
  rw [Dict.getD, Dict.get?_sorted h, hk, ← hj]
  rfl

theorem Dict.mem_keys_sorted {d : Dict} {k : Text} (h : k ∈ d.sorted.keys) : k ∈ d.keys := by
  rw [Dict.sorted, Json.normFields_eq, Json.sortMembers_map, Dict.keys, List.map_map] at h
  obtain ⟨m, hm, rfl⟩ := List.mem_map.mp h
  have hmem : m ∈ d := SortedMap.mem_ofList hm
  exact List.mem_map.mpr ⟨m, hmem, rfl⟩

theorem norm_texts (ts : List Text) : (textsJson ts).norm = textsJson ts := by
  have hstr : Json.norm ∘ Json.str = Json.str := by
    funext t
    rw [Function.comp_apply, Json.norm]
  rw [textsJson, Json.norm, Json.normItems_eq, List.map_map, hstr]

/-- Reading a dictionary of known keys: the version is checked, and no key is
unknown. -/
theorem sorted_known {d : Dict} {allowed : List Text} (label : String) (hd : d.keys.Nodup)
    (hkeys : ∀ k ∈ d.keys, k ∈ allowed) (hversion : d.get? (txt "schema_version") = some (.num 1)) :
    schemaVersion d.sorted label = .ok () ∧ unknownKeys d.sorted allowed label = .ok () :=
  ⟨schemaVersion_one label (Dict.getD_sorted hd _ hversion (by rw [Json.norm])),
    unknownKeys_of_subset fun k hk => hkeys k (Dict.mem_keys_sorted hk)⟩

variable {env : Env}

/-! ## Nested records -/

theorem git_sorted {g : Git} (h : GitOk env g) : git env (.obj g.toDict.sorted) = .ok g := by
  have hfield := @Dict.getD_sorted _ g.keys_nodup
  have hknown : ∀ k ∈ g.toDict.sorted.keys, k ∈ [txt "branch", txt "commit",
      txt "workspace_instance_id", txt "repository_id"] := fun _ hk => Dict.mem_keys_sorted hk
  simp only [git, object, bind_eq_ok, require_eq_ok, text_eq_ok, identifier_eq_ok, pure,
    Except.pure, Except.ok.injEq, exists_eq_left']
  exact ⟨(), unknownKeys_of_subset hknown, g.commit, ⟨hfield _ rfl rfl, h.commit.1⟩, (),
    h.commit.2, g.branch, ⟨hfield _ rfl rfl, h.branch⟩, g.workspaceInstanceId,
    ⟨hfield _ rfl rfl, h.workspace⟩, g.repositoryId, ⟨hfield _ rfl rfl, h.repository⟩, rfl⟩

theorem latestDecision_sorted {o : Option Decision} (label : String)
    (h : ∀ d, o = some d → DecisionOk env d) :
    latestDecision env (decisionJson o).norm label = .ok o := by
  cases o with
  | none => rfl
  | some d =>
      have hfield := @Dict.getD_sorted _ d.keys_nodup
      have hknown : ∀ k ∈ d.toDict.sorted.keys, k ∈ [txt "event_id", txt "summary"] :=
        fun _ hk => Dict.mem_keys_sorted hk
      have hd := h d rfl
      rw [decisionJson, norm_obj]
      simp only [latestDecision, object, bind_eq_ok, identifier_eq_ok, text_eq_ok, pure,
        Except.pure, Except.ok.injEq, exists_eq_left', Option.some.injEq]
      exact ⟨(), unknownKeys_of_subset hknown, d.eventId, ⟨hfield _ rfl rfl, hd.eventId⟩,
        d.summary, ⟨hfield _ rfl rfl, hd.summary⟩, rfl⟩

theorem norm_validation {m : ValidationMap} (h : SortedMap.Sorted textLt m) :
    (validationJson m).norm = validationJson m := by
  have hmembers : (Json.normFields (m.map fun e => (e.1, nameJson e.2))) =
      m.map fun e => (e.1, nameJson e.2) := by
    rw [Json.normFields_eq, List.map_map]
    rfl
  rw [validationJson, Json.norm, hmembers, Json.sortMembers_map]
  have hsorted : Json.sortMembers m = m := SortedMap.ofList_of_sorted textLt_strict h
  rw [hsorted]

/-- A field of a patch that is read back in another order of members. -/
theorem patchField_sorted {d : Dict} (hd : d.keys.Nodup) {k : Text} {f : Json → Check β}
    {enc : β → Json} {o : Option β} (hk : d.get? k = o.map enc)
    (h : ∀ b, o = some b → f (enc b).norm = .ok b) : patchField k f d.sorted = .ok o := by
  cases o with
  | none => simp [patchField, Dict.get?_sorted hd, hk]
  | some b =>
      simp [patchField, Dict.get?_sorted hd, hk, h b rfl, bind, Except.bind, pure, Except.pure]

theorem length_sorted (d : Dict) : d.sorted.length ≤ d.length := by
  rw [Dict.sorted, Json.normFields_eq, Json.sortMembers_map, List.length_map]
  exact SortedMap.length_ofList_le d

theorem decodePatch_sorted {p : StatePatch} (h : p.FieldsOk env) :
    decodePatch env p.toDict.sorted = .ok p := by
  have hlen : p.toDict.sorted.length ≤ statePatchKeys.length := by
    refine Nat.le_trans (length_sorted _) ?_
    rw [← p.members_keys, List.length_map]
    exact List.length_filterMap_le _ _
  have hknown : ∀ k ∈ p.toDict.sorted.keys, k ∈ statePatchKeys := by
    intro k hk
    rw [← p.members_keys]
    exact Dict.keys_ofOptions (Dict.mem_keys_sorted hk)
  have hmember : ∀ k o, SortedMap.get? k p.members = some o → p.toDict.get? k = o := by
    intro k o ho
    rw [p.get?_toDict, ho]
    rfl
  have hfield : ∀ {β : Type} {k : Text} {f : Json → Check β} {enc : β → Json} {o : Option β},
      SortedMap.get? k p.members = some (o.map enc) →
      (∀ b, o = some b → f (enc b).norm = .ok b) → patchField k f p.toDict.sorted = .ok o :=
    fun ho hf => patchField_sorted p.keys_nodup (hmember _ _ ho) hf
  simp only [decodePatch, bind_eq_ok, pure, Except.pure, Except.ok.injEq]
  refine ⟨(), by simpa using hlen, (), unknownKeys_of_subset hknown,
    p.planPath, hfield rfl fun t ht => (path_codec env _ _).complete (h.planPath t ht),
    p.status, hfield rfl fun b _ => enum_name b _,
    p.classification, hfield rfl fun b _ => enum_name b _,
    p.phase, hfield rfl fun t ht => (text_codec env _ _ _).complete (h.phase t ht),
    p.objective, hfield rfl fun t ht => (text_codec env _ _ _).complete (h.objective t ht),
    p.latestDecision, hfield rfl fun o ho => latestDecision_sorted _ (h.decision o ho),
    p.nextAction, hfield rfl fun t ht => (text_codec env _ _ _).complete (h.nextAction t ht),
    p.openBlockers, hfield rfl fun ts hts => ?_,
    p.openQuestions, hfield rfl fun ts hts => ?_,
    p.validation, hfield rfl fun m hm => ?_,
    p.activeFiles, hfield rfl fun ts hts => ?_,
    p.git, hfield rfl fun g hg => ?_,
    p.modelFamily, hfield rfl fun b _ => enum_name b _,
    p.modelSource, hfield rfl fun b _ => enum_name b _,
    p.modelVerified, hfield rfl fun b _ => rfl,
    p.origin, hfield rfl fun t ht => (text_codec env _ _ _).complete (h.origin t ht),
    p.intent, hfield rfl fun t ht => (text_codec env _ _ _).complete (h.intent t ht), rfl⟩
  · rw [norm_texts]
    exact (textList_codec env _ _ _).complete (h.blockers ts hts)
  · rw [norm_texts]
    exact (textList_codec env _ _ _).complete (h.questions ts hts)
  · have hm := h.validation m hm
    rw [norm_validation hm.sorted]
    exact validation_codec.complete hm
  · rw [norm_texts]
    exact (pathList_codec env _ _).complete (h.activeFiles ts hts)
  · rw [norm_obj]
    exact git_sorted (h.git g hg)

theorem statePatch_sorted {p : StatePatch} (h : p.Valid env) :
    statePatch env (.obj p.toDict.sorted) = .ok p := by
  simp [statePatch, object, decodePatch_sorted h.fields, rejectRed, h.notRed, bind, Except.bind,
    pure, Except.pure]

/-! ## Records -/

/-- A record of a journal that its reader takes. Only the journal of loose
commits has records without a plan. -/
structure Event.Readable (env : Env) (unplanned : Bool) (e : Event) : Prop where
  sequence : 1 ≤ e.sequence
  eventId : IdentifierOk env false e.eventId
  operationId : IdentifierOk env false e.operationId
  timestamp : TextOk env 64 false e.timestamp
  kind : (!unplanned || e.kind == EventKind.looseCommitRecorded) = true
  planId : (unplanned = true ∧ e.planId = []) ∨ PlanIdOk env e.planId
  planPath : PathOk env true e.planPath
  summary : TextOk env 400 true e.summary
  reason : TextOk env 400 true e.reason
  nextAction : TextOk env 400 true e.nextAction
  phase : TextOk env 160 true e.phase
  references : PathsOk env 8 e.references
  evidenceCodes : CodesOk 8 e.evidenceCodes
  git : GitOk env e.git
  writer : IdentifierOk env true e.writerSessionId
  origin : TextOk env 80 false e.origin
  intent : TextOk env 80 false e.intent
  patch : e.statePatch.Valid env
  payloadHash : HashOk true e.operationPayloadHash
  stateHash : HashOk true e.stateSemanticHash
  previous : HashOk true e.previousEventHash
  recordHash : HashOk false e.recordHash
  notRed : isRed env (Json.canonical (.obj e.toDict)) = false
  hashed : e.recordHash = eventRecordHash env e
  bounded : Json.encodedSize (.obj e.toDict) ≤
    if unplanned then unplannedEventHardLimitBytes else eventHardLimitBytes

theorem Event.Valid.readable {e : Event} (h : e.Valid env) : e.Readable env false where
  sequence := h.fields.sequence
  eventId := h.fields.eventId
  operationId := h.fields.operationId
  timestamp := h.fields.timestamp
  kind := rfl
  planId := .inr h.fields.planId
  planPath := h.fields.planPath
  summary := h.fields.summary
  reason := h.fields.reason
  nextAction := h.fields.nextAction
  phase := h.fields.phase
  references := h.fields.references
  evidenceCodes := h.fields.evidenceCodes
  git := h.fields.git
  writer := h.fields.writer
  origin := h.fields.origin
  intent := h.fields.intent
  patch := h.fields.patch
  payloadHash := h.fields.payloadHash
  stateHash := h.fields.stateHash
  previous := h.fields.previous
  recordHash := .inr (by rw [h.hashed]; exact isHash_digest env _)
  notRed := h.notRed
  hashed := h.hashed
  bounded := h.bounded

/-- The plan of a record, which may be missing only for a loose commit. -/
theorem planId_complete {t : Text} {unplanned : Bool}
    (h : (unplanned = true ∧ t = []) ∨ PlanIdOk env t) :
    planId env (.str t) unplanned = .ok t := by
  rcases h with ⟨rfl, rfl⟩ | h
  · rfl
  · have hne : t.isEmpty = false := List.isEmpty_eq_false_iff.mpr (PlanIdOk.ne_nil env h)
    have hread := (planId_eq_ok env).mpr ⟨rfl, h⟩
    simp only [planId, hne, Bool.and_false, Bool.false_eq_true, if_false] at hread ⊢
    exact hread

theorem Event.keys_toDict (e : Event) : e.toDict.keys = eventKeys := rfl

theorem Event.keys_nodup (e : Event) : e.toDict.keys.Nodup := by
  rw [e.keys_toDict]
  decide

/-- **A journal record is read back** from its text. -/
theorem readable_sorted {e : Event} {unplanned : Bool} (h : e.Readable env unplanned)
    {expected : Option Text} (hexp : ∀ p, expected = some p → p = e.planId) :
    validateEvent env e.toDict.sorted expected unplanned false = .ok e := by
  have hkeys : ∀ k ∈ e.toDict.keys, k ∈ eventKeys := fun k hk => hk
  have hne : e.recordHash ≠ [] := by
    rw [h.hashed]
    exact isHash_ne_nil (isHash_digest env _)
  obtain ⟨hversion, hknown⟩ := sorted_known "event" e.keys_nodup hkeys rfl
  have hfield : ∀ {k j j'} default, e.toDict.get? k = some j → j.norm = j' →
      e.toDict.sorted.getD k default = j' :=
    fun {_ _ _} => Dict.getD_sorted e.keys_nodup
  have hplan : planId env (e.toDict.sorted.getD (txt "plan_id") noText) unplanned =
      .ok e.planId := by
    have hstored : e.toDict.sorted.getD (txt "plan_id") noText = .str e.planId :=
      hfield _ rfl rfl
    rw [hstored]
    exact planId_complete h.planId
  have hgit : git env (e.toDict.sorted.getD (txt "git") (.obj [])) = .ok e.git := by
    rw [hfield _ rfl (norm_obj _)]
    exact git_sorted h.git
  have hpatch : statePatch env (e.toDict.sorted.getD (txt "state_patch") (.obj [])) =
      .ok e.statePatch := by
    rw [hfield _ rfl (norm_obj _)]
    exact statePatch_sorted h.patch
  have hdecode : decodeEvent env e.toDict.sorted expected unplanned false = .ok e := by
    simp only [decodeEvent, bind_eq_ok, repoRelativePath_eq_ok, text_eq_ok,
      identifier_eq_ok, pathList_eq_ok, codeList_eq_ok, hash_eq_ok, integer_eq_ok, boolean_eq_ok,
      enum_eq_ok, timestamp, require_eq_ok, expected_all, pure, Except.pure, Except.ok.injEq]
    exact ⟨(), hversion, (), hknown, e.sequence, ⟨hfield _ rfl rfl, h.sequence⟩, e.eventId,
      ⟨hfield _ rfl rfl, h.eventId⟩, e.operationId, ⟨hfield _ rfl rfl, h.operationId⟩,
      e.timestamp, ⟨hfield _ rfl rfl, h.timestamp⟩, e.kind, hfield _ rfl rfl, (), h.kind,
      e.planId, hplan, (), hexp, e.planPath, ⟨hfield _ rfl rfl, h.planPath⟩,
      e.summary, ⟨hfield _ rfl rfl, h.summary⟩, e.reason, ⟨hfield _ rfl rfl, h.reason⟩,
      e.nextAction, ⟨hfield _ rfl rfl, h.nextAction⟩, e.status, hfield _ rfl rfl,
      e.classification, hfield _ rfl rfl, e.phase, ⟨hfield _ rfl rfl, h.phase⟩,
      e.references, ⟨hfield _ rfl (norm_texts _), h.references⟩, e.evidenceCodes,
      ⟨hfield _ rfl (norm_texts _), h.evidenceCodes⟩, e.git, hgit,
      e.writerSessionId, ⟨hfield _ rfl rfl, h.writer⟩, e.modelFamily, hfield _ rfl rfl,
      e.modelSource, hfield _ rfl rfl, e.modelVerified, hfield _ rfl rfl, e.origin,
      ⟨hfield _ rfl rfl, h.origin⟩, e.intent, ⟨hfield _ rfl rfl, h.intent⟩, e.statePatch,
      hpatch, e.operationPayloadHash, ⟨hfield _ rfl rfl, h.payloadHash⟩, e.stateSemanticHash,
      ⟨hfield _ rfl rfl, h.stateHash⟩, e.previousEventHash, ⟨hfield _ rfl rfl, h.previous⟩,
      e.recordHash, ⟨hfield _ rfl rfl, h.recordHash⟩, (),
      by simpa [List.isEmpty_iff] using hne, rfl⟩
  simp [validateEvent, hdecode, rejectRed, h.notRed, ← h.hashed, h.bounded, bind, Except.bind,
    pure, Except.pure]

theorem State.keys_nodup (s : State) : s.toDict.keys.Nodup := by
  show stateKeys.Nodup
  decide

/-- **A snapshot is read back** from its text. -/
theorem state_sorted {s : State} {limit : Nat} (h : s.Valid env limit)
    {expected : Option Text} (hexp : ∀ p, expected = some p → p = s.planId) :
    validateState env s.toDict.sorted expected limit = .ok s := by
  have hkeys : ∀ k ∈ s.toDict.keys, k ∈ stateKeys := fun k hk => hk
  obtain ⟨hversion, hknown⟩ := sorted_known "state" s.keys_nodup hkeys rfl
  have hfield : ∀ {k j j'} default, s.toDict.get? k = some j → j.norm = j' →
      s.toDict.sorted.getD k default = j' :=
    fun {_ _ _} => Dict.getD_sorted s.keys_nodup
  have hf := h.fields
  have hdecision : latestDecision env (s.toDict.sorted.getD (txt "latest_decision") .null)
      "latest_decision" = .ok s.latestDecision := by
    rw [hfield _ rfl rfl]
    exact latestDecision_sorted _ hf.decision
  have hgates : validation (s.toDict.sorted.getD (txt "validation") (.obj [])) =
      .ok s.validation := by
    rw [hfield _ rfl (norm_validation hf.validation.sorted)]
    exact validation_codec.complete hf.validation
  have hgit : git env (s.toDict.sorted.getD (txt "git") (.obj [])) = .ok s.git := by
    rw [hfield _ rfl (norm_obj _)]
    exact git_sorted hf.git
  have hdecode : decodeState env s.toDict.sorted expected = .ok s := by
    simp only [decodeState, bind_eq_ok, planId_eq_ok, repoRelativePath_eq_ok, text_eq_ok,
      identifier_eq_ok, textList_eq_ok, pathList_eq_ok, hash_eq_ok, timestamp, require_eq_ok,
      expected_all, enum_eq_ok, integer_eq_ok, boolean_eq_ok, pure, Except.pure,
      Except.ok.injEq]
    exact ⟨(), hversion, (), hknown, s.planId, ⟨hfield _ rfl rfl, hf.planId⟩, (), hexp,
      s.planPath, ⟨hfield _ rfl rfl, hf.planPath⟩, s.generation,
      ⟨hfield _ rfl rfl, Nat.zero_le _⟩, s.status, hfield _ rfl rfl, s.classification,
      hfield _ rfl rfl, s.phase, ⟨hfield _ rfl rfl, hf.phase⟩, s.objective,
      ⟨hfield _ rfl rfl, hf.objective⟩, s.nextAction, ⟨hfield _ rfl rfl, hf.nextAction⟩,
      s.latestDecision, hdecision, s.openBlockers, ⟨hfield _ rfl (norm_texts _), hf.blockers⟩,
      s.openQuestions, ⟨hfield _ rfl (norm_texts _), hf.questions⟩, s.validation, hgates,
      s.activeFiles, ⟨hfield _ rfl (norm_texts _), hf.activeFiles⟩, s.lastOperationId,
      ⟨hfield _ rfl rfl, hf.operation⟩, s.lastEventSequence,
      ⟨hfield _ rfl rfl, Nat.zero_le _⟩, s.lastEventHash, ⟨hfield _ rfl rfl, hf.eventHash⟩,
      s.git, hgit, s.writerSessionId, ⟨hfield _ rfl rfl, hf.writer⟩, s.modelFamily,
      hfield _ rfl rfl, s.modelSource, hfield _ rfl rfl, s.modelVerified, hfield _ rfl rfl,
      s.origin, ⟨hfield _ rfl rfl, hf.origin⟩, s.intent, ⟨hfield _ rfl rfl, hf.intent⟩,
      s.createdAt, ⟨hfield _ rfl rfl, hf.createdAt⟩, s.updatedAt,
      ⟨hfield _ rfl rfl, hf.updatedAt⟩, s.semanticHash, ⟨hfield _ rfl rfl, hf.semanticHash⟩,
      rfl⟩
  have hsame : s.rehashed env = s := h.hashed
  simp [validateState, hdecode, hsame, rejectRed, h.fits.notRed, h.fits.bounded, bind,
    Except.bind, pure, Except.pure]

theorem Pointer.keys_nodup (p : Pointer) : p.toDict.keys.Nodup := by
  show [txt "plan_id", txt "plan_path", txt "state_path", txt "status", txt "branch",
    txt "workspace_instance_id", txt "semantic_hash", txt "last_event_sequence"].Nodup
  decide

theorem decodePointer_sorted {p : Pointer} (label : String) (h : p.FieldsOk env) :
    decodePointer env (.obj p.toDict.sorted) label = .ok p := by
  have hfield : ∀ {k j j'} default, p.toDict.get? k = some j → j.norm = j' →
      p.toDict.sorted.getD k default = j' :=
    fun {_ _ _} => Dict.getD_sorted p.keys_nodup
  have hknown : ∀ k ∈ p.toDict.sorted.keys, k ∈ [txt "plan_id", txt "plan_path",
      txt "state_path", txt "status", txt "branch", txt "workspace_instance_id",
      txt "semantic_hash", txt "last_event_sequence"] := fun _ hk => Dict.mem_keys_sorted hk
  simp only [decodePointer, bind_eq_ok, object_eq_ok, planId_eq_ok, repoRelativePath_eq_ok,
    storeRelativePath_eq_ok, text_eq_ok, identifier_eq_ok, hash_eq_ok, enum_eq_ok,
    integer_eq_ok, pure, Except.pure, Except.ok.injEq, Json.obj.injEq]
  exact ⟨_, rfl, (), unknownKeys_of_subset hknown, p.planId, ⟨hfield _ rfl rfl, h.planId⟩,
    p.planPath, ⟨hfield _ rfl rfl, h.planPath⟩, p.statePath, ⟨hfield _ rfl rfl, h.statePath⟩,
    p.status, hfield _ rfl rfl, p.branch, ⟨hfield _ rfl rfl, h.branch⟩,
    p.workspaceInstanceId, ⟨hfield _ rfl rfl, h.workspace⟩, p.semanticHash,
    ⟨hfield _ rfl rfl, h.semanticHash⟩, p.lastEventSequence,
    ⟨hfield _ rfl rfl, Nat.zero_le _⟩, rfl⟩

theorem decodePointers_sorted {ps : List Pointer} :
    ∀ {seen : List Text} {i : Nat}, PointersOk env seen ps →
      decodePointers env seen i (ps.map fun p => .obj p.toDict.sorted) = .ok ps := by
  induction ps with
  | nil => exact fun _ => rfl
  | cons p ps ih =>
      intro seen i h
      have hp := h.fields p List.mem_cons_self
      have hnodup := List.nodup_cons.mp h.distinct
      have hfresh : p.planId ∉ seen := h.fresh p List.mem_cons_self
      have hrest : PointersOk env (seen ++ [p.planId]) ps := by
        refine ⟨fun q hq => h.fields q (List.mem_cons_of_mem _ hq), hnodup.2, ?_⟩
        intro q hq hmem
        rcases List.mem_append.mp hmem with hmem | hmem
        · exact h.fresh q (List.mem_cons_of_mem _ hq) hmem
        · rw [List.mem_singleton] at hmem
          exact hnodup.1 (hmem ▸ List.mem_map_of_mem hq)
      simp [decodePointers, decodePointer_sorted _ hp, hfresh, ih hrest, bind, Except.bind, pure,
        Except.pure]

theorem Manifest.keys_nodup (m : Manifest) : m.toDict.keys.Nodup := by
  show [txt "schema_version", txt "canonical_repo_identity", txt "generation",
    txt "plans"].Nodup
  decide

/-- **A manifest is read back** from its text. -/
theorem manifest_sorted {m : Manifest} (h : m.Valid env) :
    validateManifest env m.toDict.sorted = .ok m := by
  have hfield : ∀ {k j j'} default, m.toDict.get? k = some j → j.norm = j' →
      m.toDict.sorted.getD k default = j' :=
    fun {_ _ _} => Dict.getD_sorted m.keys_nodup
  have hkeys : ∀ k ∈ m.toDict.keys, k ∈ [txt "schema_version", txt "canonical_repo_identity",
      txt "generation", txt "plans"] := fun k hk => hk
  obtain ⟨hversion, hknown⟩ := sorted_known "manifest" m.keys_nodup hkeys rfl
  have hlist : Json.norm (.arr (m.plans.map fun p => .obj p.toDict)) =
      .arr (m.plans.map fun p => .obj p.toDict.sorted) := by
    rw [Json.norm, Json.normItems_eq, List.map_map]
    rfl
  have hplans : pointerList env (m.toDict.sorted.getD (txt "plans") (.arr [])) = .ok m.plans := by
    rw [hfield _ rfl hlist]
    simp [pointerList, bind, Except.bind, h.count, decodePointers_sorted h.pointers]
  simp only [validateManifest, bind_eq_ok, identifier_eq_ok, rejectRed, require_eq_ok,
    Bool.not_eq_true', decide_eq_true_eq, integer_eq_ok, pure, Except.pure, Except.ok.injEq]
  exact ⟨(), hversion, (), hknown, m.canonicalRepoIdentity,
    ⟨hfield _ rfl rfl, h.identity⟩, m.generation, ⟨hfield _ rfl rfl, Nat.zero_le _⟩, m.plans,
    hplans, (), h.notRed, (), h.bounded, rfl⟩

theorem LedgerRecord.keys_nodup (r : LedgerRecord) : r.toDict.keys.Nodup := by
  show ledgerKeys.Nodup
  decide

/-- **A ledger record is read back** from its text. -/
theorem ledgerRecord_sorted {r : LedgerRecord} (h : r.Valid env) :
    validateContextLedgerRecord env r.toDict.sorted = .ok r := by
  have hfield : ∀ {k j j'} default, r.toDict.get? k = some j → j.norm = j' →
      r.toDict.sorted.getD k default = j' :=
    fun {_ _ _} => Dict.getD_sorted r.keys_nodup
  have hkeys : ∀ k ∈ r.toDict.keys, k ∈ ledgerKeys := fun k hk => hk
  obtain ⟨hversion, hknown⟩ := sorted_known "context ledger record" r.keys_nodup hkeys rfl
  simp only [validateContextLedgerRecord, bind_eq_ok, identifier_eq_ok, planId_eq_ok, rejectRed,
    require_eq_ok, Bool.not_eq_true', decide_eq_true_eq, integer_eq_ok, enum_eq_ok, pure,
    Except.pure, Except.ok.injEq]
  exact ⟨(), hversion, (), hknown, r.projectId, ⟨hfield _ rfl rfl, h.project⟩,
    r.workspaceInstanceId, ⟨hfield _ rfl rfl, h.workspace⟩, r.sessionId,
    ⟨hfield _ rfl rfl, h.session⟩, r.contextEpoch, ⟨hfield _ rfl rfl, h.epoch⟩, r.planId,
    ⟨hfield _ rfl rfl, h.plan⟩, r.progressGeneration, ⟨hfield _ rfl rfl, Nat.zero_le _⟩,
    r.capsuleKind, hfield _ rfl rfl, r.emissionId, ⟨hfield _ rfl rfl, h.emission⟩, (), h.notRed,
    (), h.bounded, rfl⟩

/-! ## The readers of `io.py` -/

/-- `read_json` on the text of a file, if there is one. -/
def readJsonText (validator : Dict → Check β) (label : String) (limit : Nat) :
    Option Text → Check (Option β)
  | none => .ok none
  | some t =>
      if limit < utf8Len t then
        .error (.storeIOError s!"{label} exceeds its read limit of {limit} bytes")
      else match Json.loads t with
        | none => .error (.corruptRecordError s!"{label} is malformed; evidence was not changed")
        | some j => match object j label >>= validator with
            | .ok b => .ok (some b)
            | .error e => .error (corrupt s!"{label} is malformed; evidence was not changed" e)

/-- The white space `bytes.strip` removes. -/
def isByteSpace (c : Char) : Bool := (9 ≤ c.toNat && c.toNat ≤ 13) || c == ' '

/-- The loop of `read_jsonl` from line `i` on: the records, and whether an
incomplete line follows them. -/
def readLines (validator : Dict → Check β) (label : String) (maxRecords : Nat) :
    Nat → List Text → Check (List β × Bool)
  | _, [] => .ok ([], false)
  | i, line :: lines =>
      if line.getLast? ≠ some '\n' then
        if lines.isEmpty then .ok ([], true)
        else .error (.corruptRecordError s!"{label} has a malformed line boundary")
      else if line.all isByteSpace then
        .error (.corruptRecordError s!"{label} contains an empty line")
      else match Json.loads line with
        | none => .error (.corruptRecordError s!"{label} record {i + 1} is malformed")
        | some j => match object j s!"{label} record" with
            | .error e => .error (corrupt s!"{label} record {i + 1} is malformed" e)
            | .ok d =>
                if maxRecords ≤ i then
                  .error (.corruptRecordError
                    s!"{label} exceeds the maximum of {maxRecords} records")
                else match validator d with
                  | .error e => .error (corrupt s!"{label} record {i + 1} is malformed" e)
                  | .ok b => do
                      let (bs, part) ← readLines validator label maxRecords (i + 1) lines
                      pure (b :: bs, part)

/-- `read_jsonl` on the text of a file, if there is one. -/
def readJsonlText (validator : Dict → Check β) (label : String) (totalHardLimit maxRecords : Nat) :
    Option Text → Check (List β × Bool)
  | none => .ok ([], false)
  | some t => do
      require (utf8Len t ≤ totalHardLimit)
        (.storeIOError s!"{label} exceeds its read limit of {totalHardLimit} bytes")
      readLines validator label maxRecords 0 (Json.splitLines t)

/-! ## The texts that are written -/

/-- The line `append_jsonl` writes for a record. -/
def lineText (d : Dict) : Text := Json.canonical (.obj d) ++ ['\n']

/-- The text of a journal of records. -/
def linesText (ds : List Dict) : Text := ds.flatMap lineText

theorem linesText_snoc (ds : List Dict) (d : Dict) :
    linesText (ds ++ [d]) = linesText ds ++ lineText d := by
  simp [linesText]

theorem utf8Len_lineText (d : Dict) :
    utf8Len (lineText d) = Json.encodedSize (.obj d) + 1 := by
  rw [lineText, utf8Len_append]
  rfl

theorem splitLines_linesText (ds : List Dict) :
    Json.splitLines (linesText ds) = ds.map lineText := by
  have hlines := Json.splitLines_records (ds.map Json.obj)
  rw [List.flatMap_map, List.map_map] at hlines
  exact hlines

/-- A line of a record is complete, and it is not blank. -/
theorem lineText_ends (d : Dict) :
    (lineText d).getLast? = some '\n' ∧ (lineText d).all isByteSpace = false := by
  obtain ⟨c, t, hc, hkind⟩ := Json.renderTo_head (.obj d) []
  have hcanonical : Json.canonical (.obj d) = c :: t := hc
  refine ⟨by rw [lineText, List.getLast?_concat], ?_⟩
  rw [lineText, hcanonical, List.cons_append, List.all_cons, Bool.and_eq_false_iff]
  left
  have hopen : c = '{' := by
    have hrender := Json.renderTo_obj d []
    rw [hc, List.cons.injEq] at hrender
    exact hrender.1
  rw [hopen]
  decide

theorem loads_lineText (d : Dict) : Json.loads (lineText d) = some (.obj d.sorted) := by
  rw [lineText, Json.loads_canonical _ (.inr rfl), norm_obj]

section Records

variable {validator : Dict → Check β} {label : String} {limit maxRecords totalHardLimit : Nat}
  {toDict : β → Dict}

/-- **A published record is read back.** -/
theorem readJsonText_published {b : β} (h : validator (toDict b).sorted = .ok b)
    (hsize : Json.encodedSize (.obj (toDict b)) ≤ limit) :
    readJsonText validator label limit (some (Json.canonical (.obj (toDict b)))) =
      .ok (some b) := by
  have hloads : Json.loads (Json.canonical (.obj (toDict b))) = some (.obj (toDict b).sorted) := by
    have hcanonical := Json.loads_canonical (.obj (toDict b)) (.inl rfl)
    rw [List.append_nil, norm_obj] at hcanonical
    exact hcanonical
  have hfits : ¬ limit < utf8Len (Json.canonical (.obj (toDict b))) := Nat.not_lt.mpr hsize
  simp [readJsonText, hfits, hloads, object, h, bind, Except.bind]

theorem readLines_records {bs : List β} (h : ∀ b ∈ bs, validator (toDict b).sorted = .ok b) :
    ∀ {i : Nat}, i + bs.length ≤ maxRecords →
      readLines validator label maxRecords i ((bs.map toDict).map lineText) =
        .ok (bs, false) := by
  induction bs with
  | nil => exact fun _ => rfl
  | cons b bs ih =>
      intro i hi
      rw [List.length_cons] at hi
      have hb := h b (List.mem_cons_self ..)
      have hbs := ih (fun c hc => h c (List.mem_cons_of_mem _ hc)) (i := i + 1) (by omega)
      have hroom : ¬ maxRecords ≤ i := by omega
      obtain ⟨hlast, hblank⟩ := lineText_ends (toDict b)
      simp only [List.map_cons, readLines, hlast, hblank, loads_lineText, object, hb,
        if_neg hroom, ne_eq, not_true_eq_false, if_false, Bool.false_eq_true]
      rw [hbs]
      rfl

/-- **Appended records are read back**, in order, as long as the journal is
within its limits. -/
theorem readJsonlText_records {bs : List β} (h : ∀ b ∈ bs, validator (toDict b).sorted = .ok b)
    (hcount : bs.length ≤ maxRecords)
    (hbytes : utf8Len (linesText (bs.map toDict)) ≤ totalHardLimit) :
    readJsonlText validator label totalHardLimit maxRecords
      (some (linesText (bs.map toDict))) = .ok (bs, false) := by
  have hlines : readLines validator label maxRecords 0 ((bs.map toDict).map lineText) =
      .ok (bs, false) := readLines_records h (by omega)
  simp only [readJsonlText, hbytes, decide_true, require_true, splitLines_linesText, hlines]
  rfl

end Records

end RalphVault.Store
