import Mathlib
import RalphVault.AsciiJson
import RalphVault.Hooks

/-!
# Prompt cache — signatures and fingerprints

The identities of the prompt cache: `signature_from_prompt` of
`task_signature.py` and `context_fingerprint` of `context_delta.py`. Both
are cut digests of JSON texts. Where the digests at hand do not collide
(`Unambiguous`), equal identities come from equal inputs.
-/

namespace RalphVault.PromptCache

open Hooks

variable {p : Platform}

/-- `_digest`. -/
def digest (p : Platform) (length : Nat) (value : Text) : Text := (p.sha256 value).take length

/-- Two texts that are told apart by the first `length` digits of their
hashes. -/
def Unambiguous (p : Platform) (length : Nat) (s t : Text) : Prop :=
  digest p length s = digest p length t → s = t

/-! ## Task signatures -/

/-- The arguments of `signature_from_prompt`; `intent` is what
`normalized_intent` makes of the prompt. -/
structure Task where
  prompt : Text
  intent : Text
  context : ActiveContext
  sensitivity : Text
  modelFamily : Text
  modelSource : Text
  modelVerified : Bool
  checkpointIdentity : Text
  progressPlanId : Text
  progressGeneration : Nat
  contextEpoch : Text
deriving DecidableEq

namespace Task

/-- `checkpoint_material`. -/
def checkpointMaterial (t : Task) : Json :=
  .obj [(txt "checkpoint", .str t.checkpointIdentity),
    (txt "progress_plan_id", .str t.progressPlanId),
    (txt "progress_generation", .num t.progressGeneration),
    (txt "context_epoch", .str t.contextEpoch)]

/-- `any(checkpoint_material.values())`. -/
def hasCheckpoint (t : Task) : Bool :=
  !t.checkpointIdentity.isEmpty || !t.progressPlanId.isEmpty || t.progressGeneration != 0 ||
    !t.contextEpoch.isEmpty

/-- The field `checkpoint_identity` of the signature. -/
def checkpoint (p : Platform) (t : Task) : Text :=
  if t.hasCheckpoint then digest p 24 t.checkpointMaterial.asciiDumps else []

/-- `value_material`. -/
def valueMaterial (p : Platform) (t : Task) : Json :=
  .obj [(txt "schema_version", .num 1),
    (txt "project_id", .str t.context.projectId),
    (txt "workspace_instance_id", .str t.context.workspaceInstanceId),
    (txt "branch", .str t.context.branch),
    (txt "prompt_hash", .str (digest p 40 t.prompt)),
    (txt "intent", .str t.intent),
    (txt "sensitivity", .str t.sensitivity),
    (txt "model_family", .str t.modelFamily),
    (txt "model_source", .str t.modelSource),
    (txt "model_verified", .bool t.modelVerified),
    (txt "head", .str t.context.sha),
    (txt "checkpoint_identity", .str (t.checkpoint p))]

/-- `TaskSignature.value`. -/
def value (p : Platform) (t : Task) : Text :=
  txt "task-" ++ digest p 32 (t.valueMaterial p).asciiDumps

end Task

/-! ## Fingerprints -/

/-- `_safe_id`. -/
def safeId (u : Unicode) (value : Text) : Text :=
  (value.filter fun c => u.alnum c || (txt "._:-").contains c).take 96

/-- The arguments `claim` and `finalize` share. -/
structure Inputs where
  memoryGeneration : Text
  route : Text
  profile : Text
  clarificationState : Text
  checkpointHash : Text
deriving DecidableEq

/-- The order of `sorted` on strings. -/
def TextLe (s t : Text) : Prop := textLt t s = false

instance : DecidableRel TextLe := fun s t => inferInstanceAs (Decidable (textLt t s = false))

/-- The safe ids among some items, none of them empty. -/
def safeIds (u : Unicode) (items : List Text) : List Text :=
  (items.map (safeId u)).filter fun item => !item.isEmpty

/-- The sorted ids a fingerprint covers. -/
def coveredIds (u : Unicode) (selected : List Text) : List Text :=
  ((safeIds u selected).insertionSort TextLe).take 8

/-- The material of `context_fingerprint`. -/
def fingerprintMaterial (u : Unicode) (signature : Text) (selected : List Text) (i : Inputs) :
    Json :=
  .obj [(txt "contract_version", .str (txt "prompt-context-v1")),
    (txt "task_signature", .str signature),
    (txt "selected_memory_ids", .arr ((coveredIds u selected).map .str)),
    (txt "memory_generation", .str (safeId u i.memoryGeneration)),
    (txt "route", .str (safeId u i.route)),
    (txt "profile", .str (safeId u i.profile)),
    (txt "clarification_state", .str (safeId u i.clarificationState)),
    (txt "checkpoint_hash", .str (safeId u i.checkpointHash))]

/-- `context_fingerprint`. -/
def contextFingerprint (p : Platform) (signature : Text) (selected : List Text) (i : Inputs) :
    Text :=
  digest p 32 (fingerprintMaterial p.unicode signature selected i).asciiDumps

/-! ## Safe ids -/

theorem safeId_safeId (u : Unicode) (value : Text) : safeId u (safeId u value) = safeId u value := by
  have hfilter : ((value.filter fun c => u.alnum c || (txt "._:-").contains c).take 96).filter
      (fun c => u.alnum c || (txt "._:-").contains c) =
      (value.filter fun c => u.alnum c || (txt "._:-").contains c).take 96 :=
    List.filter_eq_self.mpr fun c hc => (List.mem_filter.mp (List.mem_of_mem_take hc)).2
  rw [safeId, safeId, hfilter, List.take_take, Nat.min_self]

/-- Items that are safe ids already. -/
theorem safeIds_of_safe {u : Unicode} {items : List Text}
    (h : ∀ item ∈ items, item ≠ [] ∧ safeId u item = item) : safeIds u items = items := by
  have hmap : items.map (safeId u) = items := by
    conv_rhs => rw [← List.map_id items]
    exact List.map_congr_left fun item hitem => (h item hitem).2
  rw [safeIds, hmap]
  refine List.filter_eq_self.mpr fun item hitem => ?_
  cases item with
  | nil => exact absurd rfl (h [] hitem).1
  | cons c item => rfl

theorem mem_safeIds {u : Unicode} {items : List Text} {item : Text} (h : item ∈ safeIds u items) :
    item ≠ [] ∧ safeId u item = item := by
  obtain ⟨hmem, hne⟩ := List.mem_filter.mp h
  obtain ⟨raw, -, rfl⟩ := List.mem_map.mp hmem
  refine ⟨?_, safeId_safeId u raw⟩
  rintro heq
  rw [heq] at hne
  cases hne

theorem safeId_unknown (u : Unicode) : safeId u (txt "unknown") = txt "unknown" := by
  have hascii : ∀ c ∈ txt "unknown", c.toNat < 128 ∧ isAsciiAlnum c = true := by decide
  have hkept : (txt "unknown").filter (fun c => u.alnum c || (txt "._:-").contains c) =
      txt "unknown" := by
    refine List.filter_eq_self.mpr fun c hc => ?_
    rw [u.alnum_ascii c (hascii c hc).1, (hascii c hc).2]
    rfl
  rw [safeId, hkept]
  rfl

/-! ## Equal identities -/

/-- The members of two objects with equal texts. -/
theorem asciiDumps_get? {d d' : List (Text × Json)} (hd : (d.map Prod.fst).Nodup)
    (hd' : (d'.map Prod.fst).Nodup) (h : (Json.obj d).asciiDumps = (Json.obj d').asciiDumps)
    (k : Text) : (SortedMap.get? k d).map Json.norm = (SortedMap.get? k d').map Json.norm :=
  Json.norm_obj_get? hd hd' (Json.asciiDumps_inj h) k

/-- A value that is told by its normal form is told by its member. -/
theorem member_eq {β : Type} {f : β → Json} (hf : ∀ a b, (f a).norm = (f b).norm → a = b)
    {d d' : List (Text × Json)} {k : Text} {a b : β}
    (h : (SortedMap.get? k d).map Json.norm = (SortedMap.get? k d').map Json.norm)
    (ha : SortedMap.get? k d = some (f a)) (hb : SortedMap.get? k d' = some (f b)) : a = b := by
  rw [ha, hb, Option.map_some, Option.map_some, Option.some.injEq] at h
  exact hf a b h

theorem str_norm (s t : Text) (h : (Json.str s).norm = (Json.str t).norm) : s = t :=
  Json.str.inj h

theorem bool_norm (b c : Bool) (h : (Json.bool b).norm = (Json.bool c).norm) : b = c :=
  Json.bool.inj h

theorem nat_norm (m n : Nat) (h : (Json.num m).norm = (Json.num n).norm) : m = n :=
  Int.ofNat_inj.mp (Json.num.inj h)

/-- The fingerprint sees the inputs through their safe ids. -/
theorem contextFingerprint_congr {s : Text} {ids : List Text} {i i' : Inputs}
    (hgeneration : safeId p.unicode i.memoryGeneration = safeId p.unicode i'.memoryGeneration)
    (hroute : safeId p.unicode i.route = safeId p.unicode i'.route)
    (hprofile : safeId p.unicode i.profile = safeId p.unicode i'.profile)
    (hclarification : safeId p.unicode i.clarificationState =
      safeId p.unicode i'.clarificationState)
    (hcheckpoint : safeId p.unicode i.checkpointHash = safeId p.unicode i'.checkpointHash) :
    contextFingerprint p s ids i = contextFingerprint p s ids i' := by
  simp only [contextFingerprint, fingerprintMaterial, hgeneration, hroute, hprofile,
    hclarification, hcheckpoint]

theorem contextFingerprint_inj {s s' : Text} {ids ids' : List Text} {i i' : Inputs}
    (hclear : Unambiguous p 32 (fingerprintMaterial p.unicode s ids i).asciiDumps
      (fingerprintMaterial p.unicode s' ids' i').asciiDumps)
    (h : contextFingerprint p s ids i = contextFingerprint p s' ids' i') :
    s = s' ∧
      safeId p.unicode i.memoryGeneration = safeId p.unicode i'.memoryGeneration ∧
      safeId p.unicode i.route = safeId p.unicode i'.route ∧
      safeId p.unicode i.profile = safeId p.unicode i'.profile ∧
      safeId p.unicode i.clarificationState = safeId p.unicode i'.clarificationState ∧
      safeId p.unicode i.checkpointHash = safeId p.unicode i'.checkpointHash := by
  have hget := asciiDumps_get? (by simp only [List.map_cons, List.map_nil]; decide)
    (by simp only [List.map_cons, List.map_nil]; decide) (hclear h)
  refine ⟨?_, ?_, ?_, ?_, ?_, ?_⟩
  · exact member_eq str_norm (hget (txt "task_signature")) rfl rfl
  · exact member_eq str_norm (hget (txt "memory_generation")) rfl rfl
  · exact member_eq str_norm (hget (txt "route")) rfl rfl
  · exact member_eq str_norm (hget (txt "profile")) rfl rfl
  · exact member_eq str_norm (hget (txt "clarification_state")) rfl rfl
  · exact member_eq str_norm (hget (txt "checkpoint_hash")) rfl rfl

/-- The texts of two tasks that are hashed and told apart. -/
structure Task.Unambiguous (p : Platform) (t t' : Task) : Prop where
  prompt : PromptCache.Unambiguous p 40 t.prompt t'.prompt
  checkpoint : PromptCache.Unambiguous p 24 t.checkpointMaterial.asciiDumps
    t'.checkpointMaterial.asciiDumps
  value : PromptCache.Unambiguous p 32 (t.valueMaterial p).asciiDumps (t'.valueMaterial p).asciiDumps

/-- What a signature tells about its task: all but the session and where
the workspace lies. -/
structure Task.Same (t t' : Task) : Prop where
  projectId : t.context.projectId = t'.context.projectId
  workspaceInstanceId : t.context.workspaceInstanceId = t'.context.workspaceInstanceId
  branch : t.context.branch = t'.context.branch
  head : t.context.sha = t'.context.sha
  prompt : t.prompt = t'.prompt
  sensitivity : t.sensitivity = t'.sensitivity
  modelFamily : t.modelFamily = t'.modelFamily
  modelSource : t.modelSource = t'.modelSource
  modelVerified : t.modelVerified = t'.modelVerified
  checkpointIdentity : t.checkpointIdentity = t'.checkpointIdentity
  progressPlanId : t.progressPlanId = t'.progressPlanId
  progressGeneration : t.progressGeneration = t'.progressGeneration
  contextEpoch : t.contextEpoch = t'.contextEpoch

theorem Task.checkpoint_inj {t t' : Task} (hlen : ∀ s, (p.sha256 s).length = 64)
    (hclear : PromptCache.Unambiguous p 24 t.checkpointMaterial.asciiDumps
      t'.checkpointMaterial.asciiDumps) (h : t.checkpoint p = t'.checkpoint p) :
    t.checkpointIdentity = t'.checkpointIdentity ∧ t.progressPlanId = t'.progressPlanId ∧
      t.progressGeneration = t'.progressGeneration ∧ t.contextEpoch = t'.contextEpoch := by
  have hdigest : ∀ s, digest p 24 s ≠ [] := by
    intro s hnil
    have hlength := congrArg List.length hnil
    rw [digest, List.length_take, hlen] at hlength
    cases hlength
  have hnone : ∀ {t : Task}, t.hasCheckpoint = false → t.checkpointIdentity = [] ∧
      t.progressPlanId = [] ∧ t.progressGeneration = 0 ∧ t.contextEpoch = [] := by
    intro t ht
    simpa only [hasCheckpoint, Bool.or_eq_false_iff, Bool.not_eq_false', List.isEmpty_iff,
      bne_eq_false_iff_eq, and_assoc] using ht
  by_cases ht : t.hasCheckpoint = true
  · by_cases ht' : t'.hasCheckpoint = true
    · rw [checkpoint, checkpoint, if_pos ht, if_pos ht'] at h
      have hget := asciiDumps_get? (by simp only [List.map_cons, List.map_nil]; decide)
        (by simp only [List.map_cons, List.map_nil]; decide) (hclear h)
      refine ⟨?_, ?_, ?_, ?_⟩
      · exact member_eq str_norm (hget (txt "checkpoint")) rfl rfl
      · exact member_eq str_norm (hget (txt "progress_plan_id")) rfl rfl
      · exact member_eq nat_norm (hget (txt "progress_generation")) rfl rfl
      · exact member_eq str_norm (hget (txt "context_epoch")) rfl rfl
    · rw [checkpoint, checkpoint, if_pos ht, if_neg ht'] at h
      exact absurd h (hdigest _)
  · by_cases ht' : t'.hasCheckpoint = true
    · rw [checkpoint, checkpoint, if_neg ht, if_pos ht'] at h
      exact absurd h.symm (hdigest _)
    · obtain ⟨h1, h2, h3, h4⟩ := hnone (Bool.eq_false_iff.mpr ht)
      obtain ⟨h1', h2', h3', h4'⟩ := hnone (Bool.eq_false_iff.mpr ht')
      exact ⟨h1.trans h1'.symm, h2.trans h2'.symm, h3.trans h3'.symm, h4.trans h4'.symm⟩

/-- **Equal signatures come from equal tasks**, where no digests collide. -/
theorem Task.value_inj {t t' : Task} (hlen : ∀ s, (p.sha256 s).length = 64)
    (hclear : Task.Unambiguous p t t') (h : t.value p = t'.value p) : Task.Same t t' := by
  have hmaterial := hclear.value (List.append_cancel_left h)
  have hget := asciiDumps_get? (by simp only [List.map_cons, List.map_nil]; decide)
    (by simp only [List.map_cons, List.map_nil]; decide) hmaterial
  have hcheckpoint : t.checkpoint p = t'.checkpoint p :=
    member_eq str_norm (hget (txt "checkpoint_identity")) rfl rfl
  obtain ⟨hid, hplan, hgeneration, hepoch⟩ :=
    Task.checkpoint_inj hlen hclear.checkpoint hcheckpoint
  refine ⟨?_, ?_, ?_, ?_, ?_, ?_, ?_, ?_, ?_, hid, hplan, hgeneration, hepoch⟩
  · exact member_eq str_norm (hget (txt "project_id")) rfl rfl
  · exact member_eq str_norm (hget (txt "workspace_instance_id")) rfl rfl
  · exact member_eq str_norm (hget (txt "branch")) rfl rfl
  · exact member_eq str_norm (hget (txt "head")) rfl rfl
  · exact hclear.prompt (member_eq str_norm (hget (txt "prompt_hash")) rfl rfl)
  · exact member_eq str_norm (hget (txt "sensitivity")) rfl rfl
  · exact member_eq str_norm (hget (txt "model_family")) rfl rfl
  · exact member_eq str_norm (hget (txt "model_source")) rfl rfl
  · exact member_eq bool_norm (hget (txt "model_verified")) rfl rfl

end RalphVault.PromptCache
