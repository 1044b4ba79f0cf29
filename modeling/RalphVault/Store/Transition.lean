import RalphVault.Store.Calls
import RalphVault.Store.Codec

/-!
# Implementation store — what an event does

One lemma for each function on the way from a call to the next snapshot:
what `_build_event` returns, what a patch does to the state it was taken
from, and when `_state_after_event` accepts. The calls of the store are
then reasoned about through these, without unfolding a validator.
-/

namespace RalphVault.Store

variable (env : Env)

/-! ## Building an event -/

/-- Decoding the object of a record whose nested records are in order gives
that record. -/
theorem decodeEvent_exact {x e : Event} {expected : Option Text} {a : Bool}
    (hgit : GitOk env x.git) (hpatch : x.statePatch.FieldsOk env)
    (h : decodeEvent env x.toDict expected false a = .ok e) : e = x := by
  simp only [decodeEvent, bind_eq_ok, planId_eq_ok, repoRelativePath_eq_ok, text_eq_ok,
    identifier_eq_ok, pathList_eq_ok, codeList_eq_ok, hash_eq_ok, integer_eq_ok, boolean_eq_ok,
    enum_eq_ok, timestamp, require_eq_ok, pure, Except.pure, Except.ok.injEq] at h
  obtain ⟨_, -, _, -, seq, hseq, id, hid, op, hop, ts, hts, kind, hkind, _, -, h⟩ := h
  obtain ⟨plan, hplan, _, -, path, hpath, summary, hsummary, reason, hreason, h⟩ := h
  obtain ⟨next, hnext, status, hstatus, cls, hcls, phase, hphase, refs, hrefs, codes, hcodes, h⟩ := h
  obtain ⟨git, hgit', writer, hwriter, family, hfamily, source, hsource, verified, hverified, h⟩ := h
  obtain ⟨origin, horigin, intent, hintent, patch, hpatch', payload, hpayload, h⟩ := h
  obtain ⟨state, hstate, previous, hprevious, record, hrecord, _, -, rfl⟩ := h
  have hg : git = x.git := by
    have hread : Store.git env (.obj x.git.toDict) = .ok x.git := (git_codec env).complete hgit
    exact Except.ok.inj (hgit'.symm.trans hread)
  have hp : patch = x.statePatch := by
    have hdecode := decodePatch_toDict env hpatch
    have hobj : statePatch env (.obj x.statePatch.toDict) = .ok patch := hpatch'
    simp only [statePatch, object, bind, Except.bind, hdecode] at hobj
    cases hred : rejectRed env (.obj x.statePatch.toDict) "state_patch" with
    | error e => simp [hred] at hobj
    | ok u =>
        rw [hred] at hobj
        exact (Except.ok.inj hobj).symm
  have htexts : ∀ {a b : List Text}, textsJson a = textsJson b → b = a := by
    intro a b hab
    simp only [textsJson, Json.arr.injEq] at hab
    exact (List.map_injective_iff.mpr (fun _ _ => Json.str.inj) hab).symm
  cases x
  simp only [Event.mk.injEq]
  refine ⟨?_, (Json.str.inj hid.1).symm, (Json.str.inj hop.1).symm, (Json.str.inj hts.1).symm,
    ?_, (Json.str.inj hsummary.1).symm, (Json.str.inj hreason.1).symm,
    (Json.str.inj hnext.1).symm, ?_, ?_, (Json.str.inj hphase.1).symm,
    (Json.str.inj hplan.1).symm, (Json.str.inj hpath.1).symm, htexts hrefs.1, htexts hcodes.1,
    hg, (Json.str.inj hwriter.1).symm, ?_, ?_, (Json.bool.inj hverified).symm,
    (Json.str.inj horigin.1).symm, (Json.str.inj hintent.1).symm, hp,
    (Json.str.inj hpayload.1).symm, (Json.str.inj hstate.1).symm, (Json.str.inj hprevious.1).symm,
    (Json.str.inj hrecord.1).symm⟩
  · exact (Int.ofNat.inj (Json.num.inj hseq.1)).symm
  · exact (Named.distinct _ _ (Json.str.inj hkind)).symm
  · exact (Named.distinct _ _ (Json.str.inj hstatus)).symm
  · exact (Named.distinct _ _ (Json.str.inj hcls)).symm
  · exact (Named.distinct _ _ (Json.str.inj hfamily)).symm
  · exact (Named.distinct _ _ (Json.str.inj hsource)).symm

theorem validateEvent_exact {x e : Event} {expected : Option Text} {a : Bool}
    (hgit : GitOk env x.git) (hpatch : x.statePatch.FieldsOk env)
    (h : validateEvent env x.toDict expected false a = .ok e) : e = x := by
  simp only [validateEvent, bind_eq_ok, pure, Except.pure, Except.ok.injEq] at h
  obtain ⟨e', he', _, -, _, -, _, -, rfl⟩ := h
  exact decodeEvent_exact env hgit hpatch he'

/-- The record `_build_event` returns. -/
def builtEvent (planId : Text) (s : State) (operation : Text) (kind : EventKind) (n : Narrative)
    (timestamp : Text) (sequence : Nat) (previous : Text) (patch : StatePatch) (payload : Json) :
    Event :=
  let draft := draftEvent env planId s operation kind n timestamp sequence previous patch payload
  { draft with recordHash := eventRecordHash env draft }

theorem buildEvent_sound {planId operation timestamp previous : Text} {s : State}
    {kind : EventKind} {n : Narrative} {sequence : Nat} {patch : StatePatch} {payload : Json}
    {e : Event} (hs : s.FieldsOk env) (hpatch : patch.FieldsOk env)
    (h : buildEvent env planId s operation kind n timestamp sequence previous patch payload
      = .ok e) :
    e = builtEvent env planId s operation kind n timestamp sequence previous patch payload ∧
      e.Valid env := by
  simp only [buildEvent, bind_eq_ok] at h
  obtain ⟨draft, hdraft, hfinal⟩ := h
  have hd := validateEvent_exact env hs.git hpatch hdraft
  subst hd
  have he := validateEvent_exact env hs.git hpatch hfinal
  exact ⟨he, (validateEvent_sound env hfinal).1⟩

/-! ## Patches -/

section Patches

variable {env}

theorem changed_getD [DecidableEq β] (a b : β) : (changed a b).getD b = b := by
  unfold changed
  split <;> simp_all

/-- A patch applied to the state it was computed from its predecessor to
gives that predecessor's fields the new values. -/
theorem changed_getD_before [DecidableEq β] (a b : β) : (changed a b).getD a = b := by
  unfold changed
  split <;> simp_all

theorem changed_eq_some [DecidableEq β] {a b c : β} (h : changed a b = some c) : c = b := by
  unfold changed at h
  split at h
  · simp at h
  · exact (Option.some.inj h).symm

theorem materialStatePatch_fields {before after : State} (h : after.FieldsOk env) :
    (materialStatePatch before after).FieldsOk env where
  planPath _ ht := changed_eq_some ht ▸ h.planPath
  phase _ ht := changed_eq_some ht ▸ h.phase
  objective _ ht := changed_eq_some ht ▸ h.objective
  decision _ ho := changed_eq_some ho ▸ h.decision
  nextAction _ ht := changed_eq_some ht ▸ h.nextAction
  blockers _ ht := changed_eq_some ht ▸ h.blockers
  questions _ ht := changed_eq_some ht ▸ h.questions
  validation _ ht := changed_eq_some ht ▸ h.validation
  activeFiles _ ht := changed_eq_some ht ▸ h.activeFiles
  git _ ht := changed_eq_some ht ▸ h.git
  origin _ ht := changed_eq_some ht ▸ h.origin
  intent _ ht := changed_eq_some ht ▸ h.intent

theorem fullStatePatch_fields {s : State} (h : s.FieldsOk env) :
    (fullStatePatch s).FieldsOk env where
  planPath _ ht := Option.some.inj ht ▸ h.planPath
  phase _ ht := Option.some.inj ht ▸ h.phase
  objective _ ht := Option.some.inj ht ▸ h.objective
  decision _ ho := Option.some.inj ho ▸ h.decision
  nextAction _ ht := Option.some.inj ht ▸ h.nextAction
  blockers _ ht := Option.some.inj ht ▸ h.blockers
  questions _ ht := Option.some.inj ht ▸ h.questions
  validation _ ht := Option.some.inj ht ▸ h.validation
  activeFiles _ ht := Option.some.inj ht ▸ h.activeFiles
  git _ ht := Option.some.inj ht ▸ h.git
  origin _ ht := Option.some.inj ht ▸ h.origin
  intent _ ht := Option.some.inj ht ▸ h.intent

theorem fullStatePatch_apply (s : State) : (fullStatePatch s).apply s = s := rfl

/-- An optional value that is well formed, or a well-formed default. -/
theorem getD_of_forall {P : β → Prop} {o : Option β} {d : β} (ho : ∀ b, o = some b → P b)
    (hd : P d) : P (o.getD d) := by
  cases o with
  | none => exact hd
  | some b => exact ho b rfl

theorem StatePatch.FieldsOk.apply {p : StatePatch} {s : State} (hp : p.FieldsOk env)
    (hs : s.FieldsOk env) : (p.apply s).FieldsOk env where
  planId := hs.planId
  planPath := getD_of_forall hp.planPath hs.planPath
  phase := getD_of_forall hp.phase hs.phase
  objective := getD_of_forall hp.objective hs.objective
  nextAction := getD_of_forall hp.nextAction hs.nextAction
  decision := getD_of_forall hp.decision hs.decision
  blockers := getD_of_forall hp.blockers hs.blockers
  questions := getD_of_forall hp.questions hs.questions
  validation := getD_of_forall hp.validation hs.validation
  activeFiles := getD_of_forall hp.activeFiles hs.activeFiles
  operation := hs.operation
  eventHash := hs.eventHash
  git := getD_of_forall hp.git hs.git
  writer := hs.writer
  origin := getD_of_forall hp.origin hs.origin
  intent := getD_of_forall hp.intent hs.intent
  createdAt := hs.createdAt
  updatedAt := hs.updatedAt
  semanticHash := hs.semanticHash

end Patches

/-! ## The snapshot after an event -/

theorem IdentifierOk.weaken {env : Env} {a : Bool} {t : Text} (h : IdentifierOk env a t) :
    IdentifierOk env true t :=
  h.imp (fun h => ⟨rfl, h.2⟩) id

theorem TextOk.weaken {env : Env} {n : Nat} {a : Bool} {t : Text} (h : TextOk env n a t) :
    TextOk env n true t :=
  { h with nonblank := by simp }

variable {env}

/-- The next snapshot has its fields in order when the state, the event and
the timestamp have. -/
theorem stateWithEvent_fields {s : State} {e : Event} {timestamp : Text} (hs : s.FieldsOk env)
    (he : e.FieldsOk env) (ht : TextOk env 64 true timestamp) :
    (stateWithEvent s e timestamp).FieldsOk env := by
  have hcursor : State.FieldsOk env
      { s with
        semanticHash := []
        generation := s.generation + 1
        lastOperationId := e.operationId
        lastEventSequence := e.sequence
        lastEventHash := e.recordHash
        updatedAt := timestamp } :=
    { hs with
      operation := he.operationId.weaken
      eventHash := he.recordHash
      updatedAt := ht
      semanticHash := .inl ⟨rfl, rfl⟩ }
  have hpatched := he.patch.fields.apply hcursor
  refine
    { hpatched with
      phase := he.phase
      nextAction := he.nextAction
      planPath := ?_
      git := he.git
      writer := he.writer
      origin := he.origin
      intent := he.intent
      decision := ?_ }
  · simp only [stateWithEvent]
    split
    · exact hpatched.planPath
    · exact he.planPath
  · simp only [stateWithEvent]
    split
    · intro d hd
      cases hd
      exact ⟨he.eventId.weaken, he.summary⟩
    · exact hpatched.decision

/-- `_state_after_event` comes down to the last checks of the snapshot. -/
theorem stateAfterEvent_eq {s : State} {e : Event} {timestamp : Text} (hs : s.FieldsOk env)
    (he : e.FieldsOk env) (ht : TextOk env 64 true timestamp) (hplan : e.planId = s.planId) :
    stateAfterEvent env s e timestamp = (do
      rejectRed env (.obj ((stateWithEvent s e timestamp).rehashed env).toDict) "state"
      require (Json.encodedSize (.obj ((stateWithEvent s e timestamp).rehashed env).toDict)
          ≤ stateHardLimitBytes)
        (.schemaError s!"state exceeds hard limit of {stateHardLimitBytes} UTF-8 bytes")
      pure ((stateWithEvent s e timestamp).rehashed env)) := by
  refine validateState_toDict env (stateWithEvent_fields hs he ht) ?_ (.inl rfl)
  intro p hp
  rw [hplan] at hp
  simp only [ite_self, Option.some.injEq] at hp
  exact hp.symm

theorem stateAfterEvent_eq_ok {s s' : State} {e : Event} {timestamp : Text} (hs : s.FieldsOk env)
    (he : e.FieldsOk env) (ht : TextOk env 64 true timestamp) (hplan : e.planId = s.planId) :
    stateAfterEvent env s e timestamp = .ok s' ↔
      s' = (stateWithEvent s e timestamp).rehashed env ∧ s'.Fits env stateHardLimitBytes := by
  rw [stateAfterEvent_eq hs he ht hplan]
  simp only [rejectRed, bind_eq_ok, require_eq_ok, Bool.not_eq_true', decide_eq_true_eq, pure,
    Except.pure, Except.ok.injEq]
  constructor
  · rintro ⟨_, hred, _, hsize, rfl⟩
    exact ⟨rfl, hred, hsize⟩
  · rintro ⟨rfl, hfits⟩
    exact ⟨(), hfits.notRed, (), hfits.bounded, rfl⟩

end RalphVault.Store
