import RalphVault.Store.Ledger

/-!
# Context — epochs

The context epoch of a lifecycle boundary, from the payload of the hook to
the key of the ledger record: `context_epoch` and `request_for` of the
hooks, `derive_context_epoch`, `ContextRequest.checked` and
`_ledger_record` of `progress_context.py`. The emission id of a record is
left out, it is a hash of the key.
-/

namespace RalphVault.Context

open Store

/-! ## Identifiers -/

/-- `str.strip()`. -/
def strip (t : Text) : Text := (lstrip (lstrip t).reverse).reverse

/-- `_identifier` and `_safe_identifier`: the stripped text, if it has the
shape of an identifier. -/
def identifierOr (value default : Text) : Text :=
  if isIdentifier (strip value) then strip value else default

theorem lstrip_of_forall {t : Text} (h : ∀ c ∈ t, isSpace c = false) : lstrip t = t := by
  cases t with
  | nil => rfl
  | cons c t => simp [lstrip, h c (List.mem_cons_self ..)]

theorem strip_of_forall {t : Text} (h : ∀ c ∈ t, isSpace c = false) : strip t = t := by
  have hrev : ∀ c ∈ t.reverse, isSpace c = false := fun c hc => h c (List.mem_reverse.mp hc)
  rw [strip, lstrip_of_forall h, lstrip_of_forall hrev, List.reverse_reverse]

/-- The characters of an identifier after the first. -/
def isIdentifierChar (c : Char) : Bool :=
  isAsciiAlnum c || ['.', '_', ':', '/', '-'].contains c

theorem isSpace_of_isIdentifierChar {c : Char} (h : isIdentifierChar c = true) :
    isSpace c = false := by
  have hrange : 45 ≤ c.toNat ∧ c.toNat ≤ 122 := by
    simp only [isIdentifierChar, isAsciiAlnum, isAsciiLower, isAsciiUpper, isAsciiDigit,
      Bool.or_eq_true, Bool.and_eq_true, decide_eq_true_eq, List.contains_iff_mem, List.mem_cons,
      List.not_mem_nil, or_false] at h
    rcases h with ((h | h) | h) | rfl | rfl | rfl | rfl | rfl
    · omega
    · omega
    · omega
    all_goals decide
  simp only [isSpace, Bool.or_eq_false_iff, Bool.and_eq_false_iff, decide_eq_false_iff_not,
    beq_eq_false_iff_ne]
  omega

theorem isIdentifier_iff {t : Text} :
    isIdentifier t = true ↔ t.length ≤ 96 ∧ (∃ c cs, t = c :: cs ∧ isAsciiAlnum c = true) ∧
      ∀ c ∈ t, isIdentifierChar c = true := by
  cases t with
  | nil => simp [isIdentifier]
  | cons c cs =>
      simp only [isIdentifier, Bool.and_eq_true, decide_eq_true_eq, List.all_eq_true,
        List.length_cons, List.cons.injEq, List.mem_cons, forall_eq_or_imp]
      constructor
      · rintro ⟨⟨hc, hlen⟩, hcs⟩
        exact ⟨by omega, ⟨c, cs, ⟨rfl, rfl⟩, hc⟩, by simp [isIdentifierChar, hc], hcs⟩
      · rintro ⟨hlen, ⟨c', cs', ⟨rfl, rfl⟩, hc⟩, -, hcs⟩
        exact ⟨⟨hc, by omega⟩, hcs⟩

/-- Stripping does not touch identifier characters. -/
theorem identifierOr_of_chars {t default : Text} (h : ∀ c ∈ t, isIdentifierChar c = true) :
    identifierOr t default = if isIdentifier t then t else default := by
  have hspace : ∀ c ∈ t, isSpace c = false := fun c hc => isSpace_of_isIdentifierChar (h c hc)
  rw [identifierOr, strip_of_forall hspace]

theorem identifierOr_of_isIdentifier {t default : Text} (h : isIdentifier t = true) :
    identifierOr t default = t := by
  rw [identifierOr_of_chars (isIdentifier_iff.mp h).2.2, if_pos h]

/-! ## Events -/

/-- `CONTEXT_EVENTS`. -/
inductive ContextEvent where
  | ordinary | startup | newSession | resume | compact | clear | reset | explicit | external
deriving DecidableEq

instance : Named ContextEvent where
  members := [.ordinary, .startup, .newSession, .resume, .compact, .clear, .reset, .explicit,
    .external]
  name
    | .ordinary => txt "ordinary"
    | .startup => txt "startup"
    | .newSession => txt "new-session"
    | .resume => txt "resume"
    | .compact => txt "compact"
    | .clear => txt "clear"
    | .reset => txt "reset"
    | .explicit => txt "explicit"
    | .external => txt "external"
  complete b := by cases b <;> simp
  distinct a b := by cases a <;> cases b <;> decide

/-- `event if event in CONTEXT_EVENTS else "ordinary"`. -/
def normalizedEvent (event : Text) : ContextEvent :=
  ((Named.members : List ContextEvent).find? fun e => name e == event).getD .ordinary

/-- `derive_context_epoch`. -/
def deriveContextEpoch (previous : Option Text) (event session : Text) : Text :=
  let session := identifierOr session (txt "unknown")
  let prior := match previous with
    | some p => if p.isEmpty then [] else identifierOr p []
    | none => []
  match normalizedEvent event with
  | .startup | .newSession => txt "startup:" ++ session
  | .resume => txt "resume:" ++ session
  | .compact => txt "compact:" ++ session
  | .clear | .reset => txt "reset:" ++ session
  | .explicit => txt "explicit:" ++ session
  | .ordinary | .external => if prior.isEmpty then txt "session:" ++ session else prior

/-! ## The payload of a hook -/

/-- The truth value of a Python object. -/
def truthy : Json → Bool
  | .null => false
  | .bool b => b
  | .num n => n != 0
  | .str t => !t.isEmpty
  | .arr items => !items.isEmpty
  | .obj fields => !fields.isEmpty

/-- `payload.get(k) or payload.get(k')`. -/
def getOr (payload : Dict) (k k' : Text) : Json :=
  let v := payload.getD k .null
  if truthy v then v else payload.getD k' .null

/-- `context_epoch`. -/
def contextEpoch (payload : Dict) (event session : Text) : Text :=
  let previous := match getOr payload (txt "previous_context_epoch") (txt "previousContextEpoch") with
    | .str t => some t
    | _ => none
  match getOr payload (txt "context_epoch") (txt "contextEpoch") with
  | .str supplied =>
      if (strip supplied).isEmpty then deriveContextEpoch previous event session
      else identifierOr supplied (deriveContextEpoch none event session)
  | _ => deriveContextEpoch previous event session

/-! ## Requests -/

structure ContextRequest where
  profile : Text
  verified : Bool
  projectId : Text
  workspaceInstanceId : Text
  sessionId : Text
  contextEpoch : Text
  event : Text
  externalWriter : Bool
  sameSessionWrite : Bool

/-- `PROFILES`, also `_PROFILE_NAMES`. -/
def profiles : List Text := [txt "luna", txt "terra", txt "sol", txt "unknown"]

/-- `ContextRequest.checked`. -/
def ContextRequest.checked (r : ContextRequest) : ContextRequest where
  profile := if profiles.contains r.profile then r.profile else txt "unknown"
  verified := r.verified
  projectId := identifierOr r.projectId (txt "project")
  workspaceInstanceId := identifierOr r.workspaceInstanceId (txt "workspace")
  sessionId := identifierOr r.sessionId (txt "unknown")
  contextEpoch := identifierOr r.contextEpoch (txt "epoch")
  event := name (normalizedEvent r.event)
  externalWriter := r.externalWriter
  sameSessionWrite := r.sameSessionWrite

/-- What the hooks know of the running model and its session. -/
structure ActiveContext where
  modelFamily : Text
  modelVerified : Bool
  projectId : Text
  workspaceInstanceId : Text
  sessionId : Text

/-- `request_for`. -/
def requestFor (context : ActiveContext) (payload : Dict) (event : Text)
    (externalWriter sameSessionWrite : Bool) : ContextRequest where
  profile := if profiles.contains context.modelFamily then context.modelFamily else txt "unknown"
  verified := context.modelVerified
  projectId := context.projectId
  workspaceInstanceId := context.workspaceInstanceId
  sessionId := identifierOr context.sessionId (txt "unknown")
  contextEpoch := Context.contextEpoch payload event context.sessionId
  event := event
  externalWriter := externalWriter
  sameSessionWrite := sameSessionWrite

/-- The key of `ledger_record_for`. -/
def ledgerRecordFor (r : ContextRequest) (planId : Text) (generation : Nat) (kind : CapsuleKind) :
    LedgerKey :=
  let r := r.checked
  ⟨r.projectId, r.workspaceInstanceId, r.sessionId, r.contextEpoch, planId, generation, kind⟩

/-! ## Boundaries -/

/-- The events that are lifecycle boundaries. -/
def ContextEvent.isBoundary : ContextEvent → Bool
  | .ordinary | .external => false
  | _ => true

/-- An occurrence of a boundary in a session: the payload of its hook, the
event, and the plan and capsule it is about. -/
structure Boundary where
  payload : Dict
  event : Text
  externalWriter : Bool
  sameSessionWrite : Bool
  planId : Text
  generation : Nat
  kind : CapsuleKind
  boundary : (normalizedEvent event).isBoundary = true

/-- The key of the ledger record of a boundary. -/
def Boundary.record (b : Boundary) (context : ActiveContext) : LedgerKey :=
  ledgerRecordFor (requestFor context b.payload b.event b.externalWriter b.sameSessionWrite)
    b.planId b.generation b.kind

/-- The epoch that came with the payload, if it is an identifier. -/
def Boundary.supplied (b : Boundary) : Option Text :=
  match getOr b.payload (txt "context_epoch") (txt "contextEpoch") with
  | .str t => if isIdentifier (strip t) then some (strip t) else none
  | _ => none

/-- What `derive_context_epoch` calls the boundary. -/
def Boundary.label (b : Boundary) : Text :=
  match normalizedEvent b.event with
  | .startup | .newSession => txt "startup"
  | .resume => txt "resume"
  | .compact => txt "compact"
  | .clear | .reset => txt "reset"
  | _ => txt "explicit"

/-- The name of the boundary with the session id is too long for an
identifier. -/
def Boundary.Overlong (b : Boundary) (session : Text) : Prop :=
  96 < b.label.length + 1 + session.length

/-- The epoch derived for a boundary of a session. -/
def Boundary.Derived (b : Boundary) (session epoch : Text) : Prop :=
  (b.Overlong session ∧ epoch = txt "epoch") ∨
    (¬ b.Overlong session ∧ epoch = b.label ++ ':' :: session)

/-- Two boundaries of a session that are given one epoch: they come with
the same one, or they are of one kind, or both names are too long. -/
def Boundary.Clash (b b' : Boundary) (session : Text) : Prop :=
  match b.supplied, b'.supplied with
  | some e, some e' => e = e'
  | none, none => b.label = b'.label ∨ (b.Overlong session ∧ b'.Overlong session)
  | some e, none => b'.Derived session e
  | none, some e => b.Derived session e

/-- A boundary takes its epoch from its label and the session, whatever the
previous epoch. -/
theorem Boundary.derive (b : Boundary) (previous : Option Text) {session : Text}
    (h : isIdentifier session = true) :
    deriveContextEpoch previous b.event session = b.label ++ ':' :: session := by
  have hb := b.boundary
  unfold deriveContextEpoch Boundary.label
  rw [identifierOr_of_isIdentifier h]
  cases he : normalizedEvent b.event with
  | ordinary => simp [he, ContextEvent.isBoundary] at hb
  | external => simp [he, ContextEvent.isBoundary] at hb
  | _ => rfl

theorem Boundary.isIdentifier_label (b : Boundary) : isIdentifier b.label = true := by
  unfold Boundary.label
  cases normalizedEvent b.event <;> rfl

theorem Boundary.name_chars (b : Boundary) {session : Text} (h : isIdentifier session = true) :
    ∀ c ∈ b.label ++ ':' :: session, isIdentifierChar c = true := by
  intro c hc
  rcases List.mem_append.mp hc with hc | hc
  · exact (isIdentifier_iff.mp b.isIdentifier_label).2.2 c hc
  · rcases List.mem_cons.mp hc with rfl | hc
    · rfl
    · exact (isIdentifier_iff.mp h).2.2 c hc

/-- The name of a boundary is an identifier when it is not too long. -/
theorem Boundary.isIdentifier_name (b : Boundary) {session : Text}
    (h : isIdentifier session = true) :
    isIdentifier (b.label ++ ':' :: session) = true ↔ ¬ b.Overlong session := by
  obtain ⟨-, ⟨c, cs, hlabel, hc⟩, -⟩ := isIdentifier_iff.mp b.isIdentifier_label
  have hlen : (b.label ++ ':' :: session).length = b.label.length + 1 + session.length := by
    simp only [List.length_append, List.length_cons]
    omega
  rw [isIdentifier_iff, hlen, Boundary.Overlong, Nat.not_lt]
  constructor
  · exact fun hname => hname.1
  · intro hle
    exact ⟨hle, ⟨c, cs ++ ':' :: session, by rw [hlabel]; rfl, hc⟩, b.name_chars h⟩

theorem contextEpoch_record (context : ActiveContext) (b : Boundary) :
    (b.record context).contextEpoch =
      identifierOr (contextEpoch b.payload b.event context.sessionId) (txt "epoch") := rfl

/-- An epoch that comes with the payload is the one in the record. -/
theorem Boundary.epoch_supplied {b : Boundary} {context : ActiveContext} {e : Text}
    (h : b.supplied = some e) : (b.record context).contextEpoch = e := by
  rw [contextEpoch_record]
  unfold Boundary.supplied at h
  split at h
  · rename_i t hpayload
    split at h
    · rename_i hid
      cases h
      have hne : (strip t).isEmpty = false := by
        cases hs : strip t with
        | nil => simp [hs, isIdentifier] at hid
        | cons c cs => rfl
      have hepoch : contextEpoch b.payload b.event context.sessionId = strip t := by
        simp [contextEpoch, hpayload, hne, identifierOr, hid]
      rw [hepoch, identifierOr_of_isIdentifier hid]
    · cases h
  · cases h

/-- Without one, the epoch is derived. -/
theorem Boundary.epoch_derived {b : Boundary} {context : ActiveContext}
    (hsession : isIdentifier context.sessionId = true) (h : b.supplied = none) {e : Text} :
    (b.record context).contextEpoch = e ↔ b.Derived context.sessionId e := by
  have hepoch : contextEpoch b.payload b.event context.sessionId =
      b.label ++ ':' :: context.sessionId := by
    unfold Boundary.supplied at h
    cases hpayload : getOr b.payload (txt "context_epoch") (txt "contextEpoch") with
    | str t =>
        have hid : isIdentifier (strip t) = false := by
          rw [hpayload] at h
          simpa using h
        simp only [contextEpoch, hpayload, identifierOr, hid, Bool.false_eq_true, if_false]
        split
        · exact b.derive _ hsession
        · exact b.derive _ hsession
    | _ =>
        simp only [contextEpoch, hpayload]
        exact b.derive _ hsession
  rw [contextEpoch_record, hepoch, Boundary.Derived, identifierOr_of_chars (b.name_chars hsession)]
  by_cases hlong : b.Overlong context.sessionId
  · have hid : ¬ isIdentifier (b.label ++ ':' :: context.sessionId) = true :=
      fun hname => (b.isIdentifier_name hsession).mp hname hlong
    simp [hid, hlong, eq_comm]
  · have hid := (b.isIdentifier_name hsession).mpr hlong
    simp [hid, hlong, eq_comm]

/-- Two derived names are equal when the boundaries are of one kind or both
too long. -/
theorem Boundary.derived_eq_iff {b b' : Boundary} {session : Text} :
    (∃ e, b.Derived session e ∧ b'.Derived session e) ↔
      b.label = b'.label ∨ (b.Overlong session ∧ b'.Overlong session) := by
  have hcolon : ∀ t : Text, txt "epoch" ≠ t ++ ':' :: session := by
    intro t heq
    have hmem : ':' ∈ txt "epoch" := by
      rw [heq]
      exact List.mem_append_right _ (List.mem_cons_self ..)
    exact absurd hmem (by decide)
  constructor
  · rintro ⟨e, ⟨hl, rfl⟩ | ⟨hl, rfl⟩, ⟨hl', he⟩ | ⟨hl', he⟩⟩
    · exact .inr ⟨hl, hl'⟩
    · exact absurd he (hcolon _)
    · exact absurd he.symm (hcolon _)
    · exact .inl (List.append_cancel_right he)
  · rintro (hlabel | ⟨hl, hl'⟩)
    · by_cases hl : b.Overlong session
      · have hl' : b'.Overlong session := by
          rw [Boundary.Overlong, ← hlabel]
          exact hl
        exact ⟨_, .inl ⟨hl, rfl⟩, .inl ⟨hl', rfl⟩⟩
      · have hl' : ¬ b'.Overlong session := by
          rw [Boundary.Overlong, ← hlabel]
          exact hl
        exact ⟨_, .inr ⟨hl, rfl⟩, .inr ⟨hl', by rw [hlabel]⟩⟩
    · exact ⟨_, .inl ⟨hl, rfl⟩, .inl ⟨hl', rfl⟩⟩

/-- **Two boundaries are given one epoch exactly when they clash.** -/
theorem Boundary.epoch_eq_iff {b b' : Boundary} {context : ActiveContext}
    (hsession : isIdentifier context.sessionId = true) :
    (b.record context).contextEpoch = (b'.record context).contextEpoch ↔
      b.Clash b' context.sessionId := by
  unfold Boundary.Clash
  cases h : b.supplied with
  | some e =>
      rw [Boundary.epoch_supplied h]
      cases h' : b'.supplied with
      | some e' => rw [Boundary.epoch_supplied h']
      | none => rw [eq_comm, Boundary.epoch_derived hsession h']
  | none =>
      cases h' : b'.supplied with
      | some e' => rw [Boundary.epoch_supplied h', Boundary.epoch_derived hsession h]
      | none =>
          rw [← Boundary.derived_eq_iff]
          constructor
          · intro heq
            exact ⟨_, (Boundary.epoch_derived hsession h).mp rfl,
              (Boundary.epoch_derived hsession h').mp heq.symm⟩
          · rintro ⟨e, he, he'⟩
            rw [(Boundary.epoch_derived hsession h).mpr he,
              (Boundary.epoch_derived hsession h').mpr he']

/-- A boundary of a plan `p` whose payload has the epoch before it only. -/
def Boundary.after (previous event : Text)
    (h : (normalizedEvent event).isBoundary = true) : Boundary where
  payload := [(txt "previous_context_epoch", .str previous)]
  event := event
  externalWriter := false
  sameSessionWrite := false
  planId := txt "p"
  generation := 3
  kind := .full
  boundary := h

/-- A verified model in the session `session`. -/
def ActiveContext.luna (session : Text) : ActiveContext :=
  ⟨txt "luna", true, txt "repo", txt "ws", session⟩

def shortSession : ActiveContext := .luna (txt "s1")

/-- The boundaries of a short session, each of another kind. -/
def shortBoundaries : List Boundary :=
  [.after [] (txt "startup") rfl, .after (txt "startup:s1") (txt "resume") rfl,
    .after (txt "resume:s1") (txt "compact") rfl, .after (txt "compact:s1") (txt "clear") rfl,
    .after (txt "reset:s1") (txt "explicit") rfl]

end RalphVault.Context
