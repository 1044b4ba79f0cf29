import RalphVault.Store.Reading
import RalphVault.Store.System

/-!
# Implementation store — loose commits

`append_unplanned_commit` appends a record that belongs to no plan to
`unplanned-events.jsonl`, under the lock of the manifest. The file is
modelled as its text. A record that is appended is read back by
`read_unplanned_events`, behind the records that were there before.
-/

namespace RalphVault.Store

def unplannedJournalMaxBytes : Nat := 4 * 1024 * 1024
def unplannedJournalMaxRecords : Nat := 4096

structure UnplannedCall where
  operation : Option Text
  summary : Text
  references : List Text
  evidenceCodes : List Text
  timestamp : Text
  provenance : Option Dict
  fresh : Text

section Calls

variable (env : Env)

/-- The event `_build_unplanned_event` validates first, without its hash. -/
def unplannedDraft (fields : Dict) (c : UnplannedCall) (operation : Text) (sequence : Nat)
    (previous : Text) : Dict :=
  [(txt "schema_version", .num 1),
   (txt "sequence", natJson sequence),
   (txt "event_id", .str (txt "evt-" ++
     (env.sha256 (txt "loose:" ++ operation ++ [':'] ++ decimalText sequence)).take 32)),
   (txt "operation_id", .str operation),
   (txt "timestamp", .str c.timestamp),
   (txt "kind", nameJson EventKind.looseCommitRecorded),
   (txt "summary", .str c.summary),
   (txt "reason", noText),
   (txt "next_action", noText),
   (txt "status", nameJson Status.planned),
   (txt "classification", nameJson Classification.green),
   (txt "phase", noText),
   (txt "plan_id", noText),
   (txt "plan_path", noText),
   (txt "references", textsJson c.references),
   (txt "evidence_codes", textsJson c.evidenceCodes),
   (txt "git", fields.getD (txt "git") (.obj [])),
   (txt "writer_session_id", fields.getD (txt "writer_session_id") noText),
   (txt "model_family", fields.getD (txt "model_family") (nameJson ModelFamily.unknown)),
   (txt "model_source", fields.getD (txt "model_source") (nameJson ModelSource.unknown)),
   (txt "model_verified", fields.getD (txt "model_verified") (.bool false)),
   (txt "origin", .str (txt "implementation-progress")),
   (txt "intent", .str (txt "progress-maintenance")),
   (txt "operation_payload_hash", .str (digest env (.obj
     [(txt "kind", nameJson EventKind.looseCommitRecorded), (txt "summary", .str c.summary),
      (txt "references", textsJson c.references),
      (txt "evidence_codes", textsJson c.evidenceCodes)]))),
   (txt "state_semantic_hash", noText),
   (txt "previous_event_hash", .str previous),
   (txt "record_hash", noText)]

/-- `_build_unplanned_event`. -/
def buildUnplannedEvent (c : UnplannedCall) (operation : Text) (sequence : Nat)
    (previous : Text) : Check Event := do
  let fields ← provenanceForStore env c.provenance
  let draft := unplannedDraft env fields c operation sequence previous
  let e ← validateEvent env draft none true true
  validateEvent env (draft.set (txt "record_hash") (.str (eventRecordHash env e))) none true false

/-- `read_jsonl` on the journal of loose commits. -/
def readUnplannedLines : Option Text → Check (List Event × Bool) :=
  readJsonlText (fun d => validateEvent env d none true false) "unplanned-events.jsonl"
    unplannedJournalMaxBytes unplannedJournalMaxRecords

/-- `read_unplanned_events`. -/
def readUnplannedEvents (file : Option Text) : Check (List Event) := do
  let (es, _) ← readUnplannedLines env file
  validateSequenceAndHashes env 1 [] es
  validateEventOwnership env es
  pure es

/-- `append_jsonl` on the text of a file. -/
def appendText (label : String) (hardLimit totalHardLimit maxRecords : Nat) (file : Option Text)
    (d : Dict) (existing : Nat) : Check Text := do
  require (utf8Len (lineText d) ≤ hardLimit)
    (.storeIOError s!"append record exceeds hard limit of {hardLimit} UTF-8 bytes")
  require (utf8Len (file.getD []) + utf8Len (lineText d) ≤ totalHardLimit)
    (.storeIOError s!"{label} exceeds its journal limit of {totalHardLimit} bytes")
  require (existing < maxRecords)
    (.storeIOError s!"{label} exceeds its journal limit of {maxRecords} records")
  pure (file.getD [] ++ lineText d)

/-- What `append_unplanned_commit` decides under the lock: an operation that
is in the journal is only compared, any other one gets the next record. -/
def decideUnplanned (c : UnplannedCall) (operation : Text) (es : List Event) :
    Check (Event × Bool) :=
  match operationEvent es operation with
  | some existing => do
      let e ← buildUnplannedEvent env c operation existing.sequence existing.previousEventHash
      assertSameOperation existing e operation
      pure (existing, false)
  | none => do
      let e ← buildUnplannedEvent env c operation (es.length + 1) (lastRecordHash es)
      pure (e, true)

/-- `append_unplanned_commit`: the file after the call, the record of its
operation, and whether the call appended it. -/
def appendUnplannedCommit (c : UnplannedCall) (file : Option Text) :
    Check (Option Text × Event × Bool) := do
  let operation ← operationId env c.operation c.fresh
  -- the whole line is checked before the store is locked
  let _ ← buildUnplannedEvent env c operation 1 []
  let (es, part) ← readUnplannedLines env file
  require (!part)
    (.integrityError "unplanned journal has an incomplete final line; explicit repair is required")
  validateSequenceAndHashes env 1 [] es
  let (e, isNew) ← decideUnplanned env c operation es
  if isNew then do
    let t ← appendText "unplanned-events.jsonl" unplannedEventHardLimitBytes
      unplannedJournalMaxBytes unplannedJournalMaxRecords file e.toDict es.length
    pure (some t, e, true)
  else pure (file, e, false)

end Calls

variable {env : Env}

/-! ## A record that is built -/

theorem planId_sound {j : Json} {t : Text} {unplanned : Bool}
    (h : planId env j unplanned = .ok t) :
    (unplanned = true ∧ t = []) ∨ PlanIdOk env t := by
  cases j with
  | str s =>
      by_cases hempty : (unplanned && s.isEmpty) = true
      · simp only [planId, hempty, if_true, Except.ok.injEq] at h
        rw [Bool.and_eq_true] at hempty
        exact .inl ⟨hempty.1, h.symm⟩
      · have hplain : planId env (.str s) false = planId env (.str s) unplanned := by
          simp [planId, hempty]
        rw [← hplain] at h
        exact .inr ((planId_eq_ok env).mp h).2
  | _ => simp [planId] at h

/-- A validated record is one its reader takes, with the place in the journal
and the repository of the object it was read from. -/
theorem validateEvent_readable {d : Dict} {expected : Option Text} {unplanned : Bool} {e : Event}
    (h : validateEvent env d expected unplanned false = .ok e) :
    e.Readable env unplanned ∧ d.getD (txt "sequence") (.num 0) = natJson e.sequence ∧
      d.getD (txt "previous_event_hash") noText = .str e.previousEventHash ∧
      git env (d.getD (txt "git") (.obj [])) = .ok e.git ∧
      d.getD (txt "operation_id") .null = .str e.operationId := by
  simp only [validateEvent, bind_eq_ok, rejectRed, require_eq_ok, Bool.not_eq_true', pure,
    Except.pure, Except.ok.injEq, decide_eq_true_eq] at h
  obtain ⟨e, he, _, hred, _, hhash, _, hsize, rfl⟩ := h
  simp only [decodeEvent, bind_eq_ok, repoRelativePath_eq_ok, text_eq_ok, identifier_eq_ok,
    pathList_eq_ok, codeList_eq_ok, hash_eq_ok, integer_eq_ok, timestamp, require_eq_ok,
    expected_all, pure, Except.pure, Except.ok.injEq] at he
  obtain ⟨_, -, _, -, seq, hseq, id, hid, op, hop, ts, hts, kind, -, _, hkind, he⟩ := he
  obtain ⟨plan, hplan, _, -, path, hpath, summary, hsummary, reason, hreason, he⟩ := he
  obtain ⟨next, hnext, status, -, cls, -, phase, hphase, refs, hrefs, codes, hcodes, he⟩ := he
  obtain ⟨git, hgit, writer, hwriter, family, -, source, -, verified, -, he⟩ := he
  obtain ⟨origin, horigin, intent, hintent, patch, hpatch, payload, hpayload, he⟩ := he
  obtain ⟨state, hstate, previous, hprevious, record, hrecord, _, hhashed, rfl⟩ := he
  have hne : record ≠ [] := by simpa [List.isEmpty_iff] using hhashed
  refine ⟨?_, hseq.1, hprevious.1, hgit, hop.1⟩
  exact
    { sequence := hseq.2
      eventId := hid.2
      operationId := hop.2
      timestamp := hts.2
      kind := hkind
      planId := planId_sound hplan
      planPath := hpath.2
      summary := hsummary.2
      reason := hreason.2
      nextAction := hnext.2
      phase := hphase.2
      references := hrefs.2
      evidenceCodes := hcodes.2
      git := (git_codec env).sound hgit
      writer := hwriter.2
      origin := horigin.2
      intent := hintent.2
      patch := (statePatch_codec env).sound hpatch
      payloadHash := hpayload.2
      stateHash := hstate.2
      previous := hprevious.2
      recordHash := hrecord.2
      notRed := hred
      hashed := by simpa [List.isEmpty_iff, hne] using hhash
      bounded := hsize }

theorem provenanceForStore_git {provenance : Option Dict} {fields : Dict}
    (h : provenanceForStore env provenance = .ok fields) :
    ∃ g, fields.getD (txt "git") (.obj []) =
      .obj (Dict.set (txt "repository_id") (.str (repoIdentity env)) g) := by
  simp only [provenanceForStore, bind_eq_ok, pure, Except.pure, Except.ok.injEq] at h
  obtain ⟨g, -, _, -, _, -, rfl⟩ := h
  exact ⟨g, rfl⟩

/-- The record of a loose commit at a place in the journal. -/
theorem buildUnplannedEvent_ok {c : UnplannedCall} {operation previous : Text} {n : Nat}
    {e : Event} (h : buildUnplannedEvent env c operation n previous = .ok e) :
    e.Readable env true ∧ e.sequence = n ∧ e.previousEventHash = previous ∧ Owned env e.git ∧
      e.operationId = operation := by
  simp only [buildUnplannedEvent, bind_eq_ok] at h
  obtain ⟨fields, hfields, draft, -, he⟩ := h
  obtain ⟨hreadable, hsequence, hprevious, hgit, hoperation⟩ := validateEvent_readable he
  have hother : ∀ k default, k ≠ txt "record_hash" → ∀ d : Dict, ∀ v,
      (d.set (txt "record_hash") v).getD k default = d.getD k default := by
    intro k default hk d v
    rw [Dict.getD, Dict.get?_set, if_neg (Ne.symm hk), Dict.getD]
  rw [hother _ _ (by decide)] at hsequence hprevious hgit hoperation
  obtain ⟨g, hg⟩ := provenanceForStore_git hfields
  have hdraft : (unplannedDraft env fields c operation n previous).getD (txt "git") (.obj []) =
      fields.getD (txt "git") (.obj []) := rfl
  rw [hdraft, hg] at hgit
  have hid := git_repositoryId hgit
  rw [Dict.getD, Dict.get?_set, if_pos rfl, Option.getD_some, Json.str.injEq] at hid
  refine ⟨hreadable, (natJson_inj hsequence).symm, (Json.str.inj hprevious).symm, ?_,
    (Json.str.inj hoperation).symm⟩
  simp [Owned, ← hid]

/-! ## The journal -/

/-- The journal of loose commits holds the records `es`. -/
structure UnplannedJournal (env : Env) (file : Option Text) (es : List Event) : Prop where
  text : file.getD [] = linesText (es.map Event.toDict)
  readable : ∀ e ∈ es, e.Readable env true
  count : es.length ≤ unplannedJournalMaxRecords
  bytes : utf8Len (linesText (es.map Event.toDict)) ≤ unplannedJournalMaxBytes
  chain : validateSequenceAndHashes env 1 [] es = .ok ()
  owned : validateEventOwnership env es = .ok ()

theorem UnplannedJournal.empty : UnplannedJournal env none [] where
  text := rfl
  readable _ he := by cases he
  count := Nat.zero_le _
  bytes := Nat.zero_le _
  chain := rfl
  owned := rfl

theorem UnplannedJournal.readLines {file : Option Text} {es : List Event}
    (h : UnplannedJournal env file es) : readUnplannedLines env file = .ok (es, false) := by
  have hrecords : ∀ e ∈ es, validateEvent env e.toDict.sorted none true false = .ok e :=
    fun e he => readable_sorted (h.readable e he) (by simp)
  cases file with
  | none =>
      have hes : es = [] := by
        cases es with
        | nil => rfl
        | cons e es =>
            have htext := h.text
            simp [linesText, lineText] at htext
      rw [hes]
      rfl
  | some t =>
      have ht : t = linesText (es.map Event.toDict) := h.text
      rw [ht]
      exact readJsonlText_records hrecords h.count h.bytes

/-- **The journal is read back**, record for record. -/
theorem UnplannedJournal.reads {file : Option Text} {es : List Event}
    (h : UnplannedJournal env file es) : readUnplannedEvents env file = .ok es := by
  simp [readUnplannedEvents, h.readLines, h.chain, h.owned, bind, Except.bind, pure, Except.pure]

/-- **One call** leaves the journal as it is, or with its record at the end. -/
theorem UnplannedJournal.append {c : UnplannedCall} {file file' : Option Text} {es : List Event}
    {e : Event} {isNew : Bool} (h : UnplannedJournal env file es)
    (hcall : appendUnplannedCommit env c file = .ok (file', e, isNew)) :
    UnplannedJournal env file' (if isNew then es ++ [e] else es) := by
  simp only [appendUnplannedCommit, bind_eq_ok, h.readLines] at hcall
  obtain ⟨op, -, _, -, r, hr, _, -, _, -, ⟨e', b⟩, hdecide, hcall⟩ := hcall
  cases hr
  cases b with
  | false =>
      simp only [Bool.false_eq_true, if_false, pure, Except.pure, Except.ok.injEq,
        Prod.mk.injEq] at hcall
      obtain ⟨rfl, rfl, rfl⟩ := hcall
      exact h
  | true =>
      simp only [if_true, bind_eq_ok, pure, Except.pure, Except.ok.injEq, Prod.mk.injEq] at hcall
      obtain ⟨t, ht, rfl, rfl, rfl⟩ := hcall
      simp only [appendText, bind_eq_ok, require_eq_ok, decide_eq_true_eq, pure, Except.pure,
        Except.ok.injEq] at ht
      obtain ⟨_, -, _, hbytes, _, hroom, rfl⟩ := ht
      have hbuilt : buildUnplannedEvent env c op (es.length + 1) (lastRecordHash es) =
          .ok e' := by
        unfold decideUnplanned at hdecide
        split at hdecide
        · simp [bind_eq_ok, pure, Except.pure] at hdecide
        · simp only [bind_eq_ok, pure, Except.pure, Except.ok.injEq, Prod.mk.injEq, and_true]
            at hdecide
          obtain ⟨e, he, rfl⟩ := hdecide
          exact he
      obtain ⟨hreadable, hsequence, hprevious, howned, -⟩ := buildUnplannedEvent_ok hbuilt
      rw [h.text] at hbytes
      simp only [if_true]
      have htext : linesText ((es ++ [e']).map Event.toDict) =
          linesText (es.map Event.toDict) ++ lineText e'.toDict := by
        rw [List.map_append, List.map_singleton, linesText_snoc]
      refine ⟨?_, ?_, ?_, ?_, ?_, ?_⟩
      · rw [htext, h.text]
        rfl
      · intro q hq
        rcases List.mem_append.mp hq with hq | hq
        · exact h.readable q hq
        · rw [List.mem_singleton.mp hq]
          exact hreadable
      · rw [List.length_append, List.length_singleton]
        exact hroom
      · rw [htext, utf8Len_append]
        exact hbytes
      · exact validateSequenceAndHashes_snoc h.chain (by rw [hsequence]; omega)
          (by rw [hprevious, chainEnd_nil]) hreadable.hashed
      · have hes := h.owned
        simp only [validateEventOwnership, require_eq_ok, List.all_append,
          Bool.and_eq_true] at hes ⊢
        exact ⟨hes, by simpa [Owned] using howned⟩

end RalphVault.Store
