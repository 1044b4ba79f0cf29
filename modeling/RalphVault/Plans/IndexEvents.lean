import RalphVault.Context.Epochs
import RalphVault.IndentedJson

/-!
# Plans — the events of the index

An event of `implementation-index.json`, from `append_event` of
`implementation_index_lib.py` to the check of its identifier by
`_index_event_checksum_ok` of `legacy_migration.py`. The writer hashes the
event in ASCII, the reader hashes its canonical text.

Left out: how the paths and the Git metadata are found, and the Markdown
rendering of the index.
-/

namespace RalphVault.Plans

open Store

/-- What the scripts rely on of the interpreter and of each other. -/
structure Toolbox where
  sha256 : Text → Text
  /-- A hexadecimal digest. -/
  sha256_length : ∀ t, (sha256 t).length = 64
  /-- `str`. -/
  str : Json → Text
  str_text : ∀ t, str (.str t) = t
  /-- `ensure_not_red` raises on the fields of an event. -/
  red : List (Text × Text) → Bool

/-- `ALLOWED_EVENTS`. -/
def allowedEvents : List Text :=
  [txt "notes_created", txt "note_appended", txt "guard_validated", txt "implemented",
    txt "plan_updated", txt "loose_commit_recorded", txt "index_updated", txt "consolidated"]

/-- `EVENTS_LIMIT`. -/
def eventsLimit : Nat := 2000

/-- The arguments of `append_event`, and what it finds out itself. -/
structure EventCall where
  event : Text
  /-- The plan path and the notes path, relative to the repository. -/
  plan : Option Text
  notes : Option Text
  status : Text
  commit : Text
  branch : Text
  sessionId : Text
  operationId : Text
  pr : Text
  notesEntryHash : Text
  reason : Text
  notesDetail : Text
  activeWorktreeRoot : Text
  canonicalRepoRoot : Text
  gitCommonDir : Text
  workspaceInstanceId : Text
  /-- The branch and the commit of `current_git_metadata`. -/
  git : Option (Text × Text)
  /-- The hash of `latest_entry_metadata`. -/
  latestEntryHash : Option Text
  /-- `now_local`. -/
  now : Text

/-- `value or default`. -/
def orText (value default : Text) : Text := if value.isEmpty then default else value

/-- The fields an event identifier covers. -/
def EventCall.fields (c : EventCall) (git : Text × Text) : List (Text × Text) :=
  [(txt "event", c.event),
    (txt "plan", c.plan.getD []),
    (txt "notes", c.notes.getD []),
    (txt "status", c.status),
    (txt "branch", orText c.branch git.1),
    (txt "commit", orText c.commit git.2),
    (txt "session_id", c.sessionId),
    (txt "active_worktree_root", c.activeWorktreeRoot),
    (txt "canonical_repo_root", c.canonicalRepoRoot),
    (txt "git_common_dir", c.gitCommonDir),
    (txt "workspace_instance_id", c.workspaceInstanceId),
    (txt "notes_entry_hash", orText c.notesEntryHash (c.latestEntryHash.getD [])),
    (txt "operation_id", c.operationId),
    (txt "pr", c.pr),
    (txt "reason", c.reason),
    (txt "notes_detail", c.notesDetail)]

/-- A dictionary of texts. -/
def textDict (fields : List (Text × Text)) : Dict := fields.map fun f => (f.1, .str f.2)

/-- `_event_id` of the writer. -/
def eventId (t : Toolbox) (material : Dict) : Text := t.sha256 (Json.obj material).asciiDumps

/-- The fields it does not cover. -/
def EventCall.stamps (t : Toolbox) (c : EventCall) (git : Text × Text) : List (Text × Text) :=
  [(txt "event_id", eventId t (textDict (c.fields git))), (txt "created_at", c.now),
    (txt "timestamp", c.now)]

/-- The event `append_event` has put together. -/
def EventCall.payload (t : Toolbox) (c : EventCall) (git : Text × Text) : Dict :=
  textDict (c.fields git) ++ textDict (c.stamps t git)

/-- `item.get(key) == value`. -/
def hasText (item : Dict) (key value : Text) : Bool :=
  match SortedMap.get? key item with
  | some (.str s) => s == value
  | _ => false

inductive IndexError where
  | unknownEvent
  | gitMetadata
  | redMaterial

/-- An event of the same lifecycle operation. -/
def EventCall.replays (c : EventCall) (item : Dict) : Bool :=
  hasText item (txt "event") (txt "note_appended") &&
    hasText item (txt "operation_id") c.operationId &&
    hasText item (txt "plan") (c.plan.getD []) && hasText item (txt "notes") (c.notes.getD [])

/-- `append_event`: the events it leaves and the event it returns. -/
def appendEvent (t : Toolbox) (c : EventCall) (events : List Dict) :
    Except IndexError (List Dict × Dict) :=
  if !allowedEvents.contains c.event then .error .unknownEvent
  else match c.git with
    | none => .error .gitMetadata
    | some git =>
        if t.red (c.fields git) then .error .redMaterial
        else
          let payload := c.payload t git
          let existing :=
            if c.event = txt "note_appended" ∧ c.operationId ≠ [] then events.find? c.replays
            else none
          match existing with
          | some item => .ok (events, item)
          | none =>
              if events.any fun item =>
                  hasText item (txt "event_id") (eventId t (textDict (c.fields git))) then
                .ok (events, payload)
              else
                let grown := events ++ [payload]
                .ok (grown.drop (grown.length - eventsLimit), payload)

/-! ## The reader -/

/-- The members a checksum covers. -/
def without (keys : List Text) (event : Dict) : Dict := event.filter fun m => !keys.contains m.1

def checksumFields : List Text := [txt "checksum", txt "event_hash"]

def unhashedFields : List Text := [txt "event_id", txt "created_at", txt "timestamp"]

/-- `event.get(field)`, if it is true. -/
def getTruthy (event : Dict) (field : Text) : Option Json :=
  (SortedMap.get? field event).filter Context.truthy

/-- `_index_event_checksum_ok`. -/
def indexEventChecksumOk (t : Toolbox) (event : Dict) : Bool :=
  (checksumFields.all fun field =>
    match getTruthy event field with
    | none => true
    | some value =>
        let supplied := t.str value
        let hashed := without (checksumFields ++ unhashedFields) event
        let expected := t.sha256 (Json.obj hashed).canonical
        supplied == expected || supplied == txt "sha256:" ++ expected) &&
  match getTruthy event (txt "event_id") with
  | none => true
  | some value =>
      t.str value == t.sha256 (Json.obj (without unhashedFields event)).canonical

/-- The text of the file `_write_index_unlocked` writes. -/
def indexText (data : Dict) : Text := (Json.obj data).indented

/-- The event at a place of the file, as `build_inventory` reads it. -/
def readEvent (text : Text) (i : Nat) : Option Dict :=
  match Json.loads text with
  | some (.obj data) =>
      match SortedMap.get? (txt "events") data with
      | some (.arr items) =>
          match items[i]? with
          | some (.obj event) => some event
          | _ => none
      | _ => none
  | _ => none

/-! ## What is written -/

theorem normFields_textDict (fields : List (Text × Text)) :
    Json.normFields (textDict fields) = textDict fields := by
  rw [Json.normFields_eq, textDict, List.map_map]
  rfl

theorem textDict_append (fields more : List (Text × Text)) :
    textDict (fields ++ more) = textDict fields ++ textDict more := List.map_append

theorem textDict_keys (fields : List (Text × Text)) :
    (textDict fields).map Prod.fst = fields.map Prod.fst := by
  rw [textDict, List.map_map]
  rfl

/-- The names of the fields an event identifier covers. -/
def fieldNames : List Text :=
  [txt "event", txt "plan", txt "notes", txt "status", txt "branch", txt "commit",
    txt "session_id", txt "active_worktree_root", txt "canonical_repo_root", txt "git_common_dir",
    txt "workspace_instance_id", txt "notes_entry_hash", txt "operation_id", txt "pr",
    txt "reason", txt "notes_detail"]

theorem EventCall.fields_keys (c : EventCall) (git : Text × Text) :
    (c.fields git).map Prod.fst = fieldNames := rfl

theorem EventCall.stamps_keys (t : Toolbox) (c : EventCall) (git : Text × Text) :
    (c.stamps t git).map Prod.fst = unhashedFields := rfl

theorem EventCall.payload_names (t : Toolbox) (c : EventCall) (git : Text × Text) :
    (c.payload t git).map Prod.fst = fieldNames ++ unhashedFields := by
  rw [payload, List.map_append, textDict_keys, textDict_keys, fields_keys, stamps_keys]

theorem EventCall.payload_keys (t : Toolbox) (c : EventCall) (git : Text × Text) :
    ((c.payload t git).map Prod.fst).Nodup := by
  rw [payload_names]
  decide

/-- The event in the file: its members in key order. -/
def EventCall.stored (t : Toolbox) (c : EventCall) (git : Text × Text) : Dict :=
  Json.sortMembers (c.payload t git)

theorem EventCall.norm_payload (t : Toolbox) (c : EventCall) (git : Text × Text) :
    Json.norm (.obj (c.payload t git)) = .obj (c.stored t git) := by
  rw [Json.norm, payload, ← textDict_append, normFields_textDict, stored, payload, textDict_append]

theorem EventCall.get?_stored (t : Toolbox) (c : EventCall) (git : Text × Text) (k : Text) :
    SortedMap.get? k (c.stored t git) = SortedMap.get? k (c.payload t git) := by
  rw [stored, Json.sortMembers, SortedMap.get?_ofList (c.payload_keys t git)]

theorem EventCall.without_payload (t : Toolbox) (c : EventCall) (git : Text × Text) :
    without unhashedFields (c.payload t git) = textDict (c.fields git) := by
  have hkept : ∀ m ∈ textDict (c.fields git), (!unhashedFields.contains m.1) = true := by
    intro m hm
    have hname : m.1 ∈ fieldNames := by
      rw [← c.fields_keys git, ← textDict_keys]
      exact List.mem_map_of_mem hm
    exact (show ∀ k ∈ fieldNames, (!unhashedFields.contains k) = true by decide) _ hname
  have hcut : ∀ m ∈ textDict (c.stamps t git), ¬(!unhashedFields.contains m.1) = true := by
    intro m hm
    have hname : m.1 ∈ unhashedFields := by
      rw [← c.stamps_keys t git, ← textDict_keys]
      exact List.mem_map_of_mem hm
    simpa using hname
  rw [without, payload, List.filter_append, List.filter_eq_self.mpr hkept,
    List.filter_eq_nil_iff.mpr hcut, List.append_nil]

/-- The reader hashes the members the writer has hashed. -/
theorem EventCall.without_stored (t : Toolbox) (c : EventCall) (git : Text × Text) :
    (Json.obj (without unhashedFields (c.stored t git))).canonical =
      (Json.obj (textDict (c.fields git))).canonical := by
  have hsort : Json.sortMembers (without unhashedFields (c.stored t git)) =
      Json.sortMembers (without unhashedFields (c.payload t git)) :=
    SortedMap.ofList_filter_ofList textLt_strict (fun k => !unhashedFields.contains k)
      (c.payload_keys t git)
  rw [Json.canonical, Json.canonical, Json.renderTo_obj, Json.renderTo_obj, hsort,
    without_payload]

theorem EventCall.no_checksum (t : Toolbox) (c : EventCall) (git : Text × Text) {field : Text}
    (h : field ∈ checksumFields) : getTruthy (c.stored t git) field = none := by
  have habsent : field ∉ (c.payload t git).map Prod.fst := by
    rw [payload_names]
    exact (show ∀ k ∈ checksumFields, k ∉ fieldNames ++ unhashedFields by decide) _ h
  rw [getTruthy, get?_stored, SortedMap.get?_eq_none habsent]
  rfl

theorem EventCall.get_eventId (t : Toolbox) (c : EventCall) (git : Text × Text) :
    getTruthy (c.stored t git) (txt "event_id") =
      some (.str (eventId t (textDict (c.fields git)))) := by
  have hmem : (txt "event_id", Json.str (eventId t (textDict (c.fields git)))) ∈
      c.payload t git :=
    List.mem_append_right _ List.mem_cons_self
  have htruthy : Context.truthy (.str (eventId t (textDict (c.fields git)))) = true := by
    have hlength := t.sha256_length (Json.obj (textDict (c.fields git))).asciiDumps
    cases hid : eventId t (textDict (c.fields git)) with
    | nil =>
        rw [eventId] at hid
        rw [hid] at hlength
        cases hlength
    | cons d ds => rfl
  rw [getTruthy, get?_stored, SortedMap.get?_of_mem (c.payload_keys t git) hmem,
    Option.filter_some, if_pos htruthy]

/-- The two hashes the check of an event compares. -/
theorem EventCall.stored_ok (t : Toolbox) (c : EventCall) (git : Text × Text) :
    indexEventChecksumOk t (c.stored t git) =
      (t.sha256 (Json.obj (textDict (c.fields git))).asciiDumps ==
        t.sha256 (Json.obj (textDict (c.fields git))).canonical) := by
  have hplain : (checksumFields.all fun field =>
      match getTruthy (c.stored t git) field with
      | none => true
      | some value =>
          let supplied := t.str value
          let hashed := without (checksumFields ++ unhashedFields) (c.stored t git)
          let expected := t.sha256 (Json.obj hashed).canonical
          supplied == expected || supplied == txt "sha256:" ++ expected) = true := by
    rw [List.all_eq_true]
    intro field hfield
    rw [c.no_checksum t git hfield]
  rw [indexEventChecksumOk, hplain, Bool.true_and, c.get_eventId t git]
  simp only [t.str_text, c.without_stored t git, eventId]

theorem fieldNames_ascii : ∀ name ∈ fieldNames, Json.Ascii name := by decide

/-- **An event passes the check exactly if its fields are in ASCII**, where
the two texts of its fields do not collide. -/
theorem EventCall.stored_ok_iff (t : Toolbox) (c : EventCall) (git : Text × Text)
    (hfree : t.sha256 (Json.obj (textDict (c.fields git))).asciiDumps =
        t.sha256 (Json.obj (textDict (c.fields git))).canonical →
      (Json.obj (textDict (c.fields git))).asciiDumps =
        (Json.obj (textDict (c.fields git))).canonical) :
    indexEventChecksumOk t (c.stored t git) = true ↔ ∀ f ∈ c.fields git, Json.Ascii f.2 := by
  have hkeys : ((c.fields git).map Prod.fst).Nodup := by
    rw [c.fields_keys]
    decide
  have hnames : ∀ f ∈ c.fields git, Json.Ascii f.1 := fun f hf =>
    fieldNames_ascii _ (by rw [← c.fields_keys git]; exact List.mem_map_of_mem hf)
  have hascii := Json.canonical_ascii_iff hkeys hnames
  rw [c.stored_ok, beq_iff_eq]
  constructor
  · intro h
    exact hascii.mp (Json.asciiText_eq_iff.mp (hfree h))
  · intro h
    have htext : (Json.obj (textDict (c.fields git))).asciiDumps =
        (Json.obj (textDict (c.fields git))).canonical :=
      Json.asciiText_low (hascii.mpr h)
    rw [htext]

/-- The event a call adds is the one it has put together. -/
theorem appendEvent_new {t : Toolbox} {c : EventCall} {git : Text × Text} {events events' : List Dict}
    {written : Dict} (hgit : c.git = some git)
    (h : appendEvent t c events = .ok (events', written)) (hnew : written ∉ events) :
    written = c.payload t git := by
  rw [appendEvent, hgit] at h
  split at h
  · cases h
  · simp only at h
    split at h
    · cases h
    · split at h
      · rename_i item hexisting
        simp only [Except.ok.injEq, Prod.mk.injEq] at h
        rw [h.2] at hexisting
        split at hexisting
        · exact absurd (List.mem_of_find?_eq_some hexisting) hnew
        · cases hexisting
      · split at h
        · simp only [Except.ok.injEq, Prod.mk.injEq] at h
          exact h.2.symm
        · simp only [Except.ok.injEq, Prod.mk.injEq] at h
          exact h.2.symm

/-- The first event of an index. -/
theorem appendEvent_nil {t : Toolbox} {c : EventCall} {git : Text × Text} (hgit : c.git = some git)
    (hallowed : allowedEvents.contains c.event = true) (hred : t.red (c.fields git) = false) :
    appendEvent t c [] = .ok ([c.payload t git], c.payload t git) := by
  have hexisting : (if c.event = txt "note_appended" ∧ c.operationId ≠ [] then
      List.find? c.replays [] else none) = none := by
    split <;> rfl
  rw [appendEvent, hallowed, hgit]
  simp only [hred, hexisting, List.any_nil, List.nil_append, List.length_singleton,
    Nat.sub_eq_zero_of_le (show 1 ≤ eventsLimit by decide), List.drop_zero, Bool.not_true,
    Bool.false_eq_true, if_false]

/-- An event of the index is read back, its members in key order. -/
theorem readEvent_indexText {data : Dict} (hkeys : (data.map Prod.fst).Nodup) {items : List Json}
    (hevents : SortedMap.get? (txt "events") data = some (.arr items)) {i : Nat} {event event' : Dict}
    (hi : items[i]? = some (.obj event)) (hnorm : Json.norm (.obj event) = .obj event') :
    readEvent (indexText data) i = some event' := by
  have hread : SortedMap.get? (txt "events") (Json.sortMembers (Json.normFields data)) =
      some (.arr (items.map Json.norm)) := by
    have hkeys' : ((Json.normFields data).map Prod.fst).Nodup := by
      rw [Json.normFields_eq, List.map_map]
      exact hkeys
    rw [Json.sortMembers, SortedMap.get?_ofList hkeys', Json.normFields_eq, SortedMap.get?_map,
      hevents, Option.map_some, Json.norm, Json.normItems_eq]
  rw [readEvent, indexText, Json.loads_indented, Json.norm]
  simp only [hread, List.getElem?_map, hi, Option.map_some, hnorm]

/-- **An event a call has written is accepted exactly if its fields are in
ASCII**, whatever else the index holds. -/
theorem written_event_accepted_iff (t : Toolbox) (c : EventCall) {git : Text × Text}
    (hgit : c.git = some git) {events events' : List Dict} {written : Dict}
    (hcall : appendEvent t c events = .ok (events', written)) (hnew : written ∉ events)
    {data : Dict} (hkeys : (data.map Prod.fst).Nodup) {items : List Json}
    (hevents : SortedMap.get? (txt "events") data = some (.arr items)) {i : Nat}
    (hi : items[i]? = some (.obj written))
    (hfree : t.sha256 (Json.obj (textDict (c.fields git))).asciiDumps =
        t.sha256 (Json.obj (textDict (c.fields git))).canonical →
      (Json.obj (textDict (c.fields git))).asciiDumps =
        (Json.obj (textDict (c.fields git))).canonical) :
    ∃ event, readEvent (indexText data) i = some event ∧
      (indexEventChecksumOk t event = true ↔ ∀ f ∈ c.fields git, Json.Ascii f.2) := by
  have hwritten := appendEvent_new hgit hcall hnew
  rw [hwritten] at hi
  exact ⟨c.stored t git, readEvent_indexText hkeys hevents hi (c.norm_payload t git),
    c.stored_ok_iff t git hfree⟩

/-! ## An event with an accent -/

def indexTable : DigestTable where
  rows := [
    (585975, txt "62863af8e795344af768db1c2d8fde810cf8e6dd168cfc695469d95baa4886f2"),
    (200576, txt "b3e2bdb00d3546a491cdb003db942d535700c55e64734823adb245c65b53f661")]
  digests := by decide

def indexToolbox : Toolbox where
  sha256 := indexTable.lookup
  sha256_length := indexTable.lookup_length
  str
    | .str t => t
    | _ => []
  str_text _ := rfl
  red _ := false

def accentedGit : Text × Text := (txt "main", txt "abc123")

/-- `append_event(…, event="note_appended", operation_id="op-1", reason="é")`. -/
def accentedCall : EventCall where
  event := txt "note_appended"
  plan := some (txt ".ralph/plans/p.md")
  notes := none
  status := txt "implementing"
  commit := []
  branch := []
  sessionId := []
  operationId := txt "op-1"
  pr := []
  notesEntryHash := []
  reason := ['é']
  notesDetail := []
  activeWorktreeRoot := txt "/r"
  canonicalRepoRoot := txt "/r"
  gitCommonDir := txt "/r/.git"
  workspaceInstanceId := txt "w"
  git := some accentedGit
  latestEntryHash := none
  now := txt "2026-01-01T00:00:00+00:00"

def accentedFields : List (Text × Text) := accentedCall.fields accentedGit

def accentedEvent : Dict := accentedCall.payload indexToolbox accentedGit

/-- The index that holds the event alone. -/
def accentedIndex : Dict := [(txt "events", .arr [.obj accentedEvent])]

theorem accentedIndex_events :
    SortedMap.get? (txt "events") accentedIndex = some (.arr [.obj accentedEvent]) := rfl

theorem accented_appended :
    appendEvent indexToolbox accentedCall [] = .ok ([accentedEvent], accentedEvent) :=
  appendEvent_nil rfl (by decide) rfl

/-- The event is written, and its file is read back with an event that does
not pass the check. -/
theorem accented_event_rejected :
    appendEvent indexToolbox accentedCall [] = .ok ([accentedEvent], accentedEvent) ∧
      ∃ event, readEvent (indexText accentedIndex) 0 = some event ∧
        indexEventChecksumOk indexToolbox event = false := by
  have hread : readEvent (indexText accentedIndex) 0 =
      some (accentedCall.stored indexToolbox accentedGit) :=
    readEvent_indexText (by decide) accentedIndex_events rfl
      (accentedCall.norm_payload indexToolbox accentedGit)
  have hdiffer : (indexToolbox.sha256 (Json.obj (textDict accentedFields)).asciiDumps ==
      indexToolbox.sha256 (Json.obj (textDict accentedFields)).canonical) = false := by
    decide +kernel
  exact ⟨accented_appended, _, hread,
    (accentedCall.stored_ok indexToolbox accentedGit).trans hdiffer⟩

theorem accented_event_unaccepted :
    ∃ event, readEvent (indexText accentedIndex) 0 = some event ∧
      (indexEventChecksumOk indexToolbox event = true ↔
        ∀ f ∈ accentedFields, Json.Ascii f.2) :=
  written_event_accepted_iff indexToolbox accentedCall rfl accented_appended List.not_mem_nil
    (by decide) accentedIndex_events rfl
    (fun h => absurd h (by decide +kernel))

end RalphVault.Plans
