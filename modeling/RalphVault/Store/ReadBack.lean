import RalphVault.Store.History
import RalphVault.Store.Unplanned

/-!
# Implementation store — everything that is written is read back

The whole store: the plans with their journals and snapshots, the
manifest, the journal of loose commits and the context ledger, with any
number of calls on them. The readers of the store, on the texts the files
hold, return exactly the records that were written, in order.
-/

namespace RalphVault.Store

/-! ## The readers -/

section Readers

variable (env : Env)

/-- `read_events`, on the text of `events.jsonl`. -/
def readEvents (planId : Text) (file : Option Text) : Check (List Event) := do
  validatePlanId planId
  let plan := String.ofList planId
  let (es, _) ← (readJsonlText (fun d => validateEvent env d (some planId) false false)
    s!"events for {plan}" planJournalMaxBytes planJournalMaxRecords file).mapError integrity
  validateSequenceAndHashes env 1 [] es
  validateEventOwnership env es
  pure es

/-- `read_state_identity`, on the text of `state.json`. -/
def readStateIdentity (planId : Text) (file : Option Text) : Check (Option State) := do
  validatePlanId planId
  match ← readJsonText (fun d => validateState env d (some planId) stateHardLimitBytes) "state"
      stateHardLimitBytes file with
  | none => pure none
  | some s => do
      validateOwnership env s
      pure (some s)

/-- `read_manifest`, on the text of `manifest.json`. -/
def readManifestText (file : Option Text) : Check (Option Manifest) :=
  readJsonText (validateManifest env) "manifest" manifestHardLimitBytes file

/-- `read_context_ledger`, on the text of `context-emissions.jsonl`. -/
def readContextLedgerText (file : Option Text) : Check (List LedgerRecord) := do
  let (rs, part) ← readJsonlText (validateContextLedgerRecord env) "context-emissions.jsonl"
    contextLedgerMaxBytes contextLedgerMaxRecords file
  require (!part) (.integrityError "context emission ledger has an incomplete final line")
  distinctKeys env [] rs
  pure rs

end Readers

/-! ## The texts of the files -/

/-- Every record on its line. -/
def recordsText (js : List Json) : Text := js.flatMap fun j => j.canonical ++ ['\n']

/-- There is no journal before its first record. -/
def PlanFiles.eventsText (f : PlanFiles) : Option Text :=
  if f.journal = [] then none else some (recordsText f.journal)

def PlanFiles.stateText (f : PlanFiles) : Option Text := f.snapshot.map Json.canonical

def StoreFiles.manifestText (st : StoreFiles) : Option Text := st.manifest.map Json.canonical

/-- The complete lines of the ledger. -/
def JsonlFile.text (file : Option JsonlFile) : Option Text :=
  file.map fun f => recordsText f.lines

variable {env : Env}

theorem recordsText_obj {toDict : β → Dict} (bs : List β) :
    recordsText (bs.map fun b => .obj (toDict b)) = linesText (bs.map toDict) := by
  rw [recordsText, linesText, List.flatMap_map, List.flatMap_map]
  rfl

theorem utf8Len_linesText (ds : List Dict) :
    utf8Len (linesText ds) = journalBytes (ds.map .obj) := by
  induction ds with
  | nil => rfl
  | cons d ds ih =>
      show utf8Len (lineText d ++ linesText ds) = _
      rw [utf8Len_append, utf8Len_lineText, ih]
      simp [journalBytes]

/-- A file of records is read back, within its limits. -/
theorem readJsonlText_recordsText {validator : Dict → Check β} {label : String}
    {toDict : β → Dict} {totalHardLimit maxRecords : Nat} {bs : List β}
    (h : ∀ b ∈ bs, validator (toDict b).sorted = .ok b) (hcount : bs.length ≤ maxRecords)
    (hbytes : journalBytes (bs.map fun b => .obj (toDict b)) ≤ totalHardLimit) :
    readJsonlText validator label totalHardLimit maxRecords
      (some (recordsText (bs.map fun b => .obj (toDict b)))) = .ok (bs, false) := by
  rw [recordsText_obj]
  refine readJsonlText_records h hcount ?_
  rw [utf8Len_linesText, List.map_map]
  exact hbytes

theorem readJsonl_count {validator : Dict → Check β} {label : String} {maxRecords : Nat}
    {js : List Json} {bs : List β} :
    ∀ {i : Nat}, readJsonl validator label maxRecords i js = .ok bs → i ≤ maxRecords →
      i + bs.length ≤ maxRecords := by
  induction js generalizing bs with
  | nil =>
      intro i h hi
      cases h
      exact hi
  | cons j js ih =>
      intro i h _
      simp only [readJsonl] at h
      cases hobj : object j s!"{label} record" with
      | error err => simp [hobj] at h
      | ok d =>
          simp only [hobj] at h
          split at h
          · simp at h
          · rename_i hroom
            cases hv : validator d with
            | error err => simp [hv] at h
            | ok b =>
                simp only [hv, bind_eq_ok, pure, Except.pure, Except.ok.injEq] at h
                obtain ⟨bs', hbs', rfl⟩ := h
                have hcount := ih hbs' (by omega)
                rw [List.length_cons]
                omega

/-! ## One file at a time -/

theorem FilesHold.readEvents {ws : List Written} {st : StoreFiles} {p : Text}
    (h : FilesHold env ws st) (hp : validatePlanId p = .ok ()) :
    readEvents env p (st.plans p).eventsText = .ok (eventsOf p ws) := by
  obtain ⟨hbytes, -, -, hchain, howned⟩ := reads_iff.mp (h.reads p)
  have hrecords : ∀ e ∈ eventsOf p ws,
      validateEvent env e.toDict.sorted (some p) false false = .ok e := by
    intro e he
    obtain ⟨hvalid, hplan⟩ := h.records p e he
    exact readable_sorted hvalid.readable (by simp [hplan])
  rw [h.journal] at hbytes
  have hread : ∀ label, readJsonlText (fun d => validateEvent env d (some p) false false) label
      planJournalMaxBytes planJournalMaxRecords (st.plans p).eventsText =
        .ok (eventsOf p ws, false) := by
    intro label
    rw [PlanFiles.eventsText, h.journal]
    split
    · rename_i hempty
      rw [List.map_eq_nil_iff.mp hempty]
      rfl
    · exact readJsonlText_recordsText hrecords (h.count p) hbytes
  simp [Store.readEvents, hp, hread, Except.mapError, hchain, howned, bind, Except.bind, pure,
    Except.pure]

theorem FilesHold.readStateIdentity {ws : List Written} {st : StoreFiles} {p : Text}
    (h : FilesHold env ws st) (hp : validatePlanId p = .ok ()) :
    readStateIdentity env p (st.plans p).stateText = .ok (snapshotOf p ws) := by
  rw [PlanFiles.stateText, h.snapshot]
  cases hs : snapshotOf p ws with
  | none => simp [Store.readStateIdentity, hp, readJsonText, bind, Except.bind, pure, Except.pure]
  | some s =>
      obtain ⟨hvalid, hplan, howned⟩ := h.snapshots p s hs
      have hread : readJsonText (fun d => validateState env d (some p) stateHardLimitBytes) "state"
          stateHardLimitBytes (some (Json.canonical (.obj s.toDict))) = .ok (some s) :=
        readJsonText_published (state_sorted hvalid (by simp [hplan])) hvalid.fits.bounded
      simp [Store.readStateIdentity, hp, hread, validateOwnership_iff.mpr howned, bind,
        Except.bind, pure, Except.pure]

theorem FilesHold.readManifestText {ws : List Written} {st : StoreFiles}
    (h : FilesHold env ws st) : readManifestText env st.manifestText = .ok (manifestOf ws) := by
  rw [StoreFiles.manifestText, h.manifest]
  cases hm : manifestOf ws with
  | none => rfl
  | some m =>
      have hvalid := h.manifests m hm
      exact readJsonText_published (manifest_sorted hvalid) hvalid.bounded

/-! ## The context ledger -/

/-- The record a step of call `i` appends to the ledger. -/
def LedgerSystem.appended (sys : LedgerSystem) (i : Nat) (sys' : LedgerSystem) :
    List LedgerRecord :=
  match sys.calls i, sys'.calls i with
  | .holding r _, .written _ => [r]
  | _, _ => []

/-- The ledger holds the records `rs`. -/
structure LedgerHolds (env : Env) (rs : List LedgerRecord) (sys : LedgerSystem) : Prop where
  lines : JsonlFile.lines? sys.file = rs.map fun r => .obj r.toDict
  log : ∃ log, Simulates env sys log ∧ log.log.map Prod.snd = rs

theorem LedgerHolds.initial : LedgerHolds env [] .initial := ⟨rfl, _, .initial, rfl⟩

/-- A step leaves the complete lines as they are, or appends one record. -/
theorem LedgerStep.lines {i : Nat} {sys sys' : LedgerSystem} (h : LedgerStep env i sys sys') :
    JsonlFile.lines? sys'.file = JsonlFile.lines? sys.file ++
      (sys.appended i sys').map fun r => .obj r.toDict := by
  cases h with
  | look hcall _ => simp [LedgerSystem.appended, LedgerSystem.setCall, hcall]
  | lockHit hcall _ _ => simp [LedgerSystem.appended, LedgerSystem.setCall, hcall]
  | lockMiss hcall _ _ => simp [LedgerSystem.appended, LedgerSystem.setCall, hcall]
  | append hcall happend =>
      rename_i r n f
      simp only [appendLedger, bind_eq_ok, pure, Except.pure, Except.ok.injEq] at happend
      obtain ⟨lines, hlines, rfl⟩ := happend
      obtain ⟨rfl, -, -⟩ := appendJsonl_ok hlines
      simp [LedgerSystem.appended, LedgerSystem.setCall, hcall, JsonlFile.lines?]
  | finish hcall => simp [LedgerSystem.appended, LedgerSystem.stop, LedgerSystem.setCall, hcall]
  | tear hcall _ =>
      simp [LedgerSystem.appended, LedgerSystem.stop, LedgerSystem.setCall, hcall,
        JsonlFile.lines?]
  | fail _ =>
      have hnone : sys.appended i (sys.stop i .failed) = [] := by
        unfold LedgerSystem.appended
        split
        · rename_i hwritten
          simp [LedgerSystem.stop, LedgerSystem.setCall] at hwritten
        · rfl
      rw [hnone, List.map_nil, List.append_nil]
      rfl

/-- The record a step appends is the one it appends to the log. -/
theorem Simulates.appended {sys sys' : LedgerSystem} {log log' : ClaimLog.System LedgerRecord}
    {i : Nat} (h : Simulates env sys log) (h' : Simulates env sys' log') :
    (log.appended i log').map Prod.snd = sys.appended i sys' := by
  simp only [ClaimLog.System.appended, LedgerSystem.appended, h.phases, h'.phases]
  cases sys.calls i <;> cases sys'.calls i <;> rfl

theorem LedgerHolds.step {rs : List LedgerRecord} {sys sys' : LedgerSystem} {i : Nat}
    (h : LedgerHolds env rs sys) (hstep : LedgerStep env i sys sys') :
    LedgerHolds env (rs ++ sys.appended i sys') sys' := by
  obtain ⟨log, hsim, hlog⟩ := h.log
  obtain ⟨log', hsim', habs, -⟩ := hsim.step hstep
  refine ⟨?_, log', hsim', ?_⟩
  · rw [hstep.lines, h.lines, List.map_append]
  · rw [habs.appended, List.map_append, hlog, hsim.appended hsim']

/-- **The ledger is read back.** -/
theorem LedgerHolds.reads {rs : List LedgerRecord} {sys : LedgerSystem}
    (h : LedgerHolds env rs sys) :
    readContextLedgerText env (JsonlFile.text sys.file) = .ok rs := by
  obtain ⟨log, hsim, hlog⟩ := h.log
  have hreads := hsim.reads
  rw [hlog] at hreads
  have hcount := readJsonl_count hreads.records (Nat.zero_le _)
  have hbytes := hreads.bytes
  have hlines := h.lines
  rw [hlines] at hbytes
  have hrecords : ∀ r ∈ rs, validateContextLedgerRecord env r.toDict.sorted = .ok r :=
    fun r hr => ledgerRecord_sorted (hreads.valid r hr)
  have hkeys : (rs.map LedgerRecord.key).Nodup := by
    rw [← hlog, List.map_map]
    exact hsim.reachable.invariant.distinct
  have hdistinct : distinctKeys env [] rs = .ok () := distinctKeys_ok hreads.valid hkeys (by simp)
  have hread : ∀ label, readJsonlText (validateContextLedgerRecord env) label
      contextLedgerMaxBytes contextLedgerMaxRecords (JsonlFile.text sys.file) =
        .ok (rs, false) := by
    intro label
    cases hfile : sys.file with
    | none =>
        rw [hfile] at hlines
        rw [List.map_eq_nil_iff.mp hlines.symm]
        rfl
    | some f =>
        rw [hfile] at hlines
        show readJsonlText _ _ _ _ (some (recordsText (JsonlFile.lines? (some f)))) = _
        rw [hlines]
        exact readJsonlText_recordsText hrecords (by simpa using hcount) hbytes
  simp [readContextLedgerText, hread, hdistinct, bind, Except.bind, pure, Except.pure]

/-! ## The whole store -/

/-- The plans, the journal of loose commits and the context ledger. -/
structure StoreSystem where
  plans : System
  unplanned : Option Text
  ledger : LedgerSystem

section Runs

variable (env : Env)

/-- A run of calls on the store in which no append is cut short, and what
they have written: to the plans, to the journal of loose commits, and to
the context ledger. -/
inductive StoreRun : List Written → List Event → List LedgerRecord → StoreSystem → Prop where
  | initial : StoreRun [] [] [] ⟨.initial, none, .initial⟩
  | plans {ws : List Written} {us : List Event} {rs : List LedgerRecord} {s : StoreSystem}
      {sys : System} {a : Action} (h : StoreRun ws us rs s) (hstep : Step env s.plans a sys) :
      StoreRun (ws ++ a.written env s.plans) us rs { s with plans := sys }
  | unplanned {ws : List Written} {us : List Event} {rs : List LedgerRecord} {s : StoreSystem}
      {c : UnplannedCall} {file : Option Text} {e : Event} {isNew : Bool}
      (h : StoreRun ws us rs s)
      (hcall : appendUnplannedCommit env c s.unplanned = .ok (file, e, isNew)) :
      StoreRun ws (if isNew then us ++ [e] else us) rs { s with unplanned := file }
  | ledger {ws : List Written} {us : List Event} {rs : List LedgerRecord} {s : StoreSystem}
      {i : Nat} {sys : LedgerSystem} (h : StoreRun ws us rs s)
      (hstep : LedgerStep env i s.ledger sys)
      (hwhole : sys.file.any JsonlFile.partialLine = false) :
      StoreRun ws us (rs ++ s.ledger.appended i sys) { s with ledger := sys }

end Runs

/-- What holds of the store along every run. -/
structure StoreHolds (env : Env) (ws : List Written) (us : List Event) (rs : List LedgerRecord)
    (s : StoreSystem) : Prop where
  plans : History env ws s.plans
  unplanned : UnplannedJournal env s.unplanned us
  ledger : LedgerHolds env rs s.ledger

theorem StoreRun.holds {ws : List Written} {us : List Event} {rs : List LedgerRecord}
    {s : StoreSystem} (h : StoreRun env ws us rs s) : StoreHolds env ws us rs s := by
  induction h with
  | initial => exact ⟨.initial, .empty, .initial⟩
  | plans _ hstep ih => exact ⟨ih.plans.step hstep, ih.unplanned, ih.ledger⟩
  | unplanned _ hcall ih => exact ⟨ih.plans, ih.unplanned.append hcall, ih.ledger⟩
  | ledger _ hstep _ ih => exact ⟨ih.plans, ih.unplanned, ih.ledger.step hstep⟩

/-- **The store reads back what it wrote.** After every run, the readers take
every file and return the records that were written to it, in order. -/
theorem store_reads_back {ws : List Written} {us : List Event} {rs : List LedgerRecord}
    {s : StoreSystem} (h : StoreRun env ws us rs s) :
    (∀ p, validatePlanId p = .ok () →
      readEvents env p (s.plans.files.plans p).eventsText = .ok (eventsOf p ws) ∧
      readStateIdentity env p (s.plans.files.plans p).stateText = .ok (snapshotOf p ws)) ∧
    readManifestText env s.plans.files.manifestText = .ok (manifestOf ws) ∧
    readUnplannedEvents env s.unplanned = .ok us ∧
    readContextLedgerText env (JsonlFile.text s.ledger.file) = .ok rs := by
  have hholds := h.holds
  have hfiles := hholds.plans.holds.files
  exact ⟨fun p hp => ⟨hfiles.readEvents hp, hfiles.readStateIdentity hp⟩,
    hfiles.readManifestText, hholds.unplanned.reads, hholds.ledger.reads⟩

/-! A plan that is registered, and a capsule that is claimed. -/

/-- A run of the writers is a run of the store. -/
theorem Run.store {cond : System → Action → Prop} {sys : System} (h : Run env cond sys) :
    ∃ ws, StoreRun env ws [] [] ⟨sys, none, .initial⟩ := by
  induction h with
  | initial => exact ⟨[], .initial⟩
  | step _ _ hstep ih =>
      obtain ⟨ws, hws⟩ := ih
      exact ⟨_, hws.plans hstep⟩

theorem store_reads_back_started :
    ∃ ws s e, StoreRun phaseHost ws [] [capsuleRecord] s ∧
      readEvents phaseHost phaseRegistration.planId
        (s.plans.files.plans phaseRegistration.planId).eventsText = .ok [e] ∧
      readContextLedgerText phaseHost (JsonlFile.text s.ledger.file) = .ok [capsuleRecord] := by
  obtain ⟨res, hres, hchanged⟩ := exists_of_changes phasePlan_changes
  obtain ⟨sys, next, e, hrun, -, -, hcurrent⟩ := registration_interrupted hres hchanged
  obtain ⟨r, -, -, -, -, -, -, hr, -⟩ := registerPlan_changed hres hchanged
  obtain ⟨ws, hws⟩ := hrun.store
  have hvalid : capsuleRecord.Valid phaseHost :=
    have h := capsuleRecord_valid
    ⟨h.project, h.workspace, h.session, h.epoch, ⟨h.plan.1, h.plan.2, h.plan.3, h.plan.4⟩, h.emission, h.notRed, h.bounded⟩
  have hmiss : claimLook phaseHost capsuleRecord.toDict none = .ok (capsuleRecord, false) := by
    simp [claimLook, hvalid.reads, hvalid.contextLedgerKey, bind, Except.bind, pure, Except.pure]
  have hlook := hws.ledger (.look (i := 0) rfl hmiss) rfl
  have hlock := hlook.ledger (.lockMiss (i := 0) (r := capsuleRecord) (n := 0) rfl rfl rfl) rfl
  have hwritten := hlock.ledger (.append (i := 0) (r := capsuleRecord) rfl capsuleRecord_append) rfl
  have hback := store_reads_back hwritten
  have hevents := (hback.1 _ (registerRequest_planIdOk hr)).1
  have hjournal : eventsOf phaseRegistration.planId ws = [e] :=
    (hws.holds.plans.holds.files.reads _).unique hcurrent.reads
  rw [hjournal] at hevents
  exact ⟨_, _, e, hwritten, hevents, hback.2.2.2⟩

end RalphVault.Store
