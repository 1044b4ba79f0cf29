import RalphVault.ClaimLog
import RalphVault.Store.Host
import RalphVault.Store.Journal

/-!
# Implementation store — the context ledger

`context-emissions.jsonl` records which context capsules were emitted. A
hook claims the key of a capsule before it emits it: it looks for the key
without the lock, then looks again under the lock and appends its record.
The first part is the code of `validate_context_ledger_record`,
`read_context_ledger` and `claim_context_emission`; the second part runs
any number of claims together, with failures and crashes anywhere, and
simulates them by a claim log.
-/

namespace RalphVault.Store

def contextLedgerHardLimitBytes : Nat := 2 * 1024
def contextLedgerMaxBytes : Nat := 4 * 1024 * 1024
def contextLedgerMaxRecords : Nat := 4096

/-! ## Records -/

/-- `VALID_CAPSULE_KINDS`. -/
inductive CapsuleKind where
  | full | delta | expanded
deriving DecidableEq

instance : Named CapsuleKind where
  members := [.full, .delta, .expanded]
  name | .full => txt "full" | .delta => txt "delta" | .expanded => txt "expanded"
  complete b := by cases b <;> simp
  distinct a b := by cases a <;> cases b <;> decide

/-- A record of the ledger. -/
structure LedgerRecord where
  projectId : Text
  workspaceInstanceId : Text
  sessionId : Text
  contextEpoch : Text
  planId : Text
  progressGeneration : Nat
  capsuleKind : CapsuleKind
  emissionId : Text
deriving DecidableEq

def LedgerRecord.toDict (r : LedgerRecord) : Dict :=
  [(txt "schema_version", .num 1),
   (txt "project_id", .str r.projectId),
   (txt "workspace_instance_id", .str r.workspaceInstanceId),
   (txt "session_id", .str r.sessionId),
   (txt "context_epoch", .str r.contextEpoch),
   (txt "plan_id", .str r.planId),
   (txt "progress_generation", natJson r.progressGeneration),
   (txt "capsule_kind", nameJson r.capsuleKind),
   (txt "emission_id", .str r.emissionId)]

/-- What `context_ledger_key` returns: the record without its emission. -/
structure LedgerKey where
  projectId : Text
  workspaceInstanceId : Text
  sessionId : Text
  contextEpoch : Text
  planId : Text
  progressGeneration : Nat
  capsuleKind : CapsuleKind
deriving DecidableEq

def LedgerRecord.key (r : LedgerRecord) : LedgerKey :=
  ⟨r.projectId, r.workspaceInstanceId, r.sessionId, r.contextEpoch, r.planId,
    r.progressGeneration, r.capsuleKind⟩

section Claims

variable (env : Env)

def ledgerKeys : List Text :=
  [txt "schema_version", txt "project_id", txt "workspace_instance_id", txt "session_id",
   txt "context_epoch", txt "plan_id", txt "progress_generation", txt "capsule_kind",
   txt "emission_id"]

/-- `validate_context_ledger_record`. -/
def validateContextLedgerRecord (d : Dict) : Check LedgerRecord := do
  schemaVersion d "context ledger record"
  unknownKeys d ledgerKeys "context ledger record"
  let project ← identifier env (d.getD (txt "project_id") noText)
    "context ledger project_id" false
  let workspace ← identifier env (d.getD (txt "workspace_instance_id") noText)
    "context ledger workspace_instance_id" false
  let session ← identifier env (d.getD (txt "session_id") noText)
    "context ledger session_id" false
  let epoch ← identifier env (d.getD (txt "context_epoch") noText)
    "context ledger context_epoch" false
  let plan ← planId env (d.getD (txt "plan_id") .null) false
  let generation ← integer (d.getD (txt "progress_generation") (.num 0))
    "context ledger progress_generation" 0
  let kind ← enum (d.getD (txt "capsule_kind") noText) "context ledger capsule_kind"
  let emission ← identifier env (d.getD (txt "emission_id") noText)
    "context ledger emission_id" false
  let normalized : LedgerRecord :=
    ⟨project, workspace, session, epoch, plan, generation, kind, emission⟩
  rejectRed env (.obj normalized.toDict) "context ledger record"
  require (Json.encodedSize (.obj normalized.toDict) + 1 ≤ contextLedgerHardLimitBytes)
    (.schemaError
      s!"context ledger record exceeds hard limit of {contextLedgerHardLimitBytes} UTF-8 bytes")
  pure normalized

/-- `context_ledger_key`, which validates the record once more. -/
def contextLedgerKey (d : Dict) : Check LedgerKey := LedgerRecord.key <$> validateContextLedgerRecord env d

/-- Whether a record of a list has the key. -/
def hasKey (key : LedgerKey) : List LedgerRecord → Check Bool
  | [] => .ok false
  | r :: rs => do
      let k ← contextLedgerKey env r.toDict
      if k = key then pure true else hasKey key rs

/-! ## The file -/

/-- A file of lines: the complete ones, and whether an incomplete line
follows them. -/
structure JsonlFile where
  lines : List Json
  partialLine : Bool

/-- `read_jsonl` on the ledger, where it exists. -/
def readLedgerLines : Option JsonlFile → Check (List LedgerRecord)
  | none => .ok []
  | some f => do
      require (journalBytes f.lines ≤ contextLedgerMaxBytes)
        (.storeIOError
          s!"context-emissions.jsonl exceeds its read limit of {contextLedgerMaxBytes} bytes")
      let rs ← readJsonl (validateContextLedgerRecord env) "context-emissions.jsonl"
        contextLedgerMaxRecords 0 f.lines
      require (!f.partialLine)
        (.integrityError "context emission ledger has an incomplete final line")
      pure rs

/-- No key of the list comes twice, and none is in `seen`. -/
def distinctKeys (seen : List LedgerKey) : List LedgerRecord → Check Unit
  | [] => .ok ()
  | r :: rs => do
      let k ← contextLedgerKey env r.toDict
      require (!seen.contains k) (.integrityError "context emission ledger contains a duplicate key")
      distinctKeys (k :: seen) rs

/-- `read_context_ledger`. -/
def readContextLedger (file : Option JsonlFile) : Check (List LedgerRecord) := do
  let rs ← readLedgerLines env file
  distinctKeys env [] rs
  pure rs

/-! ## A claim -/

/-- `claim_context_emission` before it takes the lock: the normalised record,
and whether the ledger has its key. -/
def claimLook (d : Dict) (file : Option JsonlFile) : Check (LedgerRecord × Bool) := do
  let r ← validateContextLedgerRecord env d
  let key ← contextLedgerKey env r.toDict
  match file with
  | none => pure (r, false)
  | some _ => do
      let rs ← readContextLedger env file
      let hit ← hasKey env key rs
      pure (r, hit)

/-- `claim_context_emission` under the lock, before it appends: the number of
records, and whether one of them has the key. -/
def claimLocked (r : LedgerRecord) (file : Option JsonlFile) : Check (Nat × Bool) := do
  let rs ← readLedgerLines env file
  let hit ← hasKey env r.key rs
  pure (rs.length, hit)

def JsonlFile.lines? : Option JsonlFile → List Json
  | none => []
  | some f => f.lines

/-- The append of `claim_context_emission`. -/
def appendLedger (file : Option JsonlFile) (r : LedgerRecord) (existing : Nat) :
    Check JsonlFile := do
  let lines ← appendJsonl "context-emissions.jsonl" contextLedgerHardLimitBytes
    contextLedgerMaxBytes contextLedgerMaxRecords (JsonlFile.lines? file) r.toDict existing
  pure ⟨lines, file.any JsonlFile.partialLine⟩

end Claims

/-! ## Records read back -/

section Records

variable (env : Env)

/-- A record as `validate_context_ledger_record` returns it. -/
structure LedgerRecord.Valid (r : LedgerRecord) : Prop where
  project : IdentifierOk env false r.projectId
  workspace : IdentifierOk env false r.workspaceInstanceId
  session : IdentifierOk env false r.sessionId
  epoch : IdentifierOk env false r.contextEpoch
  plan : PlanIdOk env r.planId
  emission : IdentifierOk env false r.emissionId
  notRed : isRed env (Json.canonical (.obj r.toDict)) = false
  bounded : Json.encodedSize (.obj r.toDict) + 1 ≤ contextLedgerHardLimitBytes

theorem validateContextLedgerRecord_sound {d : Dict} {r : LedgerRecord}
    (h : validateContextLedgerRecord env d = .ok r) : r.Valid env := by
  simp only [validateContextLedgerRecord, bind_eq_ok, identifier_eq_ok, planId_eq_ok, rejectRed,
    require_eq_ok, Bool.not_eq_true', decide_eq_true_eq, pure, Except.pure, Except.ok.injEq] at h
  obtain ⟨_, -, _, -, project, hproject, workspace, hworkspace, session, hsession, h⟩ := h
  obtain ⟨epoch, hepoch, plan, hplan, generation, -, kind, -, emission, hemission, h⟩ := h
  obtain ⟨_, hred, _, hsize, rfl⟩ := h
  exact ⟨hproject.2, hworkspace.2, hsession.2, hepoch.2, hplan.2, hemission.2, hred, hsize⟩

variable {env}

/-- A record that passed validation passes it again, as itself. -/
theorem LedgerRecord.Valid.reads {r : LedgerRecord} (h : r.Valid env) :
    validateContextLedgerRecord env r.toDict = .ok r := by
  simp only [validateContextLedgerRecord, bind_eq_ok, identifier_eq_ok, planId_eq_ok, rejectRed,
    require_eq_ok, Bool.not_eq_true', decide_eq_true_eq, integer_eq_ok, enum_eq_ok, pure,
    Except.pure, Except.ok.injEq]
  exact ⟨(), schemaVersion_one "context ledger record" rfl, (), rfl, r.projectId,
    ⟨rfl, h.project⟩, r.workspaceInstanceId, ⟨rfl, h.workspace⟩, r.sessionId, ⟨rfl, h.session⟩,
    r.contextEpoch, ⟨rfl, h.epoch⟩, r.planId, ⟨rfl, h.plan⟩, r.progressGeneration,
    ⟨rfl, Nat.zero_le _⟩, r.capsuleKind, rfl, r.emissionId, ⟨rfl, h.emission⟩, (), h.notRed, (),
    h.bounded, rfl⟩

theorem LedgerRecord.Valid.contextLedgerKey {r : LedgerRecord} (h : r.Valid env) :
    contextLedgerKey env r.toDict = .ok r.key := by
  simp only [Store.contextLedgerKey, h.reads]
  rfl

theorem hasKey_eq_ok {key : LedgerKey} {rs : List LedgerRecord} (h : ∀ r ∈ rs, r.Valid env)
    {hit : Bool} : hasKey env key rs = .ok hit ↔ (hit = true ↔ ∃ r ∈ rs, r.key = key) := by
  induction rs with
  | nil => cases hit <;> simp [hasKey]
  | cons r rs ih =>
      have hr := (h r (List.mem_cons_self ..)).contextLedgerKey
      have hrs := ih fun q hq => h q (List.mem_cons_of_mem _ hq)
      simp only [hasKey, hr, bind, Except.bind]
      by_cases hkey : r.key = key
      · cases hit <;> simp [hkey, pure, Except.pure]
      · rw [if_neg hkey, hrs]
        simp [hkey]

theorem distinctKeys_ok {rs : List LedgerRecord} (h : ∀ r ∈ rs, r.Valid env) :
    ∀ {seen : List LedgerKey}, (rs.map LedgerRecord.key).Nodup →
      (∀ r ∈ rs, r.key ∉ seen) → distinctKeys env seen rs = .ok () := by
  induction rs with
  | nil =>
      intro seen _ _
      rfl
  | cons r rs ih =>
      intro seen hnodup hseen
      have hr := (h r (List.mem_cons_self ..)).contextLedgerKey
      rw [List.map_cons, List.nodup_cons] at hnodup
      have hnew : seen.contains r.key = false := by
        simpa using hseen r (List.mem_cons_self ..)
      have hrest : ∀ q ∈ rs, q.key ∉ r.key :: seen := by
        intro q hq hmem
        rcases List.mem_cons.mp hmem with hkey | hmem
        · exact hnodup.1 (List.mem_map.mpr ⟨q, hq, hkey⟩)
        · exact hseen q (List.mem_cons_of_mem _ hq) hmem
      simp only [distinctKeys, hr, hnew, bind, Except.bind, Bool.not_false, require_true]
      exact ih (fun q hq => h q (List.mem_cons_of_mem _ hq)) hnodup.2 hrest

end Records

/-! ## Claims together -/

/-- Where a call of `claim_context_emission` is. -/
inductive ClaimPhase where
  | idle
  /-- its key was not in the ledger it read without the lock -/
  | missed (r : LedgerRecord)
  /-- it has the lock and read `existing` records, none with its key -/
  | holding (r : LedgerRecord) (existing : Nat)
  /-- its record is in the ledger, and it still has the lock -/
  | written (r : LedgerRecord)
  | returned (r : LedgerRecord) (emitted : Bool)
  /-- it raised an error, or its process died -/
  | failed

/-- The calls together: the ledger file, the holder of its lock, and every
call. -/
structure LedgerSystem where
  file : Option JsonlFile
  holder : Option Nat
  calls : Nat → ClaimPhase

namespace LedgerSystem

def initial : LedgerSystem := ⟨none, none, fun _ => .idle⟩

def setCall (sys : LedgerSystem) (i : Nat) (p : ClaimPhase) : LedgerSystem :=
  { sys with calls := fun j => if j = i then p else sys.calls j }

/-- A call that is over does not have the lock. -/
def stop (sys : LedgerSystem) (i : Nat) (p : ClaimPhase) : LedgerSystem :=
  { sys.setCall i p with holder := if sys.holder = some i then none else sys.holder }

end LedgerSystem

/-- One step of call `i`. Every step may be the last one: an error and the
death of the process are the step `fail`, from any place; the step `tear`
is a write that stops early, having left a part of the record, or only an
empty file. -/
inductive LedgerStep (env : Env) (i : Nat) : LedgerSystem → LedgerSystem → Prop where
  | look {sys : LedgerSystem} {d : Dict} {r : LedgerRecord} {hit : Bool}
      (hcall : sys.calls i = .idle) (hlook : claimLook env d sys.file = .ok (r, hit)) :
      LedgerStep env i sys (sys.setCall i (if hit then .returned r false else .missed r))
  | lockHit {sys : LedgerSystem} {r : LedgerRecord} {n : Nat} (hcall : sys.calls i = .missed r)
      (hfree : sys.holder = none) (hlocked : claimLocked env r sys.file = .ok (n, true)) :
      LedgerStep env i sys (sys.setCall i (.returned r false))
  | lockMiss {sys : LedgerSystem} {r : LedgerRecord} {n : Nat} (hcall : sys.calls i = .missed r)
      (hfree : sys.holder = none) (hlocked : claimLocked env r sys.file = .ok (n, false)) :
      LedgerStep env i sys { sys.setCall i (.holding r n) with holder := some i }
  | append {sys : LedgerSystem} {r : LedgerRecord} {n : Nat} {f : JsonlFile}
      (hcall : sys.calls i = .holding r n) (happend : appendLedger sys.file r n = .ok f) :
      LedgerStep env i sys { sys.setCall i (.written r) with file := some f }
  | finish {sys : LedgerSystem} {r : LedgerRecord} (hcall : sys.calls i = .written r) :
      LedgerStep env i sys (sys.stop i (.returned r true))
  | tear {sys : LedgerSystem} {r : LedgerRecord} {n : Nat} {f : JsonlFile} {part : Bool}
      (hcall : sys.calls i = .holding r n) (happend : appendLedger sys.file r n = .ok f) :
      LedgerStep env i sys
        { sys.stop i .failed with file := some ⟨JsonlFile.lines? sys.file, part⟩ }
  | fail {sys : LedgerSystem} (hcall : ∀ r b, sys.calls i ≠ .returned r b) :
      LedgerStep env i sys (sys.stop i .failed)

/-- What a step did to the ledger file. -/
structure LedgerWrite where
  call : Nat
  before : Option JsonlFile
  after : Option JsonlFile

/-- A run of the calls, and what each of its steps did to the file. -/
inductive LedgerRun (env : Env) : List LedgerWrite → LedgerSystem → Prop where
  | initial : LedgerRun env [] .initial
  | step {trace : List LedgerWrite} {sys sys' : LedgerSystem} {i : Nat} (h : LedgerRun env trace sys)
      (hstep : LedgerStep env i sys sys') :
      LedgerRun env (trace ++ [⟨i, sys.file, sys'.file⟩]) sys'

/-! ## The calls are a claim log -/

section Simulation

variable {env : Env}

/-- The phase of a call in the claim log. -/
def ClaimPhase.toPhase : ClaimPhase → ClaimLog.Phase LedgerRecord
  | .idle => .idle
  | .missed r => .missed r
  | .holding r _ => .holding r
  | .written r => .written r
  | .returned r emitted => .returned r emitted
  | .failed => .failed

/-- The lines of the ledger read back as the records `rs`. -/
structure LedgerReads (env : Env) (file : Option JsonlFile) (rs : List LedgerRecord) : Prop where
  records : readJsonl (validateContextLedgerRecord env) "context-emissions.jsonl"
    contextLedgerMaxRecords 0 (JsonlFile.lines? file) = .ok rs
  bytes : journalBytes (JsonlFile.lines? file) ≤ contextLedgerMaxBytes

theorem LedgerReads.valid {file : Option JsonlFile} {rs : List LedgerRecord}
    (h : LedgerReads env file rs) : ∀ r ∈ rs, r.Valid env :=
  readJsonl_forall (fun _ _ hr => validateContextLedgerRecord_sound env hr) h.records

/-- Who reads the whole ledger reads its records, and its last line is
complete. -/
theorem LedgerReads.readLines {file : Option JsonlFile} {rs rs' : List LedgerRecord}
    (h : LedgerReads env file rs) :
    readLedgerLines env file = .ok rs' ↔ rs' = rs ∧ file.any JsonlFile.partialLine = false := by
  cases file with
  | none =>
      have hrs : rs = [] := by
        have hrecords := h.records
        simp only [JsonlFile.lines?, readJsonl, Except.ok.injEq] at hrecords
        exact hrecords.symm
      simp [readLedgerLines, hrs, eq_comm]
  | some f =>
      have hrecords := h.records
      have hbytes := h.bytes
      simp only [JsonlFile.lines?] at hrecords hbytes
      simp only [readLedgerLines, hrecords, hbytes, bind_eq_ok, require_eq_ok, decide_true,
        Except.ok.injEq, Bool.not_eq_true', pure, Except.pure, Option.any_some]
      constructor
      · rintro ⟨_, -, _, rfl, _, hpartial, rfl⟩
        exact ⟨rfl, hpartial⟩
      · rintro ⟨rfl, hpartial⟩
        exact ⟨(), trivial, rs', rfl, (), hpartial, rfl⟩

/-- **The ledger is read back**, record for record. -/
theorem LedgerReads.readContextLedger {file : Option JsonlFile} {rs : List LedgerRecord}
    (h : LedgerReads env file rs) (hwhole : file.any JsonlFile.partialLine = false)
    (hkeys : (rs.map LedgerRecord.key).Nodup) : readContextLedger env file = .ok rs := by
  have hlines := h.readLines.mpr ⟨rfl, hwhole⟩
  have hdistinct : distinctKeys env [] rs = .ok () := distinctKeys_ok h.valid hkeys (by simp)
  simp only [Store.readContextLedger, hlines, hdistinct, bind, Except.bind, pure, Except.pure]

/-- A look without the lock finds the key when some record has it. -/
theorem LedgerReads.look {file : Option JsonlFile} {rs : List LedgerRecord} {d : Dict}
    {r : LedgerRecord} {hit : Bool} (h : LedgerReads env file rs)
    (hlook : claimLook env d file = .ok (r, hit)) :
    r.Valid env ∧ (hit = true → ∃ q ∈ rs, q.key = r.key) := by
  simp only [claimLook, bind_eq_ok] at hlook
  obtain ⟨r', hr', key, hkey, hlook⟩ := hlook
  have hvalid := validateContextLedgerRecord_sound env hr'
  rw [hvalid.contextLedgerKey] at hkey
  cases hkey
  cases file with
  | none =>
      cases hlook
      exact ⟨hvalid, by simp⟩
  | some f =>
      simp only [bind_eq_ok, pure, Except.pure, Except.ok.injEq, Prod.mk.injEq,
        Store.readContextLedger] at hlook
      obtain ⟨rs', ⟨rs'', hlines, _, -, hrs⟩, hit', hhit, rfl, rfl⟩ := hlook
      subst hrs
      obtain ⟨rfl, -⟩ := h.readLines.mp hlines
      exact ⟨hvalid, ((hasKey_eq_ok h.valid).mp hhit).mp⟩

/-- Under the lock, a call counts the records and sees whether one of them
has its key. -/
theorem LedgerReads.locked {file : Option JsonlFile} {rs : List LedgerRecord} {r : LedgerRecord}
    {n : Nat} {hit : Bool} (h : LedgerReads env file rs)
    (hlocked : claimLocked env r file = .ok (n, hit)) :
    n = rs.length ∧ file.any JsonlFile.partialLine = false ∧
      (hit = true ↔ ∃ q ∈ rs, q.key = r.key) := by
  simp only [claimLocked, bind_eq_ok, pure, Except.pure, Except.ok.injEq, Prod.mk.injEq] at hlocked
  obtain ⟨rs', hlines, hit', hhit, rfl, rfl⟩ := hlocked
  obtain ⟨rfl, hpartial⟩ := h.readLines.mp hlines
  exact ⟨rfl, hpartial, (hasKey_eq_ok h.valid).mp hhit⟩

/-- **An appended record is read back.** -/
theorem LedgerReads.append {file : Option JsonlFile} {rs : List LedgerRecord} {r : LedgerRecord}
    {f : JsonlFile} (h : LedgerReads env file rs) (hr : r.Valid env)
    (happend : appendLedger file r rs.length = .ok f) :
    LedgerReads env (some f) (rs ++ [r]) ∧ f.partialLine = file.any JsonlFile.partialLine := by
  simp only [appendLedger, bind_eq_ok, pure, Except.pure, Except.ok.injEq] at happend
  obtain ⟨lines, hlines, rfl⟩ := happend
  obtain ⟨rfl, hroom, hbytes⟩ := appendJsonl_ok hlines
  refine ⟨⟨readJsonl_snoc h.records hr.reads hroom, ?_⟩, rfl⟩
  show journalBytes (JsonlFile.lines? file ++ [.obj r.toDict]) ≤ contextLedgerMaxBytes
  rw [journalBytes_snoc]
  exact hbytes

/-- The calls and the claim log that simulates them. -/
structure Simulates (env : Env) (sys : LedgerSystem) (log : ClaimLog.System LedgerRecord) :
    Prop where
  reachable : ClaimLog.Reachable LedgerRecord.key log
  phases : ∀ i, log.phase i = (sys.calls i).toPhase
  holder : log.holder = sys.holder
  reads : LedgerReads env sys.file (log.log.map Prod.snd)
  missed : ∀ i r, sys.calls i = .missed r → r.Valid env
  holding : ∀ i r n, sys.calls i = .holding r n →
    r.Valid env ∧ n = log.log.length ∧ sys.file.any JsonlFile.partialLine = false

/-- The call has written to the file. -/
def Wrote (log : ClaimLog.System LedgerRecord) (i : Nat) : Prop :=
  (∃ e ∈ log.log, e.1 = i) ∨ i ∈ log.torn

theorem Simulates.initial : Simulates env .initial .initial where
  reachable := .initial
  phases _ := rfl
  holder := rfl
  reads := ⟨rfl, Nat.zero_le _⟩
  missed _ _ h := by cases h
  holding _ _ _ h := by cases h

/-- Only the phase of one call changes, and the calls that hold the lock
are the same or this one. -/
theorem Simulates.setCall {sys : LedgerSystem} {log log' : ClaimLog.System LedgerRecord} {i : Nat}
    {p : ClaimPhase} {holder : Option Nat} (h : Simulates env sys log)
    (hstep : ClaimLog.Step LedgerRecord.key i log log')
    (hlog : log' = { log.setPhase i p.toPhase with holder := holder })
    (hmissed : ∀ r, p = .missed r → r.Valid env)
    (hholding : ∀ r n, p = .holding r n →
      r.Valid env ∧ n = log.log.length ∧ sys.file.any JsonlFile.partialLine = false) :
    Simulates env { sys.setCall i p with holder := holder } log' := by
  subst hlog
  refine ⟨.step h.reachable hstep, ?_, rfl, h.reads, ?_, ?_⟩
  · intro j
    by_cases hji : j = i
    · simp [ClaimLog.System.setPhase, LedgerSystem.setCall, hji]
    · simp [ClaimLog.System.setPhase, LedgerSystem.setCall, hji, h.phases]
  · intro j r hj
    by_cases hji : j = i
    · exact hmissed r (by simpa [LedgerSystem.setCall, hji] using hj)
    · exact h.missed j r (by simpa [LedgerSystem.setCall, hji] using hj)
  · intro j r n hj
    by_cases hji : j = i
    · exact hholding r n (by simpa [LedgerSystem.setCall, hji] using hj)
    · exact h.holding j r n (by simpa [LedgerSystem.setCall, hji] using hj)

/-- The phase of a call in the log. -/
theorem Simulates.phase {sys : LedgerSystem} {log : ClaimLog.System LedgerRecord} {i : Nat}
    {p : ClaimPhase} (h : Simulates env sys log) (hcall : sys.calls i = p) :
    log.phase i = p.toPhase := by
  rw [h.phases, hcall]

/-- Some record of the log has a key exactly when some pair of it has. -/
theorem hit_iff {log : List (Nat × LedgerRecord)} {r : LedgerRecord} :
    ClaimLog.Hit LedgerRecord.key log r ↔ ∃ q ∈ log.map Prod.snd, q.key = r.key := by
  simp only [ClaimLog.Hit, List.mem_map, exists_exists_and_eq_and]

/-- While a call has the lock, no other call is about to write. -/
theorem Simulates.alone {sys : LedgerSystem} {log : ClaimLog.System LedgerRecord} {i j : Nat}
    {r q : LedgerRecord} {n m : Nat} (h : Simulates env sys log)
    (hi : sys.calls i = .holding r n) (hj : sys.calls j = .holding q m) : j = i := by
  have hinv := h.reachable.invariant
  have hholder := hinv.locked i r (.inl (h.phase hi))
  rw [hinv.locked j q (.inl (h.phase hj))] at hholder
  exact Option.some.inj hholder

/-- The call with the lock changes the file. -/
theorem Simulates.write {sys : LedgerSystem} {log log' : ClaimLog.System LedgerRecord} {i : Nat}
    {r : LedgerRecord} {n : Nat} {p : ClaimPhase} {file : Option JsonlFile} {holder : Option Nat}
    (h : Simulates env sys log) (hcall : sys.calls i = .holding r n)
    (hstep : ClaimLog.Step LedgerRecord.key i log log') (hphase : log'.phase = (log.setPhase i p.toPhase).phase)
    (hholder : log'.holder = holder)
    (hreads : LedgerReads env file (log'.log.map Prod.snd))
    (hp : ∀ r n, p ≠ .missed r ∧ p ≠ .holding r n) :
    Simulates env { sys.setCall i p with file := file, holder := holder } log' := by
  refine ⟨.step h.reachable hstep, ?_, hholder, hreads, ?_, ?_⟩
  · intro j
    rw [hphase]
    by_cases hji : j = i
    · simp [ClaimLog.System.setPhase, LedgerSystem.setCall, hji]
    · simp [ClaimLog.System.setPhase, LedgerSystem.setCall, hji, h.phases]
  · intro j q hj
    by_cases hji : j = i
    · exact absurd (by simpa [LedgerSystem.setCall, hji] using hj) (hp q n).1
    · exact h.missed j q (by simpa [LedgerSystem.setCall, hji] using hj)
  · intro j q m hj
    by_cases hji : j = i
    · exact absurd (by simpa [LedgerSystem.setCall, hji] using hj) (hp q m).2
    · have hj : sys.calls j = .holding q m := by simpa [LedgerSystem.setCall, hji] using hj
      exact absurd (h.alone hcall hj) hji

/-- **Every step of a call is a step of the claim log**, and a step that
changes the file makes the call an author. -/
theorem Simulates.step {sys sys' : LedgerSystem} {log : ClaimLog.System LedgerRecord} {i : Nat}
    (h : Simulates env sys log) (hstep : LedgerStep env i sys sys') :
    ∃ log', Simulates env sys' log' ∧ ClaimLog.Step LedgerRecord.key i log log' ∧
      (sys'.file ≠ sys.file → Wrote log' i) := by
  cases hstep with
  | look hcall hlook =>
      rename_i d r hit
      obtain ⟨hvalid, hhit⟩ := h.reads.look hlook
      cases hit with
      | true =>
          have hstep : ClaimLog.Step LedgerRecord.key i log
              (log.setPhase i (.returned r false)) :=
            .lookHit (h.phase hcall) (hit_iff.mpr (hhit rfl))
          exact ⟨_, h.setCall hstep (by rw [← h.holder]; rfl) (by simp) (by simp), hstep,
            fun hne => absurd rfl hne⟩
      | false =>
          have hstep : ClaimLog.Step LedgerRecord.key i log (log.setPhase i (.missed r)) :=
            .lookMiss (h.phase hcall)
          refine ⟨_, h.setCall (p := .missed r) hstep (by rw [← h.holder]; rfl) ?_ (by simp), hstep,
            fun hne => absurd rfl hne⟩
          rintro q hq
          cases hq
          exact hvalid
  | lockHit hcall hfree hlocked =>
      rename_i r n
      obtain ⟨-, -, hhit⟩ := h.reads.locked hlocked
      have hstep : ClaimLog.Step LedgerRecord.key i log (log.setPhase i (.returned r false)) :=
        .lockHit (h.phase hcall) (by rw [h.holder, hfree]) (hit_iff.mpr (hhit.mp rfl))
      exact ⟨_, h.setCall (p := .returned r false) hstep (by rw [← h.holder]; rfl) (by simp)
        (by simp), hstep, fun hne => absurd rfl hne⟩
  | lockMiss hcall hfree hlocked =>
      rename_i r n
      obtain ⟨hn, hpartial, hhit⟩ := h.reads.locked hlocked
      have hmiss : ¬ ClaimLog.Hit LedgerRecord.key log.log r := by
        intro hlog
        have := hhit.mpr (hit_iff.mp hlog)
        cases this
      have hstep : ClaimLog.Step LedgerRecord.key i log
          { log.setPhase i (.holding r) with holder := some i } :=
        .acquire (h.phase hcall) (by rw [h.holder, hfree]) hmiss
      refine ⟨_, h.setCall (p := .holding r n) hstep rfl (by simp) ?_, hstep,
        fun hne => absurd rfl hne⟩
      intro q m hq
      cases hq
      exact ⟨h.missed i r hcall, by simpa using hn, hpartial⟩
  | append hcall happend =>
      rename_i r n f
      obtain ⟨hvalid, rfl, -⟩ := h.holding i r n hcall
      have hstep : ClaimLog.Step LedgerRecord.key i log
          { log.setPhase i (.written r) with log := log.log ++ [(i, r)] } :=
        .append (h.phase hcall)
      obtain ⟨hreads, -⟩ := h.reads.append hvalid (by simpa using happend)
      refine ⟨_, h.write hcall hstep rfl h.holder ?_ (by simp), hstep, ?_⟩
      · simpa using hreads
      · intro _
        exact .inl ⟨(i, r), List.mem_append_right _ (List.mem_singleton_self _), rfl⟩
  | finish hcall =>
      rename_i r
      have hstep : ClaimLog.Step LedgerRecord.key i log (log.stop i (.returned r true)) :=
        .finish (h.phase hcall)
      exact ⟨_, h.setCall (p := .returned r true) hstep (by rw [← h.holder]; rfl) (by simp)
        (by simp), hstep, fun hne => absurd rfl hne⟩
  | tear hcall happend =>
      rename_i r n f part
      have hstep : ClaimLog.Step LedgerRecord.key i log
          { log.stop i .failed with torn := i :: log.torn } := .tear (h.phase hcall)
      have hreads : LedgerReads env (some ⟨JsonlFile.lines? sys.file, part⟩)
          (log.log.map Prod.snd) := ⟨h.reads.records, h.reads.bytes⟩
      refine ⟨_, h.write (p := .failed) hcall hstep rfl ?_ hreads (by simp), hstep, ?_⟩
      · show (if log.holder = some i then none else log.holder) =
          (if sys.holder = some i then none else sys.holder)
        rw [h.holder]
      · intro _
        exact .inr (List.mem_cons_self ..)
  | fail hcall =>
      have hstep : ClaimLog.Step LedgerRecord.key i log (log.stop i .failed) := by
        refine .crash fun r b hphase => ?_
        rw [h.phases] at hphase
        cases hp : sys.calls i with
        | returned q e => exact hcall q e hp
        | _ => simp [hp, ClaimPhase.toPhase] at hphase
      exact ⟨_, h.setCall (p := .failed) hstep (by rw [← h.holder]; rfl) (by simp) (by simp), hstep,
        fun hne => absurd rfl hne⟩

/-- **Every run of the calls is a run of the claim log**, whose authors are
the calls that changed the file. -/
theorem LedgerRun.simulates {trace : List LedgerWrite} {sys : LedgerSystem}
    (h : LedgerRun env trace sys) :
    ∃ log, Simulates env sys log ∧ ∀ w ∈ trace, w.after ≠ w.before → Wrote log w.call := by
  induction h with
  | initial => exact ⟨_, .initial, by simp⟩
  | step h hstep ih =>
      obtain ⟨log, hsim, hwrote⟩ := ih
      obtain ⟨log', hsim', habs, hnew⟩ := hsim.step hstep
      refine ⟨log', hsim', fun w hw hne => ?_⟩
      rcases List.mem_append.mp hw with hw | hw
      · rcases hwrote w hw hne with ⟨e, he, hcall⟩ | htorn
        · exact .inl ⟨e, habs.keeps.1 he, hcall⟩
        · exact .inr (habs.keeps.2 htorn)
      · rw [List.mem_singleton] at hw
        subst hw
        exact hnew hne

/-- **Context emissions are claimed exactly once.** In every run of any
number of calls: at most one call for a key returns `emitted`, a call that
returns without it has changed nothing, and the records of the ledger have
distinct keys. -/
theorem context_emissions_claimed_once {trace : List LedgerWrite} {sys : LedgerSystem}
    (h : LedgerRun env trace sys) :
    (∀ i j r q, sys.calls i = .returned r true → sys.calls j = .returned q true →
      r.key = q.key → i = j) ∧
    (∀ i r, sys.calls i = .returned r false → ∀ w ∈ trace, w.call = i → w.after = w.before) ∧
    ∃ rs, readJsonl (validateContextLedgerRecord env) "context-emissions.jsonl"
      contextLedgerMaxRecords 0 (JsonlFile.lines? sys.file) = .ok rs ∧
      (rs.map LedgerRecord.key).Nodup := by
  obtain ⟨log, hsim, hwrote⟩ := h.simulates
  refine ⟨?_, ?_, log.log.map Prod.snd, hsim.reads.records, ?_⟩
  · intro i j r q hi hj hkey
    exact hsim.reachable.claimed_once (hsim.phase hi) (hsim.phase hj) hkey
  · intro i r hi w hw hcall
    obtain ⟨hauthor, htorn⟩ := hsim.reachable.refused_silent (hsim.phase hi)
    by_contra hne
    rcases hwrote w hw hne with ⟨e, he, hauthored⟩ | htorn'
    · exact hauthor e he (by rw [hauthored, hcall])
    · rw [hcall] at htorn'
      exact htorn htorn'
  · have hdistinct := hsim.reachable.invariant.distinct
    rw [List.map_map]
    exact hdistinct

end Simulation

/-! Two calls for the same capsule, one after the other. -/

def capsuleRecord : LedgerRecord where
  projectId := txt "ralph"
  workspaceInstanceId := txt "w1"
  sessionId := txt "s1"
  contextEpoch := txt "startup"
  planId := txt "p"
  progressGeneration := 3
  capsuleKind := .full
  emissionId := txt "m1"

theorem capsuleRecord_valid : capsuleRecord.Valid (.host ⟨[], rfl⟩) where
  project := .inr (by decide +kernel)
  workspace := .inr (by decide +kernel)
  session := .inr (by decide +kernel)
  epoch := .inr (by decide +kernel)
  plan := ⟨by decide, by decide, by decide, by decide +kernel⟩
  emission := .inr (by decide +kernel)
  notRed := by decide +kernel
  bounded := by decide +kernel

theorem capsuleRecord_append :
    appendLedger none capsuleRecord 0 = .ok ⟨[.obj capsuleRecord.toDict], false⟩ := by
  have hsize := capsuleRecord_valid.bounded
  have htotal : journalBytes [] + (Json.encodedSize (.obj capsuleRecord.toDict) + 1) ≤
      contextLedgerMaxBytes := Nat.le_trans (by simpa [journalBytes] using hsize) (by decide)
  simp [appendLedger, appendJsonl, JsonlFile.lines?, hsize, htotal, contextLedgerMaxRecords,
    bind, Except.bind, pure, Except.pure]

/-- The first call finds no ledger, writes its record and emits its capsule;
the second one finds the record. -/
theorem capsuleRecord_run : ∃ trace sys, LedgerRun (.host ⟨[], rfl⟩) trace sys ∧
    sys.calls 0 = .returned capsuleRecord true ∧ sys.calls 1 = .returned capsuleRecord false := by
  have hr := capsuleRecord_valid
  have hempty : LedgerReads (.host ⟨[], rfl⟩) none [] := ⟨rfl, Nat.zero_le _⟩
  have happend := capsuleRecord_append
  obtain ⟨hreads, -⟩ := hempty.append hr happend
  have hmiss : claimLook (.host ⟨[], rfl⟩) capsuleRecord.toDict none =
      .ok (capsuleRecord, false) := by
    simp [claimLook, hr.reads, hr.contextLedgerKey, bind, Except.bind, pure, Except.pure]
  have hhit : claimLook (.host ⟨[], rfl⟩) capsuleRecord.toDict
      (some ⟨[.obj capsuleRecord.toDict], false⟩) = .ok (capsuleRecord, true) := by
    have hread := hreads.readContextLedger rfl (by simp)
    simp [claimLook, hr.reads, hr.contextLedgerKey, hread, hasKey, bind, Except.bind, pure,
      Except.pure]
  have hlook := LedgerRun.initial.step (LedgerStep.look (i := 0) rfl hmiss)
  have hlock := hlook.step (.lockMiss (i := 0) (r := capsuleRecord) (n := 0) rfl rfl rfl)
  have hwritten := hlock.step (.append (i := 0) (r := capsuleRecord) rfl happend)
  have hfinished := hwritten.step (.finish (i := 0) (r := capsuleRecord) rfl)
  exact ⟨_, _, hfinished.step (.look (i := 1) rfl hhit), rfl, rfl⟩

theorem context_emissions_claimed_twice : ∃ trace sys, LedgerRun (.host ⟨[], rfl⟩) trace sys ∧
    sys.calls 0 = .returned capsuleRecord true ∧ sys.calls 1 = .returned capsuleRecord false ∧
    ∀ w ∈ trace, w.call = 1 → w.after = w.before := by
  obtain ⟨trace, sys, hrun, hemitted, hrefused⟩ := capsuleRecord_run
  exact ⟨trace, sys, hrun, hemitted, hrefused,
    (context_emissions_claimed_once hrun).2.1 1 capsuleRecord hrefused⟩

end RalphVault.Store
