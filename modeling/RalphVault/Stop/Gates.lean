import Mathlib
import RalphVault.Memory.Value
import RalphVault.Stop.Budget

/-!
# Stop — gate findings

`objective_gates.py`: the findings of a Stop, from the hard gates, the
payload and the state records, one kept for each code, and what
`stop_dispatch.py` makes of them: the evidence, the critical flag and the
continuation of the budget. The hard gates themselves, and whether a record
matches the scope and is fresh, are values here.
-/

namespace RalphVault.Stop.Gates

open Memory

structure GateFinding where
  code : Text
  reason : Text
  priority : Int
  critical : Bool
  source : Text
  fingerprint : Text
deriving DecidableEq

/-! ## Reading payloads and records -/

section Collect

variable (host : Host)

/-- The order of `sorted` on texts. -/
def TextLe (s t : Text) : Prop := textLt t s = false

instance : DecidableRel TextLe := fun s t => inferInstanceAs (Decidable (textLt t s = false))

/-- `evidence_fingerprint`: the start of a digest. -/
def evidenceFingerprint (parts : List Text) : Text :=
  (host.sha256 (joinWith ['|']
    ((parts.filter fun part => !part.isEmpty).insertionSort TextLe))).take 32

/-- `_finding`. -/
def finding (code reason : Text) (priority : Int) (critical : Bool) (source : Text)
    (parts : List Text) : GateFinding :=
  ⟨code, reason, priority, critical, source, evidenceFingerprint host (code :: parts)⟩

/-- `_text`. -/
def textOf : Option Value → Text
  | some (.str t) => rstrip (lstrip t)
  | _ => []

/-- `_bool`: the first of the keys that has a truth value. -/
def boolOf (payload : Fields) (keys : List Text) : Option Bool :=
  keys.findSome? fun key => match payload.get? key with
    | some (.bool b) => some b
    | _ => none

/-- `_nonempty`. -/
def nonempty : Option Value → Bool
  | some (.arr vs) => !vs.isEmpty
  | some (.obj fs) => !fs.isEmpty
  | v => !(textOf v).isEmpty

/-- `_state_value`. -/
def stateValue (state : Fields) (keys : List Text) : Option Value :=
  (keys.findSome? fun key => state.get? key).or
    (match state.get? (txt "conditions") with
      | some (.obj conditions) => keys.findSome? fun key => Fields.get? conditions key
      | _ => none)

/-- `str(value or "").lower()`. -/
def lowerOr (v : Option Value) : Text := host.lower (pyStrOr host (v.getD .null))

/-- The checks of `_failed_signal`. -/
def failedChecks : List (Text × List Text) :=
  [(txt "quality_failed", [txt "quality_passed", txt "qualityPassed"]),
   (txt "correctness_failed", [txt "correctness_passed", txt "correctnessPassed"]),
   (txt "tests_failed", [txt "tests_passed", txt "testsPassed"]),
   (txt "validation_failed", [txt "validation_status", txt "validationStatus"]),
   (txt "build_failed", [txt "build_passed", txt "buildPassed"]),
   (txt "lint_failed", [txt "lint_passed", txt "lintPassed"]),
   (txt "typecheck_failed", [txt "typecheck_passed", txt "typecheckPassed"]),
   (txt "implementation_incomplete",
     [txt "implementation_complete", txt "implementationComplete"]),
   (txt "tests_not_executed", [txt "tests_executed", txt "testsExecuted"])]

/-- `_failed_signal`: the code and the label. -/
def failedSignal (state : Fields) : Option (Text × Text) :=
  (failedChecks.findSome? fun check =>
    match stateValue state check.2 with
    | some (.bool false) =>
        some (check.1, check.1.map fun c => if c = '_' then ' ' else c)
    | v =>
        if check.1 = txt "validation_failed" &&
            [txt "fail", txt "failed", txt "error"].contains
              (host.lower (pyStr host (v.getD .null))) then
          some (check.1, txt "validation failed")
        else none).or
    (if [txt "failed", txt "failure", txt "error"].contains
        (lowerOr host (stateValue state [txt "status", txt "result", txt "last_result"])) then
      some (txt "objective_failed", txt "objective evidence reports a failure")
    else none)

/-- A value that says that something is pending. -/
def saysPending : Option Value → Bool
  | some (.bool b) => b
  | some (.int n) => 0 < n
  | some (.float q) => 0 < q
  | _ => false

/-- `_pending_signal`. -/
def pendingSignal (state : Fields) : Bool :=
  [txt "pending", txt "in_progress", txt "in-progress", txt "active"].contains
      (lowerOr host (stateValue state [txt "status", txt "state"])) ||
    [txt "pending_tasks", txt "pendingTasks", txt "pending", txt "in_progress",
      txt "inProgress"].any (fun key => saysPending (stateValue state [key])) ||
    (match stateValue state [txt "steps"] with
      | some (.arr items) => items.any fun item => match item with
          | .obj step => [txt "pending", txt "in_progress"].contains
              (host.lower (pyStr host ((Fields.get? step (txt "status")).getD (.str []))))
          | _ => false
      | _ => false)

/-- `_state_verified`. -/
def stateVerified (state : Fields) : Bool :=
  match stateValue state [txt "verified_done", txt "verifiedDone"] with
  | some (.bool b) => b
  | _ => false

/-- A record of the state: its members, the name of its file, if it is not
from the payload, why it does not match the scope, and whether it is fresh. -/
structure StateEntry where
  state : Fields
  file : Option Text
  foreign : Option Text
  fresh : Bool

/-- `isinstance(value, int)`; a truth value is one. -/
def intOf : Option Value → Option Int
  | some (.int n) => some n
  | some (.bool b) => some (if b then 1 else 0)
  | _ => none

/-- `_loop_active`. -/
def loopActive (e : StateEntry) : Bool :=
  let kind := lowerOr host (stateValue e.state [txt "kind", txt "state_type", txt "stateType"])
  let isLoop := contains (txt "loop") kind ||
    (match stateValue e.state [txt "loop_active", txt "loopActive"] with
      | some (.bool b) => b
      | _ => false) ||
    (e.file.map fun name => contains (txt "loop") (host.lower name)).getD false
  isLoop && !stateVerified e.state &&
    match intOf (stateValue e.state [txt "iteration"]),
        intOf (stateValue e.state [txt "max_iterations", txt "maxIterations"]) with
    | some iteration, some maximum => 0 ≤ iteration && iteration < maximum
    | _, _ => false

/-- `str(state.get(key, ""))`. -/
def strAt (state : Fields) (key : Text) : Text := pyStr host (state.getD key (.str []))

/-- The finding of one record of `collect_state_findings`. -/
def stateFinding (taskSignature : Text) (e : StateEntry) : Option GateFinding :=
  if e.foreign.isSome || !e.fresh then none
  else match failedSignal host e.state with
    | some (code, label) => some (finding host code
        (txt "Objective gate failed: " ++ label ++ txt ". Resolve it and rerun the gate.") 10
        (truthy (e.state.getD (txt "critical") .null)) (txt "state")
        [strAt host e.state (txt "evidence_fingerprint")])
    | none =>
        if loopActive host e then
          some (finding host (txt "loop_active")
            (txt "Objective loop is still active without verified completion; finish the current iteration or verify done.")
            55 false (txt "state")
            [strAt host e.state (txt "iteration"), strAt host e.state (txt "max_iterations")])
        else if stateVerified e.state then none
        else match stateValue e.state [txt "verified_done", txt "verifiedDone"] with
          | some (.bool false) => some (finding host (txt "verified_done_false")
              (txt "The current task is explicitly not verified done; complete its objective gate.")
              50 false (txt "state")
              [taskSignature, strAt host e.state (txt "evidence_fingerprint")])
          | _ =>
              if pendingSignal host e.state then
                some (finding host (txt "objective_pending")
                  (txt "Objective state is still pending; complete the current task before stopping.")
                  60 false (txt "state") [strAt host e.state (txt "status")])
              else none

/-- `collect_payload_findings`. -/
def collectPayloadFindings (taskSignature : Text) (taskIdentityPresent : Bool)
    (payload : Fields) : List GateFinding :=
  let evidence := textOf (payload.get? (txt "evidence_fingerprint"))
  let critical := truthy (payload.getD (txt "critical") .null)
  let found (condition : Bool) (f : GateFinding) : List GateFinding :=
    if condition then [f] else []
  let isSet (keys : List Text) : Bool := boolOf payload keys == some true
  let listed (key code reason : Text) : List GateFinding :=
    let isTask := code == txt "objective_pending"
    found (nonempty (payload.get? key)) (finding host code reason (if isTask then 40 else 15)
      (code == txt "required_file_missing") (txt "payload")
      [(pyStr host (payload.getD key .null)).take 120])
  found (isSet [txt "file_line_failed", txt "fileLineFailed", txt "file_line_violation",
      txt "fileLineViolation"])
    (finding host (txt "file_line_violation")
      (txt "File-line hard gate failed; split the oversized file before stopping.") 5 true
      (txt "payload") []) ++
  found (isSet [txt "safety_failure", txt "safetyFailed", txt "integrity_failure",
      txt "production_integrity_failed"])
    (finding host (txt "safety_failure")
      (txt "Safety or production integrity gate failed. Resolve it before stopping.") 0 true
      (txt "payload") [evidence]) ++
  found (isSet [txt "tests_failed", txt "testsFailed", txt "test_failed", txt "testFailed"])
    (finding host (txt "tests_failed")
      (txt "Objective tests failed. Fix the failing test and rerun it.") 20 critical
      (txt "payload") [evidence, textOf (payload.get? (txt "test_command"))]) ++
  found (isSet [txt "lint_failed", txt "lintFailed", txt "typecheck_failed", txt "typecheckFailed",
      txt "build_failed", txt "buildFailed"])
    (finding host (txt "validation_failed")
      (txt "Required validation failed. Rerun the failing gate after fixing it.") 25 critical
      (txt "payload") [evidence]) ++
  listed (txt "required_files_missing") (txt "required_file_missing")
    (txt "A required file is missing; restore it before stopping.") ++
  listed (txt "missing_required_files") (txt "required_file_missing")
    (txt "A required file is missing; restore it before stopping.") ++
  listed (txt "pending_tasks") (txt "objective_pending")
    (txt "Objective tasks remain pending; complete them before stopping.") ++
  found (boolOf payload [txt "verified_done", txt "verifiedDone"] == some false &&
      taskIdentityPresent)
    (finding host (txt "verified_done_false")
      (txt "The current task is explicitly not verified done; complete its objective gate.") 50
      false (txt "payload") [taskSignature])

/-- What a Stop is called with. -/
structure Occasion where
  taskSignature : Text
  taskIdentityPresent : Bool
  payload : Fields
  entries : List StateEntry
  fileLineViolation : Bool
  implementationNotesMissing : Bool

/-- All findings of `collect_hard_findings`, in their order. -/
def gathered (s : Occasion) : List GateFinding :=
  (if s.fileLineViolation then [finding host (txt "file_line_violation")
      (txt "File-line hard gate failed; split the oversized file before stopping.") 5 true
      (txt "payload") []] else []) ++
  (if s.implementationNotesMissing then [finding host (txt "implementation_notes_missing")
      (txt "Required implementation notes are missing or invalid; complete them before stopping.")
      8 true (txt "payload") []] else []) ++
  collectPayloadFindings host s.taskSignature s.taskIdentityPresent s.payload ++
  s.entries.filterMap (stateFinding host s.taskSignature)

end Collect

/-! ## Merging -/

/-- `unique.setdefault(finding.code, finding)`. -/
def setDefault (unique : List GateFinding) (f : GateFinding) : List GateFinding :=
  if unique.any fun g => g.code == f.code then unique else unique ++ [f]

/-- The findings that are left, one for each code. -/
def merge (findings : List GateFinding) : List GateFinding := findings.foldl setDefault []

/-- `any(finding.critical for finding in findings)`, of the merged findings. -/
def verdict (findings : List GateFinding) : Bool := (merge findings).any GateFinding.critical

/-- `collect_hard_findings`. -/
def collectHardFindings (host : Host) (s : Occasion) : List GateFinding := merge (gathered host s)

section Dispatch

variable (host : Host)

/-- `_evidence_fingerprint`; `explicit` is the one of the payload. -/
def stopEvidence (explicit : Text) (findings : List GateFinding) : Text :=
  evidenceFingerprint host ((findings.map fun f =>
    if f.fingerprint.isEmpty then f.code else f.fingerprint) ++
      if explicit.isEmpty then [] else [explicit.take 160])

/-- The findings `main` goes on with: the merged ones, or that of a progress
completion, which is tried only when there are none. -/
def dispatched (progress : Option GateFinding) (findings : List GateFinding) :
    List GateFinding :=
  if (merge findings).isEmpty then progress.toList else merge findings

/-- What is asked of the budget. -/
def request (scope : Scope) (explicit : Text) (progress : Option GateFinding)
    (findings : List GateFinding) : Request where
  scope := scope
  evidenceFingerprint := stopEvidence host explicit (dispatched progress findings)
  critical := (dispatched progress findings).any GateFinding.critical

/-- The Stop is answered with a block; `current` is the entry of its scope. -/
def blocks (scope : Scope) (explicit : Text) (progress : Option GateFinding)
    (current : Option Entry) (findings : List GateFinding) : Bool :=
  !(dispatched progress findings).isEmpty &&
    allows current (request host scope explicit progress findings)

end Dispatch

/-! ## What merging keeps -/

/-- The finding that stands for its code: the first that has it. -/
def Leads (findings : List GateFinding) (f : GateFinding) : Prop :=
  findings.find? (fun g => g.code == f.code) = some f

theorem merge_append (findings : List GateFinding) (f : GateFinding) :
    merge (findings ++ [f]) = setDefault (merge findings) f := by
  rw [merge, List.foldl_append]
  rfl

theorem any_code_merge (findings : List GateFinding) (c : Text) :
    (merge findings).any (fun g => g.code == c) = findings.any fun g => g.code == c := by
  induction findings using List.reverseRecOn with
  | nil => rfl
  | append_singleton findings f ih =>
      rw [merge_append, setDefault, List.any_append, ← ih]
      by_cases hmem : (merge findings).any (fun g => g.code == f.code) = true
      · rw [if_pos hmem]
        by_cases hc : f.code = c
        · subst hc
          rw [hmem]
          rfl
        · simp [hc]
      · rw [if_neg hmem, List.any_append]

/-- Merging keeps the findings that stand for their codes. -/
theorem mem_merge {findings : List GateFinding} {f : GateFinding} :
    f ∈ merge findings ↔ Leads findings f := by
  induction findings using List.reverseRecOn with
  | nil => simp [merge, Leads]
  | append_singleton findings last ih =>
      have hknown : (merge findings).any (fun g => g.code == last.code) =
          findings.any fun g => g.code == last.code := any_code_merge findings last.code
      rw [merge_append, setDefault, Leads, List.find?_append, hknown]
      cases hfind : findings.find? (fun g => g.code == f.code) with
      | some g =>
          -- the code is there before the last finding
          have hcode : (g.code == f.code) = true := by simpa using List.find?_some hfind
          split
          · rw [ih, Leads, hfind]
            rfl
          · next hnew =>
            rw [List.mem_append, ih, Leads, hfind, List.mem_singleton]
            constructor
            · rintro (h | rfl)
              · exact h
              · refine absurd ?_ hnew
                exact List.any_eq_true.mpr ⟨g, List.mem_of_find?_eq_some hfind, hcode⟩
            · exact .inl
      | none =>
          have hnone := List.find?_eq_none.mp hfind
          rw [Option.none_or]
          split
          · next hold =>
            rw [ih, Leads, hfind]
            constructor
            · intro h
              cases h
            · intro h
              obtain ⟨g, hg, hcode⟩ := List.any_eq_true.mp hold
              have hlast : f = last := List.mem_singleton.mp (List.mem_of_find?_eq_some h)
              exact absurd (hlast ▸ hcode) (hnone g hg)
          · rw [List.mem_append, ih, Leads, hfind, List.mem_singleton]
            constructor
            · rintro (h | rfl)
              · cases h
              · simp
            · intro h
              exact .inr (List.mem_singleton.mp (List.mem_of_find?_eq_some h))

theorem nodup_merge (findings : List GateFinding) :
    ((merge findings).map GateFinding.code).Nodup := by
  induction findings using List.reverseRecOn with
  | nil => exact List.nodup_nil
  | append_singleton findings last ih =>
      rw [merge_append, setDefault]
      split
      · exact ih
      · next hnew =>
        rw [List.map_append, List.nodup_append]
        refine ⟨ih, List.nodup_singleton _, ?_⟩
        intro c hc d hd heq
        obtain ⟨g, hg, rfl⟩ := List.mem_map.mp hc
        obtain rfl := List.mem_singleton.mp hd
        exact hnew (List.any_eq_true.mpr ⟨g, hg, by simpa using heq⟩)

/-- Every finding has one that stands for its code. -/
theorem exists_leads {findings : List GateFinding} {g : GateFinding} (hg : g ∈ findings) :
    ∃ f, Leads findings f ∧ f.code = g.code := by
  have hsome : (findings.find? fun f => f.code == g.code).isSome = true := by
    rw [List.find?_isSome]
    exact ⟨g, hg, beq_self_eq_true _⟩
  obtain ⟨f, hf⟩ := Option.isSome_iff_exists.mp hsome
  have hcode : f.code = g.code := by simpa using List.find?_some hf
  exact ⟨f, by rw [Leads, hcode]; exact hf, hcode⟩

theorem Leads.mem {findings : List GateFinding} {f : GateFinding} (h : Leads findings f) :
    f ∈ findings := List.mem_of_find?_eq_some h

/-- The first finding of each code is critical if any of the code is, and no
finding of the code is more urgent. -/
def FirstLeads (findings : List GateFinding) : Prop :=
  ∀ f g, Leads findings f → g ∈ findings → g.code = f.code →
    (g.critical = true → f.critical = true) ∧ f.priority ≤ g.priority

/-- Each merged finding has the disjunction of the flags and the most urgent
priority of its code. -/
def KeepsMost (findings : List GateFinding) : Prop :=
  ∀ f ∈ merge findings,
    (f.critical = true ↔ ∃ g ∈ findings, g.code = f.code ∧ g.critical = true) ∧
    ∀ g ∈ findings, g.code = f.code → f.priority ≤ g.priority

theorem keepsMost_iff {findings : List GateFinding} :
    KeepsMost findings ↔ FirstLeads findings := by
  constructor
  · intro h f g hf hg hcode
    obtain ⟨hflag, hpriority⟩ := h f (mem_merge.mpr hf)
    exact ⟨fun hcritical => hflag.mpr ⟨g, hg, hcode, hcritical⟩, hpriority g hg hcode⟩
  · intro h f hf
    have hleads := mem_merge.mp hf
    refine ⟨⟨?_, ?_⟩, ?_⟩
    · intro hcritical
      exact ⟨f, hleads.mem, rfl, hcritical⟩
    · rintro ⟨g, hg, hcode, hcritical⟩
      exact (h f g hleads hg hcode).1 hcritical
    · intro g hg hcode
      exact (h f g hleads hg hcode).2

/-! ## One more finding -/

/-- The finding that is added is critical, comes behind one of its code, or
stands before none of its code that is critical. -/
def Joins (before : List GateFinding) (f : GateFinding) (after : List GateFinding) : Prop :=
  f.critical = true ∨ (∃ g ∈ before, g.code = f.code) ∨
    ∀ g ∈ after, g.code = f.code → g.critical = false

theorem verdict_eq_true {findings : List GateFinding} :
    verdict findings = true ↔ ∃ f, Leads findings f ∧ f.critical = true := by
  rw [verdict, List.any_eq_true]
  constructor
  · rintro ⟨f, hf, hcritical⟩
    exact ⟨f, mem_merge.mp hf, hcritical⟩
  · rintro ⟨f, hf, hcritical⟩
    exact ⟨f, mem_merge.mpr hf, hcritical⟩

/-- A finding of another code stands for its code as before. -/
theorem leads_insert {before after : List GateFinding} {f g : GateFinding}
    (hcode : f.code ≠ g.code) : Leads (before ++ f :: after) g ↔ Leads (before ++ after) g := by
  have hskip : (f.code == g.code) = false := by simpa using hcode
  rw [Leads, Leads, List.find?_append, List.find?_append, List.find?_cons, hskip]

theorem verdict_insert {before after : List GateFinding} {f : GateFinding}
    (hjoins : Joins before f after) (h : verdict (before ++ after) = true) :
    verdict (before ++ f :: after) = true := by
  obtain ⟨g, hleads, hcritical⟩ := verdict_eq_true.mp h
  apply verdict_eq_true.mpr
  by_cases hcode : f.code = g.code
  · cases hfind : before.find? (fun h => h.code == g.code) with
    | some first =>
        -- the code is led from before the place of the new finding
        refine ⟨g, ?_, hcritical⟩
        rw [Leads, List.find?_append, hfind] at hleads ⊢
        exact hleads
    | none =>
        have hnone := List.find?_eq_none.mp hfind
        refine ⟨f, ?_, ?_⟩
        · rw [Leads, hcode, List.find?_append, hfind, Option.none_or, List.find?_cons, hcode]
          simp
        · obtain hf | ⟨first, hfirst, hsame⟩ | hquiet := hjoins
          · exact hf
          · exact absurd (by simp [hsame, hcode]) (hnone first hfirst)
          · rw [Leads, List.find?_append, hfind, Option.none_or] at hleads
            rw [hquiet g (List.mem_of_find?_eq_some hleads) hcode.symm] at hcritical
            cases hcritical
  · exact ⟨g, (leads_insert hcode).mpr hleads, hcritical⟩

section Blocking

variable (host : Host) (scope : Scope) (explicit : Text)

theorem merge_ne_nil {findings : List GateFinding} (h : findings ≠ []) : merge findings ≠ [] := by
  obtain ⟨g, hg⟩ := List.exists_mem_of_ne_nil findings h
  obtain ⟨f, hf, -⟩ := exists_leads hg
  exact List.ne_nil_of_mem (mem_merge.mpr hf)

theorem dispatched_of_ne_nil (progress : Option GateFinding) {findings : List GateFinding}
    (h : findings ≠ []) : dispatched progress findings = merge findings := by
  rw [dispatched, if_neg]
  simpa using merge_ne_nil h

theorem evidenceFingerprint_ne_nil (hdigest : ∀ t, host.sha256 t ≠ []) (parts : List Text) :
    evidenceFingerprint host parts ≠ [] := by
  unfold evidenceFingerprint
  intro h
  obtain h | h := List.take_eq_nil_iff.mp h
  · exact absurd h (by decide)
  · exact hdigest _ h

/-- A Stop that was answered with a block is answered with a block when there
is one more finding: it is critical if it was, and the evidence is new. -/
theorem blocks_insert (hdigest : ∀ t, host.sha256 t ≠ []) {before after : List GateFinding}
    {f : GateFinding} {progress : Option GateFinding} {current : Option Entry}
    (hjoins : Joins before f after)
    (hprogress : before ++ after = [] →
      ∀ g, progress = some g → g.critical = true → f.critical = true)
    (hnew : ∀ e, current = some e →
      e.evidenceFingerprint ≠ stopEvidence host explicit (merge (before ++ f :: after)))
    (h : blocks host scope explicit progress current (before ++ after) = true) :
    blocks host scope explicit progress current (before ++ f :: after) = true := by
  have hsome : before ++ f :: after ≠ [] := by simp
  have hmerged := dispatched_of_ne_nil progress hsome
  have hcritical (hbefore : (dispatched progress (before ++ after)).any GateFinding.critical =
      true) : verdict (before ++ f :: after) = true := by
    by_cases hnil : before ++ after = []
    · have hlist : dispatched progress (before ++ after) = progress.toList := by
        rw [hnil]
        rfl
      rw [hlist] at hbefore
      obtain ⟨g, hg, hcritical⟩ := List.any_eq_true.mp hbefore
      have hf := hprogress hnil g (Option.mem_toList.mp hg) hcritical
      obtain ⟨rfl, rfl⟩ := List.append_eq_nil_iff.mp hnil
      exact verdict_eq_true.mpr ⟨f, by simp [Leads], hf⟩
    · rw [dispatched_of_ne_nil progress hnil] at hbefore
      exact verdict_insert hjoins hbefore
  rw [blocks, Bool.and_eq_true] at h ⊢
  refine ⟨by simpa [hmerged] using merge_ne_nil hsome, ?_⟩
  have hallowed := h.2
  cases current with
  | none => rfl
  | some e =>
      simp only [allows, request, hmerged, Bool.or_eq_true, Bool.and_eq_true, beq_iff_eq,
        bne_iff_ne, Bool.not_eq_true', List.isEmpty_eq_false_iff] at hallowed ⊢
      obtain hcount | ⟨⟨⟨hcount, hflag⟩, -⟩, -⟩ := hallowed
      · exact .inl hcount
      · exact .inr ⟨⟨⟨hcount, hcritical hflag⟩, evidenceFingerprint_ne_nil host hdigest _⟩,
          (hnew e rfl).symm⟩

end Blocking

/-- Merging leaves one finding for each code; it keeps the disjunction of the
flags and the most urgent priority of each code if and only if the first
finding of each code has them. One more finding that joins the others keeps
the verdict critical, and it keeps a block unless the budget has counted the
evidence that is then there. -/
theorem merged_findings (host : Host) (hdigest : ∀ t, host.sha256 t ≠ [])
    (findings : List GateFinding) :
    ((merge findings).map GateFinding.code).Nodup ∧
    (∀ g ∈ findings, ∃ f ∈ merge findings, f.code = g.code) ∧
    (KeepsMost findings ↔ FirstLeads findings) ∧
    ∀ before f after, findings = before ++ f :: after → Joins before f after →
      (verdict (before ++ after) = true → verdict findings = true) ∧
      ∀ scope explicit progress current,
        (before ++ after = [] → ∀ g, progress = some g → g.critical = true → f.critical = true) →
        (∀ e, current = some e →
          e.evidenceFingerprint ≠ stopEvidence host explicit (merge findings)) →
        blocks host scope explicit progress current (before ++ after) = true →
        blocks host scope explicit progress current findings = true := by
  refine ⟨nodup_merge findings, ?_, keepsMost_iff, ?_⟩
  · intro g hg
    obtain ⟨f, hf, hcode⟩ := exists_leads hg
    exact ⟨f, mem_merge.mpr hf, hcode⟩
  · rintro before f after rfl hjoins
    refine ⟨verdict_insert hjoins, ?_⟩
    intro scope explicit progress current hprogress hnew h
    exact blocks_insert host scope explicit hdigest hjoins hprogress hnew h

/-! ## Duplicates that come first -/

instance : DecidablePred KeepsMost := fun findings => by
  unfold KeepsMost
  infer_instance

/-- Two digests of SHA-256. -/
def knownDigests (t : Text) : Text :=
  if t = txt "tests_failed" then
    txt "dfcada7cc49ff6de2f6aba444180049681aa9d6f846a52dda24cf63cd392b368"
  else if t = txt "dfcada7cc49ff6de2f6aba4441800496" then
    txt "c4513a038b1ca0fc5f5f564cd3eea7a65ee9fa61b051c90f2ca60cb48547b177"
  else txt "0"

def gateHost : Host := Host.ascii knownDigests

/-- A record that says that the tests failed and that this is critical. -/
def failedRecord : StateEntry where
  state := [(txt "tests_passed", .bool false), (txt "critical", .bool true)]
  file := none
  foreign := none
  fresh := true

def occasion (payload : Fields) : Occasion := ⟨[], true, payload, [failedRecord], false, false⟩

def recordOnly : List GateFinding := gathered gateHost (occasion [])

/-- The payload says that the tests failed, too, and does not say that this
is critical. -/
def recordAndPayload : List GateFinding :=
  gathered gateHost (occasion [(txt "tests_failed", .bool true)])

def plainFinding (code : Text) (critical : Bool) : GateFinding :=
  ⟨code, [], 0, critical, txt "payload", code⟩

/-- The entry of a scope that was blocked once, for that evidence. -/
def blockedOnce (evidence : Text) : Option Entry := some ⟨evidence, 1, 0, [], [], [], [], []⟩

/-- The Stop is blocked a second time. -/
def blockedAgain (evidence : Text) (progress : Option GateFinding)
    (findings : List GateFinding) : Bool :=
  blocks gateHost ⟨[], [], [], [], [], []⟩ [] progress (blockedOnce evidence) findings

/-- The evidence of a Stop with these two findings. -/
def twoFindings : List GateFinding := [plainFinding (txt "tests_failed") true,
  plainFinding (txt "b") true]

/-- A finding of the payload in front of the record takes the place of the
critical one, and the Stop is no longer blocked. So it is with evidence that
was counted before, and with a finding that keeps a progress completion from
being tried. -/
theorem duplicate_hides_critical :
    (∃ f, recordAndPayload = f :: recordOnly) ∧ ¬KeepsMost recordAndPayload ∧
    verdict recordOnly = true ∧ verdict recordAndPayload = false ∧
    blockedAgain (txt "e") none recordOnly = true ∧
    blockedAgain (txt "e") none recordAndPayload = false ∧
    blockedAgain (stopEvidence gateHost [] twoFindings) none (twoFindings.take 1) = true ∧
    blockedAgain (stopEvidence gateHost [] twoFindings) none twoFindings = false ∧
    blockedAgain (txt "e") (some (plainFinding (txt "progress") true)) [] = true ∧
    blockedAgain (txt "e") (some (plainFinding (txt "progress") true))
      [plainFinding (txt "b") false] = false := by
  refine ⟨⟨_, rfl⟩, ?_⟩
  decide

/-- A finding of another code in front of the record keeps the verdict and
the block. -/
theorem other_code_keeps_block :
    verdict (plainFinding (txt "b") false :: recordOnly) = true ∧
    blockedAgain (txt "e") none (plainFinding (txt "b") false :: recordOnly) = true := by
  have hdigest : ∀ t, gateHost.sha256 t ≠ [] := by
    intro t
    show knownDigests t ≠ []
    unfold knownDigests
    split
    · decide
    · split <;> decide
  have hjoins : Joins [] (plainFinding (txt "b") false) recordOnly := by
    refine .inr (.inr ?_)
    decide
  obtain ⟨hverdict, hblocks⟩ := (merged_findings gateHost hdigest
    (plainFinding (txt "b") false :: recordOnly)).2.2.2 [] _ _ rfl hjoins
  refine ⟨hverdict (by decide), ?_⟩
  refine hblocks ⟨[], [], [], [], [], []⟩ [] none (blockedOnce (txt "e")) ?_ ?_ ?_
  · intro h
    cases h
  · intro e he
    cases he
    decide
  · decide

end RalphVault.Stop.Gates
