import RalphVault.HookGraph.Ownership

/-!
# Hook graph — suppression

`global_hook_dispatch.py`: whether the global dispatcher stands back for the
hooks of a project. It compares the role and the matcher of the project's
registrations and knows which roles replace which; the analyzer compares the
names of roles only. The two agree exactly where these readings do.
-/

namespace RalphVault.HookGraph

open Memory

/-! ## The dispatcher -/

/-- The keys of `ROLE_COMMANDS`. -/
def roleCommands : List (Text × Text) :=
  [(txt "SessionStart", txt "session_start_dispatch"),
   (txt "SessionStart", txt "session_start_wakeup"),
   (txt "UserPromptSubmit", txt "user_prompt_dispatch"),
   (txt "UserPromptSubmit", txt "universal_prompt_classifier"),
   (txt "UserPromptSubmit", txt "sol_advisor_prompt_state"),
   (txt "UserPromptSubmit", txt "user_prompt_capture"),
   (txt "UserPromptSubmit", txt "user_prompt_improve"),
   (txt "UserPromptSubmit", txt "continuity_prompt_context"),
   (txt "PreToolUse", txt "security_pre_tool_dispatch"), (txt "PreToolUse", txt "pre_tool_guard"),
   (txt "PostToolUse", txt "post_tool_dispatch"),
   (txt "PostToolUse", txt "file_line_guard_post_tool"), (txt "PostToolUse", txt "shaping_ripple"),
   (txt "PostToolUse", txt "post_tool_extract_memory"),
   (txt "PostToolUse", txt "post_tool_checkpoint"), (txt "PostToolUse", txt "sol_advisor_observer"),
   (txt "PostToolUse", txt "post_tool_cost_ledger"),
   (txt "SubagentStart", txt "sol_advisor_subagent_context"),
   (txt "SubagentStop", txt "sol_advisor_subagent_stop"), (txt "Stop", txt "stop_dispatch"),
   (txt "Stop", txt "anti_rationalization_stop"), (txt "Stop", txt "ralph_stop_quality_gate"),
   (txt "Stop", txt "file_line_guard_stop"), (txt "Stop", txt "stop_route_decision_warn"),
   (txt "Stop", txt "implementation_notes_guard"), (txt "Stop", txt "sol_advisor_stop_guard"),
   (txt "Stop", txt "stop_persist_memory"), (txt "Stop", txt "stop_memory_promotion_review")]

/-- `ROLE_BY_FILENAME`. -/
def roleByFilename : List (Text × Text) :=
  [(txt "session_start_dispatch.py", txt "session_start_dispatch"),
   (txt "session_start_wakeup.py", txt "session_start_wakeup"),
   (txt "user_prompt_dispatch.py", txt "user_prompt_dispatch"),
   (txt "universal-prompt-classifier.sh", txt "universal_prompt_classifier"),
   (txt "sol_advisor_prompt_state.py", txt "sol_advisor_prompt_state"),
   (txt "user_prompt_capture.py", txt "user_prompt_capture"),
   (txt "user_prompt_improve.py", txt "user_prompt_improve"),
   (txt "continuity_prompt_context.py", txt "continuity_prompt_context"),
   (txt "security_pre_tool_dispatch.py", txt "security_pre_tool_dispatch"),
   (txt "pre_tool_guard.py", txt "pre_tool_guard"),
   (txt "post_tool_dispatch.py", txt "post_tool_dispatch"),
   (txt "shaping_ripple.py", txt "shaping_ripple"),
   (txt "post_tool_extract_memory.py", txt "post_tool_extract_memory"),
   (txt "post_tool_checkpoint.py", txt "post_tool_checkpoint"),
   (txt "sol_advisor_observer.py", txt "sol_advisor_observer"),
   (txt "sol_advisor_subagent_context.py", txt "sol_advisor_subagent_context"),
   (txt "sol_advisor_subagent_stop.py", txt "sol_advisor_subagent_stop"),
   (txt "post_tool_cost_ledger.py", txt "post_tool_cost_ledger"),
   (txt "stop_dispatch.py", txt "stop_dispatch"),
   (txt "anti-rationalization-stop.sh", txt "anti_rationalization_stop"),
   (txt "ralph-stop-quality-gate.sh", txt "ralph_stop_quality_gate"),
   (txt "stop_route_decision_warn.py", txt "stop_route_decision_warn"),
   (txt "implementation_notes_guard.py", txt "implementation_notes_guard"),
   (txt "sol_advisor_stop_guard.py", txt "sol_advisor_stop_guard"),
   (txt "stop_persist_memory.py", txt "stop_persist_memory"),
   (txt "stop_memory_promotion_review.py", txt "stop_memory_promotion_review")]

/-- `ROLE_MATCHERS.get(key, "")`. -/
def expectedMatcher (event role : Text) : Text :=
  if event = txt "SessionStart" ∧ role = txt "session_start_dispatch" then
    txt "startup|resume|clear|compact"
  else if event = txt "PreToolUse" ∧ role = txt "security_pre_tool_dispatch" then
    txt "Bash|exec_command|apply_patch|Edit|Write|Agent|spawn_agent|mcp__.*"
  else if event = txt "PostToolUse" ∧ role = txt "post_tool_dispatch" then txt ".*"
  else []

/-- `[A-Za-z0-9_]`. -/
def dispatcherRoleChar (c : Char) : Bool := isAsciiAlnum c || c == '_'

/-- `consolidated`. -/
def consolidatedRole (event : Text) : Option Text :=
  SortedMap.get? event
    [(txt "SessionStart", txt "session_start_dispatch"),
     (txt "UserPromptSubmit", txt "user_prompt_dispatch"),
     (txt "PreToolUse", txt "security_pre_tool_dispatch"),
     (txt "PostToolUse", txt "post_tool_dispatch"), (txt "Stop", txt "stop_dispatch")]

/-- `legacy`. -/
def legacyRoles (event : Text) : List Text :=
  (SortedMap.get? event
    [(txt "SessionStart", [txt "session_start_wakeup"]),
     (txt "UserPromptSubmit",
       [txt "universal_prompt_classifier", txt "sol_advisor_prompt_state",
        txt "user_prompt_capture", txt "user_prompt_improve", txt "continuity_prompt_context"]),
     (txt "PreToolUse", [txt "pre_tool_guard"])]).getD []

section Dispatcher

variable (p : Platform)

open Regex Security in
/-- `--event\s+…\b`. -/
def eventFlag (event : Text) : Regex Char :=
  seq [lit (txt "--event"), atLeast 1 space, lit event, boundary p.unicode]

/-- `role_for_command` of the dispatcher. -/
def dispatcherRole (event : Text) : Option Value → Option Text
  | some (.str command) =>
      match (dispatchCall dispatcherRoleChar command).filter fun call => call.1 == event with
      | some (_, role) => some role
      | none =>
          if contains (txt "file_line_guard.py") command then
            if event == txt "PostToolUse" && (eventFlag p (txt "PostToolUse")).test command then
              some (txt "file_line_guard_post_tool")
            else if event == txt "Stop" && (eventFlag p (txt "Stop")).test command then
              some (txt "file_line_guard_stop")
            else none
          else (roleByFilename.find? fun file => contains file.1 command).map (·.2)
  | _ => none

/-- The signatures of one group. -/
def groupSignatures (event : Text) : Value → List (Text × Text)
  | .obj group =>
      let matcher := pyStr p.toHost (Fields.getD group (txt "matcher") (.str []))
      match Fields.getD group (txt "hooks") (.arr []) with
      | .arr entries => entries.filterMap fun entry =>
          let command := match entry with
            | .obj child => Fields.get? child (txt "command")
            | _ => none
          ((dispatcherRole p event command).filter (!·.isEmpty)).map fun role => (role, matcher)
      | _ => []
  | _ => []

/-- `project_role_signatures`, of the configuration that is found. -/
def projectRoleSignatures (project : Fields) (event : Text) : List (Text × Text) :=
  match Fields.getD project (txt "hooks") (.obj []) with
  | .obj hooks =>
      match Fields.getD hooks event (.arr []) with
      | .arr groups => groups.flatMap (groupSignatures p event)
      | _ => []
  | _ => []

/-- `project_suppresses`, of the signatures. -/
def projectSuppresses (signatures : List (Text × Text)) (event role matcher : Text) : Bool :=
  let legacy := legacyRoles event
  if signatures.contains (role, matcher) then true
  else match consolidatedRole event with
    | none => false
    | some consolidated =>
        if legacy.contains role && signatures.contains (consolidated, matcher) then true
        else if role == consolidated && !legacy.isEmpty then
          legacy.all fun legacyRole => signatures.contains (legacyRole, matcher)
        else false

/-- Whether the dispatcher leaves a role to the project. -/
def dispatcherSkips (project : Fields) (event role : Text) : Bool :=
  projectSuppresses (projectRoleSignatures p project event) event role (expectedMatcher event role)

/-- Whether the dispatcher invokes its child, on input it can read. -/
def dispatcherInvokes (project : Fields) (event role : Text) : Bool :=
  roleCommands.contains (event, role) && !dispatcherSkips p project event role

end Dispatcher

/-! ## Both sides -/

/-- A global configuration whose commands call the dispatcher. -/
structure GlobalConfig (p : Platform) where
  config : Value
  dispatches : ∀ r ∈ registrations p [(txt "global", config)],
    contains (txt "global_hook_dispatch.py") r.command = true

section Agreement

variable (p : Platform) (trust : Trust) (required : List Text) (project : Fields)
  (global : GlobalConfig p)

def bothConfigs : List Config := [(txt "project", .obj project), (txt "global", global.config)]

/-- The analyzer leaves out a blocking registration of the global
configuration exactly when the dispatcher skips it. -/
def Agree : Prop :=
  ∀ report, analyzeHookGraph p trust required (bothConfigs p project global) = some report →
    ∀ e ∈ report.entries, e.source = txt "global" → e.blocking = true →
      suppressedGlobalRegistration e report.entries = dispatcherSkips p project e.event e.role

/-- The blocking registrations that run when the event of a domain fires. -/
def running (d : Domain) : List Registration :=
  (registrations p [(txt "project", .obj project)]).filter (·.guards d) ++
    (registrations p [(txt "global", global.config)]).filter fun r =>
      r.guards d && dispatcherInvokes p project r.event r.role

/-- Whenever the report passes, one blocking owner runs. -/
def OneOwnerRuns : Prop :=
  ∀ report, analyzeHookGraph p trust required (bothConfigs p project global) = some report →
    report.status ≠ .fail → ∀ d : Domain, d.name ∈ required →
      (running p project global d).length = 1

/-- The project registers a command that the analyzer reads as this role. -/
def ProjectNames (d : Domain) (role : Text) : Prop :=
  ∃ r ∈ registrations p [(txt "project", .obj project)], r.guards d = true ∧ r.role = role

/-- The project registers the role under the matcher the dispatcher expects,
in the dispatcher's reading. -/
def ProjectMatches (event role : Text) : Prop :=
  (role, expectedMatcher event role) ∈ projectRoleSignatures p project event

/-- The project registers what replaces the role: the consolidated role for an
older one, or all the older ones for the consolidated one. -/
def ProjectReplaces (event role : Text) : Prop :=
  ∃ consolidated, consolidatedRole event = some consolidated ∧
    (role ∈ legacyRoles event ∧
        (consolidated, expectedMatcher event role) ∈ projectRoleSignatures p project event ∨
      role = consolidated ∧ legacyRoles event ≠ [] ∧ ∀ legacyRole ∈ legacyRoles event,
        (legacyRole, expectedMatcher event role) ∈ projectRoleSignatures p project event)

/-- The readings of the two sides coincide on every role the global
configuration dispatches. -/
def SameReading : Prop :=
  (∀ r ∈ registrations p (bothConfigs p project global), (roleForCommand r.command).isSome = true) →
    ∀ r ∈ registrations p [(txt "global", global.config)], ∀ d : Domain, r.guards d = true →
      (ProjectNames p project d r.role ↔
        ProjectMatches p project d.event r.role ∨ ProjectReplaces p project d.event r.role)

end Agreement

section Proofs

variable {p : Platform} {trust : Trust} {required : List Text} {project : Fields}
  {global : GlobalConfig p} {event role : Text} {d : Domain} {r : Registration}

theorem dispatcherSkips_iff :
    dispatcherSkips p project event role = true ↔
      ProjectMatches p project event role ∨ ProjectReplaces p project event role := by
  unfold dispatcherSkips projectSuppresses ProjectMatches ProjectReplaces
  dsimp only
  by_cases hmatches : (role, expectedMatcher event role) ∈ projectRoleSignatures p project event
  · simp [hmatches]
  · rw [if_neg (by simpa using hmatches)]
    cases hconsolidated : consolidatedRole event with
    | none => simp [hmatches]
    | some consolidated =>
        dsimp only
        by_cases holder : role ∈ legacyRoles event ∧
            (consolidated, expectedMatcher event role) ∈ projectRoleSignatures p project event
        · simp [hmatches, holder.1, holder.2]
        · rw [if_neg (by simpa using holder)]
          simp only [hmatches, Option.some.injEq, exists_eq_left', holder, false_or,
            List.isEmpty_eq_false_iff, Bool.and_eq_true, beq_iff_eq, Bool.not_eq_true']
          split
          · rename_i h
            simp [h.1, h.2]
          · rename_i h
            simp only [Bool.false_eq_true, false_iff, not_and]
            exact fun hrole hne => absurd ⟨hrole, hne⟩ h

theorem bothConfigs_eq :
    bothConfigs p project global =
      [(txt "project", .obj project)] ++ [(txt "global", global.config)] := rfl

theorem registrations_both :
    registrations p (bothConfigs p project global) =
      registrations p [(txt "project", .obj project)] ++
        registrations p [(txt "global", global.config)] := by
  rw [bothConfigs_eq, registrations_append]

theorem guards_iff : r.guards d = true ↔ r.event = d.event ∧ r.role ∈ d.blockingRoles := by
  simp [Registration.guards]

theorem global_isGlobal : [txt "global", txt "global-dry-run"].contains (txt "global") = true := by
  decide

theorem project_notGlobal : [txt "global", txt "global-dry-run"].contains (txt "project") = false := by
  decide

theorem global_ne_project : (txt "global" : Text) ≠ txt "project" := by decide

/-- A global registration stands back, for the analyzer, exactly when the
project names its role. -/
theorem standsBack_iff (hr : r ∈ registrations p [(txt "global", global.config)]) :
    r.standsBack d (registrations p (bothConfigs p project global)) = true ↔
      ProjectNames p project d r.role := by
  have hsource : [txt "global", txt "global-dry-run"].contains r.source = true := by
    rw [registration_source hr]
    exact global_isGlobal
  unfold Registration.standsBack ProjectNames
  rw [hsource, global.dispatches r hr, Bool.and_true, Bool.true_and, registrations_both,
    List.any_eq_true]
  constructor
  · rintro ⟨other, hother, h⟩
    simp only [Bool.and_eq_true, beq_iff_eq] at h
    obtain hother | hother := List.mem_append.mp hother
    · exact ⟨other, hother, h.1.2, h.2⟩
    · exact absurd ((registration_source hother).symm.trans h.1.1) global_ne_project
  · rintro ⟨other, hother, hguards, hrole⟩
    refine ⟨other, List.mem_append_left _ hother, ?_⟩
    simp only [Bool.and_eq_true, beq_iff_eq]
    exact ⟨⟨registration_source hother, hguards⟩, hrole⟩

theorem agree_iff : Agree p trust required project global ↔ SameReading p project global := by
  constructor
  · intro h hreadable r hr d hguards
    have hmem : r ∈ registrations p (bothConfigs p project global) := by
      rw [registrations_both]
      exact List.mem_append_right _ hr
    have hentry : r.guardEntry d ∈ (foundIn p trust (visits p (bothConfigs p project global))).entries :=
      (mem_guards.mpr ⟨r, hmem, hguards, rfl⟩).1
    have hagree := h _ (analyze_eq_some.mpr ⟨hreadable, rfl⟩) _ hentry (registration_source hr) rfl
    rw [show (reportOn required (foundIn p trust (visits p (bothConfigs p project global)))).entries =
      (foundIn p trust (visits p (bothConfigs p project global))).entries from rfl,
      suppressed_guardEntry hguards] at hagree
    have hevent : r.event = d.event := (guards_iff.mp hguards).1
    rw [← standsBack_iff hr, ← dispatcherSkips_iff, ← hevent]
    exact Bool.eq_iff_iff.mp hagree
  · intro h report hreport e he hsource hblocking
    obtain ⟨hreadable, rfl⟩ := analyze_eq_some.mp hreport
    have he : e ∈ (foundIn p trust (visits p (bothConfigs p project global))).entries := he
    obtain ⟨f, hf, he'⟩ := List.mem_flatMap.mp he
    obtain ⟨v, hv, rfl⟩ := List.mem_map.mp hf
    obtain ⟨d, hd⟩ : ∃ d, e.domain = some d := by
      cases v with
      | malformed error => cases he'
      | command r => exact judgeRole_blocking_domain he' hblocking
    obtain ⟨r, hr, hguards, rfl⟩ := mem_guards.mp ⟨he, hd, hblocking⟩
    have hr : r ∈ registrations p [(txt "global", global.config)] := by
      have hboth : r ∈ registrations p (bothConfigs p project global) := hr
      rw [registrations_both] at hboth
      obtain hproject | hglobal := List.mem_append.mp hboth
      · exact absurd (hsource.symm.trans (registration_source hproject)) global_ne_project
      · exact hglobal
    have hevent : r.event = d.event := (guards_iff.mp hguards).1
    have hreading := h hreadable r hr d hguards
    rw [← standsBack_iff hr, ← dispatcherSkips_iff, ← hevent] at hreading
    show suppressedGlobalRegistration (r.guardEntry d)
      (foundIn p trust (visits p (bothConfigs p project global))).entries = _
    rw [suppressed_guardEntry hguards]
    exact Bool.eq_iff_iff.mpr hreading

/-- The dispatcher knows every blocking role under its event. -/
theorem roleCommands_of_blocking (h : role ∈ d.blockingRoles) :
    roleCommands.contains (d.event, role) = true := by
  cases d <;>
    simp only [Domain.blockingRoles, List.mem_cons, List.not_mem_nil, or_false] at h <;>
    rcases h with rfl | rfl | rfl <;> decide

/-- Where the readings coincide, what runs is what the analyzer counts. -/
theorem running_eq_owning (hreadable : ∀ r ∈ registrations p (bothConfigs p project global),
      (roleForCommand r.command).isSome = true) (h : SameReading p project global) :
    running p project global d = owning (registrations p (bothConfigs p project global)) d := by
  unfold running owning
  rw [registrations_both, List.filter_append, ← registrations_both]
  congr 1
  · apply List.filter_congr
    intro r hr
    have hsource : [txt "global", txt "global-dry-run"].contains r.source = false := by
      rw [registration_source hr]
      exact project_notGlobal
    unfold Registration.standsBack
    rw [hsource, Bool.false_and, Bool.false_and, Bool.not_false, Bool.and_true]
  · apply List.filter_congr
    intro r hr
    cases hguards : r.guards d with
    | false => rfl
    | true =>
        obtain ⟨hevent, hrole⟩ := guards_iff.mp hguards
        have hskips : dispatcherSkips p project d.event r.role =
            r.standsBack d (registrations p (bothConfigs p project global)) := by
          rw [Bool.eq_iff_iff, dispatcherSkips_iff, standsBack_iff hr]
          exact (h hreadable r hr d hguards).symm
        rw [dispatcherInvokes, hevent, roleCommands_of_blocking hrole, hskips]
        rfl

theorem oneOwnerRuns_of_sameReading (h : SameReading p project global) :
    OneOwnerRuns p trust required project global := by
  intro report hreport hstatus d hd
  have hacceptable := analyze_ne_fail.mp ⟨report, hreport, hstatus⟩
  obtain ⟨r, hr⟩ := hacceptable.owned d hd
  rw [running_eq_owning hacceptable.readable h, hr]
  rfl

end Proofs

def securityProject : Fields :=
  [(txt "hooks", .obj [(txt "PreToolUse", .arr [.obj [(txt "hooks", .arr [.obj [(txt "command",
    .str (txt "python3 /repo/.codex/hooks/security_pre_tool_dispatch.py"))]])]])])]

def securityGlobal : GlobalConfig Platform.ascii where
  config := commandsConfig
    [(txt "PreToolUse", txt "python3 /home/.codex/hooks/global_hook_dispatch.py --event PreToolUse " ++
      txt "--role security_pre_tool_dispatch")]
  dispatches := by
    rw [← List.all_eq_true]
    decide +kernel

end RalphVault.HookGraph
