import RalphVault.Advisor.Payload

/-!
# Hook graph — the analyzer

`effective_hook_graph.py`: the registrations of the hook configurations, the
role of each command, and the blocking owners of the four domains.

A configuration is walked first (`visits`), then every command in it is judged
on its own (`judge`): the loops of the source only add to what they have
found. `role_for_command` raises on a command whose last path component is
blank, and with it the whole analysis.
-/

namespace RalphVault.HookGraph

open Memory

/-- The interpreter of the doctor. -/
structure Platform extends Host where
  /-- `json.dumps` with sorted keys and without spaces. -/
  compactJson : Fields → Text

/-! ## Domains -/

inductive Domain where
  | promptBoundary
  | preToolSafety
  | postToolPersistence
  | stopCompletion
deriving DecidableEq

namespace Domain

def name : Domain → Text
  | promptBoundary => txt "prompt_boundary"
  | preToolSafety => txt "pre_tool_safety"
  | postToolPersistence => txt "post_tool_persistence"
  | stopCompletion => txt "stop_completion"

/-- `DOMAINS`. -/
def all : List Domain := [promptBoundary, preToolSafety, postToolPersistence, stopCompletion]

/-- `BLOCKING_ROLES`. -/
def blockingRoles : Domain → List Text
  | promptBoundary => [txt "user_prompt_dispatch", txt "universal_prompt_classifier"]
  | preToolSafety => [txt "pre_tool_guard", txt "security_pre_tool_dispatch"]
  | postToolPersistence =>
      [txt "post_tool_dispatch", txt "post_tool_checkpoint", txt "post_tool_extract_memory"]
  | stopCompletion =>
      [txt "stop_dispatch", txt "ralph_stop_quality_gate", txt "anti_rationalization_stop"]

/-- `REPORT_ONLY_ROLES`. -/
def reportOnlyRoles : Domain → List Text
  | promptBoundary =>
      [txt "user_prompt_capture", txt "user_prompt_improve", txt "continuity_prompt_context"]
  | preToolSafety => []
  | postToolPersistence =>
      [txt "post_tool_cost_ledger", txt "shaping_ripple", txt "sol_advisor_observer"]
  | stopCompletion =>
      [txt "stop_route_decision_warn", txt "implementation_notes_guard",
       txt "sol_advisor_stop_guard", txt "stop_persist_memory",
       txt "stop_memory_promotion_review", txt "file_line_guard_stop"]

/-- `REQUIRED_EVENTS`. -/
def event : Domain → Text
  | promptBoundary => txt "UserPromptSubmit"
  | preToolSafety => txt "PreToolUse"
  | postToolPersistence => txt "PostToolUse"
  | stopCompletion => txt "Stop"

def ofName (t : Text) : Option Domain := all.find? fun d => d.name == t

end Domain

/-- Whether an event is one a domain requires. -/
def guardedEvent (event : Text) : Bool := Domain.all.any fun d => d.event == event

/-- Whether a role blocks in some domain. -/
def isBlockingRole (role : Text) : Bool := Domain.all.any fun d => d.blockingRoles.contains role

/-- `domain_for_role`. -/
def domainForRole (role : Text) : Option Domain :=
  (Domain.all.find? fun d => d.blockingRoles.contains role).or
    (Domain.all.find? fun d => d.reportOnlyRoles.contains role)

/-! ## The role of a command -/

section Groups

variable {α : Type}

/-- The matches of a sequence of groups at a cursor, in the order of a
backtracking engine: what each group spans. -/
def runGroups : List (Regex α) → Regex.Cursor α → List (List (List α))
  | [], _ => [[]]
  | r :: rs, c => (r.run c).flatMap fun d =>
      (runGroups rs d).map (c.rest.take (d.pos - c.pos) :: ·)

/-- `pattern.search` for a sequence of groups: the groups of the first match. -/
def searchGroups (rs : List (Regex α)) : Option α → List α → Option (List (List α))
  | prev, [] => (runGroups rs ⟨0, prev, []⟩).head?
  | prev, a :: t => (runGroups rs ⟨0, prev, a :: t⟩).head?.or (searchGroups rs (some a) t)

end Groups

open Regex Security in
/-- `global_hook_dispatch\.py\s+--event\s+(\S+)\s+--role\s+(…)`, with the
characters of a role as a parameter. -/
def dispatchGroups (roleChar : Char → Bool) : List (Regex Char) :=
  [seq [lit (txt "global_hook_dispatch.py"), atLeast 1 space, lit (txt "--event"), atLeast 1 space],
   atLeast 1 (chr fun c => !isSpace c),
   seq [atLeast 1 space, lit (txt "--role"), atLeast 1 space],
   atLeast 1 (chr roleChar)]

/-- The event and the role in a call of the global dispatcher. -/
def dispatchCall (roleChar : Char → Bool) (command : Text) : Option (Text × Text) :=
  match searchGroups (dispatchGroups roleChar) none command with
  | some [_, event, _, role] => some (event, role)
  | _ => none

/-- `[A-Za-z0-9_-]`. -/
def analyzerRoleChar (c : Char) : Bool := isAsciiAlnum c || c == '_' || c == '-'

open Regex Security in
/-- `FILE_RE`. -/
def fileRegex : Regex Char :=
  seq [atLeast 1 (chr fun c => isAsciiAlnum c || c == '_' || c == '.' || c == '-'),
    lit (txt "."), anyOf [lit (txt "py"), lit (txt "sh")]]

/-- The last match of `FILE_RE`. -/
def lastFile (command : Text) : Option Text :=
  (((Regex.pieces fileRegex command).filter Regex.Piece.isHit).map Regex.Piece.text).getLast?

def aliases : List (Text × Text) :=
  [(txt "universal-prompt-classifier.sh", txt "universal_prompt_classifier"),
   (txt "anti-rationalization-stop.sh", txt "anti_rationalization_stop"),
   (txt "ralph-stop-quality-gate.sh", txt "ralph_stop_quality_gate")]

/-- `text.removesuffix(".py").replace("-", "_")`. -/
def roleOfFile (basename : Text) : Text :=
  let stem := if (txt ".py").isSuffixOf basename then basename.take (basename.length - 3) else basename
  stem.map fun c => if c = '-' then '_' else c

/-- `role_for_command`, unless it raises. -/
def roleForCommand (command : Text) : Option Text :=
  match dispatchCall analyzerRoleChar command with
  | some (_, role) => some role
  | none =>
      let basename :=
        match lastFile command with
        | some file => some file
        | none =>
            if isBlank command then some []
            else (words ((splitOn '/' command).getLastD [])).head?
      basename.map fun name => (SortedMap.get? name aliases).getD (roleOfFile name)

/-! ## Configurations -/

/-- A command that a configuration registers. -/
structure Registration where
  source : Text
  event : Text
  /-- `group.get("matcher")` -/
  matcher : Option Value
  command : Text
  /-- `config.get("_ralph_verified_bundle")` -/
  bundle : Option Value

/-- What the walk through the configurations comes upon. -/
inductive Visit where
  | malformed (error : Text)
  | command (r : Registration)

/-- A configuration and where it comes from. -/
abbrev Config := Text × Value

def isPlugin (source : Text) : Bool := startsWith (txt "plugin:") source

section Analyzer

variable (p : Platform)

def visitChild (source event : Text) (matcher bundle : Option Value) : Value → Visit
  | .obj child =>
      let command := (Fields.get? child (txt "command")).filter truthy
      .command ⟨source, event, matcher, (command.map (pyStr p.toHost)).getD [], bundle⟩
  | _ => .malformed (source ++ [':'] ++ event ++ txt ": hook entry is not an object")

def visitGroup (source event : Text) (bundle : Option Value) : Value → List Visit
  | .obj group =>
      match Fields.get? group (txt "hooks") with
      | some (.arr children) =>
          children.map (visitChild p source event (Fields.get? group (txt "matcher")) bundle)
      | _ => [.malformed (source ++ [':'] ++ event ++ txt ": hook group has no hooks array")]
  | _ => [.malformed (source ++ [':'] ++ event ++ txt ": hook group is not an object")]

def visitEvent (source : Text) (bundle : Option Value) (entry : Text × Value) : List Visit :=
  match entry.2 with
  | .arr groups => groups.flatMap (visitGroup p source entry.1 bundle)
  | _ => [.malformed (source ++ txt ": invalid hook event table")]

def visitConfig (config : Config) : List Visit :=
  match config.2 with
  | .obj fields =>
      match Fields.get? fields (txt "hooks") with
      | some (.obj hooks) =>
          hooks.flatMap (visitEvent p config.1 (Fields.get? fields (txt "_ralph_verified_bundle")))
      | _ => [.malformed (config.1 ++ txt ": hooks table is missing")]
  | _ => [.malformed (config.1 ++ txt ": configuration is not an object")]

def visits (configs : List Config) : List Visit := configs.flatMap (visitConfig p)

/-! ## Trust -/

/-- `trusted_report_only`: for a source, the domains of its digests. -/
abbrev Trust := List (Text × List (Text × Text))

/-- `_trusted_report_only_domain`. -/
def trustedReportOnlyDomain (trust : Trust) (r : Registration) : Option Domain :=
  if !isPlugin r.source then none
  else match r.matcher with
    | some (.str matcher) =>
        let declaration : Fields :=
          [(txt "source", .str r.source), (txt "event", .str r.event),
           (txt "matcher", .str matcher), (txt "command", .str r.command)] ++
          (match r.bundle with
            | some (.obj bundle) => [(txt "bundle", .obj bundle)]
            | _ => [])
        let digest := txt "sha256:" ++ p.sha256 (p.compactJson declaration)
        (((SortedMap.get? r.source trust).bind (SortedMap.get? digest)).bind Domain.ofName).filter
          fun d => d.event == r.event
    | _ => none

/-! ## Judgement of a command -/

structure HookEntry where
  event : Text
  role : Text
  source : Text
  command : Text
  blocking : Bool
  domain : Option Domain
deriving DecidableEq

/-- What the loops have found so far. -/
structure Findings where
  entries : List HookEntry
  warnings : List Text
  errors : List Text
  /-- `legacy_registered` -/
  legacy : Bool

/-- All that is found, in order. -/
def Findings.concat (fs : List Findings) : Findings where
  entries := fs.flatMap (·.entries)
  warnings := fs.flatMap (·.warnings)
  errors := fs.flatMap (·.errors)
  legacy := fs.any (·.legacy)

variable (trust : Trust)

def Registration.at (r : Registration) : Text := r.source ++ [':'] ++ r.event

/-- An entry of a plugin whose declaration is trusted. -/
def reportOnly (r : Registration) (message : Text) (d : Domain) : Findings where
  entries := [⟨r.event, txt "plugin_report_only", r.source, r.command, false, some d⟩]
  warnings := [message ++ txt " trusted report-only digest for " ++ d.name]
  errors := []
  legacy := false

/-- A command of no known role. -/
def unclassified (r : Registration) (message : Text) (entries : List HookEntry) : Findings :=
  if isPlugin r.source && guardedEvent r.event then
    { entries := entries
      warnings := []
      errors := [message ++
        txt " may own a guarded domain; explicit trusted classification is required"]
      legacy := false }
  else { entries := entries, warnings := [message], errors := [], legacy := false }

/-- One pass of the innermost loop, for a command of this role. -/
def judgeRole (r : Registration) (role : Text) : Findings :=
  let trusted := trustedReportOnlyDomain p trust r
  if role.isEmpty then
    let message := r.at ++ txt ": unclassified command"
    match trusted with
    | some d => reportOnly r message d
    | none => unclassified r message []
  else match domainForRole role with
    | none =>
        let entry : HookEntry := ⟨r.event, role, r.source, r.command, false, none⟩
        if isPlugin r.source then
          let message := r.at ++ txt ": plugin hook is unclassified"
          match trusted with
          | some d => reportOnly r message d
          | none => unclassified r message [entry]
        else { entries := [entry], warnings := [], errors := [], legacy := false }
    | some d =>
        let legacy := role == txt "anti_rationalization_stop"
        if isPlugin r.source && d.reportOnlyRoles.contains role && trusted != some d then
          { entries := []
            warnings := []
            errors := [r.at ++ [':'] ++ role ++
              txt " claims report-only behavior without a trusted declaration digest"]
            legacy := legacy }
        else if d.event ≠ r.event then
          { entries := []
            warnings := []
            errors := [r.at ++ [':'] ++ role ++ txt " is registered under " ++ r.event ++ txt "; " ++
              d.name ++ txt " requires " ++ d.event]
            legacy := legacy }
        else
          { entries := [⟨r.event, role, r.source, r.command, isBlockingRole role, some d⟩]
            warnings := []
            errors := []
            legacy := legacy }

def judge (r : Registration) : Option Findings :=
  (roleForCommand r.command).map (judgeRole p trust r)

def inspect : Visit → Option Findings
  | .malformed error => some ⟨[], [], [error], false⟩
  | .command r => judge p trust r

/-! ## The report -/

/-- `_suppressed_global_registration`. An entry of the project is never the
entry itself, which is global. -/
def suppressedGlobalRegistration (entry : HookEntry) (entries : List HookEntry) : Bool :=
  if !([txt "global", txt "global-dry-run"].contains entry.source) ||
      !contains (txt "global_hook_dispatch.py") entry.command then
    false
  else entries.any fun other =>
    other.source == txt "project" && other.event == entry.event && other.role == entry.role &&
      other.blocking

/-- The blocking entries of a domain that count, in the order of the entries. -/
def owners (entries : List HookEntry) (d : Domain) : List HookEntry :=
  entries.filter fun entry =>
    entry.domain == some d && entry.blocking && !suppressedGlobalRegistration entry entries

inductive Status where
  | pass
  | warn
  | fail
  | disabled
deriving DecidableEq

structure DomainResult where
  domain : Domain
  blockingOwners : List Text
  reportOnlyRoles : List Text
  status : Status
  evidence : List Text

structure Report where
  status : Status
  domains : List DomainResult
  entries : List HookEntry
  legacyWrapperRegistered : Bool
  warnings : List Text
  errors : List Text

def HookEntry.label (e : HookEntry) : Text := e.source ++ [':'] ++ e.event ++ [':'] ++ e.role

/-- `sorted(set(texts))`. -/
def sortedTexts (ts : List Text) : List Text :=
  ts.eraseDups.insertionSort fun t u => textLt u t = false

/-- The key of the owners: source, event, role and command. -/
def HookEntry.key (e : HookEntry) : List Text := [e.source, e.event, e.role, e.command]

/-- The order of tuples of texts. -/
def keyLe : List Text → List Text → Bool
  | [], _ => true
  | _ :: _, [] => false
  | t :: ts, u :: us => textLt t u || (t == u && keyLe ts us)

def sortedOwners (entries : List HookEntry) (d : Domain) : List HookEntry :=
  (owners entries d).insertionSort fun e f => keyLe e.key f.key = true

/-- What one domain adds to the report: its result, warnings and errors. -/
def inspectDomain (required : List Text) (entries : List HookEntry) (d : Domain) :
    DomainResult × List Text × List Text :=
  let blocking := sortedOwners entries d
  let reportOnly :=
    sortedTexts ((entries.filter fun e => e.domain == some d && !e.blocking).map (·.role))
  let evidence := (entries.filter fun e => e.domain == some d).map HookEntry.label
  let result (status : Status) : DomainResult :=
    ⟨d, blocking.map (·.role), reportOnly, status, evidence⟩
  if !required.contains d.name then
    if evidence.isEmpty then (result .disabled, [], [])
    else (result .fail, [], [d.name ++ txt ": registrations present while domain is disabled"])
  else
    let warnings :=
      if reportOnly.isEmpty then []
      else [d.name ++ txt ": report-only roles " ++ joinWith [','] reportOnly]
    match blocking with
    | [_] => (result .pass, warnings, [])
    | [] => (result .fail, warnings, [d.name ++ txt ": no blocking semantic owner"])
    | _ :: _ :: _ =>
        (result .fail, warnings, [d.name ++ txt ": duplicate blocking registrations " ++
          joinWith [','] (blocking.map HookEntry.label)])

/-- `sorted(set(required) - set(DOMAINS))`. -/
def unknownDomains (required : List Text) : List Text :=
  sortedTexts (required.filter fun t => !(Domain.all.any fun d => d.name == t))

/-- The report on what was found. -/
def reportOn (required : List Text) (found : Findings) : Report :=
  let unknown := unknownDomains required
  let domains := Domain.all.map (inspectDomain required found.entries)
  let errors :=
    (if unknown.isEmpty then []
      else [txt "unknown required domains: " ++ joinWith [','] unknown]) ++
    found.errors ++ domains.flatMap (·.2.2) ++
    (if found.legacy then [txt "legacy anti-rationalization-stop.sh is registered"] else [])
  let warnings := found.warnings ++ domains.flatMap (·.2.1)
  { status := if !errors.isEmpty then .fail else if !warnings.isEmpty then .warn else .pass
    domains := domains.map (·.1)
    entries := found.entries
    legacyWrapperRegistered := found.legacy
    warnings := sortedTexts warnings
    errors := sortedTexts errors }

/-- `analyze_hook_graph`, unless it raises. -/
def analyzeHookGraph (required : List Text) (configs : List Config) : Option Report :=
  ((visits p configs).mapM (inspect p trust)).map fun fs => reportOn required (.concat fs)

end Analyzer
end RalphVault.HookGraph
