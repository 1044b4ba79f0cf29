import RalphVault.AutoResearch.WorkingTree
import RalphVault.SessionStart.Reducer

/-!
# AutoResearch — packets

`common.py`, `next.py` and `log.py`: a packet is measured on a working tree,
with its hard gates and a fingerprint of the tree and the configuration; later
it is logged as kept or not, if the fingerprint is still the same.

Left out: the benchmark and the checks themselves, of which only the results
are known here, the baseline and the delta, and the generation bundle.
-/

namespace RalphVault.AutoResearch

open Memory Security
open SessionStart (splitlines)

/-- The interpreter of the scripts. -/
structure Platform extends Host where
  /-- `json.dumps` with sorted keys. -/
  sortedJson : Fields → Text

/-- A session directory. -/
structure Session where
  cwd : Text
  /-- whether it is inside a git work tree -/
  inside : Bool
  /-- `git rev-parse HEAD` -/
  commit : Text
  tree : WorkingTree
  /-- the entries of `autoresearch.jsonl` -/
  ledger : List Fields

/-! ## Configuration -/

/-- `latest_config`. -/
def latestConfig (ledger : List Fields) : Option Fields :=
  ledger.reverse.find? fun entry =>
    match entry.get? (txt "entry_type") with
    | some (.str t) => t == txt "config"
    | _ => false

/-- The keys of `stable_config_view`. -/
def stableKeys : List Text :=
  [txt "segment_id", txt "scorecard_id", txt "scorecard_version", txt "goal", txt "metric",
   txt "direction", txt "benchmark_command", txt "checks_command", txt "commit_paths"]

/-- `stable_config_view`. -/
def stableConfigView (config : Fields) : Fields :=
  stableKeys.map fun key => (key, config.getD key .null)

/-- `config.get("commit_paths") or []`, as `setup.py` writes them. -/
def commitPaths (config : Fields) : List Text :=
  match config.get? (txt "commit_paths") with
  | some (.arr paths) => paths.filterMap asText
  | _ => []

/-! ## Fingerprint -/

/-- The names `non_git_state` leaves out, of files and of directories. -/
def ignoredFiles : List Text :=
  [txt "autoresearch.md", txt "autoresearch.jsonl", txt "autoresearch.ideas.md",
   txt "autoresearch.last-run.json"]
def ignoredDirs : List Text :=
  [txt ".git", txt "node_modules", txt ".ralph-codex", txt "__pycache__", txt "autoresearch.runs"]

def ignoredPath (path : Text) : Bool :=
  let parts := splitOn '/' path
  ignoredFiles.contains (parts.getLastD []) || parts.any ignoredDirs.contains

section Functions

variable (p : Platform) (git : Git)

/-- `git_state`. The output is stripped. -/
def gitState (s : Session) : Fields :=
  if s.inside then
    [(txt "inside", .str (txt "true")), (txt "head", .str s.commit),
     (txt "status", .str (strip (git.statusOf s.tree)))]
  else
    [(txt "inside", .str (txt "false")), (txt "head", .str []), (txt "status", .str [])]

/-- The loop of `non_git_state`. -/
def nonGitLoop : Fields → List (Text × Option Content) → Fields
  | state, [] => state
  | state, (path, content) :: rest =>
      if 200 ≤ state.length then state.set (txt "__truncated__") (.str (txt "true"))
      else match content with
        | none => nonGitLoop state rest
        | some content =>
            if ignoredPath path then nonGitLoop state rest
            else nonGitLoop (state.set path (.str (p.sha256 content))) rest

/-- `non_git_state`. -/
def nonGitState (s : Session) : Fields := nonGitLoop p [] s.tree.walk

/-- `fingerprint`, of a configuration. -/
def fingerprintOf (s : Session) (config : Fields) : Text :=
  p.sha256 (p.sortedJson
    [(txt "cwd", .str s.cwd), (txt "config", .obj (stableConfigView config)),
     (txt "git", .obj (gitState git s)),
     (txt "files", .obj (if s.inside then [] else nonGitState p s))])

/-- `fingerprint`, of the latest configuration if there is one. -/
def fingerprint (s : Session) : Option Text := (latestConfig s.ledger).map (fingerprintOf p git s)

/-! ## Scope -/

/-- `scoped_diff_paths`. -/
def scopedDiffPaths (s : Session) : List Text :=
  let unstaged := strip (git.output (Git.unstaged s.tree))
  let staged := strip (git.output (git.staged s.tree))
  let lines := (splitlines (unstaged ++ ['\n'] ++ staged)).map strip
  ((lines.filter (!·.isEmpty)).eraseDups).insertionSort fun t u => textLt u t = false

/-- `text.lstrip("./")`. -/
def lstripDots (t : Text) : Text := t.dropWhile fun c => c == '.' || c == '/'

/-- `text.rstrip("/")`. -/
def rstripSlash (t : Text) : Text := (t.reverse.dropWhile (· == '/')).reverse

/-- A scope as `path_in_scope` compares it. -/
def normalScope (scope : Text) : Text := rstripSlash (lstripDots (strip scope))

/-- `path_in_scope`. -/
def pathInScope (path : Text) (scopes : List Text) : Bool :=
  let clean := lstripDots (strip path)
  let normalized := (scopes.filter fun scope => !isBlank scope).map normalScope
  if normalized.isEmpty then true
  else normalized.any fun scope => clean == scope || startsWith (scope ++ ['/']) clean

/-- `scope_gate`, whether it passes. -/
def scopeGate (s : Session) (scopes : List Text) : Bool :=
  if !s.inside then true
  else ((scopedDiffPaths git s).filter fun path => !pathInScope path scopes).isEmpty

/-! ## Gates -/

/-- `REQUIRED_KEEP_GATES`. -/
def requiredKeepGates : List Text :=
  [txt "tests_pass", txt "no_secret_leak", txt "eval_harness_unchanged", txt "no_scope_violation",
   txt "no_eval_gaming", txt "fresh_packet", txt "finite_primary_metric"]

/-- What a run of the benchmark and the checks gave: whether they passed, what
they printed and the metrics in it. -/
structure Measurement where
  testsPass : Bool
  output : Text
  metrics : List (Text × Rat)

abbrev Gates := List (Text × Bool)

/-- `hard_gates_for_packet`: `default_hard_gates` with the gate for the scope. -/
def hardGatesForPacket (s : Session) (config : Fields) (m : Measurement) (metric : Text) : Gates :=
  [(txt "tests_pass", m.testsPass), (txt "no_secret_leak", !isRed p.unicode m.output),
   (txt "eval_harness_unchanged", true),
   (txt "no_scope_violation", scopeGate git s (commitPaths config)), (txt "no_eval_gaming", true),
   (txt "fresh_packet", true),
   (txt "finite_primary_metric", (SortedMap.get? metric m.metrics).isSome)]

/-- `gate_failures`. -/
def gateFailures (gates : Gates) : List Text :=
  requiredKeepGates.filterMap fun gate =>
    match SortedMap.get? gate gates with
    | none => some (gate ++ txt ":missing")
    | some passed => if passed then none else some gate

/-! ## Packets -/

/-- `autoresearch.last-run.json`, as far as it is read again. -/
structure Packet where
  metrics : List (Text × Rat)
  hardGates : Gates
  freshnessFingerprint : Text

def metricName (config : Fields) : Text :=
  ((config.get? (txt "metric")).bind asText).getD []

/-- `run_next`, unless there is no configuration. -/
def runNext (s : Session) (m : Measurement) : Option Packet :=
  (latestConfig s.ledger).map fun config =>
    { metrics := m.metrics
      hardGates := hardGatesForPacket p git s config m (metricName config)
      freshnessFingerprint := fingerprintOf p git s config }

inductive Status where
  | keep
  | discard
  | crash
  | checksFailed
deriving DecidableEq

def Status.name : Status → Text
  | keep => txt "keep"
  | discard => txt "discard"
  | crash => txt "crash"
  | checksFailed => txt "checks_failed"

/-- `validate_asi`: the fields that are missing or unsafe. -/
def validateAsi (asi : Fields) (status : Status) : List Text :=
  let required := [txt "hypothesis", txt "evidence", txt "next_action_hint"] ++
    (if status = .keep then [] else [txt "rollback_reason"])
  let missing := required.filter fun key =>
    isBlank (pyStr p.toHost (asi.getD key (.str [])))
  if asi.any fun m => isRed p.unicode (pyStr p.toHost m.2) then
    missing ++ [txt "red_sensitive_asi"]
  else missing

/-- The entry `log_packet` appends. -/
def logEntry (config : Fields) (packet : Packet) (status : Status) (asi : Fields)
    (description : Text) : Fields :=
  [txt "segment_id", txt "scorecard_id", txt "scorecard_version", txt "metric",
    txt "direction"].map (fun key => (key, config.getD key .null)) ++
  [(txt "status", .str status.name),
   (txt "hard_gates", .obj (packet.hardGates.map fun g => (g.1, .bool g.2))),
   (txt "commit_paths", config.getD (txt "commit_paths") (.arr [])), (txt "asi", .obj asi),
   (txt "entry_type", .str (txt "packet")), (txt "description", .str description),
   (txt "metrics", .obj (packet.metrics.map fun m => (m.1, .float m.2)))]

/-- `log_packet`: the session with the entry, or the error. -/
def logPacket (s : Session) (packet : Packet) (status : Status) (asi : Fields)
    (description : Text) : Except Text Session :=
  match latestConfig s.ledger with
  | none => .error (txt "missing config entry in autoresearch.jsonl; run setup first")
  | some config =>
      if packet.freshnessFingerprint ≠ fingerprintOf p git s config then
        .error (txt "last-run packet is stale; rerun next before logging")
      else if (status = .keep ∨ status = .discard) ∧
          (SortedMap.get? (metricName config) packet.metrics).isNone = true then
        .error (txt "keep/discard requires a finite primary metric")
      else if status = .keep ∧ gateFailures packet.hardGates ≠ [] then
        .error (txt "keep rejected; hard gates failed: " ++
          joinWith (txt ", ") (gateFailures packet.hardGates))
      else if validateAsi p asi status ≠ [] then
        .error (txt "ASI missing or unsafe fields: " ++
          joinWith (txt ", ") (validateAsi p asi status))
      else .ok { s with ledger := s.ledger ++ [logEntry config packet status asi description] }

end Functions
end RalphVault.AutoResearch
