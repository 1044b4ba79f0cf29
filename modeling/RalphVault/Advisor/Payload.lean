import RalphVault.Memory.Value
import RalphVault.Security.SensitiveContent

/-!
# Advisor — hook payloads

What the functions of `sol_advisor.py` read out of the payload of a hook:
a JSON object whose members may stand under several names, may be missing
and may be of any type.
-/

namespace RalphVault.Advisor

open Memory

/-- The interpreter of the hooks. -/
structure Platform extends Host where
  /-- `str.upper`. -/
  upper : Text → Text
  /-- `int(text)`. -/
  intOf : Text → Option Int
  /-- `json.dumps` with sorted keys and without spaces. -/
  compactJson : Fields → Text

abbrev Payload := Fields

section Payloads

variable (p : Platform)

/-! ## Values -/

/-- `payload.get(key)`, where `None` counts as missing. -/
def lookup (d : Fields) (k : Text) : Option Value :=
  match d.get? k with
  | some .null => none
  | v => v

/-- The first member there is. -/
def firstOf (d : Fields) (keys : List Text) : Option Value := keys.findSome? (lookup d)

/-- The objects under some keys. -/
def objectsAt (d : Fields) (keys : List Text) : List Fields :=
  keys.filterMap fun k => (d.get? k).bind asObject

/-- The containers `_payload_value` and `_sensitivity` look into. -/
def containers (d : Payload) : List Fields :=
  objectsAt d [txt "task_intake", txt "taskIntake", txt "routing", txt "route"]

/-- `_payload_value`. -/
def payloadValue (d : Payload) (keys : List Text) : Option Value :=
  (d :: containers d).findSome? fun source => firstOf source keys

/-- `_bounded_text`. -/
def boundedText (limit : Nat) : Option Value → Text
  | some (.str t) => (strip t).take limit
  | _ => []

/-- `text or None`. -/
def orNone (t : Text) : Option Text := if t.isEmpty then none else some t

/-- `text.replace("_", "-")`. -/
def hyphenated (t : Text) : Text := t.map fun c => if c = '_' then '-' else c

/-- `_parse_bool`. -/
def parseBool : Option Value → Option Bool
  | some (.bool b) => some b
  | some (.int n) => if n = 0 then some false else if n = 1 then some true else none
  | some (.float q) => if q = 0 then some false else if q = 1 then some true else none
  | some (.str t) =>
      let normalized := p.lower (strip t)
      if [txt "true", txt "yes", txt "1"].contains normalized then some true
      else if [txt "false", txt "no", txt "0"].contains normalized then some false
      else none
  | _ => none

/-- `int(value)`, unless it raises. -/
def asInt : Value → Option Int
  | .bool b => some (if b then 1 else 0)
  | .int n => some n
  | .float q => some (q.num.tdiv q.den)
  | .str t => p.intOf t
  | _ => none

/-- `max(lo, min(hi, n))`, for bounds that are not negative. -/
def clamp (lo hi : Nat) (n : Int) : Nat := (max (lo : Int) (min hi n)).toNat

/-- `_hash_material`. -/
def hashMaterial (values : List Text) : Text :=
  (p.sha256 (joinWith [Char.ofNat 31] values)).take 16

/-! ## Spawns -/

/-- `_spawn_sources`. -/
def spawnSources (d : Payload) : List Fields :=
  d :: objectsAt d [txt "tool_input", txt "toolInput", txt "input", txt "subagent", txt "agent"]

/-- A member whose text is not blank. -/
def present (d : Fields) (k : Text) : Option Value :=
  (lookup d k).filter fun v => !isBlank (pyStr p.toHost v)

def invocationKeys : List Text :=
  [txt "tool_call_id", txt "toolCallId", txt "tool_use_id", txt "toolUseId", txt "call_id",
   txt "callId", txt "invocation_id", txt "invocationId"]

def shapeKeys : List Text :=
  [txt "agent_type", txt "agentType", txt "task_name", txt "taskName", txt "model",
   txt "model_name", txt "modelName", txt "reasoning_effort", txt "reasoningEffort", txt "effort",
   txt "subagent_route", txt "subagentRoute"]

/-- The second result of `_spawn_metadata`: the exact invocation, if it is
known. -/
def invocationId (d : Payload) : Text :=
  (((spawnSources d).map fun source =>
    boundedText 80 (invocationKeys.findSome? (present p source))).find? (!·.isEmpty)).getD []

/-- The first result of `_spawn_metadata`: the shape of the spawn. -/
def spawnShape (d : Payload) : Text :=
  let values := (spawnSources d).flatMap fun source => shapeKeys.filterMap fun k =>
    (present p source k).map fun v => k ++ ['='] ++ boundedText 80 (some v)
  if values.isEmpty then [] else hashMaterial p (txt "spawn-shape" :: values)

def briefKeys : List Text :=
  [txt "message", txt "prompt", txt "brief", txt "decision_brief", txt "decisionBrief"]

/-- The briefs of a spawn, with their keys: the prompt at the top level is
that of the parent. -/
def briefs (d : Payload) : List (Text × Text) :=
  let briefsIn (keys : List Text) (source : Fields) := keys.filterMap fun k =>
    match source.get? k with
    | some (.str t) => if isBlank t then none else some (k, t)
    | _ => none
  match spawnSources d with
  | [] => []
  | top :: nested =>
      briefsIn (briefKeys.filter (· ≠ txt "prompt")) top ++ nested.flatMap (briefsIn briefKeys)

/-- `_spawn_brief_hash`. -/
def spawnBriefHash (d : Payload) : Text :=
  let material := ((briefs d).map fun b => (b.1, (strip b.2).take 8000)).eraseDups
  if material.isEmpty then []
  else hashMaterial p (txt "spawn-brief" :: material.map fun b => b.1 ++ ['='] ++ b.2)

def maxSubagentBriefBytes : Nat := 16384

/-- `_spawn_brief_bytes`. -/
def spawnBriefBytes (d : Payload) : Nat :=
  min (((briefs d).eraseDups.map fun b => utf8Len b.2).sum) maxSubagentBriefBytes

/-! ## Phases -/

inductive Phase where
  | plan
  | stuck
  | final
deriving DecidableEq

def Phase.name : Phase → Text
  | plan => txt "plan"
  | stuck => txt "stuck"
  | final => txt "final"

/-- The aliases of `normalize_phase`, and the phases themselves. -/
def phaseNames : List (Text × Phase) :=
  [(txt "initial", .plan), (txt "planning", .plan), (txt "start", .plan),
   (txt "failure", .stuck), (txt "debug", .stuck), (txt "blocked", .stuck),
   (txt "completion", .final), (txt "stop", .final), (txt "review", .final),
   (txt "plan", .plan), (txt "stuck", .stuck), (txt "final", .final)]

/-- `normalize_phase`. -/
def normalizePhase (v : Option Value) : Option Phase :=
  SortedMap.get? (hyphenated (p.lower (strip (pyStrOr p.toHost (v.getD .null))))) phaseNames

/-- The phase a payload names, if it names one. -/
def namedPhase (d : Payload) : Option Phase :=
  [txt "phase", txt "task_phase", txt "taskPhase", txt "consultation_phase",
    txt "consultationPhase"].findSome? fun k => normalizePhase p (d.get? k)

/-! ## Advisors and outcomes -/

/-- `advisor_sources`. -/
def advisorSources (d : Payload) : List Fields :=
  d :: objectsAt d [txt "tool_input", txt "subagent", txt "agent", txt "result"]

/-- The identities of an advisor that a payload carries. -/
def identities (d : Payload) : List Value :=
  (advisorSources d).flatMap fun source =>
    [txt "agent_id", txt "agentId", txt "subagent_id", txt "subagentId", txt "thread_id",
      txt "threadId"].filterMap fun k => (source.get? k).filter truthy

/-- `advisor_reference`. -/
def advisorReference (d : Payload) : Text :=
  match identities d with
  | [] => []
  | v :: _ => hashMaterial p [txt "verdict", pyStr p.toHost v]

/-- `has_completion_evidence`. -/
def hasCompletionEvidence (d : Payload) : Bool :=
  ((d.get? (txt "success")).any isTrue) && !(identities d).isEmpty

/-- `_success_from_mapping`. -/
def successFromMapping (d : Fields) : Option Bool :=
  match d.get? (txt "success") with
  | some (.bool b) => some b
  | _ => [txt "exit_code", txt "returncode", txt "return_code"].findSome? fun k =>
      match d.get? k with
      | some (.int n) => some (n == 0)
      | _ => none

/-- `success_from_payload`. -/
def successFromPayload (d : Payload) : Option Bool :=
  (d :: objectsAt d [txt "tool_response", txt "toolResponse"]).findSome? successFromMapping

/-- `command_text`. -/
def commandText (d : Payload) : Text :=
  let texts := (d :: objectsAt d [txt "tool_input"]).flatMap fun source =>
    [txt "command", txt "cmd"].filterMap fun k => (source.get? k).bind asText
  ((texts.find? (!isBlank ·)).getD []).take 2000

/-- `_is_native_spawn_payload`. -/
def isNativeSpawn (d : Payload) : Bool :=
  ([txt "tool_name", txt "toolName", txt "tool"].any fun k =>
    match d.get? k with
    | some (.str t) =>
        let name := (p.lower (strip t)).map fun c => if c = '-' then '_' else c
        [txt "spawn_agent", txt "spawnagent"].contains ((splitOn '.' name).getLastD [])
    | _ => false) ||
    contains (txt "spawn_agent") (p.lower (commandText d))

/-- `prompt_text`. -/
def promptText (d : Payload) : Text :=
  match [txt "prompt", txt "user_prompt"].findSome? fun k => (d.get? k).filter truthy with
  | some (.str t) => t
  | _ => []

end Payloads

/-! ## A platform that knows ASCII only -/

/-- A digest of sixteen digits. -/
def shortDigest (t : Text) : Text :=
  hexText 16 (t.foldl (fun h c => (h * 131 + c.toNat) % 2 ^ 61) 7)

def Platform.ascii : Platform where
  toHost := Host.ascii shortDigest
  upper t := t.map fun c => if isAsciiLower c then Char.ofNat (c.toNat - 32) else c
  intOf t :=
    let digits := strip t
    if digits.isEmpty || !digits.all isAsciiDigit then none
    else some (digits.foldl (fun n c => 10 * n + (c.toNat - 48)) (0 : Nat))
  compactJson d := Json.asciiDumps (toJson (.obj d))

end RalphVault.Advisor
