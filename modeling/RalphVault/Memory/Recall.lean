import RalphVault.Memory.Index

/-!
# Memory tree — recall

`recall` of `scripts/memory/recall_v2.py`: the payloads that are not rejected
are scored and ranked, and rendered until the limit or the budget is reached.
Scores are exact numbers. The entry in the usage ledger is left out, as is the
time a recall takes.
-/

namespace RalphVault.Memory

/-- What a recall takes from the clock and from floats. -/
structure Clock where
  /-- Whole days since `datetime.fromisoformat(text)`, if it is a time. -/
  ageDays : Text → Option Int
  /-- `round(x, 2)`. -/
  round2 : Rat → Rat

structure RecallContext where
  host : Host
  clock : Clock
  context : Context
  includeDeprecated : Bool

section Text

variable (host : Host)

mutual
/-- `json.dumps(value, ensure_ascii=True)`. -/
def jsonLine : Value → Text
  | .null => txt "null"
  | .bool b => if b then txt "true" else txt "false"
  | .int n => Json.intText n
  | .float q => host.floatText q
  | .str t => Json.asciiQuoteTo t []
  | .arr vs => '[' :: (joinWith [',', ' '] (jsonItems vs) ++ [']'])
  | .obj fs => '\x7b' :: (joinWith [',', ' '] (jsonMembers fs) ++ ['\x7d'])

def jsonItems : List Value → List Text
  | [] => []
  | v :: vs => jsonLine v :: jsonItems vs

def jsonMembers : List (Text × Value) → List Text
  | [] => []
  | (k, v) :: fs => (Json.asciiQuoteTo k [] ++ [':', ' '] ++ jsonLine v) :: jsonMembers fs
end

/-- `estimate_units`. -/
def estimateUnits (item : Fields) : Nat := max 1 (words (jsonLine host (.obj item))).length

end Text

/-! ## Scores -/

section Score

variable (host : Host) (clock : Clock)

/-- `text_score`. -/
def textScore (queryTerms : List Text) (v : Value) (weight : Nat) : Nat :=
  let haystack := host.lower (compactValue host v)
  ((queryTerms.filter fun item => !item.isEmpty && contains item haystack).map
    fun _ => weight).sum

/-- The terms a score counts. -/
def scoringTerms (analysis : Analysis) : List Text :=
  if analysis.riskLevel = .high then analysis.searchTerms
  else analysis.searchTerms.filter fun item => !lowSignalTerms.contains item

/-- The members beside summary and trigger that a score looks at. -/
def entityPaths (d : Fields) : Value :=
  .obj [(txt "entities", d.getD (txt "entities") .null),
    (txt "paths", d.getD (txt "source_paths") .null),
    (txt "tags", d.getD (txt "topic_tags") .null),
    (txt "links", d.getD (txt "links") .null)]

/-- The part of a score that the terms of the query give. -/
def matchScore (d : Fields) (analysis : Analysis) : Nat :=
  let terms := scoringTerms analysis
  textScore host terms (d.getD (txt "summary") .null) 5 +
    textScore host terms (.obj (objectAt d (txt "trigger"))) 8 +
    textScore host terms (entityPaths d) 6

/-- `parse_time`, as the age in days. -/
def ageOf (v : Value) : Option Int := clock.ageDays (pyStr host v)

def recencyScore (d : Fields) : Rat :=
  match (ageOf host clock (d.getD (txt "updated_at") .null)).or
      (ageOf host clock (d.getD (txt "created_at") .null)) with
  | some days => if days ≤ 30 then 2 else 1 / 2
  | none => 0

/-- A number, as `isinstance(value, (int, float))` knows it. -/
def asNumber : Value → Option Rat
  | .bool b => some (if b then 1 else 0)
  | .int n => some n
  | .float q => some q
  | _ => none

def salienceScore (d : Fields) : Rat :=
  clock.round2 (((objectAt d (txt "salience")).filterMap fun e => asNumber e.2).sum * 2)

def graphBonus (d : Fields) : Rat := min (itemsAt d (txt "links")).length 3

def avoidTerms : List Text :=
  [txt "avoid", txt "repeat", txt "mistake", txt "risk", txt "unsafe", txt "shortcut"]

/-- `score_node`. -/
def scoreNode (d : Fields) (analysis : Analysis) : Rat :=
  if matchScore host d analysis = 0 then 0
  else
    let stalePenalty : Rat := if isTrue ((qualityOf d).getD (txt "stale") .null) then 12 else 0
    let deprecatedPenalty : Rat := if deprecated host d then 25 else 0
    let mergePenalty : Rat :=
      if isText (d.getD (txt "visibility") .null) (txt "merge_candidate") then 8 else 0
    let negativeBonus : Rat :=
      if isText (d.getD (txt "memory_type") .null) (txt "negative_rule") &&
          avoidTerms.any analysis.semanticTerms.contains then 6 else 0
    matchScore host d analysis + recencyScore host clock d + salienceScore clock d +
      graphBonus d + negativeBonus - stalePenalty - deprecatedPenalty - mergePenalty

end Score

/-! ## Rendering -/

/-- `render_context`. -/
def renderContext (clock : Clock) (d : Fields) (risk : Risk) (score : Rat) : Memo Fields :=
  match d.get? (txt "node_id") with
  | none => .error (.other "KeyError")
  | some nodeId =>
      let byRisk : Fields := match risk with
        | .low => [(txt "trigger", d.getD (txt "trigger") (.obj [])),
            (txt "topic_tags", d.getD (txt "topic_tags") (.arr []))]
        | .medium => [(txt "detailed_summary", d.getD (txt "detailed_summary") (.str [])),
            (txt "source_paths", d.getD (txt "source_paths") (.arr []))]
        | .high => [(txt "trigger", d.getD (txt "trigger") (.obj [])),
            (txt "RAW_RECOMMENDED", .bool (truthy (d.getD (txt "raw_ref") .null))),
            (txt "raw_included", .bool false)]
      .ok ([(txt "node_id", nodeId), (txt "score", .float (clock.round2 score)),
          (txt "confidence", (qualityOf d).getD (txt "confidence") .null),
          (txt "summary", d.getD (txt "summary") (.str []))] ++ byRisk ++
        (if isText (d.getD (txt "visibility") .null) (txt "merge_candidate") then
          [(txt "visibility", .str (txt "merge_candidate")), (txt "MERGE_CANDIDATE", .bool true)]
        else []) ++
        if isText (d.getD (txt "memory_type") .null) (txt "negative_rule") then
          [(txt "NEGATIVE_MEMORY", .bool true),
            (txt "warning_reason", (qualityOf d).getD (txt "reason") (.str []))]
        else [])

/-- `raw_read_command`. -/
def rawReadCommand (nodeId : Text) : Text :=
  txt "python3 scripts/memory/read_memory_node.py --project-root . --node-id " ++ nodeId ++
    txt " --depth 2 --redact"

/-- What a recall of high risk adds to an item. -/
def withHint (host : Host) (risk : Risk) (item : Fields) : Fields :=
  if risk = .high then
    (item.set (txt "RAW_RECOMMENDED") (.bool true)).set (txt "suggested_read_command")
      (.str (rawReadCommand (pyStr host (item.getD (txt "node_id") .null))))
  else item

/-! ## Selection -/

structure Selection where
  items : List Fields
  used : Nat
  refused : List Value
  rawRecommended : Bool

/-- The loop of `recall` over the ranked matches as they are rendered. -/
def select (host : Host) (risk : Risk) (limit budget : Nat) :
    List (Memo Fields) → Selection → Memo Selection
  | [], s => .ok s
  | next :: rest, s =>
      if limit ≤ s.items.length then .ok s
      else match next with
        | .error e => .error e
        | .ok item =>
            let needed := estimateUnits host item
            if budget < s.used + needed then
              select host risk limit budget rest
                { s with refused := s.refused ++ [item.getD (txt "node_id") .null] }
            else
              let item' := withHint host risk item
              select host risk limit budget rest
                { s with
                  items := s.items ++ [item']
                  used := s.used + needed
                  rawRecommended := s.rawRecommended ||
                    truthy (item'.getD (txt "RAW_RECOMMENDED") .null) }

structure Match where
  score : Rat
  fields : Fields

/-- The second part of the sort key. -/
def Match.key (host : Host) (m : Match) : Text :=
  pyStr host (m.fields.getD (txt "node_id") (.str []))

/-- The order by `(-score, node_id)`. -/
def Match.before (host : Host) (m m' : Match) : Prop :=
  m'.score < m.score ∨ m.score = m'.score ∧ textLt (m'.key host) (m.key host) = false

instance (host : Host) : DecidableRel (Match.before host) := fun m m' => by
  unfold Match.before
  infer_instance

section Recall

variable (env : RecallContext)

/-- What becomes of a payload: the reason to reject it, or a match. -/
def judge (analysis : Analysis) (p : Payload) : Except String Match :=
  match hardRejectReason env.host p.fields env.context env.includeDeprecated analysis, p.fields with
  | some reason, _ => .error reason
  | none, none => .error "invalid_node"
  | none, some d =>
      let score := scoreNode env.host env.clock d analysis
      if score ≤ 0 then .error "no_match" else .ok ⟨score, d⟩

/-- `node_id_for`. -/
def nodeIdFor (p : Payload) : Text :=
  match p.fields.bind fun d => asText (d.getD (txt "node_id") .null) with
  | some id => id
  | none => p.stem

def rejectedOf (analysis : Analysis) (payloads : List Payload) : List (Text × String) :=
  payloads.filterMap fun p => match judge env analysis p with
    | .error reason => some (nodeIdFor p, reason)
    | .ok _ => none

def matchesOf (analysis : Analysis) (payloads : List Payload) : List Match :=
  payloads.filterMap fun p => (judge env analysis p).toOption

def ranked (ms : List Match) : List Match := ms.insertionSort (Match.before env.host)

/-- What a recall reports. -/
structure Report where
  analysis : Analysis
  memoryContext : List Fields
  selectedMemoryIds : List Value
  rejected : List (Text × String)
  used : Nat
  rawRecommended : Bool

/-- The ranked matches, rendered. -/
def rendered (analysis : Analysis) (payloads : List Payload) : List (Memo Fields) :=
  (ranked env (matchesOf env analysis payloads)).map fun m =>
    renderContext env.clock m.fields analysis.riskLevel m.score

/-- `recall` on given payloads. -/
def recallOver (analysis : Analysis) (limit budget : Nat) (payloads : List Payload) :
    Memo Report := do
  let s ← select env.host analysis.riskLevel limit budget (rendered env analysis payloads)
    ⟨[], 0, [], analysis.riskLevel = .high⟩
  pure {
    analysis := analysis
    memoryContext := s.items
    selectedMemoryIds := s.items.map fun item => item.getD (txt "node_id") .null
    rejected := rejectedOf env analysis payloads ++
      s.refused.map fun id => (pyStr env.host id, "budget_exceeded")
    used := s.used
    rawRecommended := s.rawRecommended }

/-- `recall`. -/
def «recall» (order : List Text → List Text) (query : Text) (limit budget : Nat)
    (store : NodeStore) : Memo Report := do
  let analysis := analyzeQuery env.host query
  let payloads ← candidatePayloads env.host order store analysis
  recallOver env analysis limit budget payloads

/-- The recall that scores every node. -/
def fullRecall (query : Text) (limit budget : Nat) (store : NodeStore) : Memo Report := do
  let analysis := analyzeQuery env.host query
  let payloads ← iterNodePayloads env.host store
  recallOver env analysis limit budget payloads

end Recall

end RalphVault.Memory
