import RalphVault.Advisor.Payload

/-!
# Advisor — prompts

What `sol_advisor.py` reads off the text of a prompt: its intent, its
impact, whether it continues a task or begins another one, and its
sensitivity.
-/

namespace RalphVault.Advisor

open Memory Security Regex

section Patterns

variable (uni : Unicode)

/-- A literal under `re.IGNORECASE`, written in lower case. -/
def anyCase (w : Text) : Regex Char :=
  word (fun a c => foldCase c == a || (a == 'ó' && c == 'Ó')) w

def anyCaseOf (ws : List Text) : Regex Char := anyOf (ws.map anyCase)

/-- `\s+`. -/
def gap : Regex Char := atLeast 1 space

/-- `^\s*`. -/
def lineStart : Regex Char := .cat (look fun l _ => l.isNone) (star true space)

/-- `HIGH_IMPACT_RE`. -/
def highImpactRe : Regex Char :=
  seq [boundary uni,
    anyCaseOf [txt "architecture", txt "authorization", txt "auth", txt "schema", txt "database",
      txt "migration", txt "rollout", txt "deploy", txt "public api", txt "external interface",
      txt "breaking", txt "security", txt "compliance", txt "contract"],
    boundary uni]

/-- `EXPLICIT_RE`. -/
def explicitRe : Regex Char :=
  seq [boundary uni,
    anyOf [seq [anyCase (txt "sol"), opt (among [' ', '-']), anyCase (txt "advisor")],
      seq [anyCase (txt "consult"), opt (anyCase (txt "ar")), gap,
        opt (seq [anyCase (txt "a"), gap]), anyCase (txt "sol")]],
    boundary uni]

/-- `CONTINUATION_RE`. -/
def continuationRe : Regex Char :=
  seq [lineStart,
    anyCaseOf [txt "continue", txt "continua", txt "sigue", txt "resume", txt "where were we"],
    boundary uni]

/-- What a new task is of. -/
def newTaskNouns : List Text :=
  [txt "task", txt "request", txt "problem", txt "issue", txt "work", txt "project",
   txt "validation", txt "step"]

/-- `first\s+(?:nouns)`. -/
def phrase (first : Text) (nouns : List Text) : Regex Char :=
  seq [anyCase first, gap, anyCaseOf nouns]

/-- `TASK_BOUNDARY_RE`. -/
def taskBoundaryRe : Regex Char :=
  seq [lineStart,
    anyOf [phrase (txt "new") newTaskNouns,
      phrase (txt "nueva") [txt "tarea", txt "solicitud", txt "problema", txt "incidencia",
        txt "validación", txt "validacion", txt "etapa"],
      phrase (txt "another") [txt "task", txt "request", txt "problem", txt "issue"],
      phrase (txt "otra") [txt "tarea", txt "solicitud", txt "problema", txt "incidencia"],
      phrase (txt "separate") [txt "task", txt "request", txt "problem"],
      phrase (txt "unrelated") [txt "task", txt "request", txt "problem"],
      phrase (txt "different") [txt "task", txt "request", txt "problem"],
      phrase (txt "distinta") [txt "tarea", txt "solicitud", txt "problema"],
      seq [anyCase (txt "start"), opt (anyCase (txt "ing")), gap,
        opt (seq [anyCase (txt "a"), gap]), anyCase (txt "new"), gap, anyCaseOf newTaskNouns],
      seq [anyCase (txt "reinicia"), opt (anyCase (txt "r")),
        opt (seq [gap, anyCase (txt "la"), gap, anyCase (txt "tarea")])],
      seq [anyCase (txt "restart"), gap, opt (seq [anyCase (txt "the"), gap]),
        anyCase (txt "task")],
      seq [anyCase (txt "start"), gap, anyCase (txt "over")],
      seq [anyCase (txt "empezar"), gap, anyCase (txt "de"), gap, anyCase (txt "nuevo")]],
    boundary uni]

/-- `\b(words)\b`. -/
def wordRe (ws : List Text) : Regex Char := seq [boundary uni, anyOf (ws.map lit), boundary uni]

/-- The intents of `_infer_intent`, with the words that show them. -/
def intentWords : List (Text × List Text) :=
  [(txt "security",
    [txt "security", txt "vulnerability", txt "compliance", txt "threat model", txt "secreto",
     txt "credencial"]),
   (txt "migration",
    [txt "migration", txt "migrate", txt "migración", txt "migracion", txt "rollout",
     txt "deploy", txt "despliegue"]),
   (txt "debugging",
    [txt "debug", txt "debugging", txt "diagnos", txt "failure", txt "failing", txt "broken",
     txt "error", txt "fallo", txt "avería", txt "averia"]),
   (txt "architecture",
    [txt "architecture", txt "architectural", txt "arquitectura", txt "design", txt "diseño",
     txt "diseno"]),
   (txt "implementation",
    [txt "implement", txt "implementation", txt "fix", txt "patch", txt "build", txt "create",
     txt "modify", txt "change", txt "add", txt "refactor", txt "implementar", txt "corregir",
     txt "construir", txt "crear", txt "modificar", txt "cambiar", txt "agregar",
     txt "refactorizar"])]

end Patterns

/-! ## Sensitivity -/

inductive Sensitivity where
  | green
  | yellow
  | red
deriving DecidableEq

namespace Sensitivity

/-- `SENSITIVITY_RANK`. -/
def rank : Sensitivity → Nat
  | green => 0
  | yellow => 1
  | red => 2

def name : Sensitivity → Text
  | green => txt "GREEN"
  | yellow => txt "YELLOW"
  | red => txt "RED"

def ofName (t : Text) : Option Sensitivity := [green, yellow, red].find? fun s => s.name == t

/-- The higher of two. -/
def join (s t : Sensitivity) : Sensitivity := if s.rank < t.rank then t else s

theorem rank_join (s t : Sensitivity) : (s.join t).rank = max s.rank t.rank := by
  cases s <;> cases t <;> rfl

theorem rank_le_red (s : Sensitivity) : s.rank ≤ red.rank := by
  cases s <;> decide

theorem eq_red_of_rank {s : Sensitivity} (h : red.rank ≤ s.rank) : s = red := by
  cases s with
  | red => rfl
  | green => cases (by decide : ¬ red.rank ≤ green.rank) h
  | yellow => cases (by decide : ¬ red.rank ≤ yellow.rank) h

end Sensitivity

section Prompts

variable (p : Platform)

/-- `is_red`. -/
def redPrompt (prompt : Text) : Bool := isRed p.unicode prompt

/-- The sensitivities a payload states. -/
def statedSensitivities (d : Payload) : List Sensitivity :=
  (d :: containers d).flatMap fun source =>
    [txt "sensitivity", txt "classification"].filterMap fun k =>
      Sensitivity.ofName (p.upper (boundedText 16 (source.get? k)))

/-- `_sensitivity`. -/
def sensitivityOf (prompt : Text) (d : Payload) : Sensitivity :=
  let stated := (statedSensitivities p d).foldl Sensitivity.join .green
  if stated = .red || redPrompt p prompt then .red else stated

/-! ## The task of a prompt -/

/-- A flag of a payload that begins another task. -/
def boundaryFlag (d : Payload) : Bool :=
  [txt "new_task", txt "newTask", txt "task_boundary", txt "taskBoundary", txt "start_new_task",
    txt "startNewTask"].any fun k => (d.get? k).any isTrue

/-- `is_task_boundary`. -/
def isTaskBoundary (d : Payload) (prompt : Text) : Bool :=
  boundaryFlag d || test (taskBoundaryRe p.unicode) prompt

def isContinuation (prompt : Text) : Bool := test (continuationRe p.unicode) prompt

def explicitRequest (prompt : Text) : Bool := test (explicitRe p.unicode) prompt

/-- `sorted({match.group(1).lower() ...})[:4]`. -/
def impactReasons (prompt : Text) : List Text :=
  let hits := (pieces (highImpactRe p.unicode) prompt).filterMap fun
    | .hit u => some (p.lower u)
    | .keep _ => none
  ((SortedMap.ofList textLt (hits.map fun u => (u, ()))).map Prod.fst).take 4

/-- `_infer_intent`. -/
def inferIntent (prompt : Text) (d : Payload) : Text :=
  let explicit := boundedText 48 (payloadValue d [txt "intent", txt "task_type", txt "taskType"])
  if !explicit.isEmpty then hyphenated (p.lower explicit)
  else
    let lowered := p.lower prompt
    ((intentWords.find? fun i => test (wordRe p.unicode i.2) lowered).map Prod.fst).getD
      (txt "routine")

/-- `task_identity`. `session` is the safe id of the session. -/
def taskIdentity (session prompt : Text) : Text :=
  hashMaterial p [txt "task", session, p.lower (compactSpace prompt)]

end Prompts
end RalphVault.Advisor
