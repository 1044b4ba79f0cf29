import RalphVault.Json
import RalphVault.Outcome
import RalphVault.Security.SensitiveContent

/-!
# Implementation store — field checks

The field checks of `implementation_store/schema.py`. A check takes the
JSON value found under a key and returns the typed value or the error
the source raises, with its text.
-/

namespace RalphVault.Store

/-! ## Errors and environment -/

/-- The exceptions of the store, by class. -/
inductive Fault where
  | schemaError (message : String)
  | futureSchemaError (message : String)
  | redContentError (message : String)
  | storePathError (message : String)
  | storeError (message : String)
  | idempotencyError (message : String)
  | integrityError (message : String)
  | storeIOError (message : String)
  | corruptRecordError (message : String)
  | valueError (message : String)

/-- The classes a call can fail with for a logical reason: `SchemaError`
with its subclasses, and `StoreError` with its subclasses. -/
def Fault.logical : Fault → Bool
  | schemaError _ | futureSchemaError _ | redContentError _ => true
  | storeError _ | idempotencyError _ | integrityError _ => true
  | _ => false

/-- What the store takes from its host: the hash function as a map from
texts to hexadecimal digests, the Unicode database, a classifier that
agrees with the scanner, and the root of the primary checkout. -/
structure Env where
  sha256 : Text → Text
  sha256_length : ∀ t, (sha256 t).length = 64
  sha256_hex : ∀ t, ∀ c ∈ sha256 t, isAsciiDigit c ∨ (97 ≤ c.toNat ∧ c.toNat ≤ 102)
  unicode : Unicode
  red : Text → Bool
  red_eq : ∀ t, red t = Security.isRed unicode t
  primaryRoot : Text

abbrev Check := Except Fault

export RalphVault.Outcome (bind_eq_ok map_eq_ok)

theorem bind_eq_error {x : Check α} {f : α → Check β} {e : Fault} :
    (x >>= f) = .error e ↔ x = .error e ∨ ∃ a, x = .ok a ∧ f a = .error e := by
  cases x with
  | error e => simp [bind, Except.bind]
  | ok a => simp [bind, Except.bind]

/-- `raise e` unless `b`. -/
def require (b : Bool) (e : Fault) : Check Unit := if b then .ok () else .error e

@[simp] theorem require_eq_ok {b : Bool} {e : Fault} {u : Unit} :
    require b e = .ok u ↔ b = true := by
  unfold require
  split <;> simp_all

theorem require_eq_error {b : Bool} {e f : Fault} :
    require b e = .error f ↔ b = false ∧ e = f := by
  cases b <;> simp [require]

@[simp] theorem require_true {e : Fault} : require true e = .ok () := rfl

/-! ## Dictionaries -/

/-- A Python `dict` with string keys, in insertion order. -/
abbrev Dict := List (Text × Json)

namespace Dict

def get? (k : Text) : Dict → Option Json
  | [] => none
  | (k', v) :: d => if k' = k then some v else get? k d

/-- `d.get(k, default)`. -/
def getD (k : Text) (default : Json) (d : Dict) : Json := (get? k d).getD default

/-- `d[k] = v`. -/
def set (k : Text) (v : Json) : Dict → Dict
  | [] => [(k, v)]
  | (k', v') :: d => if k' = k then (k, v) :: d else (k', v') :: set k v d

/-- `d.update(e)`. -/
def update (d e : Dict) : Dict := e.foldl (fun acc m => set m.1 m.2 acc) d

def keys (d : Dict) : List Text := d.map Prod.fst

/-- `{k: v for k, v in d.items() if k not in ks}`. -/
def without (ks : List Text) (d : Dict) : Dict := d.filter fun m => !ks.contains m.1

theorem get?_set (k k' : Text) (v : Json) (d : Dict) :
    get? k (set k' v d) = if k' = k then some v else get? k d := by
  induction d with
  | nil => simp [set, get?]
  | cons m d ih =>
      obtain ⟨k'', v''⟩ := m
      by_cases h : k'' = k'
      · subst h
        by_cases hk : k'' = k <;> simp [set, get?, hk]
      · by_cases hk : k'' = k
        · subst hk
          simp [set, get?, h, Ne.symm h]
        · simp [set, get?, h, hk, ih]

end Dict

/-! ## Enumerations -/

inductive Status where
  | planned | active | completed | blocked | superseded | reopened
deriving DecidableEq

inductive Classification where
  | green | yellow
deriving DecidableEq

inductive GateResult where
  | notRun | pending | partialResult | pass | fail | blocked
deriving DecidableEq

inductive ModelFamily where
  | luna | terra | sol | unknown
deriving DecidableEq

inductive ModelSource where
  | payload | environment | repositoryDefault | unknown
deriving DecidableEq

/-- `MATERIAL_EVENT_KINDS`. -/
inductive EventKind where
  | started | phaseChanged | decision | deviation | blockerOpened | blockerResolved
  | questionOpened | questionResolved | validationChanged | completed | reopened
  | migrationImported | looseCommitRecorded
deriving DecidableEq

/-- An enumeration by the names of its members. -/
class Named (β : Type) where
  members : List β
  name : β → Text
  complete : ∀ b, b ∈ members
  distinct : ∀ a b, name a = name b → a = b

export Named (name)

instance : Named Status where
  members := [.planned, .active, .completed, .blocked, .superseded, .reopened]
  name
    | .planned => txt "planned" | .active => txt "active" | .completed => txt "completed"
    | .blocked => txt "blocked" | .superseded => txt "superseded" | .reopened => txt "reopened"
  complete b := by cases b <;> simp
  distinct a b := by cases a <;> cases b <;> decide

instance : Named Classification where
  members := [.green, .yellow]
  name | .green => txt "GREEN" | .yellow => txt "YELLOW"
  complete b := by cases b <;> simp
  distinct a b := by cases a <;> cases b <;> decide

instance : Named GateResult where
  members := [.notRun, .pending, .partialResult, .pass, .fail, .blocked]
  name
    | .notRun => txt "not_run" | .pending => txt "pending" | .partialResult => txt "partial"
    | .pass => txt "pass" | .fail => txt "fail" | .blocked => txt "blocked"
  complete b := by cases b <;> simp
  distinct a b := by cases a <;> cases b <;> decide

instance : Named ModelFamily where
  members := [.luna, .terra, .sol, .unknown]
  name
    | .luna => txt "luna" | .terra => txt "terra" | .sol => txt "sol" | .unknown => txt "unknown"
  complete b := by cases b <;> simp
  distinct a b := by cases a <;> cases b <;> decide

instance : Named ModelSource where
  members := [.payload, .environment, .repositoryDefault, .unknown]
  name
    | .payload => txt "payload" | .environment => txt "environment"
    | .repositoryDefault => txt "repository-default" | .unknown => txt "unknown"
  complete b := by cases b <;> simp
  distinct a b := by cases a <;> cases b <;> decide

instance : Named EventKind where
  members := [.started, .phaseChanged, .decision, .deviation, .blockerOpened, .blockerResolved,
    .questionOpened, .questionResolved, .validationChanged, .completed, .reopened,
    .migrationImported, .looseCommitRecorded]
  name
    | .started => txt "started" | .phaseChanged => txt "phase_changed"
    | .decision => txt "decision" | .deviation => txt "deviation"
    | .blockerOpened => txt "blocker_opened" | .blockerResolved => txt "blocker_resolved"
    | .questionOpened => txt "question_opened" | .questionResolved => txt "question_resolved"
    | .validationChanged => txt "validation_changed" | .completed => txt "completed"
    | .reopened => txt "reopened" | .migrationImported => txt "migration_imported"
    | .looseCommitRecorded => txt "loose_commit_recorded"
  complete b := by cases b <;> simp
  distinct a b := by cases a <;> cases b <;> decide

/-! ## Checks of one value -/

section Checks

variable (env : Env)

/-- `is_red`, through `shared/redaction.py`. -/
def isRed (t : Text) : Bool := env.red t

/-- `_reject_red`. -/
def rejectRed (j : Json) (label : String) : Check Unit :=
  require (!isRed env j.canonical) (.redContentError s!"{label} contains RED-sensitive content")

/-- `_object`. -/
def object (j : Json) (label : String) : Check Dict :=
  match j with
  | .obj d => .ok d
  | _ => .error (.schemaError s!"{label} must be a JSON object")

/-- `_unknown_keys`. -/
def unknownKeys (d : Dict) (allowed : List Text) (label : String) : Check Unit :=
  let unknown := d.keys.filter fun k => !allowed.contains k
  let names := String.ofList (joinWith (txt ", ")
    ((Json.sortMembers (unknown.map fun k => (k, ()))).map Prod.fst))
  require unknown.isEmpty (.schemaError s!"{label} contains unknown fields: {names}")

/-- `_schema_version`. -/
def schemaVersion (d : Dict) (label : String) : Check Unit :=
  match d.getD (txt "schema_version") .null with
  | .num n =>
      if 1 < n then .error (.futureSchemaError s!"{label} uses unsupported future schema {n}")
      else require (n == 1) (.schemaError s!"{label} schema_version {n} is unsupported")
  | _ => .error (.schemaError s!"{label}.schema_version must be an integer")

/-- `_enum`. -/
def enum [Named β] (j : Json) (label : String) : Check β :=
  match j with
  | .str t => match (Named.members : List β).find? fun b => name b == t with
      | some b => .ok b
      | none => .error (.schemaError s!"{label} has an unsupported value")
  | _ => .error (.schemaError s!"{label} has an unsupported value")

/-- `_integer` with a lower bound. -/
def integer (j : Json) (label : String) (minimum : Nat) : Check Nat :=
  match j with
  | .num n =>
      if (minimum : Int) ≤ n then .ok n.toNat
      else .error (.schemaError s!"{label} must be an integer >= {minimum}")
  | _ => .error (.schemaError s!"{label} must be an integer >= {minimum}")

def boolean (j : Json) (label : String) : Check Bool :=
  match j with
  | .bool b => .ok b
  | _ => .error (.schemaError s!"{label} must be boolean")

/-- `_text`. -/
def text (j : Json) (label : String) (limit : Nat) (allowEmpty : Bool) : Check Text :=
  match j with
  | .str t => do
      require ((allowEmpty || !isBlank t) && t.length ≤ limit)
        (.schemaError s!"{label} must be a bounded string")
      require (t.all fun c => 32 ≤ c.toNat || c == '\n' || c == '\t')
        (.schemaError s!"{label} contains a control character")
      require (!isRed env t) (.redContentError s!"{label} contains RED-sensitive content")
      pure t
  | _ => .error (.schemaError s!"{label} must be a bounded string")

/-- `_timestamp`. -/
def timestamp (j : Json) (label : String) (allowEmpty : Bool) : Check Text :=
  text env j label 64 allowEmpty

/-- `_ID_RE`. -/
def isIdentifier (t : Text) : Bool :=
  match t with
  | [] => false
  | c :: cs => isAsciiAlnum c && cs.length ≤ 95 &&
      cs.all fun d => isAsciiAlnum d || ['.', '_', ':', '/', '-'].contains d

/-- `_CODE_RE`. -/
def isCode (t : Text) : Bool :=
  match t with
  | [] => false
  | c :: cs => isAsciiAlnum c && cs.length ≤ 63 &&
      cs.all fun d => isAsciiAlnum d || ['.', '_', ':', '-'].contains d

/-- `[0-9a-f]`. -/
def isHexDigit (c : Char) : Bool := isAsciiDigit c || (97 ≤ c.toNat && c.toNat ≤ 102)

/-- `_COMMIT_RE`. -/
def isCommit (t : Text) : Bool := 7 ≤ t.length && t.length ≤ 64 && t.all isHexDigit

/-- `_HASH_RE`. -/
def isHash (t : Text) : Bool :=
  startsWith (txt "sha256:") t && t.length == 71 && (t.drop 7).all isHexDigit

/-- `_identifier`. -/
def identifier (j : Json) (label : String) (allowEmpty : Bool) : Check Text :=
  match j with
  | .str t =>
      if allowEmpty && t.isEmpty then .ok []
      else do
        require (isIdentifier t) (.schemaError s!"{label} must be a bounded identifier")
        require (!isRed env t) (.redContentError s!"{label} contains RED-sensitive content")
        pure t
  | _ => .error (.schemaError s!"{label} must be a bounded identifier")

/-- `_plan_id`. -/
def planId (j : Json) (allowEmpty : Bool) : Check Text :=
  match j with
  | .str t =>
    if allowEmpty && t.isEmpty then .ok []
    else do
      require (!t.isEmpty && t.length ≤ 180 && !t.contains '\\' && !startsWith ['/'] t)
        (.schemaError "plan_id must be a bounded relative identifier")
      let parts := splitOn '/' t
      require (parts.length ≤ 8 && parts.all fun p => !(p.isEmpty || p == ['.'] || p == ['.', '.']))
        (.schemaError "plan_id contains traversal")
      require (parts.all fun p => !startsWith ['~'] p && p.all fun c => 32 ≤ c.toNat)
        (.schemaError "plan_id contains an invalid component")
      require (!isRed env t) (.redContentError "plan_id contains RED-sensitive content")
      pure t
  | _ => .error (.schemaError "plan_id must be a bounded relative identifier")

/-- `_hash`. -/
def hash (j : Json) (label : String) (allowEmpty : Bool) : Check Text :=
  match j with
  | .str t =>
      if allowEmpty && t.isEmpty then .ok []
      else do
        require (isHash t) (.schemaError s!"{label} must be a sha256 digest")
        pure t
  | _ => .error (.schemaError s!"{label} must be a sha256 digest")

/-- `_repo_relative_path`. -/
def repoRelativePath (j : Json) (label : String) (allowEmpty : Bool) : Check Text :=
  match j with
  | .str t =>
      if allowEmpty && t.isEmpty then .ok []
      else do
        require (!t.isEmpty && t.length ≤ 320 && !startsWith ['/'] t && !t.contains '\\')
          (.schemaError s!"{label} must be a repository-relative path")
        require ((splitOn '/' t).all fun p => !(p.isEmpty || p == ['.'] || p == ['.', '.']))
          (.schemaError s!"{label} contains traversal or empty components")
        require (!isRed env t) (.redContentError s!"{label} contains RED-sensitive content")
        pure t
  | _ => .error (.schemaError s!"{label} must be a repository-relative path")

/-- `_store_relative_path`. -/
def storeRelativePath (j : Json) (label : String) : Check Text := do
  let t ← repoRelativePath env j label false
  require (startsWith (txt ".local-notes/ralph/implementation/") t &&
      startsWith (txt "/state.json").reverse t.reverse)
    (.schemaError s!"{label} must point inside the canonical implementation store")
  pure t

/-- Check the items of a list one after another, numbered from `i`. -/
def items (f : Json → String → Check β) (label : String) : Nat → List Json → Check (List β)
  | _, [] => .ok []
  | i, j :: js => do
      let b ← f j s!"{label}[{i}]"
      let bs ← items f label (i + 1) js
      pure (b :: bs)

/-- A list of at most `maxItems` items. -/
def boundedList (f : Json → String → Check β) (j : Json) (label : String) (maxItems : Nat) :
    Check (List β) :=
  match j with
  | .arr js => do
      require (js.length ≤ maxItems) (.schemaError s!"{label} must be a bounded list")
      items f label 0 js
  | _ => .error (.schemaError s!"{label} must be a bounded list")

/-- `_text_list`. -/
def textList (j : Json) (label : String) (maxItems maxLength : Nat) : Check (List Text) :=
  boundedList (fun v l => text env v l maxLength false) j label maxItems

/-- `_path_list`. -/
def pathList (j : Json) (label : String) (maxItems : Nat) : Check (List Text) :=
  boundedList (fun v l => repoRelativePath env v l false) j label maxItems

/-- One evidence code. -/
def code (j : Json) (label : String) : Check Text :=
  match j with
  | .str t => do
      require (isCode t) (.schemaError s!"{label} must be a bounded evidence code")
      pure t
  | _ => .error (.schemaError s!"{label} must be a bounded evidence code")

/-- `_code_list`. -/
def codeList (j : Json) (label : String) (maxItems : Nat) : Check (List Text) :=
  boundedList code j label maxItems

end Checks
end RalphVault.Store
