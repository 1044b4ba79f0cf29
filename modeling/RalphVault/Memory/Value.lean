import RalphVault.Security.Patterns
import RalphVault.IndentedJson

/-!
# Memory tree — values

The values a memory node is made of, as `json.loads` gives them, and what
Python makes of them: their truth, `str` and `repr`. Infinities and NaN are
left out. What the interpreter takes from elsewhere (the Unicode database,
the text of a float, the hash) is a parameter.
-/

namespace RalphVault.Memory

inductive Value where
  | null
  | bool (b : Bool)
  | int (n : Int)
  | float (q : Rat)
  | str (t : Text)
  | arr (items : List Value)
  | obj (fields : List (Text × Value))

/-- A JSON object. -/
abbrev Fields := List (Text × Value)

/-- The host of the memory scripts. -/
structure Host where
  unicode : Unicode
  /-- `str.isprintable` on one character. -/
  printable : Char → Bool
  /-- `str.lower`. -/
  lower : Text → Text
  /-- `repr` of a float. -/
  floatText : Rat → Text
  /-- `float(text)`, unless it is not a finite number. -/
  floatOf : Text → Option Rat
  /-- `sha256_text`. -/
  sha256 : Text → Text
  /-- `json.dumps` of an object, indented, with its line feed. -/
  dumps : Fields → Text
  /-- `canonical_json`. -/
  canonicalJson : Fields → Text

/-! ## Dictionaries -/

def Fields.get? (d : Fields) (k : Text) : Option Value := SortedMap.get? k d

/-- `d.get(k, default)`. -/
def Fields.getD (d : Fields) (k : Text) (v : Value) : Value := (d.get? k).getD v

/-- `d[k] = v`. -/
def Fields.set : Fields → Text → Value → Fields
  | [], k, v => [(k, v)]
  | (a, w) :: d, k, v => if a = k then (k, v) :: d else (a, w) :: Fields.set d k v

theorem Fields.get?_set (d : Fields) (k k' : Text) (v : Value) :
    (d.set k v).get? k' = if k = k' then some v else d.get? k' := by
  induction d with
  | nil => simp [set, get?, SortedMap.get?]
  | cons e d ih =>
      obtain ⟨a, w⟩ := e
      simp only [get?] at ih
      by_cases ha : a = k
      · subst ha
        by_cases hk : a = k'
        · simp [set, get?, SortedMap.get?, hk]
        · simp [set, get?, SortedMap.get?, hk]
      · by_cases hk : a = k'
        · subst hk
          simp [set, get?, SortedMap.get?, ha, Ne.symm ha]
        · simp [set, get?, SortedMap.get?, ha, hk, ih]

theorem Fields.getD_set (d : Fields) (k k' : Text) (v w : Value) :
    (d.set k v).getD k' w = if k = k' then v else d.getD k' w := by
  simp only [getD, get?_set]
  split <;> rfl

/-! ## Truth -/

/-- `bool(value)`. -/
def truthy : Value → Bool
  | .null => false
  | .bool b => b
  | .int n => n != 0
  | .float q => q != 0
  | .str t => !t.isEmpty
  | .arr vs => !vs.isEmpty
  | .obj fs => !fs.isEmpty

/-- `value is True`. -/
def isTrue : Value → Bool
  | .bool b => b
  | _ => false

/-- `value is False`. -/
def isFalse : Value → Bool
  | .bool b => !b
  | _ => false

/-! ## Representation -/

def hexText (width n : Nat) : Text :=
  let digits := Nat.toDigits 16 n
  List.replicate (width - digits.length) '0' ++ digits

section Text

variable (host : Host)

/-- One character in the `repr` of a string between the quotes `q`. -/
def reprChar (q c : Char) : Text :=
  if c = q || c = '\\' then ['\\', c]
  else if c = '\n' then ['\\', 'n']
  else if c = '\r' then ['\\', 'r']
  else if c = '\t' then ['\\', 't']
  else if c.toNat < 32 || c.toNat = 127 then txt "\\x" ++ hexText 2 c.toNat
  else if c.toNat < 127 || host.printable c then [c]
  else if c.toNat < 256 then txt "\\x" ++ hexText 2 c.toNat
  else if c.toNat < 65536 then txt "\\u" ++ hexText 4 c.toNat
  else txt "\\U" ++ hexText 8 c.toNat

/-- `repr` of a string: double quotes only when it has a single quote and no
double one. -/
def reprText (t : Text) : Text :=
  let q := if t.contains '\'' && !t.contains '"' then '"' else '\''
  q :: (t.flatMap (reprChar host q) ++ [q])

mutual
/-- `repr(value)`. -/
def pyRepr : Value → Text
  | .null => txt "None"
  | .bool b => if b then txt "True" else txt "False"
  | .int n => Json.intText n
  | .float q => host.floatText q
  | .str t => reprText host t
  | .arr vs => '[' :: (joinWith [',', ' '] (reprItems vs) ++ [']'])
  | .obj fs => '\x7b' :: (joinWith [',', ' '] (reprFields fs) ++ ['\x7d'])

def reprItems : List Value → List Text
  | [] => []
  | v :: vs => pyRepr v :: reprItems vs

def reprFields : List (Text × Value) → List Text
  | [] => []
  | (k, v) :: fs => (reprText host k ++ [':', ' '] ++ pyRepr v) :: reprFields fs
end

/-- `str(value)`. -/
def pyStr : Value → Text
  | .str t => t
  | v => pyRepr host v

/-- `str(value or "")`. -/
def pyStrOr (v : Value) : Text := if truthy v then pyStr host v else []

/-- `float(value)`. -/
def asFloat : Value → Option Rat
  | .bool b => some (if b then 1 else 0)
  | .int n => some n
  | .float q => some q
  | .str t => host.floatOf t
  | _ => none

end Text

/-! ## Typed members -/

def textsValue (ts : List Text) : Value := .arr (ts.map .str)

def objectsValue (ds : List Fields) : Value := .arr (ds.map .obj)

def asText : Value → Option Text
  | .str t => some t
  | _ => none

def asObject : Value → Option Fields
  | .obj d => some d
  | _ => none

def asTexts : Value → Option (List Text)
  | .arr vs => vs.mapM asText
  | _ => none

def asObjects : Value → Option (List Fields)
  | .arr vs => vs.mapM asObject
  | _ => none

theorem mapM_map_some {f : β → Option γ} {g : γ → β} (h : ∀ c, f (g c) = some c) (cs : List γ) :
    (cs.map g).mapM f = some cs := by
  induction cs with
  | nil => rfl
  | cons c cs ih => simp [h, ih]

@[simp] theorem asTexts_textsValue (ts : List Text) : asTexts (textsValue ts) = some ts :=
  mapM_map_some (f := asText) (g := Value.str) (fun _ => rfl) ts

@[simp] theorem asObjects_objectsValue (ds : List Fields) : asObjects (objectsValue ds) = some ds :=
  mapM_map_some (f := asObject) (g := Value.obj) (fun _ => rfl) ds

/-! ## Space -/

/-- `str.strip()`. -/
def strip (t : Text) : Text := rstrip (lstrip t)

/-- `re.sub(r"\s+", " ", text).strip()`, and `" ".join(text.split())`. -/
def compactSpace (t : Text) : Text := joinWith [' '] (words t)

/-! ## A host that knows ASCII only -/

mutual
/-- The value as the encoders of JSON know it; a float is cut to its whole
part. -/
def toJson : Value → Json
  | .null => .null
  | .bool b => .bool b
  | .int n => .num n
  | .float q => .num q.floor
  | .str t => .str t
  | .arr vs => .arr (toJsonItems vs)
  | .obj fs => .obj (toJsonFields fs)

def toJsonItems : List Value → List Json
  | [] => []
  | v :: vs => toJson v :: toJsonItems vs

def toJsonFields : List (Text × Value) → List (Text × Json)
  | [] => []
  | (k, v) :: fs => (k, toJson v) :: toJsonFields fs
end

def asciiLower (t : Text) : Text :=
  t.map fun c => if isAsciiUpper c then Char.ofNat (c.toNat + 32) else c

/-- The host of an interpreter that knows ASCII and whole numbers only, with
the given digests. -/
def Host.ascii (sha256 : Text → Text) : Host where
  unicode := Unicode.ascii
  printable _ := false
  lower := asciiLower
  floatText q := Json.intText q.floor
  floatOf _ := none
  sha256 := sha256
  dumps d := Json.indented (toJson (.obj d))
  canonicalJson d := Json.asciiDumps (toJson (.obj d))

end RalphVault.Memory
