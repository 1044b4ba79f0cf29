import RalphVault.Text

/-!
# JSON

The JSON values a record is made of and their canonical encoding, the
Python call `json.dumps(value, ensure_ascii=False, sort_keys=True,
separators=(",", ":"))`. Encoded sizes are counted in UTF-8 bytes.
-/

namespace RalphVault

inductive Json where
  | null
  | bool (b : Bool)
  | num (n : Int)
  | str (t : Text)
  | arr (items : List Json)
  | obj (fields : List (Text × Json))

namespace Json

/-! ## Strings -/

def hexDigit (n : Nat) : Char :=
  if n < 10 then Char.ofNat (48 + n) else Char.ofNat (87 + n)

/-- The escape of one character of a JSON string. -/
def escapeChar (c : Char) : Text :=
  if c = '"' then ['\\', '"']
  else if c = '\\' then ['\\', '\\']
  else if c = '\n' then ['\\', 'n']
  else if c = '\r' then ['\\', 'r']
  else if c = '\t' then ['\\', 't']
  else if c.toNat = 8 then ['\\', 'b']
  else if c.toNat = 12 then ['\\', 'f']
  else if c.toNat < 32 then
    ['\\', 'u', '0', '0', hexDigit (c.toNat / 16), hexDigit (c.toNat % 16)]
  else [c]

/-- The characters that stand for themselves in a JSON string. -/
def isPlain (c : Char) : Bool :=
  let n := c.toNat
  Nat.ble 93 n || (Nat.ble 35 n && Nat.ble n 91) || Nat.beq n 32 || Nat.beq n 33

/-- The body of a JSON string, without its quotes, in front of a rest. -/
def escapeTo : Text → Text → Text
  | [], rest => rest
  | c :: t, rest =>
      match isPlain c with
      | true => c :: escapeTo t rest
      | false => escapeChar c ++ escapeTo t rest

def quoteTo (t rest : Text) : Text := '"' :: escapeTo t ('"' :: rest)

/-! ## Canonical encoding -/

def intText (n : Int) : Text :=
  if n < 0 then '-' :: decimalText n.natAbs else decimalText n.natAbs

/-- Members in key order; a later member of the same key replaces the
earlier one. -/
def sortMembers (ms : List (Text × β)) : List (Text × β) := SortedMap.ofList textLt ms

def itemsTo : List (Text → Text) → Text → Text
  | [], rest => rest
  | [item], rest => item rest
  | item :: items, rest => item (',' :: itemsTo items rest)

def memberTo (m : Text × (Text → Text)) (rest : Text) : Text := quoteTo m.1 (':' :: m.2 rest)

mutual
/-- The canonical text of a value in front of a rest. -/
def renderTo : Json → Text → Text
  | null => fun rest => txt "null" ++ rest
  | bool b => fun rest => (if b then txt "true" else txt "false") ++ rest
  | num n => fun rest => intText n ++ rest
  | str t => fun rest => quoteTo t rest
  | arr items => fun rest => '[' :: itemsTo (renderItems items) (']' :: rest)
  | obj fields => fun rest =>
      '{' :: itemsTo ((sortMembers (renderFields fields)).map memberTo) ('}' :: rest)

def renderItems : List Json → List (Text → Text)
  | [] => []
  | j :: js => renderTo j :: renderItems js

def renderFields : List (Text × Json) → List (Text × (Text → Text))
  | [] => []
  | (k, j) :: fs => (k, renderTo j) :: renderFields fs
end

/-- `canonical_json`. -/
def canonical (j : Json) : Text := renderTo j []

/-- `encoded_size`. -/
def encodedSize (j : Json) : Nat := utf8Len (canonical j)

end Json
end RalphVault
