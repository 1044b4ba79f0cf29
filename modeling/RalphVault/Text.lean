import Mathlib
import RalphVault.SortedMap

/-!
# Text

Python strings as lists of code points, and the few string methods the
modelled programs call. A literal is written `txt "..."`: it carries the
characters of the literal, and its type says that they are its
characters, so that a definition using it computes.

The Unicode database is the interpreter's. The whitespace and
line-boundary classes are small and written out in full; the
alphanumeric and digit classes are a parameter (`Unicode`) of which only
the ASCII part is fixed.
-/

namespace RalphVault

/-- A Python `str`. -/
abbrev Text := List Char

/-- A string literal together with its characters. -/
inductive Lit : String → Type where
  | of (chars : Text) : Lit (String.ofList chars)

/-- The text of a string literal. -/
def txt (s : String) (l : Lit s := by exact Lit.of _) : Text :=
  match l with
  | .of chars => chars

instance lawfulBEqText : LawfulBEq Text := inferInstanceAs (LawfulBEq (List Char))

-- A condition on the characters of a text is decided over the text, never over all characters.
instance (priority := 1100) decidableForallMem (t : Text) (p : Char → Prop) [DecidablePred p] :
    Decidable (∀ c ∈ t, p c) :=
  List.decidableBAll p t

instance (priority := 1100) decidableExistsMem (t : Text) (p : Char → Prop) [DecidablePred p] :
    Decidable (∃ c ∈ t, p c) :=
  List.decidableBEx p t

instance (priority := 1100) decidableForallMemOption (o : Option Char) (p : Char → Prop)
    [DecidablePred p] : Decidable (∀ c ∈ o, p c) :=
  Option.decidableForallMem o

instance (priority := 1100) decidableExistsMemOption (o : Option Char) (p : Char → Prop)
    [DecidablePred p] : Decidable (∃ c ∈ o, p c) :=
  Option.decidableExistsMem o

/-! ## Character classes -/

/-- `str.isspace` on one character; also the class `\s` of `re`. -/
def isSpace (c : Char) : Bool :=
  let n := c.toNat
  (9 ≤ n && n ≤ 13) || (28 ≤ n && n ≤ 32) || n == 0x85 || n == 0xA0 ||
    n == 0x1680 || (0x2000 ≤ n && n ≤ 0x200A) || n == 0x2028 ||
    n == 0x2029 || n == 0x202F || n == 0x205F || n == 0x3000

/-- The line boundaries of `str.splitlines`. -/
def isLineBoundary (c : Char) : Bool :=
  let n := c.toNat
  (10 ≤ n && n ≤ 13) || (28 ≤ n && n ≤ 30) || n == 0x85 ||
    n == 0x2028 || n == 0x2029

def isAsciiLower (c : Char) : Bool := 97 ≤ c.toNat && c.toNat ≤ 122
def isAsciiUpper (c : Char) : Bool := 65 ≤ c.toNat && c.toNat ≤ 90
def isAsciiDigit (c : Char) : Bool := 48 ≤ c.toNat && c.toNat ≤ 57

/-- `[A-Za-z0-9]`. -/
def isAsciiAlnum (c : Char) : Bool :=
  isAsciiLower c || isAsciiUpper c || isAsciiDigit c

/-- The part of the Unicode database the programs consult: `str.isalnum`,
`str.isdigit` and `str.isdecimal` on one character. -/
structure Unicode where
  alnum : Char → Bool
  digit : Char → Bool
  decimal : Char → Bool
  alnum_ascii : ∀ c, c.toNat < 128 → alnum c = isAsciiAlnum c
  digit_ascii : ∀ c, c.toNat < 128 → digit c = isAsciiDigit c
  decimal_ascii : ∀ c, c.toNat < 128 → decimal c = isAsciiDigit c

/-- The database of an interpreter that knows ASCII only. -/
def Unicode.ascii : Unicode where
  alnum := isAsciiAlnum
  digit := isAsciiDigit
  decimal := isAsciiDigit
  alnum_ascii _ _ := rfl
  digit_ascii _ _ := rfl
  decimal_ascii _ _ := rfl

/-- The class `\w` of `re`. -/
def Unicode.word (uni : Unicode) (c : Char) : Bool := uni.alnum c || c == '_'

/-- Simple case folding as `re.IGNORECASE` applies it against an ASCII
letter of a pattern: the ASCII letters and the four letters `İ`, `ı`,
`ſ` and `K` the documentation lists. -/
def foldCase (c : Char) : Char :=
  if isAsciiUpper c then Char.ofNat (c.toNat + 32)
  else if c.toNat == 0x130 || c.toNat == 0x131 then 'i'
  else if c.toNat == 0x17F then 's'
  else if c.toNat == 0x212A then 'k'
  else c

/-! ## String methods -/

/-- `not value.strip()`. -/
def isBlank (t : Text) : Bool := t.all isSpace

/-- `str.lstrip()`. -/
def lstrip (t : Text) : Text := t.dropWhile isSpace

/-- `t.startswith(p)`. -/
def startsWith (p : Text) (t : Text) : Bool := p.isPrefixOf t

/-- `p in t`. -/
def contains (p : Text) : Text → Bool
  | [] => p.isEmpty
  | c :: t => p.isPrefixOf (c :: t) || contains p t

/-- `t.count(p)` for a non-empty `p`: `skip` characters still belong to
the last occurrence counted. -/
def countFrom (p : Text) : Nat → Text → Nat
  | _, [] => 0
  | skip + 1, _ :: t => countFrom p skip t
  | 0, c :: t =>
      if p.isPrefixOf (c :: t) then 1 + countFrom p (p.length - 1) t
      else countFrom p 0 t

/-- `t.count(p)`. -/
def count (p t : Text) : Nat := countFrom p 0 t

/-- `len(t.encode("utf-8"))`. -/
def utf8Len (t : Text) : Nat := (t.map Char.utf8Size).sum

@[simp] theorem utf8Len_nil : utf8Len [] = 0 := rfl

@[simp] theorem utf8Len_append (s t : Text) :
    utf8Len (s ++ t) = utf8Len s + utf8Len t := by
  simp [utf8Len]

@[simp] theorem utf8Len_cons (c : Char) (t : Text) :
    utf8Len (c :: t) = c.utf8Size + utf8Len t := by
  simp [utf8Len]

/-- Lexicographic order by code point, the order of Python's `sorted` on
strings. -/
def textLt : Text → Text → Bool
  | _, [] => false
  | [], _ :: _ => true
  | a :: s, b :: t => a.toNat < b.toNat || (a.toNat == b.toNat && textLt s t)

theorem textLt_irrefl (s : Text) : textLt s s = false := by
  induction s with
  | nil => rfl
  | cons a s ih => simp [textLt, ih]

theorem textLt_trans {s t u : Text} (h : textLt s t = true) (h' : textLt t u = true) :
    textLt s u = true := by
  induction s generalizing t u with
  | nil =>
      cases u with
      | nil => simp [textLt] at h'
      | cons c u => rfl
  | cons a s ih =>
      cases t with
      | nil => simp [textLt] at h
      | cons b t =>
          cases u with
          | nil => simp [textLt] at h'
          | cons c u =>
              simp only [textLt, Bool.or_eq_true, decide_eq_true_eq, Bool.and_eq_true,
                beq_iff_eq] at h h' ⊢
              rcases h with h | ⟨h, hs⟩ <;> rcases h' with h' | ⟨h', hs'⟩
              · exact .inl (by omega)
              · exact .inl (by omega)
              · exact .inl (by omega)
              · exact .inr ⟨by omega, ih hs hs'⟩

theorem textLt_total {s t : Text} (hne : s ≠ t) (h : textLt s t = false) :
    textLt t s = true := by
  induction s generalizing t with
  | nil =>
      cases t with
      | nil => exact absurd rfl hne
      | cons b t => simp [textLt] at h
  | cons a s ih =>
      cases t with
      | nil => rfl
      | cons b t =>
          simp only [textLt, Bool.or_eq_false_iff, decide_eq_false_iff_not, Nat.not_lt,
            Bool.or_eq_true, decide_eq_true_eq, Bool.and_eq_true, beq_iff_eq] at h ⊢
          by_cases hab : a.toNat = b.toNat
          · have heq : a = b := Char.toNat_inj.mp hab
            subst heq
            have htail : s ≠ t := fun hst => hne (by rw [hst])
            exact .inr ⟨rfl, ih htail (by simpa using h.2)⟩
          · exact .inl (by omega)

theorem textLt_strict : StrictOrder textLt :=
  ⟨textLt_irrefl, textLt_trans, textLt_total⟩

/-- Join with a separator. -/
def joinWith (sep : Text) : List Text → Text
  | [] => []
  | [t] => t
  | t :: ts => t ++ sep ++ joinWith sep ts

/-- The parts between the characters of a class. -/
def splitWhere (p : Char → Bool) : Text → List Text
  | [] => [[]]
  | c :: t =>
      if p c then [] :: splitWhere p t
      else match splitWhere p t with
        | [] => [[c]]
        | part :: parts => (c :: part) :: parts

/-- `str.split(c)`: always at least one part. -/
def splitOn (sep : Char) : Text → List Text
  | [] => [[]]
  | c :: t =>
      if c = sep then [] :: splitOn sep t
      else match splitOn sep t with
        | [] => [[c]]
        | part :: parts => (c :: part) :: parts

/-- `str.split()`: the parts between blanks that are not empty. -/
def words (t : Text) : List Text :=
  (splitWhere isSpace t).filter fun part => !part.isEmpty

/-- `str.rstrip()`. -/
def rstrip (t : Text) : Text := (t.reverse.dropWhile isSpace).reverse

/-- The rest of a text after `p`, if it starts with it. -/
def afterPrefix (p t : Text) : Option Text :=
  if startsWith p t then some (t.drop p.length) else none

/-- Decimal digits of a natural number. -/
def decimalText (n : Nat) : Text := Nat.toDigits 10 n

end RalphVault
