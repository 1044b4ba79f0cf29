import Mathlib
import RalphVault.Text

/-!
# HTML — the start tags of a text

The tokenizer of HTML as far as it finds the start tags of a text: the data
state, tags with their attributes, the markup that hides tags (comments,
declarations, bogus comments) and the contents of the elements whose text is
raw. A tag keeps the characters it is written with, so that it can be looked
up in its text; what they mean (lower case, character references, the
replacement of NUL) is read off them afterwards.

A carriage return counts as a line feed, and every element is one of HTML. The
named character references are a parameter.
-/

namespace RalphVault.Html

/-! ## Characters -/

/-- Tab, line feed, form feed, carriage return, space. -/
def isHtmlSpace (c : Char) : Bool :=
  c == '\t' || c == '\n' || c == '\x0c' || c == '\r' || c == ' '

/-- What may stand between two attributes. -/
def isGap (c : Char) : Bool := isHtmlSpace c || c == '/'

/-- A character of a tag name. -/
def isTagName (c : Char) : Bool := !isGap c && c != '>'

/-- A character of an attribute name behind the first. -/
def isNameRest (c : Char) : Bool := !isGap c && c != '>' && c != '='

/-- A character of an unquoted value. -/
def isBare (c : Char) : Bool := !isHtmlSpace c && c != '>'

def isAsciiAlpha (c : Char) : Bool := isAsciiLower c || isAsciiUpper c

def asciiLower (c : Char) : Char := if isAsciiUpper c then Char.ofNat (c.toNat + 32) else c

/-- U+FFFD. -/
def replacement : Char := Char.ofNat 0xFFFD

/-- NUL is replaced. -/
def shown (c : Char) : Char := if c.toNat = 0 then replacement else c

/-! ## Tags as they are written -/

/-- The sign of equality and the value behind the name of an attribute, with
the space around the sign. -/
structure Assignment where
  before : Text
  after : Text
  quote : Option Char
  value : Text

structure Attribute where
  gap : Text
  name : Text
  assigned : Option Assignment

structure StartTag where
  name : Text
  attributes : List Attribute
  tail : Text

def Assignment.text (a : Assignment) : Text :=
  a.before ++ '=' :: (a.after ++ (a.quote.toList ++ (a.value ++ a.quote.toList)))

def Attribute.text (a : Attribute) : Text :=
  a.gap ++ (a.name ++ (a.assigned.map Assignment.text).getD [])

/-- A tag behind its bracket. -/
def StartTag.inner (tag : StartTag) : Text :=
  tag.name ++ (tag.attributes.flatMap Attribute.text ++ (tag.tail ++ ['>']))

def StartTag.text (tag : StartTag) : Text := '<' :: tag.inner

/-! ## Reading a tag -/

/-- Before attribute value, and the three attribute value states. -/
def readValue : Text → Option (Option Char × Text × Text)
  | [] => none
  | c :: t =>
      if c = '"' ∨ c = '\'' then
        if c ∈ t then some (some c, t.takeWhile (· != c), (t.dropWhile (· != c)).drop 1) else none
      else some (none, (c :: t).takeWhile isBare, (c :: t).dropWhile isBare)

/-- After attribute name. -/
def readAssignment (t : Text) : Option (Option Assignment × Text) :=
  match t.dropWhile isHtmlSpace with
  | '=' :: u =>
      (readValue (u.dropWhile isHtmlSpace)).map fun read =>
        (some ⟨t.takeWhile isHtmlSpace, u.takeWhile isHtmlSpace, read.1, read.2.1⟩, read.2.2)
  | _ => some (none, t)

/-- Before attribute name: the attributes up to the end of the tag, what stands
between them and the bracket, and what stands behind it. A tag without an end
is none. -/
def readAttributes : Nat → Text → Option (List Attribute × Text × Text)
  | 0, _ => none
  | n + 1, t =>
      match t.dropWhile isGap with
      | [] => none
      | c :: u =>
          if c = '>' then some ([], t.takeWhile isGap, u)
          else do
            -- the first character belongs to the name, even a sign of equality
            let (assigned, rest) ← readAssignment (u.dropWhile isNameRest)
            let (attributes, tail, rest) ← readAttributes n rest
            return (⟨t.takeWhile isGap, c :: u.takeWhile isNameRest, assigned⟩ :: attributes, tail,
              rest)

/-- Tag name: the tag, and what stands behind it. -/
def readTag (t : Text) : Option (StartTag × Text) :=
  (readAttributes (t.length + 1) (t.dropWhile isTagName)).map fun read =>
    (⟨t.takeWhile isTagName, read.1, read.2.1⟩, read.2.2)

/-! ## What hides tags -/

/-- Behind the next bracket. -/
def behindBracket (t : Text) : Text := (t.dropWhile (· != '>')).drop 1

def dashes : Text := txt "--"

def commentEnd : Text := txt "-->"

def commentBang : Text := txt "--!>"

/-- Behind the end of a comment. -/
def commentRest : Text → Text
  | [] => []
  | c :: t =>
      if startsWith commentEnd (c :: t) then t.drop 2
      else if startsWith commentBang (c :: t) then t.drop 3
      else commentRest t

/-- Behind a comment, from behind its first two dashes. -/
def behindComment (t : Text) : Text :=
  if startsWith (txt ">") t then t.drop 1
  else if startsWith (txt "->") t then t.drop 2
  else commentRest t

/-- The name of an element, the end of a tag name behind it. -/
def opensWith (front name t : Text) : Bool :=
  startsWith front t &&
    ((t.drop front.length).take name.length).map asciiLower == name &&
    ((t.drop (front.length + name.length)).head?.any fun c => isGap c || c == '>')

/-- The end tag that closes a raw text. -/
def closes (name t : Text) : Bool := opensWith (txt "</") name t

/-- A raw text ends in front of its end tag. -/
def rawRest (name : Text) : Text → Text
  | [] => []
  | c :: t => if closes name (c :: t) then c :: t else rawRest name t

inductive ScriptState where
  | data
  | escaped
  | doubleEscaped

def script : Text := txt "script"

/-- A script ends in front of its end tag, unless this stands in a script
inside of a comment. -/
def scriptRest : ScriptState → Text → Text
  | _, [] => []
  | .data, c :: t =>
      -- the dashes that open the comment may be those that close it
      if startsWith (txt "<!--") (c :: t) then scriptRest .escaped t
      else if closes script (c :: t) then c :: t
      else scriptRest .data t
  | .escaped, c :: t =>
      if startsWith commentEnd (c :: t) then scriptRest .data t
      else if closes script (c :: t) then c :: t
      else if opensWith (txt "<") script (c :: t) then scriptRest .doubleEscaped t
      else scriptRest .escaped t
  | .doubleEscaped, c :: t =>
      if startsWith commentEnd (c :: t) then scriptRest .data t
      else if closes script (c :: t) then scriptRest .escaped t
      else scriptRest .doubleEscaped t

/-- The elements whose text is raw, or raw but for character references. -/
def rawNames (scripting : Bool) : List Text :=
  [txt "style", txt "xmp", txt "iframe", txt "noembed", txt "noframes", txt "title",
    txt "textarea"] ++ if scripting then [txt "noscript"] else []

/-- The name of the element. -/
def StartTag.element (tag : StartTag) : Text := tag.name.map fun c => asciiLower (shown c)

/-- Where the tokenizer goes on behind a start tag. -/
def behindTag (scripting : Bool) (tag : StartTag) (t : Text) : Text :=
  if tag.element = script then scriptRest .data t
  else if tag.element ∈ rawNames scripting then rawRest tag.element t
  else if tag.element = txt "plaintext" then []
  else t

/-! ## The start tags -/

/-- Tag open: the start tag behind a bracket, if there is one, and where the
tokenizer goes on. -/
def readMarkup (scripting : Bool) : Text → Option StartTag × Text
  | [] => (none, [])
  | c :: t =>
      if isAsciiAlpha c then
        match readTag (c :: t) with
        | some (tag, rest) => (some tag, behindTag scripting tag rest)
        | none => (none, [])
      else if c = '/' then
        match t with
        | [] => (none, [])
        | d :: u =>
            if isAsciiAlpha d then (none, ((readTag (d :: u)).map Prod.snd).getD [])
            else (none, behindBracket (d :: u))
      else if c = '!' then
        -- the declarations and bogus comments end with the first bracket
        if startsWith dashes t then (none, behindComment (t.drop 2)) else (none, behindBracket t)
      else if c = '?' then (none, behindBracket t)
      else (none, c :: t)

/-- The start tags of a text of which `skip` characters are read. -/
def startTagsFrom (scripting : Bool) : Nat → Text → List StartTag
  | _, [] => []
  | skip + 1, _ :: t => startTagsFrom scripting skip t
  | 0, c :: t =>
      if c = '<' then
        let (tag, rest) := readMarkup scripting t
        tag.toList ++ startTagsFrom scripting (t.length - rest.length) t
      else startTagsFrom scripting 0 t

/-- The start tags of a text. -/
def startTags (scripting : Bool) (t : Text) : List StartTag := startTagsFrom scripting 0 t

/-! ## Character references -/

/-- The named references, by what is written behind the ampersand. -/
abbrev Entities := List (Text × Text)

def digitValue (c : Char) : Option Nat :=
  if isAsciiDigit c then some (c.toNat - 48)
  else if 97 ≤ c.toNat ∧ c.toNat ≤ 102 then some (c.toNat - 87)
  else if 65 ≤ c.toNat ∧ c.toNat ≤ 70 then some (c.toNat - 55)
  else none

def number (base : Nat) (digits : Text) : Nat :=
  digits.foldl (fun n c => base * n + (digitValue c).getD 0) 0

/-- The numbers that stand for characters of the code page 1252. -/
def codePage : List (Nat × Nat) :=
  [(0x80, 0x20AC), (0x82, 0x201A), (0x83, 0x0192), (0x84, 0x201E), (0x85, 0x2026), (0x86, 0x2020),
    (0x87, 0x2021), (0x88, 0x02C6), (0x89, 0x2030), (0x8A, 0x0160), (0x8B, 0x2039),
    (0x8C, 0x0152), (0x8E, 0x017D), (0x91, 0x2018), (0x92, 0x2019), (0x93, 0x201C),
    (0x94, 0x201D), (0x95, 0x2022), (0x96, 0x2013), (0x97, 0x2014), (0x98, 0x02DC),
    (0x99, 0x2122), (0x9A, 0x0161), (0x9B, 0x203A), (0x9C, 0x0153), (0x9E, 0x017E),
    (0x9F, 0x0178)]

/-- The character of a numeric reference. -/
def codePoint (n : Nat) : Char :=
  if n = 0 ∨ 0x10FFFF < n ∨ (0xD800 ≤ n ∧ n ≤ 0xDFFF) then replacement
  else Char.ofNat ((codePage.lookup n).getD n)

/-- The semicolon behind a reference may be missing. -/
def dropSemicolon (t : Text) : Text := if startsWith [';'] t then t.drop 1 else t

/-- A numeric reference, from behind its number sign. -/
def numericReference (t : Text) : Option (Text × Text) :=
  let hex := t.head?.any fun c => c == 'x' || c == 'X'
  let isDigit (c : Char) := if hex then (digitValue c).isSome else isAsciiDigit c
  let body := if hex then t.drop 1 else t
  let digits := body.takeWhile isDigit
  if digits = [] then none
  else some ([codePoint (number (if hex then 16 else 10) digits)],
    dropSemicolon (body.dropWhile isDigit))

/-- The longest named reference. One without a semicolon is none in front of a
letter, a digit or a sign of equality. -/
def namedReference (entities : Entities) (t : Text) : Option (Text × Text) :=
  match ((entities.filter fun e => startsWith e.1 t).mergeSort
      fun a b => b.1.length ≤ a.1.length).head? with
  | none => none
  | some (name, chars) =>
      let rest := t.drop name.length
      if name.getLast? ≠ some ';' ∧ (rest.head?.any fun c => isAsciiAlnum c || c == '=') = true then
        none
      else some (chars, rest)

/-- A reference, from behind its ampersand. -/
def reference (entities : Entities) : Text → Option (Text × Text)
  | '#' :: t => numericReference t
  | t => namedReference entities t

/-- The value of an attribute of which `skip` characters are read. -/
def decodeFrom (entities : Entities) : Nat → Text → Text
  | _, [] => []
  | skip + 1, _ :: t => decodeFrom entities skip t
  | 0, c :: t =>
      match if c = '&' then reference entities t else none with
      | some (chars, rest) => chars ++ decodeFrom entities (t.length - rest.length) t
      | none => shown c :: decodeFrom entities 0 t

/-- Line feeds for the carriage returns. -/
def normalizeNewlines : Text → Text
  | [] => []
  | '\r' :: '\n' :: t => '\n' :: normalizeNewlines t
  | '\r' :: t => '\n' :: normalizeNewlines t
  | c :: t => c :: normalizeNewlines t

/-! ## Attributes -/

def Attribute.key (a : Attribute) : Text := a.name.map fun c => asciiLower (shown c)

def Attribute.content (entities : Entities) (a : Attribute) : Text :=
  match a.assigned with
  | none => []
  | some s => decodeFrom entities 0 (normalizeNewlines s.value)

/-- The value of an attribute: of two of one name the first counts. -/
def StartTag.get? (entities : Entities) (tag : StartTag) (key : Text) : Option Text :=
  (tag.attributes.find? fun a => a.key = key).map (Attribute.content entities)

/-! ## URLs -/

/-- A URL as it is parsed: the control characters and blanks in front of it,
its tabs and its line ends do not count, nor does the case of its front. -/
def urlFront (value : Text) : Text :=
  (((value.dropWhile fun c => c.toNat ≤ 32).filter fun c =>
    !(c == '\t' || c == '\n' || c == '\r')).map asciiLower)

def isJavascript (value : Text) : Bool := startsWith (txt "javascript:") (urlFront value)

/-- The type of a `data:` URL, without parameters. -/
def dataType? (value : Text) : Option Text :=
  let url := urlFront value
  if startsWith (txt "data:") url then
    let type := (url.drop 5).takeWhile fun c => c != ',' && c != ';'
    some ((type.dropWhile isHtmlSpace).reverse.dropWhile isHtmlSpace).reverse
  else none

/-! ## A tag in its text -/

/-- How the sign and the value of an attribute are written. -/
structure Assignment.Written (a : Assignment) : Prop where
  before : ∀ c ∈ a.before, isHtmlSpace c = true
  after : ∀ c ∈ a.after, isHtmlSpace c = true
  quote : ∀ q ∈ a.quote, q = '"' ∨ q = '\''
  /-- A quoted value has no quote of its kind. -/
  closed : ∀ q ∈ a.quote, q ∉ a.value
  bare : a.quote = none → ∀ c ∈ a.value, isBare c = true

/-- How an attribute is written. -/
structure Attribute.Written (a : Attribute) : Prop where
  gap : ∀ c ∈ a.gap, isGap c = true
  assigned : ∀ s ∈ a.assigned, s.Written

/-- How a tag is written. -/
structure StartTag.Written (tag : StartTag) : Prop where
  name : ∀ c ∈ tag.name, isTagName c = true
  attributes : ∀ a ∈ tag.attributes, a.Written
  tail : ∀ c ∈ tag.tail, isGap c = true
  /-- An unquoted value ends where no character of it stands. -/
  bareEnded : ∀ done a later, tag.attributes = done ++ a :: later →
    ∀ s ∈ a.assigned, s.quote = none →
      ∀ c ∈ (later.flatMap Attribute.text ++ (tag.tail ++ ['>'])).head?, isBare c = false
  /-- The name ends where no character of a name stands. -/
  ended : ∀ c ∈ (tag.attributes.flatMap Attribute.text ++ (tag.tail ++ ['>'])).head?,
    isTagName c = false

/-- A tag around one of its attributes. -/
theorem StartTag.text_split {tag : StartTag} {done later : List Attribute} {a : Attribute}
    (h : tag.attributes = done ++ a :: later) :
    tag.text = '<' :: (tag.name ++ (done.flatMap Attribute.text ++ (a.gap ++ (a.name ++
      ((a.assigned.map Assignment.text).getD [] ++
        (later.flatMap Attribute.text ++ (tag.tail ++ ['>']))))))) := by
  rw [StartTag.text, StartTag.inner, h, List.flatMap_append, List.flatMap_cons]
  simp only [Attribute.text, List.append_assoc]

theorem mem_takeWhile_imp {p : Char → Bool} {t : Text} {c : Char} (h : c ∈ t.takeWhile p) :
    p c = true := by
  have := List.all_takeWhile (p := p) (l := t)
  exact List.all_eq_true.1 this c h

theorem head?_dropWhile_imp {p : Char → Bool} {t : Text} :
    ∀ c ∈ (t.dropWhile p).head?, p c = false := by
  intro c hc
  have := List.head?_dropWhile_not p t
  rw [Option.mem_def.1 hc] at this
  simpa using this

theorem readValue_spec {t v rest : Text} {q : Option Char}
    (h : readValue t = some (q, v, rest)) :
    t = q.toList ++ (v ++ (q.toList ++ rest)) ∧ (∀ d ∈ q, (d = '"' ∨ d = '\'') ∧ d ∉ v) ∧
      (q = none → (∀ c ∈ v, isBare c = true) ∧ ∀ c ∈ rest.head?, isBare c = false) := by
  cases t with
  | nil => cases h
  | cons c t =>
      rw [readValue] at h
      split at h
      · rename_i hquote
        split at h
        · rename_i hmem
          cases h
          have hstop : ∃ u, t.dropWhile (· != c) = c :: u := by
            have hne : t.dropWhile (· != c) ≠ [] := by
              intro hnil
              have := List.dropWhile_eq_nil_iff.1 hnil c hmem
              simp at this
            obtain ⟨d, u, hcons⟩ := List.exists_cons_of_ne_nil hne
            have hd : (d != c) = false := head?_dropWhile_imp d (by rw [hcons]; rfl)
            rw [bne_eq_false_iff_eq] at hd
            exact ⟨u, by rw [hcons, hd]⟩
          obtain ⟨u, hu⟩ := hstop
          refine ⟨?_, ?_, fun hnone => nomatch hnone⟩
          · have hsplit := List.takeWhile_append_dropWhile (p := (· != c)) (l := t)
            rw [hu] at hsplit
            rw [hu]
            show c :: t = c :: (t.takeWhile (· != c) ++ c :: u)
            rw [hsplit]
          · intro d hd
            obtain rfl := Option.some.inj hd
            refine ⟨hquote, fun hin => ?_⟩
            have := mem_takeWhile_imp hin
            simp at this
        · cases h
      · cases h
        refine ⟨?_, fun d hd => (nomatch hd), fun _ => ⟨fun c hc => mem_takeWhile_imp hc, ?_⟩⟩
        · exact (List.takeWhile_append_dropWhile (p := isBare) (l := c :: t)).symm
        · exact head?_dropWhile_imp

theorem readAssignment_spec {t rest : Text} {a : Option Assignment}
    (h : readAssignment t = some (a, rest)) :
    t = (a.map Assignment.text).getD [] ++ rest ∧ (∀ s ∈ a, s.Written) ∧
      ∀ s ∈ a, s.quote = none → ∀ c ∈ rest.head?, isBare c = false := by
  rw [readAssignment] at h
  split at h
  · rename_i u hu
    obtain ⟨⟨q, v, tail⟩, hread, heq⟩ := Option.map_eq_some_iff.1 h
    cases heq
    obtain ⟨htext, hquote, hbare⟩ := readValue_spec hread
    refine ⟨?_, ?_, ?_⟩
    · have hfront := List.takeWhile_append_dropWhile (p := isHtmlSpace) (l := t)
      have hback := List.takeWhile_append_dropWhile (p := isHtmlSpace) (l := u)
      rw [hu] at hfront
      rw [htext] at hback
      show t = Assignment.text _ ++ tail
      simp only [Assignment.text, List.append_assoc, List.cons_append]
      exact hfront.symm.trans (by rw [hback])
    · intro s hs
      obtain rfl := Option.some.inj hs
      exact ⟨fun c hc => mem_takeWhile_imp hc, fun c hc => mem_takeWhile_imp hc,
        fun d hd => (hquote d hd).1, fun d hd => (hquote d hd).2, fun hnone => (hbare hnone).1⟩
    · intro s hs hnone
      obtain rfl := Option.some.inj hs
      exact (hbare hnone).2
  · cases h
    exact ⟨rfl, fun s hs => (nomatch hs), fun s hs => nomatch hs⟩

/-- The bracket at the end stands for what is behind it. -/
theorem head?_bracket (u v w : Text) :
    (u ++ (v ++ '>' :: w)).head? = (u ++ (v ++ ['>'])).head? := by
  cases u <;> cases v <;> rfl

theorem readAttributes_spec {n : Nat} {t tail rest : Text} {attributes : List Attribute}
    (h : readAttributes n t = some (attributes, tail, rest)) :
    t = attributes.flatMap Attribute.text ++ (tail ++ '>' :: rest) ∧
      (∀ a ∈ attributes, a.Written) ∧ (∀ c ∈ tail, isGap c = true) ∧
      ∀ done a later, attributes = done ++ a :: later → ∀ s ∈ a.assigned, s.quote = none →
        ∀ c ∈ (later.flatMap Attribute.text ++ (tail ++ ['>'])).head?, isBare c = false := by
  induction n generalizing t attributes tail rest with
  | zero => cases h
  | succ n ih =>
      have hgap := List.takeWhile_append_dropWhile (p := isGap) (l := t)
      rw [readAttributes] at h
      split at h
      · cases h
      rename_i c u hu
      rw [hu] at hgap
      split at h
      · rename_i hend
        cases h
        subst hend
        refine ⟨hgap.symm, ?_, fun c hc => mem_takeWhile_imp hc, ?_⟩
        · intro a ha
          cases ha
        · intro done a later hsplit
          simp at hsplit
      · obtain ⟨⟨assigned, behind⟩, hassigned, h⟩ := Option.bind_eq_some_iff.1 h
        obtain ⟨⟨more, tail', rest'⟩, hmore, heq⟩ := Option.bind_eq_some_iff.1 h
        cases heq
        obtain ⟨hbehind, hwritten, hended⟩ := readAssignment_spec hassigned
        obtain ⟨htext, hall, htail, hlater⟩ := ih hmore
        have hname := List.takeWhile_append_dropWhile (p := isNameRest) (l := u)
        refine ⟨?_, List.forall_mem_cons.2 ⟨⟨fun c hc => mem_takeWhile_imp hc, hwritten⟩, hall⟩,
          htail, ?_⟩
        · rw [List.flatMap_cons]
          simp only [Attribute.text, List.append_assoc, List.cons_append]
          rw [← htext, ← hbehind, hname]
          exact hgap.symm
        · intro done a later hsplit
          cases done with
          | nil =>
              obtain ⟨rfl, rfl⟩ := List.cons.inj hsplit
              intro s hs hnone
              rw [htext, head?_bracket] at hended
              exact hended s hs hnone
          | cons first done =>
              obtain ⟨-, hsplit⟩ := List.cons.inj hsplit
              exact hlater done a later hsplit

/-- **A tag stands in its text as it is written.** -/
theorem readTag_spec {t rest : Text} {tag : StartTag} (h : readTag t = some (tag, rest)) :
    t = tag.inner ++ rest ∧ tag.Written := by
  obtain ⟨⟨attributes, tail, behind⟩, hread, heq⟩ := Option.map_eq_some_iff.1 h
  cases heq
  obtain ⟨htext, hall, htail, hended⟩ := readAttributes_spec hread
  have hname := List.takeWhile_append_dropWhile (p := isTagName) (l := t)
  refine ⟨?_, fun c hc => mem_takeWhile_imp hc, hall, htail, hended, ?_⟩
  · rw [htext] at hname
    simp only [StartTag.inner, List.append_assoc, List.cons_append, List.nil_append]
    exact hname.symm
  · intro c hc
    have hhead : c ∈ (t.dropWhile isTagName).head? → isTagName c = false :=
      head?_dropWhile_imp c
    refine hhead ?_
    rw [htext, head?_bracket]
    exact hc

theorem isTagName_of_alpha {c : Char} (h : isAsciiAlpha c = true) : isTagName c = true := by
  have hno : ∀ d ∈ ['\t', '\n', '\x0c', '\r', ' ', '/', '>'], c ≠ d := by
    intro d hd heq
    subst heq
    simp only [List.mem_cons, List.not_mem_nil, or_false] at hd
    rcases hd with rfl | rfl | rfl | rfl | rfl | rfl | rfl <;> exact absurd h (by decide)
  simp only [List.mem_cons, List.not_mem_nil, or_false, forall_eq_or_imp, forall_eq] at hno
  simp [isTagName, isGap, isHtmlSpace, hno]

/-- **The start tags of a text stand in it.** -/
theorem startTags_spec {scripting : Bool} {t : Text} {tag : StartTag}
    (h : tag ∈ startTags scripting t) : tag.Written ∧ tag.name ≠ [] ∧ tag.text <:+: t := by
  have hfrom : ∀ (t : Text) (skip : Nat), tag ∈ startTagsFrom scripting skip t →
      tag.Written ∧ tag.name ≠ [] ∧ tag.text <:+: t := by
    intro t
    induction t with
    | nil =>
        intro skip hmem
        cases skip <;> cases hmem
    | cons c t ih =>
        have hlater : ∀ skip, tag ∈ startTagsFrom scripting skip t →
            tag.Written ∧ tag.name ≠ [] ∧ tag.text <:+: c :: t := by
          intro skip hmem
          obtain ⟨hwritten, hname, hin⟩ := ih skip hmem
          exact ⟨hwritten, hname, hin.trans (List.suffix_cons c t).isInfix⟩
        intro skip hmem
        cases skip with
        | succ skip => exact hlater skip hmem
        | zero =>
            rw [startTagsFrom] at hmem
            split at hmem
            · rename_i hopen
              subst hopen
              rcases List.mem_append.1 hmem with hhere | hmem
              · have hread : ∃ rest, readTag t = some (tag, rest) ∧
                    ∃ d u, t = d :: u ∧ isAsciiAlpha d = true := by
                  cases t with
                  | nil => cases hhere
                  | cons d u =>
                      have hhere : tag ∈ (readMarkup scripting (d :: u)).1.toList := hhere
                      unfold readMarkup at hhere
                      dsimp only at hhere
                      split at hhere
                      · rename_i halpha
                        split at hhere
                        · rename_i found rest hfound
                          obtain rfl := List.mem_singleton.1 hhere
                          exact ⟨rest, hfound, d, u, rfl, halpha⟩
                        · cases hhere
                      · exfalso
                        repeat' split at hhere
                        all_goals cases hhere
                obtain ⟨rest, hread, d, u, hcons, halpha⟩ := hread
                obtain ⟨htext, hwritten⟩ := readTag_spec hread
                refine ⟨hwritten, ?_, [], rest, ?_⟩
                · obtain ⟨read, -, heq⟩ := Option.map_eq_some_iff.1 hread
                  have hname : tag.name = t.takeWhile isTagName := by
                    rw [← (Prod.mk.inj heq).1]
                  rw [hname, hcons, List.takeWhile_cons_of_pos (isTagName_of_alpha halpha)]
                  exact List.cons_ne_nil _ _
                · rw [htext]
                  rfl
              · exact hlater _ hmem
            · exact hlater 0 hmem
  exact hfrom t 0 h

end RalphVault.Html
