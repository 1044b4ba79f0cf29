import RalphVault.Text

/-!
# TOML

A TOML document as its lines. Lines belong together while a string of several
lines or an array is open; such a group is one statement. The statements define
values at paths, and a document is valid if no two of its definitions clash.

Numbers, dates and booleans are left to a parameter, which reads one from the
front of a text.

Definitions below some paths can be hidden: the statements that make them are
dropped, and the others define what they define in the whole document.
-/

namespace RalphVault.Toml

/-! ## Values -/

/-- A step to a place in a document. -/
inductive Seg where
  | key (k : Text)
  | index (n : Nat)
deriving DecidableEq

abbrev Path := List Seg

/-- What is at a place. -/
inductive Leaf where
  | table
  | array
  | text (t : Text)
  | token (t : Text)
deriving DecidableEq

/-- A value by the places in it. -/
abbrev Value := List (Path × Leaf)

abbrev Scalar := Text → Option (Text × Text)

/-- The value below a path. -/
def Value.under (path : Path) (v : Value) : Value := v.map fun place => (path ++ place.1, place.2)

/-! ## Lines of a statement -/

inductive Quote where
  | basic
  | literal
deriving DecidableEq

def Quote.char : Quote → Char
  | basic => '"'
  | literal => '\''

/-- Where in a statement a character stands. -/
inductive Mode where
  | plain
  | comment
  /-- Behind the first quotes of a string: one or two. -/
  | opened (q : Quote) (two : Bool)
  | single (q : Quote)
  | escaped (several : Bool)
  /-- In a string of several lines, behind some quotes. -/
  | several (q : Quote) (quotes : Nat)
  /-- Behind the three quotes at its end, and some more. -/
  | closed (q : Quote) (quotes : Nat)
deriving DecidableEq

structure State where
  mode : Mode
  depth : Nat
deriving DecidableEq

def start : State := ⟨.plain, 0⟩

/-- A character outside of strings. -/
def stepPlain (depth : Nat) (c : Char) : State :=
  if c = '"' then ⟨.opened .basic false, depth⟩
  else if c = '\'' then ⟨.opened .literal false, depth⟩
  else if c = '#' then ⟨.comment, depth⟩
  else if c = '[' then ⟨.plain, depth + 1⟩
  else if c = ']' then ⟨.plain, depth - 1⟩
  else ⟨.plain, depth⟩

def step (s : State) (c : Char) : State :=
  match s.mode with
  | .plain => stepPlain s.depth c
  | .comment => s
  | .opened q false =>
      if c = q.char then ⟨.opened q true, s.depth⟩
      else if q = .basic ∧ c = '\\' then ⟨.escaped false, s.depth⟩
      else ⟨.single q, s.depth⟩
  | .opened q true => if c = q.char then ⟨.several q 0, s.depth⟩ else stepPlain s.depth c
  | .single q =>
      if c = q.char then ⟨.plain, s.depth⟩
      else if q = .basic ∧ c = '\\' then ⟨.escaped false, s.depth⟩
      else s
  | .escaped false => ⟨.single .basic, s.depth⟩
  | .escaped true => ⟨.several .basic 0, s.depth⟩
  | .several q n =>
      if c = q.char then if n = 2 then ⟨.closed q 0, s.depth⟩ else ⟨.several q (n + 1), s.depth⟩
      else if q = .basic ∧ c = '\\' then ⟨.escaped true, s.depth⟩
      else ⟨.several q 0, s.depth⟩
  | .closed q n => if c = q.char ∧ n < 2 then ⟨.closed q (n + 1), s.depth⟩ else stepPlain s.depth c

/-- The end of a line: a statement may go on in a string of several lines or in
an array. -/
def endLine (s : State) : Option State :=
  match s.mode with
  | .several q _ => some ⟨.several q 0, s.depth⟩
  | .escaped true => some ⟨.several .basic 0, s.depth⟩
  | _ => if s.depth = 0 then none else some ⟨.plain, s.depth⟩

/-- The groups of lines: a group is open with the lines of `done`. -/
def groupsFrom (s : State) (done : List Text) : List Text → List (List Text)
  | [] => if done = [] then [] else [done]
  | line :: lines =>
      match endLine (line.foldl step s) with
      | none => (done ++ [line]) :: groupsFrom start [] lines
      | some s => groupsFrom s (done ++ [line]) lines

def groups (lines : List Text) : List (List Text) := groupsFrom start [] lines

/-- The lines of a text; the last one may have no end. -/
def lines : Text → List Text
  | [] => []
  | c :: t =>
      if c = '\n' then [] :: lines t
      else match lines t with
        | [] => [[c]]
        | line :: more => (c :: line) :: more

/-! ## Keys and strings -/

def isWs (c : Char) : Bool := c == ' ' || c == '\t'

def skipWs (t : Text) : Text := t.dropWhile isWs

/-- A control character, which no comment and no string has. -/
def isControl (c : Char) : Bool := (c.toNat < 32 && c.toNat != 9) || c.toNat == 127

def isBareKey (c : Char) : Bool := isAsciiAlnum c || c == '_' || c == '-'

def hexValue (c : Char) : Option Nat :=
  if isAsciiDigit c then some (c.toNat - 48)
  else if 97 ≤ c.toNat ∧ c.toNat ≤ 102 then some (c.toNat - 87)
  else if 65 ≤ c.toNat ∧ c.toNat ≤ 70 then some (c.toNat - 55)
  else none

/-- The code point of `n` digits. -/
def readHex (n : Nat) (t : Text) : Option (Char × Text) := do
  let digits ← (t.take n).mapM hexValue
  let code := digits.foldl (fun v d => 16 * v + d) 0
  if digits.length = n ∧ code.isValidChar then return (Char.ofNat code, t.drop n) else none

/-- An escape, from behind its backslash. -/
def readEscape : Text → Option (Char × Text)
  | 'b' :: t => some ('\x08', t)
  | 't' :: t => some ('\t', t)
  | 'n' :: t => some ('\n', t)
  | 'f' :: t => some ('\x0c', t)
  | 'r' :: t => some ('\r', t)
  | '"' :: t => some ('"', t)
  | '\\' :: t => some ('\\', t)
  | 'u' :: t => readHex 4 t
  | 'U' :: t => readHex 8 t
  | _ => none

/-- A string in one line, from behind its quote. -/
def readSingle (q : Quote) : Nat → Text → Option (Text × Text)
  | 0, _ => none
  | _, [] => none
  | n + 1, c :: t =>
      if c = q.char then some ([], t)
      else if q = .basic ∧ c = '\\' then do
        let (c, t) ← readEscape t
        let (s, t) ← readSingle q n t
        return (c :: s, t)
      else if isControl c then none
      else (readSingle q n t).map fun read => (c :: read.1, read.2)

/-- A string of several lines, from behind the line feed after its quotes. -/
def readSeveral (q : Quote) : Nat → Text → Option (Text × Text)
  | 0, _ => none
  | _, [] => none
  | n + 1, c :: t =>
      if startsWith [q.char, q.char, q.char] (c :: t) then
        -- one or two more quotes at the end belong to the string
        let more := ((t.drop 2).takeWhile (· == q.char)).take 2
        some (more, t.drop (2 + more.length))
      else if q = .basic ∧ c = '\\' then
        if startsWith ['\n'] (skipWs t) then
          readSeveral q n (t.dropWhile fun c => isWs c || c == '\n')
        else do
          let (c, t) ← readEscape t
          let (s, t) ← readSeveral q n t
          return (c :: s, t)
      else if isControl c && c != '\n' then none
      else (readSeveral q n t).map fun read => (c :: read.1, read.2)

def quoteOf (c : Char) : Option Quote :=
  if c = '"' then some .basic else if c = '\'' then some .literal else none

/-- A string, from its quotes. -/
def readText : Text → Option (Text × Text)
  | [] => none
  | c :: t => do
      let q ← quoteOf c
      if startsWith [c, c] t then
        let t := t.drop 2
        readSeveral q (t.length + 1) (if startsWith ['\n'] t then t.drop 1 else t)
      else readSingle q (t.length + 1) t

def readKey : Text → Option (Text × Text)
  | [] => none
  | c :: t =>
      match quoteOf c with
      | some q => readSingle q (t.length + 1) t
      | none =>
          if isBareKey c then
            some ((c :: t).takeWhile isBareKey, (c :: t).dropWhile isBareKey)
          else none

/-- Keys between dots. -/
def readKeys : Nat → Text → Option (List Text × Text)
  | 0, _ => none
  | n + 1, t => do
      let (k, t) ← readKey t
      match skipWs t with
      | '.' :: u => (readKeys n (skipWs u)).map fun read => (k :: read.1, read.2)
      | u => return ([k], u)

/-! ## Definitions -/

/-- What a statement defines: a value at a path, which starts with the path of
the table it stands in. The headers define tables. -/
structure Entry where
  header : Bool
  base : Path
  path : Path
  value : Value

/-- Paths that take one place for a table and for an array. -/
def mixed : Path → Path → Bool
  | .key k :: p, .key l :: q => k == l && mixed p q
  | .index m :: p, .index n :: q => m == n && mixed p q
  | .key _ :: _, .index _ :: _ => true
  | .index _ :: _, .key _ :: _ => true
  | [], .index _ :: _ => true
  | .index _ :: _, [] => true
  | _, _ => false

/-- A table that dotted keys make, and its header. -/
def dotted (e f : Entry) : Bool :=
  !e.header && f.header && e.base.isPrefixOf f.path && f.path.isPrefixOf e.path && f.path != e.base

/-- Two definitions of one place, or one inside of a value. -/
def clash (e f : Entry) : Bool :=
  e.path == f.path || (!e.header && e.path.isPrefixOf f.path) ||
    (!f.header && f.path.isPrefixOf e.path) || mixed e.path f.path || dotted e f || dotted f e

/-- No two definitions clash. -/
def Consistent (es : List Entry) : Prop := es.Pairwise fun e f => clash e f = false

instance (es : List Entry) : Decidable (Consistent es) :=
  inferInstanceAs (Decidable (es.Pairwise _))

/-! ## Values and statements -/

/-- White space, line ends and comments in an array. -/
def skipFill (comment : Bool) : Text → Text
  | [] => []
  | c :: t =>
      if c = '\n' then skipFill false t
      else if comment then if isControl c then [] else skipFill true t
      else if isWs c then skipFill false t
      else if c = '#' then skipFill true t
      else c :: t

section Values

variable (scalar : Scalar)

mutual
def readValue : Nat → Text → Option (Value × Text)
  | 0, _ => none
  | _, [] => none
  | n + 1, c :: t =>
      if (quoteOf c).isSome then (readText (c :: t)).map fun read => ([([], .text read.1)], read.2)
      else if c = '[' then
        (readItems n 0 (skipFill false t)).map fun read => (([], .array) :: read.1, read.2)
      else if c = '{' then do
        let (pairs, t) ← readPairs n true (skipWs t)
        if Consistent (pairs.map fun pair => ⟨false, [], pair.1, pair.2⟩) then
          return (([], .table) :: pairs.flatMap fun pair => pair.2.under pair.1, t)
        else none
      else (scalar (c :: t)).map fun read => ([([], .token read.1)], read.2)

/-- The items of an array from a position on. -/
def readItems : Nat → Nat → Text → Option (Value × Text)
  | 0, _, _ => none
  | _, _, [] => none
  | n + 1, i, c :: t =>
      if c = ']' then some ([], t)
      else do
        let (v, t) ← readValue n (c :: t)
        match skipFill false t with
        | ',' :: u =>
            (readItems n (i + 1) (skipFill false u)).map fun read =>
              (v.under [.index i] ++ read.1, read.2)
        | ']' :: u => return (v.under [.index i], u)
        | _ => none

/-- The pairs of an inline table. -/
def readPairs : Nat → Bool → Text → Option (List (Path × Value) × Text)
  | 0, _, _ => none
  | _, _, [] => none
  | n + 1, first, c :: t =>
      if first && c == '}' then some ([], t)
      else do
        let (ks, t) ← readKeys (t.length + 1) (c :: t)
        match t with
        | '=' :: t =>
            let (v, t) ← readValue n (skipWs t)
            match skipWs t with
            | ',' :: u =>
                (readPairs n false (skipWs u)).map fun read => ((ks.map .key, v) :: read.1, read.2)
            | '}' :: u => return ([(ks.map .key, v)], u)
            | _ => none
        | _ => none
end

inductive Statement where
  | blank
  | table (ks : List Text)
  | arrayTable (ks : List Text)
  | pair (ks : List Text) (v : Value)

/-- Nothing but white space and a comment. -/
def isEnd (t : Text) : Bool :=
  match skipWs t with
  | [] => true
  | c :: t => c == '#' && t.all fun c => !isControl c

/-- A statement, behind white space. -/
def readStatement : Text → Option Statement
  | '[' :: '[' :: t => do
      let (ks, t) ← readKeys (t.length + 1) (skipWs t)
      match t with
      | ']' :: ']' :: u => if isEnd u then return .arrayTable ks else none
      | _ => none
  | '[' :: t => do
      let (ks, t) ← readKeys (t.length + 1) (skipWs t)
      match t with
      | ']' :: u => if isEnd u then return .table ks else none
      | _ => none
  | t =>
      if isEnd t then some .blank
      else do
        let (ks, t) ← readKeys (t.length + 1) t
        match t with
        | '=' :: u =>
            let (v, u) ← readValue scalar (u.length + 1) (skipWs u)
            if isEnd u then return .pair ks v else none
        | _ => none

/-- The statement of a group of lines. -/
def readGroup (lines : List Text) : Option Statement :=
  readStatement scalar (skipWs (joinWith ['\n'] lines))

end Values

/-! ## Documents -/

/-- Where the next pair goes, and the arrays of tables, one for each table of it. -/
structure Context where
  current : Path
  arrays : List Path

def Context.top : Context := ⟨[], []⟩

/-- The place of a key: in an array of tables, the last of them. -/
def place (arrays : List Path) (base : Path) (k : Text) : Path :=
  let p := base ++ [.key k]
  match arrays.count p with
  | 0 => p
  | n + 1 => p ++ [.index n]

def placeAll (arrays : List Path) (base : Path) (ks : List Text) : Path :=
  ks.foldl (place arrays) base

/-- What a statement defines, and the context behind it. -/
def Context.read (c : Context) : Statement → Context × Option Entry
  | .blank => (c, none)
  | .table ks =>
      let p := placeAll c.arrays [] ks
      (⟨p, c.arrays⟩, some ⟨true, p, p, [([], .table)]⟩)
  | .arrayTable ks =>
      let a := placeAll c.arrays [] ks.dropLast ++ (ks.getLast?.map Seg.key).toList
      let p := a ++ [.index (c.arrays.count a)]
      (⟨p, a :: c.arrays⟩, some ⟨true, p, p, [([], .table)]⟩)
  | .pair ks v => (c, some ⟨false, c.current, c.current ++ ks.map .key, v⟩)

def entriesFrom (c : Context) : List Statement → List Entry
  | [] => []
  | s :: ss => (c.read s).2.toList ++ entriesFrom (c.read s).1 ss

/-- The definitions of a valid document. -/
def parse (scalar : Scalar) (lines : List Text) : Option (List Entry) := do
  let statements ← (groups lines).mapM (readGroup scalar)
  let es := entriesFrom .top statements
  if Consistent es then return es else none

/-- The places an entry defines. -/
def Entry.places (e : Entry) : Value := e.value.under e.path

/-- A place and the tables and arrays it lies in. -/
def around : Path → Path → Leaf → Value
  | _, [], _ => []
  | done, [s], leaf => [(done ++ [s], leaf)]
  | done, s :: s' :: rest, leaf =>
      (done ++ [s], match s' with
        | .key _ => Leaf.table
        | .index _ => Leaf.array) :: around (done ++ [s]) (s' :: rest) leaf

/-- The tree of the definitions: all places, with those they lie in. -/
def tree (es : List Entry) : Value :=
  es.flatMap fun e => e.places.flatMap fun place => around [] place.1 place.2

/-! ## Groups -/

/-- The group ends with its last line, whatever lines follow. -/
def Complete (g : List Text) : Prop := ∀ more, groups (g ++ more) = g :: groups more

/-- Each group is one, and complete unless it is the last. -/
def Grouped : List (List Text) → Prop
  | [] => True
  | g :: gs => groups g = [g] ∧ (gs ≠ [] → Complete g) ∧ Grouped gs

theorem groups_grouped (ls : List Text) : Grouped (groups ls) := by
  -- The lines of the open group lead from the start to the state.
  have hfrom : ∀ (ls : List Text) (s : State) (done : List Text),
      (∀ more, groups (done ++ more) = groupsFrom s done more) →
        Grouped (groupsFrom s done ls) := by
    intro ls
    induction ls with
    | nil =>
        intro s done h
        rw [groupsFrom]
        split
        · trivial
        · rename_i hne
          refine ⟨?_, fun hnil => absurd rfl hnil, trivial⟩
          have hdone := h []
          rw [List.append_nil] at hdone
          rw [hdone, groupsFrom, if_neg hne]
    | cons line ls ih =>
        intro s done h
        rw [groupsFrom]
        split
        · rename_i hend
          have hcomplete : Complete (done ++ [line]) := by
            intro more
            rw [List.append_assoc, List.singleton_append, h, groupsFrom, hend]
            rfl
          refine ⟨?_, fun _ => hcomplete, ih start [] fun more => rfl⟩
          have hone := hcomplete []
          rwa [List.append_nil] at hone
        · rename_i s' hend
          refine ih s' (done ++ [line]) fun more => ?_
          rw [List.append_assoc, List.singleton_append, h, groupsFrom, hend]
  exact hfrom ls start [] fun more => rfl

theorem Grouped.sublist {gs gs' : List (List Text)} (h : Grouped gs) (hsub : gs'.Sublist gs) :
    Grouped gs' := by
  induction hsub with
  | slnil => trivial
  | cons g _ ih => exact ih h.2.2
  | cons_cons g hsub ih =>
      refine ⟨h.1, fun hne => h.2.1 ?_, ih h.2.2⟩
      intro hnil
      rw [hnil] at hsub
      exact hne (List.sublist_nil.1 hsub)

theorem Grouped.ne_nil {gs : List (List Text)} (h : Grouped gs) : ∀ g ∈ gs, g ≠ [] := by
  induction gs with
  | nil => simp
  | cons g gs ih =>
      obtain ⟨hone, -, hrest⟩ := h
      refine List.forall_mem_cons.2 ⟨?_, ih hrest⟩
      rintro rfl
      cases hone

/-- **Groups stay groups** when others are taken away. -/
theorem Grouped.flatten {gs : List (List Text)} (h : Grouped gs) : groups gs.flatten = gs := by
  induction gs with
  | nil => rfl
  | cons g gs ih =>
      obtain ⟨hone, hcomplete, hrest⟩ := h
      by_cases hnil : gs = []
      · rw [hnil, List.flatten_cons, List.flatten_nil, List.append_nil, hone]
      · rw [List.flatten_cons, hcomplete hnil, ih hrest]

theorem flatten_groups (ls : List Text) : (groups ls).flatten = ls := by
  have hfrom : ∀ (ls : List Text) (s : State) (done : List Text),
      (groupsFrom s done ls).flatten = done ++ ls := by
    intro ls
    induction ls with
    | nil =>
        intro s done
        rw [groupsFrom]
        split
        · rename_i hnil
          rw [hnil]
          rfl
        · simp
    | cons line ls ih =>
        intro s done
        rw [groupsFrom]
        split
        · rw [List.flatten_cons, ih]
          simp
        · rw [ih]
          simp
  exact hfrom ls start []

/-! ## Hidden paths -/

/-- Paths that are hidden with all below them, an array with its items. -/
structure Hiding (hidden : Path → Bool) : Prop where
  below : ∀ {p q}, hidden p = true → hidden (p ++ q) = true
  item : ∀ {p n}, hidden (p ++ [.index n]) = true → hidden p = true

def Statement.isHeader : Statement → Bool
  | table _ => true
  | arrayTable _ => true
  | _ => false

/-- The statements marked are those with hidden definitions, and behind such the
first that is not marked is a header; `behind` says that the one before is marked. -/
def Drops (hidden : Path → Bool) (behind : Bool) (c : Context) : List (Statement × Bool) → Prop
  | [] => True
  | (s, dropped) :: rest =>
      (dropped = true → ∀ e ∈ (c.read s).2, hidden e.path = true) ∧
      (dropped = false → (∀ e ∈ (c.read s).2, hidden e.path = false) ∧
        (behind = true → s.isHeader = true)) ∧
      Drops hidden dropped (c.read s).1 rest

section Hidden

variable {hidden : Path → Bool} (hh : Hiding hidden)
include hh

theorem Hiding.of_prefix {p q : Path} (h : p <+: q) (hq : hidden q = false) : hidden p = false := by
  obtain ⟨r, rfl⟩ := h
  by_contra hp
  rw [hh.below (by simpa using hp)] at hq
  cases hq

omit hh in
theorem place_extends (arrays : List Path) (base : Path) (k : Text) :
    base ++ [.key k] <+: place arrays base k := by
  rw [place]
  split
  · exact List.prefix_rfl
  · exact List.prefix_append _ _

omit hh in
theorem placeAll_extends (arrays : List Path) (base : Path) (ks : List Text) :
    base <+: placeAll arrays base ks := by
  induction ks generalizing base with
  | nil => exact List.prefix_rfl
  | cons k ks ih =>
      exact ((List.prefix_append base _).trans (place_extends arrays base k)).trans (ih _)

/-- The arrays that are hidden do not matter for a path that is not. -/
theorem placeAll_filter {arrays : List Path} {base : Path} {ks : List Text}
    (h : hidden (placeAll arrays base ks) = false) :
    placeAll (arrays.filter fun p => !hidden p) base ks = placeAll arrays base ks := by
  induction ks generalizing base with
  | nil => rfl
  | cons k ks ih =>
      have hplace : hidden (place arrays base k) = false :=
        hh.of_prefix (placeAll_extends arrays _ ks) h
      have hkey : hidden (base ++ [.key k]) = false :=
        hh.of_prefix (place_extends arrays base k) hplace
      have hsame : place (arrays.filter fun p => !hidden p) base k = place arrays base k := by
        rw [place, place, List.count_filter (by simp [hkey])]
      show placeAll _ (place _ base k) ks = placeAll _ (place _ base k) ks
      rw [hsame]
      exact ih h

/-- **The statements that stay define what they defined.** -/
theorem entriesFrom_drops {ss : List (Statement × Bool)} {behind : Bool} {c c' : Context}
    (h : Drops hidden behind c ss) (harrays : c'.arrays = c.arrays.filter fun p => !hidden p)
    (hcurrent : behind = false → c'.current = c.current) :
    entriesFrom c' ((ss.filter fun s => !s.2).map Prod.fst) =
      (entriesFrom c (ss.map Prod.fst)).filter fun e => !hidden e.path := by
  induction ss generalizing behind c c' with
  | nil => rfl
  | cons head ss ih =>
      obtain ⟨s, dropped⟩ := head
      obtain ⟨hdropped, hkept, hrest⟩ := h
      rw [List.map_cons, entriesFrom, List.filter_append]
      cases dropped with
      | true =>
          have hnone : ((c.read s).2.toList.filter fun e => !hidden e.path) = [] := by
            rw [List.filter_eq_nil_iff]
            intro e he
            simp [hdropped rfl e (Option.mem_toList.1 he)]
          have hbehind : (c.read s).1.arrays.filter (fun p => !hidden p) =
              c.arrays.filter fun p => !hidden p := by
            cases s with
            | arrayTable ks =>
                have hpath := hdropped rfl _ rfl
                show (_ :: c.arrays).filter _ = _
                rw [List.filter_cons_of_neg]
                simpa using hh.item hpath
            | _ => rfl
          rw [hnone, List.nil_append, List.filter_cons_of_neg (by simp)]
          exact ih hrest (by rw [hbehind, harrays]) fun hno => nomatch hno
      | false =>
          obtain ⟨hvisible, hheader⟩ := hkept rfl
          have hall : ((c.read s).2.toList.filter fun e => !hidden e.path) =
              (c.read s).2.toList := by
            rw [List.filter_eq_self]
            intro e he
            simp [hvisible e (Option.mem_toList.1 he)]
          -- the contexts read the statement in the same way
          have hsame : (c'.read s).2 = (c.read s).2 ∧
              (c'.read s).1.arrays = (c.read s).1.arrays.filter (fun p => !hidden p) ∧
              (c'.read s).1.current = (c.read s).1.current := by
            cases s with
            | blank =>
                have hopen : behind = false := by
                  cases behind with
                  | false => rfl
                  | true => exact absurd (hheader rfl) (by decide)
                exact ⟨rfl, harrays, hcurrent hopen⟩
            | pair ks v =>
                have hopen : behind = false := by
                  cases behind with
                  | false => rfl
                  | true => exact absurd (hheader rfl) (by simp [Statement.isHeader])
                refine ⟨?_, harrays, hcurrent hopen⟩
                show some (Entry.mk false c'.current (c'.current ++ _) v) = some _
                rw [hcurrent hopen]
            | table ks =>
                have hpath : hidden (placeAll c.arrays [] ks) = false := hvisible _ rfl
                have hplace : placeAll c'.arrays [] ks = placeAll c.arrays [] ks := by
                  rw [harrays]
                  exact placeAll_filter hh hpath
                refine ⟨?_, harrays, hplace⟩
                show some (Entry.mk true (placeAll c'.arrays [] ks) _ _) = some _
                rw [hplace]
            | arrayTable ks =>
                have hpath := hvisible _ rfl
                have harray : hidden (placeAll c.arrays [] ks.dropLast ++
                    (ks.getLast?.map Seg.key).toList) = false :=
                  hh.of_prefix (List.prefix_append _ _) hpath
                have hplace : placeAll c'.arrays [] ks.dropLast =
                    placeAll c.arrays [] ks.dropLast := by
                  rw [harrays]
                  exact placeAll_filter hh (hh.of_prefix (List.prefix_append _ _) harray)
                have hcount : c'.arrays.count (placeAll c.arrays [] ks.dropLast ++
                    (ks.getLast?.map Seg.key).toList) = c.arrays.count
                      (placeAll c.arrays [] ks.dropLast ++ (ks.getLast?.map Seg.key).toList) := by
                  rw [harrays, List.count_filter (by simp [harray])]
                simp only [Context.read, hplace, hcount]
                refine ⟨trivial, ?_, trivial⟩
                rw [List.filter_cons_of_pos (by simp [harray]), harrays]
          rw [hall, List.filter_cons_of_pos (by simp), List.map_cons, entriesFrom, hsame.1]
          congr 1
          exact ih hrest hsame.2.1 fun _ => hsame.2.2

/-- **A document without the statements marked** has the definitions that are not hidden. -/
theorem parse_drops {scalar : Scalar} {ls : List Text} {marked : List (List Text × Bool)}
    {ss : List Statement} (hmarked : marked.map Prod.fst = groups ls)
    (hread : (groups ls).mapM (readGroup scalar) = some ss)
    (hdrops : Drops hidden false .top (ss.zip (marked.map Prod.snd)))
    (hconsistent : Consistent (entriesFrom .top ss)) :
    parse scalar ((marked.filter fun g => !g.2).map Prod.fst).flatten =
      some ((entriesFrom .top ss).filter fun e => !hidden e.path) := by
  have hgroups : groups ((marked.filter fun g => !g.2).map Prod.fst).flatten =
      (marked.filter fun g => !g.2).map Prod.fst := by
    have hsub : ((marked.filter fun g => !g.2).map Prod.fst).Sublist (groups ls) := by
      rw [← hmarked]
      exact List.filter_sublist.map Prod.fst
    exact ((groups_grouped ls).sublist hsub).flatten
  have hstatements : ∀ (marked : List (List Text × Bool)) (ss : List Statement),
      (marked.map Prod.fst).mapM (readGroup scalar) = some ss →
        ((marked.filter fun g => !g.2).map Prod.fst).mapM (readGroup scalar) =
            some (((ss.zip (marked.map Prod.snd)).filter fun s => !s.2).map Prod.fst) ∧
          (ss.zip (marked.map Prod.snd)).map Prod.fst = ss := by
    intro marked
    induction marked with
    | nil =>
        intro ss h
        cases h
        exact ⟨rfl, rfl⟩
    | cons g marked ih =>
        intro ss h
        rw [List.map_cons, List.mapM_cons] at h
        obtain ⟨s, hs, h⟩ := Option.bind_eq_some_iff.1 h
        obtain ⟨rest, hrest, heq⟩ := Option.bind_eq_some_iff.1 h
        cases heq
        obtain ⟨hkept, hall⟩ := ih rest hrest
        obtain ⟨lines, dropped⟩ := g
        rw [List.map_cons, List.zip_cons_cons, List.map_cons, hall]
        refine ⟨?_, rfl⟩
        cases dropped with
        | true => rw [List.filter_cons_of_neg (by simp), List.filter_cons_of_neg (by simp), hkept]
        | false =>
            rw [List.filter_cons_of_pos (by simp), List.filter_cons_of_pos (by simp),
              List.map_cons, List.mapM_cons, hkept]
            simp only [hs, bind, Option.bind]
            rfl
  rw [← hmarked] at hread
  obtain ⟨hkept, hall⟩ := hstatements marked ss hread
  have hentries := @entriesFrom_drops _ hh _ _ .top .top hdrops rfl fun _ => rfl
  rw [hall] at hentries
  rw [parse, hgroups, hkept]
  simp only [bind, Option.bind, hentries]
  exact if_pos (hconsistent.sublist List.filter_sublist)

omit hh in
theorem around_extends {done p : Path} {leaf : Leaf} {node : Path × Leaf}
    (h : node ∈ around done p leaf) : node.1 <+: done ++ p := by
  induction p generalizing done with
  | nil => cases h
  | cons s p ih =>
      cases p with
      | nil =>
          obtain rfl := List.mem_singleton.1 h
          exact List.prefix_rfl
      | cons s' p =>
          rw [around.eq_def] at h
          rcases List.mem_cons.1 h with rfl | hmem
          · exact ⟨s' :: p, by simp⟩
          · have := ih hmem
            rwa [List.append_assoc] at this

omit hh in
theorem around_start {done p : Path} {s : Seg} {leaf : Leaf} {node : Path × Leaf}
    (h : node ∈ around done (s :: p) leaf) : ∃ more, node.1 = done ++ s :: more := by
  induction p generalizing done s with
  | nil =>
      obtain rfl := List.mem_singleton.1 h
      exact ⟨[], rfl⟩
  | cons s' p ih =>
      rw [around.eq_def] at h
      rcases List.mem_cons.1 h with rfl | hmem
      · exact ⟨[], rfl⟩
      · obtain ⟨more, hmore⟩ := ih hmem
        exact ⟨s' :: more, by rw [hmore, List.append_assoc]; rfl⟩

/-- **The tree without the hidden places**, if the places around them stay. -/
theorem tree_filter {es : List Entry} (hvisible : ∀ e ∈ es, hidden e.path = false →
      ∀ place ∈ e.places, hidden place.1 = false)
    (hanchored : ∀ e ∈ es, hidden e.path = true → ∀ place ∈ e.places,
      ∀ node ∈ around [] place.1 place.2, hidden node.1 = false →
        node ∈ tree (es.filter fun e => !hidden e.path)) (node : Path × Leaf) :
    node ∈ tree (es.filter fun e => !hidden e.path) ↔ node ∈ tree es ∧ hidden node.1 = false := by
  simp only [tree, List.mem_flatMap, List.mem_filter] at hanchored ⊢
  constructor
  · intro h
    obtain ⟨e, ⟨he, hshown⟩, place, hplace, hnode⟩ := h
    have hshown : hidden e.path = false := by simpa using hshown
    refine ⟨⟨e, he, place, hplace, hnode⟩, ?_⟩
    exact hh.of_prefix (around_extends hnode) (hvisible e he hshown place hplace)
  · intro h
    obtain ⟨⟨e, he, place, hplace, hnode⟩, hshown⟩ := h
    by_cases hhidden : hidden e.path = true
    · exact hanchored e he hhidden place hplace node hnode hshown
    · exact ⟨e, ⟨he, by simpa using hhidden⟩, place, hplace, hnode⟩

end Hidden

end RalphVault.Toml
