import Mathlib
import RalphVault.Outcome
import RalphVault.PurePath
import RalphVault.Memory.Value

/-!
# Changed paths

`shared/file_line_candidates.py`: the files a Stop check looks at. The records
of `git status --porcelain=v1 -z` are read field by field, and each name goes
through `normalize_path`, which was written for what people and tools type:
it strips quotes and spaces, a diff side, a line number and a home directory.

A record is read at the right fields when renames stand in the first status
column, and a name is read as the file it names when none of these edits
applies to it (`changedGitPaths_exact_iff`).
-/

namespace RalphVault.LineGuard

open Memory (strip)
open Outcome (bind_eq_ok)

/-! ## Names and places -/

/-- A code point of a file name, or a run of its bytes that is no UTF-8. -/
inductive Piece where
  | char (c : Char)
  | bad (bytes : List UInt8)
deriving DecidableEq

abbrev Pieces := List Piece

def ofText (t : Text) : Pieces := t.map .char

/-- `bytes.decode("utf-8", errors="replace")` on one piece. -/
def Piece.decode : Piece → Char
  | .char c => c
  | .bad _ => '\uFFFD'

/-- `bytes.decode("utf-8", errors="replace")`. -/
def decode (n : Pieces) : Text := n.map Piece.decode

def slash : Piece := .char '/'

def nul : Piece := .char (Char.ofNat 0)

/-- A path by its root and its components. -/
structure Place where
  root : Root
  parts : List Pieces
deriving DecidableEq

/-- `Path(text)`. -/
def pathOf (t : Text) : Place :=
  ⟨PurePath.rootOf t, ((t.splitOn '/').filter fun c => c ≠ [] ∧ c ≠ ['.']).map ofText⟩

/-- What the code asks of the machine. -/
structure Host where
  /-- The home directory a component such as `~` or `~user` stands for. -/
  home : Text → Option Place
  /-- `Path.resolve`, unless it raises `OSError`. -/
  resolve : Place → Option Place

/-- The `RuntimeError` of `Path.expanduser`. -/
inductive RuntimeError where
  | noHome
deriving DecidableEq

/-! ## The normaliser -/

/-- `text.strip(chars)`, for the characters that satisfy `p`. -/
def trim (p : Char → Bool) (t : Text) : Text := (t.dropWhile p).rdropWhile p

def isQuote (c : Char) : Bool := c == '\u0060' || c == '\'' || c == '"'

def schemes : List Text := [txt "http://", txt "https://", txt "app://", txt "plugin://"]

section Normalise

variable (uni : Unicode)

/-- The first group of `^(.+):\d+(?::\d+)?$`, or the text itself. The first
group is greedy and takes every colon but the last. -/
def dropLine (t : Text) : Text :=
  match t.reverse.dropWhile uni.decimal with
  | ':' :: c :: front => if t.reverse.takeWhile uni.decimal = [] then t else (c :: front).reverse
  | _ => t

/-- The text without a leading `a/` or `b/`. -/
def dropSide (t : Text) : Text :=
  if startsWith ['a', '/'] t || startsWith ['b', '/'] t then t.drop 2 else t

/-- The text `normalize_path` makes a path of. -/
def edited (raw : Text) : Option Text :=
  let value := trim isQuote (strip raw)
  if value = [] ∨ '\n' ∈ value ∨ 500 < value.length then none
  else if schemes.any fun scheme => startsWith scheme value then none
  else some (dropSide (dropLine uni value))

variable (host : Host) (root : Place)

/-- `Path.expanduser`. -/
def expandUser (p : Place) : Except RuntimeError Place :=
  match p.root, p.parts with
  | .relative, first :: rest =>
      if first.head? = some (.char '~') then
        match host.home (decode first) with
        | some home => .ok ⟨home.root, home.parts ++ rest⟩
        | none => .error .noHome
      else .ok p
  | _, _ => .ok p

/-- `path if path.is_absolute() else root / path`. -/
def under (p : Place) : Place := if p.root = .relative then ⟨root.root, root.parts ++ p.parts⟩ else p

/-- `normalize_path`. -/
def normalizePath (raw : Text) : Except RuntimeError (Option Place) :=
  match edited uni raw with
  | none => .ok none
  | some value => do
      let path ← expandUser host (pathOf value)
      return host.resolve (under root path)

/-! ## The records -/

/-- The path an entry adds for itself, unless its status has a `D`. -/
def entryPath (text : Text) : Except RuntimeError (Option Place) :=
  if 'D' ∈ text.take 2 then .ok none else normalizePath uni host root (text.drop 3)

/-- The `while` loop of `changed_git_paths`, as the path each field adds. -/
def scan : List Pieces → Except RuntimeError (List (Option Place))
  | [] => .ok []
  | entry :: rest =>
      if entry = [] ∨ (decode entry).length < 4 then do
        return none :: (← scan rest)
      else do
        let text := decode entry
        let path ← entryPath uni host root text
        if text.head? = some 'R' ∨ text.head? = some 'C' then
          match rest with
          | [] => return [path]
          | source :: rest =>
              let moved ← normalizePath uni host root (decode source)
              return path :: moved :: (← scan rest)
        else return path :: (← scan rest)

/-- What `subprocess.run` returns. -/
structure Completed where
  returncode : Int
  stdout : Pieces

/-- `changed_git_paths`, on the run of git unless it could not start: the
elements of the set, as they are added. -/
def changedGitPaths : Option Completed → Except RuntimeError (List Place)
  | none => .ok []
  | some result =>
      if result.returncode ≠ 0 ∨ result.stdout = [] then .ok []
      else do return (← scan uni host root (result.stdout.splitOn nul)).reduceOption

end Normalise

/-! ## The output of git -/

/-- A name as git prints it: the components under the root, and a slash
behind an untracked directory. -/
structure GitName where
  parts : List Pieces
  directory : Bool
  some_part : parts ≠ []
  part : ∀ c ∈ parts, c ≠ [] ∧ c ≠ ofText ['.'] ∧ slash ∉ c ∧ nul ∉ c

def GitName.pieces (n : GitName) : Pieces :=
  [slash].intercalate n.parts ++ if n.directory then [slash] else []

def isMove (c : Char) : Bool := c == 'R' || c == 'C'

/-- A record: the two status columns, the path, and the source of a rename
or a copy in either column. -/
structure Entry where
  index : Char
  worktree : Char
  path : GitName
  source : Option GitName
  printable : index ≠ Char.ofNat 0 ∧ worktree ≠ Char.ofNat 0
  moved : source.isSome = (isMove index || isMove worktree)

def Entry.deleted (e : Entry) : Bool := e.index == 'D' || e.worktree == 'D'

def Entry.fields (e : Entry) : List Pieces :=
  (.char e.index :: .char e.worktree :: .char ' ' :: e.path.pieces) ::
    (e.source.map GitName.pieces).toList

/-- The output of `git status --porcelain=v1 -z`. -/
def output (entries : List Entry) : Pieces :=
  (entries.flatMap Entry.fields).flatMap fun field => field ++ [nul]

/-- The file a name names. -/
def own (root : Place) (n : GitName) : Place := ⟨root.root, root.parts ++ n.parts⟩

/-- The names of the entries that are not deleted, and of the sources. -/
def Entry.names (e : Entry) : List GitName :=
  (if e.deleted then [] else [e.path]) ++ e.source.toList

/-- For each field of an entry, the path it stands for. -/
def Entry.expected (host : Host) (root : Place) (e : Entry) : List (Option Place) :=
  (if e.deleted then none else host.resolve (own root e.path)) ::
    (e.source.map fun n => host.resolve (own root n)).toList

/-- Each field adds the path it stands for, so that the paths returned are
those of the names. -/
structure Exact (uni : Unicode) (host : Host) (root : Place) (entries : List Entry) : Prop where
  each : scan uni host root ((output entries).splitOn nul) =
    .ok (entries.flatMap (Entry.expected host root) ++ [none])
  returned : ∃ paths, changedGitPaths uni host root (some ⟨0, output entries⟩) = .ok paths ∧
    ∀ p, p ∈ paths ↔ ∃ e ∈ entries, ∃ n ∈ e.names, host.resolve (own root n) = some p

/-! ## Stripping -/

theorem trim_eq_self {p : Char → Bool} {t : Text} (hfirst : ∀ c ∈ t.head?, p c = false)
    (hlast : ∀ c ∈ t.getLast?, p c = false) : trim p t = t := by
  have hdrop : t.dropWhile p = t := by
    cases t with
    | nil => rfl
    | cons c t => rw [List.dropWhile_cons_of_neg (by simp [hfirst c rfl])]
  rw [trim, hdrop, List.rdropWhile_eq_self_iff]
  intro hne
  simp [hlast _ (List.getLast?_eq_some_getLast hne)]

theorem length_trim_le (p : Char → Bool) (t : Text) : (trim p t).length ≤ t.length :=
  (List.rdropWhile_prefix p _).length_le.trans (List.dropWhile_sublist p).length_le

/-- A text that keeps its length has nothing to strip at either end. -/
theorem ends_of_length_trim {p : Char → Bool} {t : Text} (h : t.length ≤ (trim p t).length) :
    (∀ c ∈ t.head?, p c = false) ∧ ∀ c ∈ t.getLast?, p c = false := by
  have hright := (List.rdropWhile_prefix p (t.dropWhile p)).length_le
  have hleft := (List.dropWhile_sublist p (l := t)).length_le
  rw [trim] at h
  have hdrop : t.dropWhile p = t := (List.dropWhile_sublist p).eq_of_length (by omega)
  have hkeep : t.rdropWhile p = t :=
    (List.rdropWhile_prefix p t).eq_of_length (by rw [hdrop] at h hright; omega)
  constructor
  · intro c hc
    cases t with
    | nil => simp at hc
    | cons d t =>
        obtain rfl : d = c := by simpa using hc
        by_contra hp
        rw [List.dropWhile_cons_of_pos (by simpa using hp)] at hdrop
        have := (List.dropWhile_sublist p (l := t)).length_le
        rw [hdrop, List.length_cons] at this
        omega
  · intro c hc
    have hne : t ≠ [] := by
      rintro rfl
      simp at hc
    rw [List.getLast?_eq_some_getLast hne, Option.mem_some_iff] at hc
    have := List.rdropWhile_eq_self_iff.1 hkeep hne
    rw [hc] at this
    simpa using this

/-- A last character that is not stripped stays the last one. -/
theorem trim_concat {p : Char → Bool} {c : Char} (hc : p c = false) (u : Text) :
    ∃ v, trim p (u ++ [c]) = v ++ [c] := by
  have hdrop : ∃ v, (u ++ [c]).dropWhile p = v ++ [c] := by
    rw [List.dropWhile_append]
    split
    · exact ⟨[], by simp [hc]⟩
    · exact ⟨u.dropWhile p, rfl⟩
  obtain ⟨v, hv⟩ := hdrop
  refine ⟨v, ?_⟩
  rw [trim, hv, List.rdropWhile_concat_neg _ _ _ (by simp [hc])]

section Normalise

variable (uni : Unicode)

/-- `:` and a number behind a text. -/
def EndsInLine (t : Text) : Prop :=
  ∃ front digits, t = front ++ ':' :: digits ∧ front ≠ [] ∧ digits ≠ [] ∧
    ∀ d ∈ digits, uni.decimal d = true

theorem decimal_colon : uni.decimal ':' = false := by
  rw [uni.decimal_ascii _ (by decide)]
  decide

theorem decimal_slash : uni.decimal '/' = false := by
  rw [uni.decimal_ascii _ (by decide)]
  decide

theorem dropLine_of_endsInLine {front digits : Text} (hfront : front ≠ []) (hdigits : digits ≠ [])
    (h : ∀ d ∈ digits, uni.decimal d = true) : dropLine uni (front ++ ':' :: digits) = front := by
  obtain ⟨front, c, rfl⟩ := (List.eq_nil_or_concat' front).resolve_left hfront
  have hrev : (front ++ [c] ++ ':' :: digits).reverse =
      digits.reverse ++ ':' :: c :: front.reverse := by simp
  have hall : ∀ d ∈ digits.reverse, uni.decimal d = true := fun d hd => h d (List.mem_reverse.1 hd)
  have htake : (digits.reverse ++ ':' :: c :: front.reverse).takeWhile uni.decimal ≠ [] := by
    rw [List.takeWhile_append_of_pos hall]
    simp [hdigits]
  have hdrop : (digits.reverse ++ ':' :: c :: front.reverse).dropWhile uni.decimal =
      ':' :: c :: front.reverse := by
    rw [List.dropWhile_append_of_pos hall, List.dropWhile_cons_of_neg (by simp [decimal_colon uni])]
  rw [dropLine, hrev, hdrop]
  simp [htake]

theorem dropLine_cases (t : Text) :
    dropLine uni t = t ∧ ¬ EndsInLine uni t ∨
      EndsInLine uni t ∧ ∃ digits, t = dropLine uni t ++ ':' :: digits := by
  by_cases h : EndsInLine uni t
  · refine .inr ⟨h, ?_⟩
    obtain ⟨front, digits, rfl, hfront, hdigits, hall⟩ := h
    exact ⟨digits, by rw [dropLine_of_endsInLine uni hfront hdigits hall]⟩
  · refine .inl ⟨?_, h⟩
    rw [dropLine]
    split
    · rename_i c front hdrop
      split
      · rfl
      · rename_i htake
        refine absurd ⟨(c :: front).reverse, (t.reverse.takeWhile uni.decimal).reverse, ?_, by simp,
          by simpa using htake, ?_⟩ h
        · have hsplit := List.takeWhile_append_dropWhile (p := uni.decimal) (l := t.reverse)
          rw [hdrop] at hsplit
          have hrev := congrArg List.reverse hsplit
          rw [List.reverse_append, List.reverse_reverse] at hrev
          refine hrev.symm.trans ?_
          simp
        · intro d hd
          exact List.mem_takeWhile_imp (List.mem_reverse.1 hd)
    · rfl

theorem dropLine_concat {c : Char} (hc : uni.decimal c = false) (u : Text) :
    dropLine uni (u ++ [c]) = u ++ [c] := by
  rw [dropLine]
  split
  · simp [hc]
  · rfl

theorem dropSide_cases (t : Text) :
    (dropSide t = t ∧ startsWith ['a', '/'] t = false ∧ startsWith ['b', '/'] t = false) ∨
      ∃ c, (c = 'a' ∨ c = 'b') ∧ t = c :: '/' :: dropSide t := by
  by_cases ha : startsWith ['a', '/'] t = true
  · obtain ⟨u, rfl⟩ := List.isPrefixOf_iff_prefix.1 ha
    exact .inr ⟨'a', .inl rfl, rfl⟩
  · by_cases hb : startsWith ['b', '/'] t = true
    · obtain ⟨u, rfl⟩ := List.isPrefixOf_iff_prefix.1 hb
      exact .inr ⟨'b', .inr rfl, rfl⟩
    · refine .inl ⟨?_, by simpa using ha, by simpa using hb⟩
      rw [dropSide, if_neg (by simp [ha, hb])]

theorem dropSide_concat (c : Char) (u : Text) :
    dropSide (u ++ [c]) = [] ∨ ∃ v, dropSide (u ++ [c]) = v ++ [c] := by
  obtain ⟨h, -⟩ | ⟨d, -, h⟩ := dropSide_cases (u ++ [c])
  · exact .inr ⟨u, h⟩
  · generalize dropSide (u ++ [c]) = t at h ⊢
    obtain rfl | ⟨v, e, rfl⟩ := List.eq_nil_or_concat' t
    · exact .inl rfl
    · have hlast := congrArg List.getLast? h
      rw [← List.cons_append, ← List.cons_append, List.getLast?_concat, List.getLast?_concat]
        at hlast
      obtain rfl : c = e := by simpa using hlast
      exact .inr ⟨v, rfl⟩

/-- A text that none of the edits applies to. -/
structure Plain (t : Text) : Prop where
  first : ∀ c ∈ t.head?, isSpace c = false ∧ isQuote c = false
  last : ∀ c ∈ t.getLast?, isSpace c = false ∧ isQuote c = false
  line : '\n' ∉ t
  short : t.length ≤ 500
  scheme : ∀ scheme ∈ schemes, startsWith scheme t = false
  suffix : ¬ EndsInLine uni t
  side : startsWith ['a', '/'] t = false ∧ startsWith ['b', '/'] t = false

variable {uni} {t v : Text}

theorem edited_of_plain (h : Plain uni t) (hne : t ≠ []) : edited uni t = some t := by
  have hstrip : strip t = t :=
    trim_eq_self (fun c hc => (h.first c hc).1) fun c hc => (h.last c hc).1
  have hquote : trim isQuote t = t :=
    trim_eq_self (fun c hc => (h.first c hc).2) fun c hc => (h.last c hc).2
  have hline : dropLine uni t = t := by
    obtain ⟨heq, -⟩ | ⟨hends, -⟩ := dropLine_cases uni t
    · exact heq
    · exact absurd hends h.suffix
  have hside : dropSide t = t := by
    rw [dropSide, h.side.1, h.side.2]
    rfl
  have hscheme : (schemes.any fun scheme => startsWith scheme t) = false := by
    rw [List.any_eq_false]
    intro scheme hmem
    simp [h.scheme scheme hmem]
  rw [edited]
  simp only [hstrip, hquote, hscheme, hline, hside]
  rw [if_neg]
  · rfl
  · rintro (hnil | hnew | hlong)
    · exact hne hnil
    · exact h.line hnew
    · exact absurd h.short (by omega)

theorem length_edited_le (h : edited uni t = some v) :
    v.length ≤ t.length ∧ (t.length ≤ v.length → v = t ∧ Plain uni t) := by
  have hstrip : (strip t).length ≤ t.length := length_trim_le isSpace t
  have hquote := length_trim_le isQuote (strip t)
  generalize hvalue : trim isQuote (strip t) = value at hquote
  simp only [edited, hvalue] at h
  split at h
  · cases h
  rename_i hkeep
  split at h
  · cases h
  rename_i hscheme
  obtain rfl := Option.some.inj h
  -- Each edit that changes the text makes it shorter.
  have hline : (dropLine uni value).length ≤ value.length ∧
      (value.length ≤ (dropLine uni value).length →
        dropLine uni value = value ∧ ¬ EndsInLine uni value) := by
    obtain ⟨heq, hends⟩ | ⟨-, digits, heq⟩ := dropLine_cases uni value
    · rw [heq]
      exact ⟨le_rfl, fun _ => ⟨rfl, hends⟩⟩
    · have hlen := congrArg List.length heq
      rw [List.length_append, List.length_cons] at hlen
      exact ⟨by omega, fun _ => by omega⟩
  generalize dropLine uni value = numbered at hline ⊢
  have hside : (dropSide numbered).length ≤ numbered.length ∧
      (numbered.length ≤ (dropSide numbered).length → dropSide numbered = numbered ∧
        startsWith ['a', '/'] numbered = false ∧ startsWith ['b', '/'] numbered = false) := by
    obtain ⟨heq, hside⟩ | ⟨c, -, heq⟩ := dropSide_cases numbered
    · rw [heq]
      exact ⟨le_rfl, fun _ => ⟨rfl, hside⟩⟩
    · have hlen := congrArg List.length heq
      rw [List.length_cons, List.length_cons] at hlen
      exact ⟨by omega, fun _ => by omega⟩
  refine ⟨by omega, fun hlen => ?_⟩
  obtain ⟨hsideEq, hsides⟩ := hside.2 (by omega)
  obtain ⟨rfl, hends⟩ := hline.2 (by omega)
  have hspaces := ends_of_length_trim (p := isSpace) (t := t) (by show t.length ≤ (strip t).length; omega)
  have hstripEq : strip t = t :=
    trim_eq_self (fun c hc => hspaces.1 c hc) fun c hc => hspaces.2 c hc
  rw [hstripEq] at hvalue hquote
  have hquotes := ends_of_length_trim (p := isQuote) (t := t) (by rw [hvalue]; omega)
  have hquoteEq : trim isQuote t = t :=
    trim_eq_self (fun c hc => hquotes.1 c hc) fun c hc => hquotes.2 c hc
  obtain rfl : t = numbered := hquoteEq.symm.trans hvalue
  rw [hsideEq]
  refine ⟨rfl, ?_⟩
  exact {
    first := fun c hc => ⟨hspaces.1 c hc, hquotes.1 c hc⟩
    last := fun c hc => ⟨hspaces.2 c hc, hquotes.2 c hc⟩
    line := fun hmem => hkeep (.inr (.inl hmem))
    short := by
      by_contra hlong
      exact hkeep (.inr (.inr (by omega)))
    scheme := by
      intro scheme hmem
      by_contra hstart
      exact hscheme (List.any_eq_true.2 ⟨scheme, hmem, by simpa using hstart⟩)
    suffix := hends
    side := hsides }

/-- A slash behind a text is not edited away. -/
theorem edited_slash {u : Text} (h : edited uni (u ++ ['/']) = some v) :
    v = [] ∨ ∃ w, v = w ++ ['/'] := by
  obtain ⟨a, ha⟩ := trim_concat (p := isSpace) (c := '/') (by decide) u
  obtain ⟨b, hb⟩ := trim_concat (p := isQuote) (c := '/') (by decide) a
  have hvalue : trim isQuote (strip (u ++ ['/'])) = b ++ ['/'] := by
    rw [← hb, ← ha]
    rfl
  simp only [edited, hvalue] at h
  split at h
  · cases h
  split at h
  · cases h
  obtain rfl := Option.some.inj h
  rw [dropLine_concat uni (decimal_slash uni)]
  exact dropSide_concat '/' b

end Normalise

/-! ## Weights -/

/-- The length of the components of a path, each with its slash. -/
def weight {α : Type} (parts : List (List α)) : Nat := (parts.map fun c => c.length + 1).sum

@[simp] theorem weight_cons {α : Type} (c : List α) (parts : List (List α)) :
    weight (c :: parts) = c.length + 1 + weight parts := by
  simp [weight]

@[simp] theorem weight_append {α : Type} (cs ds : List (List α)) :
    weight (cs ++ ds) = weight cs + weight ds := by
  simp [weight]

theorem weight_splitOn (t : Text) : weight (t.splitOn '/') = t.length + 1 := by
  induction t with
  | nil => rfl
  | cons c t ih =>
      rw [List.splitOn_cons_eq_if_modifyHead]
      split
      · rw [weight_cons, ih, List.length_nil, List.length_cons]
        omega
      · obtain ⟨d, ds, hd⟩ := List.exists_cons_of_ne_nil (List.splitOn_ne_nil '/' t)
        rw [hd, weight_cons] at ih
        rw [hd, List.modifyHead_cons, weight_cons, List.length_cons, List.length_cons]
        omega

theorem weight_filter_le (p : Text → Bool) (cs : List Text) :
    weight (cs.filter p) ≤ weight cs ∧
      ∀ c ∈ cs, p c = false → weight (cs.filter p) + 1 ≤ weight cs := by
  induction cs with
  | nil => simp
  | cons d cs ih =>
      obtain ⟨hle, hlt⟩ := ih
      by_cases hd : p d = true
      · rw [List.filter_cons_of_pos hd, weight_cons, weight_cons]
        refine ⟨by omega, fun c hc hp => ?_⟩
        obtain rfl | hmem := List.mem_cons.1 hc
        · rw [hd] at hp
          cases hp
        · have := hlt c hmem hp
          omega
      · rw [List.filter_cons_of_neg hd, weight_cons]
        exact ⟨by omega, fun c hc hp => by omega⟩

theorem weight_ofText (cs : List Text) : weight (cs.map ofText) = weight cs := by
  simp [weight, ofText, Function.comp_def]

theorem weight_pathOf_le (t : Text) : weight (pathOf t).parts ≤ t.length + 1 := by
  rw [pathOf, weight_ofText, ← weight_splitOn t]
  exact (weight_filter_le _ _).1

/-- A slash at the end does not count. -/
theorem weight_pathOf_slash (u : Text) :
    weight (pathOf (u ++ ['/'])).parts ≤ (u ++ ['/']).length := by
  have hmem : [] ∈ (u ++ ['/']).splitOn '/' := by
    rw [List.splitOn_append_cons_self, List.splitOn_nil]
    simp
  have hlt := (weight_filter_le (fun c => decide (c ≠ [] ∧ c ≠ ['.'])) _).2 [] hmem rfl
  rw [weight_splitOn] at hlt
  rw [pathOf, weight_ofText]
  exact Nat.le_of_succ_le_succ hlt

theorem length_intercalate {parts : List Pieces} (h : parts ≠ []) :
    ([slash].intercalate parts).length + 1 = weight parts := by
  induction parts with
  | nil => exact absurd rfl h
  | cons c parts ih =>
      cases parts with
      | nil => simp [weight]
      | cons d parts =>
          have hrest := ih (List.cons_ne_nil _ _)
          rw [List.intercalate_cons_cons, weight_cons, ← hrest]
          simp only [List.length_append, List.length_singleton]
          omega

/-! ## Names -/

section Names

variable (n : GitName)

theorem GitName.length_pieces :
    n.pieces.length + 1 = weight n.parts + if n.directory then 1 else 0 := by
  have := length_intercalate n.some_part
  rw [GitName.pieces, List.length_append]
  split <;> simp <;> omega

/-- A name starts with the first piece of its first component, which is no slash. -/
theorem GitName.head (n : GitName) : ∃ p c rest, n.parts = (p :: c) :: rest ∧ p ≠ slash ∧
    n.pieces.head? = some p := by
  obtain ⟨c, rest, hparts⟩ := List.exists_cons_of_ne_nil n.some_part
  obtain ⟨hne, -, hslash, -⟩ := n.part c (by rw [hparts]; exact List.mem_cons_self)
  obtain ⟨p, c, rfl⟩ := List.exists_cons_of_ne_nil hne
  refine ⟨p, c, rest, hparts, fun h => hslash (by rw [h]; exact List.mem_cons_self), ?_⟩
  rw [GitName.pieces, hparts]
  cases rest with
  | nil => rw [List.intercalate_singleton]; rfl
  | cons d rest => rw [List.intercalate_cons_cons]; rfl

theorem GitName.pieces_ne_nil : n.pieces ≠ [] := by
  obtain ⟨p, -, -, -, -, hhead⟩ := n.head
  intro hnil
  rw [hnil] at hhead
  cases hhead

theorem GitName.nul_not_mem : nul ∉ n.pieces := by
  have hjoin : ∀ parts : List Pieces, (∀ c ∈ parts, nul ∉ c) → nul ∉ [slash].intercalate parts := by
    intro parts hparts
    induction parts with
    | nil => simp
    | cons c parts ih =>
        have hrest := ih fun d hd => hparts d (List.mem_cons_of_mem _ hd)
        have hc := hparts c List.mem_cons_self
        cases parts with
        | nil => rwa [List.intercalate_singleton]
        | cons d parts =>
            rw [List.intercalate_cons_cons]
            simp only [List.mem_append, not_or]
            exact ⟨⟨hc, by decide⟩, hrest⟩
  rw [GitName.pieces, List.mem_append, not_or]
  refine ⟨hjoin _ fun c hc => (n.part c hc).2.2.2, ?_⟩
  split <;> decide

theorem decode_intercalate (parts : List Pieces) :
    decode ([slash].intercalate parts) = ['/'].intercalate (parts.map decode) := by
  induction parts with
  | nil => rfl
  | cons c parts ih =>
      cases parts with
      | nil => simp
      | cons d parts =>
          rw [List.intercalate_cons_cons, List.map_cons, List.map_cons, List.intercalate_cons_cons,
            ← List.map_cons, ← ih]
          simp [decode, Piece.decode, slash]

theorem decode_eq_slash {p : Piece} (h : p.decode = '/') : p = slash := by
  cases p with
  | char c => exact congrArg Piece.char h
  | bad bytes =>
      have hne : '\uFFFD' ≠ '/' := by decide
      exact absurd h hne

theorem slash_not_mem_decode {c : Pieces} (h : slash ∉ c) : '/' ∉ decode c := by
  intro hmem
  obtain ⟨p, hp, hdecode⟩ := List.mem_map.1 hmem
  exact h (decode_eq_slash hdecode ▸ hp)

theorem ofText_decode {c : Pieces} (h : ∀ p ∈ c, ∃ a, p = .char a) : ofText (decode c) = c := by
  rw [ofText, decode, List.map_map]
  refine (List.map_congr_left fun p hp => ?_).trans (List.map_id c)
  obtain ⟨a, rfl⟩ := h p hp
  rfl

theorem GitName.splitOn_decode : (decode n.pieces).splitOn '/' =
    n.parts.map decode ++ if n.directory then [[]] else [] := by
  have hparts : (['/'].intercalate (n.parts.map decode)).splitOn '/' = n.parts.map decode := by
    apply List.splitOn_intercalate
    · intro c hc
      obtain ⟨c, hmem, rfl⟩ := List.mem_map.1 hc
      exact slash_not_mem_decode (n.part c hmem).2.2.1
    · simpa using n.some_part
  have hpieces : decode n.pieces = ['/'].intercalate (n.parts.map decode) ++
      if n.directory then ['/'] else [] := by
    rw [GitName.pieces, decode, List.map_append, ← decode, decode_intercalate]
    split <;> rfl
  rw [hpieces]
  split
  · rw [List.splitOn_append_cons_self, hparts, List.splitOn_nil]
  · rw [List.append_nil, List.append_nil, hparts]

theorem GitName.rootOf_decode : PurePath.rootOf (decode n.pieces) = .relative := by
  obtain ⟨p, -, -, -, hp, hhead⟩ := n.head
  cases hpieces : n.pieces with
  | nil => exact absurd hpieces n.pieces_ne_nil
  | cons q rest =>
      obtain rfl : q = p := by simpa [hpieces] using hhead
      have hne : ∀ u, decode (q :: rest) ≠ '/' :: u := by
        intro u hu
        exact hp (decode_eq_slash (List.cons.inj hu).1)
      show PurePath.rootOf (q.decode :: decode rest) = .relative
      rw [PurePath.rootOf]
      all_goals
        intro u hu
        exact hne _ hu

/-- The path made of a name of characters is the name. -/
theorem GitName.pathOf_decode (hchar : ∀ c ∈ n.parts, ∀ p ∈ c, ∃ a, p = .char a) :
    pathOf (decode n.pieces) = ⟨.relative, n.parts⟩ := by
  have hkeep : (n.parts.map decode).filter (fun c => decide (c ≠ [] ∧ c ≠ ['.'])) =
      n.parts.map decode := by
    rw [List.filter_eq_self]
    intro c hc
    obtain ⟨c, hmem, rfl⟩ := List.mem_map.1 hc
    obtain ⟨hne, hdot, -, -⟩ := n.part c hmem
    rw [decide_eq_true_iff]
    constructor
    · simpa [decode] using hne
    · intro hone
      exact hdot (by rw [← hone, ofText_decode (hchar c hmem)])
  have hlast : (if n.directory then [[]] else []).filter
      (fun c : Text => decide (c ≠ [] ∧ c ≠ ['.'])) = [] := by
    split <;> rfl
  rw [pathOf, n.rootOf_decode, n.splitOn_decode, List.filter_append, hkeep, hlast, List.append_nil,
    List.map_map]
  congr 1
  exact (List.map_congr_left fun c hc => ofText_decode (hchar c hc)).trans (List.map_id _)

end Names

/-! ## A name through the normaliser -/

section Normaliser

variable (uni : Unicode)

/-- A name the normaliser leaves alone: its bytes are UTF-8, it does not start
with a tilde, and none of the edits applies to it. -/
structure GitName.Kept (n : GitName) : Prop where
  utf8 : ∀ c ∈ n.parts, ∀ p ∈ c, ∃ a, p = .char a
  home : n.pieces.head? ≠ some (.char '~')
  plain : Plain uni (decode n.pieces)

variable {uni} {n : GitName} {host : Host} {root : Place}

/-- **The normaliser resolves the file of a name it leaves alone.** -/
theorem normalizePath_of_kept (h : n.Kept uni) :
    normalizePath uni host root (decode n.pieces) = .ok (host.resolve (own root n)) := by
  obtain ⟨p, c, rest, hparts, -, hhead⟩ := n.head
  have hne : decode n.pieces ≠ [] := by simpa [decode] using n.pieces_ne_nil
  have hexpand : expandUser host ⟨.relative, n.parts⟩ = .ok ⟨.relative, n.parts⟩ := by
    have hp : ¬ (p :: c).head? = some (.char '~') := by
      have := h.home
      rw [hhead] at this
      simpa using this
    simp only [expandUser, hparts]
    rw [if_neg hp]
  rw [normalizePath, edited_of_plain h.plain hne]
  simp only [n.pathOf_decode h.utf8, hexpand]
  rfl

/-- A machine without home directories where every path is its own resolution. -/
def bare : Host := ⟨fun _ => none, some⟩

theorem expandUser_bare {p q : Place} (h : expandUser bare p = .ok q) :
    q = p ∧ (p.root = .relative → ∀ first ∈ p.parts.head?, first.head? ≠ some (.char '~')) := by
  obtain ⟨r, parts⟩ := p
  cases r with
  | slash => exact ⟨(Except.ok.inj h).symm, fun hr => by cases hr⟩
  | slashes => exact ⟨(Except.ok.inj h).symm, fun hr => by cases hr⟩
  | relative =>
      cases parts with
      | nil => exact ⟨(Except.ok.inj h).symm, fun _ first hfirst => by cases hfirst⟩
      | cons first rest =>
          simp only [expandUser] at h
          split at h
          · cases h
          · rename_i hhead
            refine ⟨(Except.ok.inj h).symm, fun _ other hother => ?_⟩
            obtain rfl : first = other := by simpa using hother
            exact hhead

theorem normalizePath_bare {raw : Text} {place : Place}
    (h : normalizePath uni bare root raw = .ok (some place)) :
    ∃ t, edited uni raw = some t ∧ expandUser bare (pathOf t) = .ok (pathOf t) ∧
      place = under root (pathOf t) := by
  rw [normalizePath] at h
  cases hedit : edited uni raw with
  | none =>
      rw [hedit] at h
      cases h
  | some t =>
      rw [hedit] at h
      cases hexpand : expandUser bare (pathOf t) with
      | error e =>
          simp only [hexpand] at h
          cases h
      | ok q =>
          simp only [hexpand] at h
          obtain ⟨rfl, -⟩ := expandUser_bare hexpand
          exact ⟨t, rfl, hexpand, (Option.some.inj (Except.ok.inj h)).symm⟩

/-- A path that is the file of a name has the components of the name. -/
theorem parts_of_own {p : Place} (h : own root n = under root p) :
    weight n.parts ≤ weight p.parts ∧ ∀ c ∈ n.parts, c ∈ p.parts := by
  rw [own, under] at h
  split at h
  · have hparts : n.parts = p.parts := List.append_cancel_left (congrArg Place.parts h)
    rw [hparts]
    exact ⟨le_rfl, fun c hc => hc⟩
  · have hparts : root.parts ++ n.parts = p.parts := congrArg Place.parts h
    rw [← hparts, weight_append]
    exact ⟨by omega, fun c hc => List.mem_append_right _ hc⟩

/-- No shorter text than a name is made the path of its file. -/
theorem length_le_of_own {raw t : Text} (hraw : raw = decode n.pieces)
    (hedit : edited uni raw = some t) (h : own root n = under root (pathOf t)) :
    raw.length ≤ t.length := by
  have hweight := (parts_of_own h).1
  have hpieces := n.length_pieces
  have hlen : raw.length = n.pieces.length := by rw [hraw, decode, List.length_map]
  by_cases hdir : n.directory = true
  · rw [if_pos hdir] at hpieces
    have hends : raw = decode ([slash].intercalate n.parts) ++ ['/'] := by
      rw [hraw, GitName.pieces, if_pos hdir, decode, List.map_append]
      rfl
    rw [hends] at hedit
    obtain rfl | ⟨w, rfl⟩ := edited_slash hedit
    · have hnil : weight (pathOf []).parts = 0 := rfl
      omega
    · have := weight_pathOf_slash w
      omega
  · rw [if_neg hdir] at hpieces
    have := weight_pathOf_le t
    omega

/-- **A name the normaliser reads as its file is one it leaves alone.** -/
theorem kept_of_normalizePath
    (h : normalizePath uni bare root (decode n.pieces) = .ok (some (own root n))) :
    n.Kept uni := by
  obtain ⟨t, hedit, hexpand, hown⟩ := normalizePath_bare h
  have hlen := length_le_of_own rfl hedit hown
  obtain ⟨rfl, hplain⟩ := (length_edited_le hedit).2 hlen
  have hutf8 : ∀ c ∈ n.parts, ∀ p ∈ c, ∃ a, p = .char a := by
    intro c hc p hp
    obtain ⟨d, -, rfl⟩ := List.mem_map.1 ((parts_of_own hown).2 c hc)
    obtain ⟨a, -, rfl⟩ := List.mem_map.1 hp
    exact ⟨a, rfl⟩
  refine ⟨hutf8, ?_, hplain⟩
  obtain ⟨p, c, rest, hparts, -, hhead⟩ := n.head
  rw [n.pathOf_decode hutf8] at hexpand
  have hfirst := (expandUser_bare hexpand).2 rfl (p :: c) (by rw [hparts]; rfl)
  rw [hhead]
  exact hfirst

/-- The file of a name is not the path of what stands behind its first three
characters. -/
theorem own_ne_of_drop (hlong : 4 ≤ n.pieces.length)
    (h : normalizePath uni bare root ((decode n.pieces).drop 3) = .ok (some (own root n))) :
    False := by
  obtain ⟨t, hedit, -, hown⟩ := normalizePath_bare h
  have hweight := (parts_of_own hown).1
  have hpieces := n.length_pieces
  have hshort := (length_edited_le hedit).1
  have hle := weight_pathOf_le t
  rw [List.length_drop, decode, List.length_map] at hshort
  split at hpieces <;> omega

end Normaliser

/-! ## The records read -/

section Records

/-- The fields are read back from the output. -/
theorem splitOn_output (entries : List Entry) :
    (output entries).splitOn nul = entries.flatMap Entry.fields ++ [[]] := by
  have hterminated : ∀ fields : List Pieces, (∀ field ∈ fields, nul ∉ field) →
      (fields.flatMap fun field => field ++ [nul]).splitOn nul = fields ++ [[]] := by
    intro fields hfields
    induction fields with
    | nil => rfl
    | cons field fields ih =>
        rw [List.flatMap_cons, List.append_assoc, List.singleton_append,
          List.splitOn_append_cons_self_of_not_mem (hfields field List.mem_cons_self),
          ih fun f hf => hfields f (List.mem_cons_of_mem _ hf)]
        rfl
  apply hterminated
  intro field hfield
  obtain ⟨e, -, he⟩ := List.mem_flatMap.1 hfield
  obtain rfl | hsource := List.mem_cons.1 he
  · have hindex : nul ≠ .char e.index := fun h => e.printable.1 (Piece.char.inj h).symm
    have hworktree : nul ≠ .char e.worktree := fun h => e.printable.2 (Piece.char.inj h).symm
    have hspace : nul ≠ .char ' ' := by decide
    simp [hindex, hworktree, hspace, e.path.nul_not_mem]
  · obtain ⟨n, -, rfl⟩ := List.mem_map.1 (show field ∈ (e.source.toList.map GitName.pieces) by
      rwa [← Option.toList_map])
    exact n.nul_not_mem

variable {uni : Unicode} {host : Host} {root : Place}

/-- What the first field of an entry adds. -/
def account (uni : Unicode) (host : Host) (root : Place) (e : Entry) :
    Except RuntimeError (Option Place) :=
  if e.deleted then .ok none else normalizePath uni host root (decode e.path.pieces)

/-- A record is read with its source if the rename stands in the first column. -/
theorem scan_fields (e : Entry) (rest : List Pieces) :
    scan uni host root (e.fields ++ rest) = (do
      let path ← account uni host root e
      match e.source with
      | none => return path :: (← scan uni host root rest)
      | some source =>
          if isMove e.index then do
            let moved ← normalizePath uni host root (decode source.pieces)
            return path :: moved :: (← scan uni host root rest)
          else return path :: (← scan uni host root (source.pieces :: rest))) := by
  have hdecode : decode (.char e.index :: .char e.worktree :: .char ' ' :: e.path.pieces) =
      e.index :: e.worktree :: ' ' :: decode e.path.pieces := rfl
  have hlong : ¬ (.char e.index :: .char e.worktree :: .char ' ' :: e.path.pieces = [] ∨
      (e.index :: e.worktree :: ' ' :: decode e.path.pieces).length < 4) := by
    have hne := List.length_pos_of_ne_nil e.path.pieces_ne_nil
    rintro (hnil | hshort)
    · cases hnil
    · simp only [List.length_cons, decode, List.length_map] at hshort
      omega
  have hdeleted : 'D' ∈ (e.index :: e.worktree :: ' ' :: decode e.path.pieces).take 2 ↔
      e.deleted = true := by
    simp [Entry.deleted, @eq_comm _ 'D']
  have hentry : entryPath uni host root (e.index :: e.worktree :: ' ' :: decode e.path.pieces) =
      account uni host root e := by
    simp only [entryPath, hdeleted]
    rfl
  have hmove : ((e.index :: e.worktree :: ' ' :: decode e.path.pieces).head? = some 'R' ∨
      (e.index :: e.worktree :: ' ' :: decode e.path.pieces).head? = some 'C') ↔
      isMove e.index = true := by
    simp [isMove]
  have hsource := e.moved
  rw [Entry.fields, List.cons_append, scan, hdecode, if_neg hlong]
  simp only [hentry, hmove]
  cases hs : e.source with
  | none =>
      have hno : isMove e.index = false := by
        rw [hs] at hsource
        exact (Bool.or_eq_false_iff.1 hsource.symm).1
      simp only [hno]
      rfl
  | some source => rfl

/-- An entry whose rename or copy stands in the first column, and whose names
the normaliser leaves alone. -/
structure Entry.Kept (uni : Unicode) (e : Entry) : Prop where
  column : e.source.isSome → isMove e.index = true
  names : ∀ n ∈ e.names, n.Kept uni

theorem account_of_kept {e : Entry} (h : e.Kept uni) :
    account uni host root e = .ok (if e.deleted then none else host.resolve (own root e.path)) := by
  rw [account]
  split
  · rfl
  · rename_i hdeleted
    exact normalizePath_of_kept (h.names _ (by simp [Entry.names, hdeleted]))

/-- Each field of such an entry adds the path it stands for. -/
theorem scan_fields_of_kept {e : Entry} (h : e.Kept uni) (rest : List Pieces) :
    scan uni host root (e.fields ++ rest) =
      (e.expected host root ++ ·) <$> scan uni host root rest := by
  rw [scan_fields, account_of_kept h, Entry.expected]
  cases hs : e.source with
  | none => cases scan uni host root rest <;> rfl
  | some source =>
      have hmoved := @normalizePath_of_kept uni source host root
        (h.names source (by simp [Entry.names, hs]))
      have hcolumn := h.column (by rw [hs]; rfl)
      simp only [hcolumn, hmoved]
      cases scan uni host root rest <;> rfl

/-- A source that is read as an entry does not add its file. -/
theorem scan_source_ne {source : GitName} {rest : List Pieces} {more : List (Option Place)}
    (h : scan uni bare root (source.pieces :: rest) = .ok (some (own root source) :: more)) :
    False := by
  rw [scan] at h
  split at h
  · obtain ⟨others, -, h⟩ := bind_eq_ok.1 h
    cases h
  rename_i hread
  have hlong : 4 ≤ source.pieces.length := by
    have : ¬ (decode source.pieces).length < 4 := fun hshort => hread (.inr hshort)
    rw [decode, List.length_map] at this
    omega
  obtain ⟨path, hpath, h⟩ := bind_eq_ok.1 h
  -- Whatever is read behind it, the first path added is the one of this field.
  have hfirst : path = some (own root source) := by
    split at h
    · cases rest with
      | nil => exact (List.cons.inj (Except.ok.inj h)).1
      | cons moved rest =>
          obtain ⟨p, -, h⟩ := bind_eq_ok.1 h
          obtain ⟨others, -, h⟩ := bind_eq_ok.1 h
          exact (List.cons.inj (Except.ok.inj h)).1
    · obtain ⟨others, -, h⟩ := bind_eq_ok.1 h
      exact (List.cons.inj (Except.ok.inj h)).1
  rw [hfirst, entryPath] at hpath
  split at hpath
  · cases hpath
  · exact own_ne_of_drop hlong hpath

/-- If the fields of an entry add the paths they stand for, the entry is such an entry. -/
theorem kept_of_scan_fields {e : Entry} {rest : List Pieces} {more : List (Option Place)}
    (h : scan uni bare root (e.fields ++ rest) = .ok (e.expected bare root ++ more)) :
    e.Kept uni ∧ scan uni bare root rest = .ok more := by
  rw [scan_fields] at h
  obtain ⟨path, haccount, h⟩ := bind_eq_ok.1 h
  have hpath : path = (if e.deleted then none else some (own root e.path)) →
      ∀ n ∈ if e.deleted then [] else [e.path], n.Kept uni := by
    rintro rfl n hn
    split at hn
    · cases hn
    · rename_i hdeleted
      obtain rfl := List.mem_singleton.1 hn
      rw [account, if_neg hdeleted, if_neg hdeleted] at haccount
      exact kept_of_normalizePath haccount
  cases hs : e.source with
  | none =>
      rw [Entry.expected, hs] at h
      obtain ⟨others, hrest, h⟩ := bind_eq_ok.1 h
      obtain ⟨hhead, htail⟩ := List.cons.inj (Except.ok.inj h)
      have hnames : ∀ n ∈ e.names, n.Kept uni := by
        rw [Entry.names, hs]
        simpa using hpath hhead
      exact ⟨⟨fun hsome => by simp [hs] at hsome, hnames⟩, by rw [hrest]; exact congrArg _ htail⟩
  | some source =>
      rw [Entry.expected, hs] at h
      by_cases hcolumn : isMove e.index = true
      · simp only [hcolumn] at h
        obtain ⟨moved, hmoved, h⟩ := bind_eq_ok.1 h
        obtain ⟨others, hrest, h⟩ := bind_eq_ok.1 h
        obtain ⟨hhead, htail⟩ := List.cons.inj (Except.ok.inj h)
        obtain ⟨hsource, hothers⟩ := List.cons.inj htail
        have hnames : ∀ n ∈ e.names, n.Kept uni := by
          rw [Entry.names, hs]
          intro n hn
          obtain hn | hn := List.mem_append.1 hn
          · exact hpath hhead n hn
          · obtain rfl := List.mem_singleton.1 hn
            subst hsource
            exact kept_of_normalizePath hmoved
        exact ⟨⟨fun _ => hcolumn, hnames⟩, by rw [hrest]; exact congrArg _ hothers⟩
      · simp only [hcolumn] at h
        obtain ⟨others, hrest, h⟩ := bind_eq_ok.1 h
        obtain ⟨-, htail⟩ := List.cons.inj (Except.ok.inj h)
        subst htail
        exact absurd hrest fun hscan => scan_source_ne hscan

theorem scan_output_of_kept {entries : List Entry} (h : ∀ e ∈ entries, e.Kept uni) :
    scan uni host root (entries.flatMap Entry.fields ++ [[]]) =
      .ok (entries.flatMap (Entry.expected host root) ++ [none]) := by
  induction entries with
  | nil => rfl
  | cons e entries ih =>
      rw [List.flatMap_cons, List.append_assoc, scan_fields_of_kept (h e List.mem_cons_self),
        ih fun d hd => h d (List.mem_cons_of_mem _ hd), List.flatMap_cons, List.append_assoc]
      rfl

theorem kept_of_scan_output {entries : List Entry}
    (h : scan uni bare root (entries.flatMap Entry.fields ++ [[]]) =
      .ok (entries.flatMap (Entry.expected bare root) ++ [none])) :
    ∀ e ∈ entries, e.Kept uni := by
  induction entries with
  | nil => simp
  | cons e entries ih =>
      rw [List.flatMap_cons, List.append_assoc, List.flatMap_cons, List.append_assoc] at h
      obtain ⟨hkept, hrest⟩ := kept_of_scan_fields h
      intro d hd
      obtain rfl | hmem := List.mem_cons.1 hd
      · exact hkept
      · exact ih hrest d hmem

/-- If each field adds the path it stands for, the paths returned are those of the names. -/
theorem exact_of_each {entries : List Entry}
    (h : scan uni host root ((output entries).splitOn nul) =
      .ok (entries.flatMap (Entry.expected host root) ++ [none])) :
    Exact uni host root entries := by
  refine ⟨h, ?_⟩
  have hmem : ∀ p, p ∈ (entries.flatMap (Entry.expected host root) ++ [none]).reduceOption ↔
      ∃ e ∈ entries, ∃ n ∈ e.names, host.resolve (own root n) = some p := by
    intro p
    rw [List.reduceOption_mem_iff]
    have heach : ∀ e : Entry, some p ∈ e.expected host root ↔
        ∃ n ∈ e.names, host.resolve (own root n) = some p := by
      intro e
      cases hs : e.source with
      | none => cases hd : e.deleted <;> simp [Entry.expected, Entry.names, hs, hd, eq_comm]
      | some source =>
          cases hd : e.deleted <;> simp [Entry.expected, Entry.names, hs, hd, @eq_comm _ (some p)]
    simp [heach]
  cases hempty : output entries with
  | nil =>
      refine ⟨[], rfl, fun p => ?_⟩
      cases entries with
      | nil => simp
      | cons e entries => simp [output, Entry.fields] at hempty
  | cons p rest =>
      refine ⟨_, ?_, hmem⟩
      rw [changedGitPaths, ← hempty, if_neg (by simp [hempty]), h]
      rfl

/-- A modified file `a/x.py`, which is read as `x.py`. -/
def sideEntry : Entry where
  index := ' '
  worktree := 'M'
  path := ⟨[ofText ['a'], ofText (txt "x.py")], false, by decide, by decide⟩
  source := none
  printable := by decide
  moved := by decide

end Records

end RalphVault.LineGuard
