import RalphVault.AutoResearch.Scope

/-!
# Pure paths

A POSIX path of `pathlib` by its root and its components. Reading a text as a
path drops the empty and the `.` components, and a path is read back from its
text.
-/

namespace RalphVault

/-- A component of a path. -/
def isName (t : Text) : Bool := !t.isEmpty && t != ['.'] && !t.contains '/'

abbrev Name := { t : Text // isName t = true }

inductive Root where
  | relative
  | slash
  | slashes
deriving DecidableEq

def Root.text : Root → Text
  | relative => []
  | slash => ['/']
  | slashes => ['/', '/']

structure PurePath where
  root : Root
  parts : List Name
deriving DecidableEq

namespace PurePath

/-- The root of a text: two slashes are kept, any other number is one. -/
def rootOf : Text → Root
  | '/' :: '/' :: '/' :: _ => .slash
  | '/' :: '/' :: _ => .slashes
  | '/' :: _ => .slash
  | _ => .relative

def toName (t : Text) : Option Name := if h : isName t = true then some ⟨t, h⟩ else none

/-- `Path(text)`. -/
def parse (t : Text) : PurePath := ⟨rootOf t, (splitOn '/' t).filterMap toName⟩

def joined (p : PurePath) : Text := joinWith ['/'] (p.parts.map Subtype.val)

/-- `str(path)`. -/
def text (p : PurePath) : Text :=
  if p.root = .relative ∧ p.parts = [] then ['.'] else p.root.text ++ p.joined

/-- `path / relative`. -/
def join (p : PurePath) (relative : List Name) : PurePath := { p with parts := p.parts ++ relative }

theorem name_spec (n : Name) : n.1 ≠ [] ∧ n.1 ≠ ['.'] ∧ '/' ∉ n.1 := by
  have h := n.2
  simpa [isName, and_assoc] using h

theorem toName_val (n : Name) : toName n.1 = some n := by
  rw [toName, dif_pos n.2]

/-- A text without a slash is its only component. -/
theorem splitOn_bare {t : Text} (h : '/' ∉ t) (rest : Text) :
    splitOn '/' (t ++ '/' :: rest) = t :: splitOn '/' rest ∧ splitOn '/' t = [t] := by
  induction t with
  | nil => exact ⟨AutoResearch.splitOn_slash rest, rfl⟩
  | cons c t ih =>
      obtain ⟨hc, ht⟩ := List.ne_and_not_mem_of_not_mem_cons h
      obtain ⟨hmore, hend⟩ := ih ht
      rw [List.cons_append, splitOn, splitOn, if_neg (Ne.symm hc), if_neg (Ne.symm hc), hmore,
        hend]
      exact ⟨rfl, rfl⟩

theorem splitOn_joined (names : List Name) (h : names ≠ []) :
    splitOn '/' (joinWith ['/'] (names.map Subtype.val)) = names.map Subtype.val := by
  induction names with
  | nil => exact absurd rfl h
  | cons n names ih =>
      cases names with
      | nil => exact (splitOn_bare (name_spec n).2.2 []).2
      | cons m names =>
          have hsplit := (splitOn_bare (name_spec n).2.2
            (joinWith ['/'] ((m :: names).map Subtype.val))).1
          rw [ih (List.cons_ne_nil _ _)] at hsplit
          have hjoin : joinWith ['/'] ((n :: m :: names).map Subtype.val) =
              n.1 ++ ['/'] ++ joinWith ['/'] ((m :: names).map Subtype.val) := rfl
          rw [hjoin, List.append_assoc]
          exact hsplit

theorem filterMap_toName (names : List Name) :
    (names.map Subtype.val).filterMap toName = names := by
  rw [List.filterMap_map]
  induction names with
  | nil => rfl
  | cons n names ih => rw [List.filterMap_cons, Function.comp_apply, toName_val, ih]

theorem parts_joined (p : PurePath) : (splitOn '/' p.joined).filterMap toName = p.parts := by
  by_cases h : p.parts = []
  · rw [joined, h]
    rfl
  · rw [joined, splitOn_joined _ h, filterMap_toName]

/-- The joined components do not begin with a slash. -/
theorem rootOf_joined (p : PurePath) (r : Root) (h : r = .relative → p.parts ≠ []) :
    rootOf (r.text ++ p.joined) = r := by
  have hhead : p.joined = [] ∨ ∃ c t, p.joined = c :: t ∧ c ≠ '/' := by
    cases hparts : p.parts with
    | nil =>
        left
        rw [joined, hparts]
        rfl
    | cons n names =>
        right
        obtain ⟨hne, -, hslash⟩ := name_spec n
        obtain ⟨c, t, hn⟩ := List.exists_cons_of_ne_nil hne
        have hc : c ≠ '/' := by
          rintro rfl
          exact hslash (by rw [hn]; exact List.mem_cons_self)
        rw [joined, hparts, List.map_cons, hn]
        cases names with
        | nil => exact ⟨c, t, rfl, hc⟩
        | cons m names => exact ⟨c, _, rfl, hc⟩
  rcases hhead with hnil | ⟨c, t, hcons, hc⟩
  · rw [hnil]
    cases r with
    | relative => rfl
    | slash => rfl
    | slashes => rfl
  · rw [hcons]
    cases r with
    | relative =>
        show rootOf (c :: t) = .relative
        rw [rootOf]
        all_goals
          intro u hu
          exact hc (List.cons.inj hu).1
    | slash =>
        show rootOf ('/' :: c :: t) = .slash
        rw [rootOf]
        all_goals
          intro u hu
          exact hc (List.cons.inj hu).1
    | slashes =>
        show rootOf ('/' :: '/' :: c :: t) = .slashes
        rw [rootOf]
        intro u hu
        exact hc (List.cons.inj hu).1

/-- **A path is read back from its text.** -/
theorem parse_text (p : PurePath) : parse p.text = p := by
  obtain ⟨root, parts⟩ := p
  by_cases h : root = .relative ∧ parts = []
  · obtain ⟨rfl, rfl⟩ := h
    rfl
  · have hroot : root = .relative → parts ≠ [] := fun hr hp => h ⟨hr, hp⟩
    have hparts : (splitOn '/' (root.text ++ joined ⟨root, parts⟩)).filterMap toName = parts := by
      cases root with
      | relative => exact parts_joined _
      | slash =>
          show (splitOn '/' ('/' :: joined ⟨.slash, parts⟩)).filterMap toName = parts
          rw [AutoResearch.splitOn_slash]
          exact parts_joined _
      | slashes =>
          show (splitOn '/' ('/' :: '/' :: joined ⟨.slashes, parts⟩)).filterMap toName = parts
          rw [AutoResearch.splitOn_slash, AutoResearch.splitOn_slash]
          exact parts_joined _
    rw [text, if_neg h, parse, hparts, rootOf_joined _ root hroot]

end PurePath
end RalphVault
