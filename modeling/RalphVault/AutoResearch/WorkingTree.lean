import RalphVault.Memory.Value

/-!
# AutoResearch — working trees

What git sees of a working tree: the snapshot of HEAD, the index and the files
there are. Git itself is a parameter, with what its documentation says of the
listings the scripts read.
-/

namespace RalphVault.AutoResearch

open Memory

/-- The bytes of a file. -/
abbrev Content := Text

abbrev Snapshot := List (Text × Content)

structure WorkingTree where
  head : Snapshot
  index : Snapshot
  /-- `sorted(cwd.rglob("*"))`, relative to the directory; without a content
  for what is no regular file -/
  walk : List (Text × Option Content)

namespace WorkingTree

def work (t : WorkingTree) (path : Text) : Option Content := (SortedMap.get? path t.walk).join

def headAt (t : WorkingTree) (path : Text) : Option Content := SortedMap.get? path t.head

def indexAt (t : WorkingTree) (path : Text) : Option Content := SortedMap.get? path t.index

/-- Every path of the tree. -/
def paths (t : WorkingTree) : List Text :=
  (t.head.map (·.1) ++ t.index.map (·.1) ++ t.walk.map (·.1)).eraseDups

/-- A path that differs from HEAD: staged, modified, deleted or untracked. A
rename is a deletion and an addition. -/
def Differs (t : WorkingTree) (path : Text) : Prop :=
  t.headAt path ≠ t.indexAt path ∨ t.headAt path ≠ t.work path

instance (t : WorkingTree) (path : Text) : Decidable (t.Differs path) :=
  inferInstanceAs (Decidable (_ ∨ _))

end WorkingTree

/-- What a status listing says of a file. -/
inductive WorkKind where
  | absent
  | untracked
  | same
  | changed
deriving DecidableEq

def WorkingTree.kind (t : WorkingTree) (path : Text) : WorkKind :=
  match t.work path, t.indexAt path with
  | none, _ => .absent
  | some _, none => .untracked
  | some content, some staged => if content = staged then .same else .changed

/-- The files of a tree, tracked or there, with their kinds. -/
def WorkingTree.kinds (t : WorkingTree) : List (Text × WorkKind) :=
  (t.paths.map fun path => (path, t.kind path)).filter fun f =>
    f.2 != .absent || (t.headAt f.1).isSome || (t.indexAt f.1).isSome

/-- The listings of git. -/
structure Git where
  /-- `git status --short`: of the files there are, it reads the kind only -/
  status : Snapshot → Snapshot → List (Text × WorkKind) → Text
  /-- a path as `--name-only` prints it, quoted where it has to be -/
  quote : Text → Text
  /-- an old name that `git diff --cached` reports under its new name only -/
  renamedAway : WorkingTree → Text → Bool
  /-- Control characters and the like are escaped. -/
  quote_line : ∀ path, ∀ c ∈ quote path, isLineBoundary c = false
  /-- The old name of a rename is in HEAD and no longer in the index. -/
  renamed_deleted : ∀ t path, renamedAway t path = true →
    (t.headAt path).isSome = true ∧ t.indexAt path = none

namespace Git

variable (git : Git)

def statusOf (t : WorkingTree) : Text := git.status t.head t.index t.kinds

/-- The paths of `git diff --name-only`. -/
def unstaged (t : WorkingTree) : List Text :=
  t.paths.filter fun path => (t.indexAt path).isSome && t.work path != t.indexAt path

/-- The paths of `git diff --cached --name-only`. -/
def staged (t : WorkingTree) : List Text :=
  t.paths.filter fun path => t.headAt path != t.indexAt path && !git.renamedAway t path

/-- The output of a listing: a name a line. -/
def output (names : List Text) : Text := names.flatMap fun path => git.quote path ++ ['\n']

end Git

/-! ## A git for small trees -/

section Plain

/-- A character of a quoted name. -/
def quoteChar (c : Char) : Text :=
  if 32 ≤ c.toNat ∧ c.toNat < 127 then
    if c = '"' ∨ c = '\\' then ['\\', c] else [c]
  else '\\' :: Nat.toDigits 8 c.toNat

theorem quoteChar_line (c : Char) : ∀ d ∈ quoteChar c, isLineBoundary d = false := by
  have hprinted {d : Char} (h : 32 ≤ d.toNat ∧ d.toNat < 127) : isLineBoundary d = false := by
    unfold isLineBoundary
    simp only [Bool.or_eq_false_iff, Bool.and_eq_false_iff, decide_eq_false_iff_not, beq_eq_false_iff_ne]
    omega
  have hdigits (n : Nat) : ∀ d ∈ Nat.toDigits 8 n, isLineBoundary d = false := by
    intro d hd
    have hdigit := Nat.isDigit_of_mem_toDigits (by decide) (by decide) hd
    apply hprinted
    simp only [Char.isDigit, Bool.and_eq_true, decide_eq_true_eq] at hdigit
    have hlow : 48 ≤ d.toNat := hdigit.1
    have hhigh : d.toNat ≤ 57 := hdigit.2
    omega
  intro d hd
  unfold quoteChar at hd
  split at hd
  · rename_i hc
    split at hd
    · obtain rfl | hd := List.mem_cons.mp hd
      · decide
      · obtain rfl := List.mem_singleton.mp hd
        exact hprinted hc
    · obtain rfl := List.mem_singleton.mp hd
      exact hprinted hc
  · obtain rfl | hd := List.mem_cons.mp hd
    · decide
    · exact hdigits _ d hd

/-- A line of `git status --short`. -/
def statusLine (head index : Snapshot) (f : Text × WorkKind) : Option Text :=
  let x := match SortedMap.get? f.1 head, SortedMap.get? f.1 index with
    | none, none => '?'
    | none, some _ => 'A'
    | some _, none => 'D'
    | some old, some new => if old = new then ' ' else 'M'
  let y := match f.2 with
    | .untracked => '?'
    | .changed => 'M'
    | .same => ' '
    | .absent => if (SortedMap.get? f.1 index).isSome then 'D' else ' '
  if x = ' ' ∧ y = ' ' then none else some ([x, y, ' '] ++ f.1 ++ ['\n'])

/-- Git without rename detection but for unchanged files. -/
def Git.plain : Git where
  status head index files := (files.filterMap (statusLine head index)).flatten
  quote path :=
    if path.all (fun c => quoteChar c == [c]) then path
    else '"' :: (path.flatMap quoteChar ++ ['"'])
  renamedAway t path :=
    match t.headAt path, t.indexAt path with
    | some content, none => t.index.any fun f => (t.headAt f.1).isNone && f.2 == content
    | _, _ => false
  quote_line path := by
    split
    · rename_i h
      intro c hc
      have hplain : quoteChar c = [c] := by simpa using List.all_eq_true.mp h c hc
      exact quoteChar_line c c (hplain ▸ List.mem_singleton_self c)
    · intro c hc
      obtain rfl | hc := List.mem_cons.mp hc
      · decide
      · obtain hc | hc := List.mem_append.mp hc
        · obtain ⟨d, -, hd⟩ := List.mem_flatMap.mp hc
          exact quoteChar_line d c hd
        · obtain rfl := List.mem_singleton.mp hc
          decide
  renamed_deleted t path h := by
    split at h
    · rename_i hhead hindex
      exact ⟨by rw [hhead]; rfl, hindex⟩
    · cases h

end Plain
end RalphVault.AutoResearch
