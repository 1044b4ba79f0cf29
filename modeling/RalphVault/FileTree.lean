import Mathlib

/-!
# File trees

Directories and regular files by their paths, a path being its list of
components. Making a directory with its missing parents, and creating a
file in a directory, with the exact condition under which each succeeds.
-/

namespace RalphVault

variable {κ : Type}

inductive FileNode where
  | file
  | directory
deriving DecidableEq

/-- What is at each path, if anything. -/
abbrev FileTree (κ : Type) := List κ → Option FileNode

namespace FileTree

/-- The tree with one directory, its root. -/
def root : FileTree κ := fun path => if path.isEmpty then some .directory else none

/-- What exists is in a directory, up to the root. -/
structure WellFormed (t : FileTree κ) : Prop where
  root : t [] = some .directory
  parent : ∀ path c, t (path ++ [c]) ≠ none → t path = some .directory

/-- The number of components, at most `n`, of the deepest part of a path that
exists. -/
def existingDepth (t : FileTree κ) (path : List κ) : Nat → Nat
  | 0 => 0
  | n + 1 => if (t (path.take (n + 1))).isSome then n + 1 else existingDepth t path n

theorem wellFormed_root : WellFormed (root : FileTree κ) := by
  refine ⟨rfl, fun path c h => ?_⟩
  simp [root] at h

/-- Everything above what exists is a directory. -/
theorem WellFormed.above {t : FileTree κ} (h : WellFormed t) {path q : List κ}
    (hq : q <+: path) (hne : q ≠ path) (hpath : t path ≠ none) : t q = some .directory := by
  obtain ⟨rest, rfl⟩ := hq
  induction rest using List.reverseRecOn with
  | nil => exact absurd (List.append_nil q).symm hne
  | append_singleton rest c ih =>
      rw [← List.append_assoc] at hpath
      have hparent := h.parent _ _ hpath
      by_cases hrest : rest = []
      · subst hrest
        rw [List.append_nil] at hparent
        exact hparent
      · have hne' : q ≠ q ++ rest := by simpa using hrest
        exact ih hne' (by rw [hparent]; simp)

/-- The deepest part exists, and nothing deeper does. -/
theorem existingDepth_spec {t : FileTree κ} (h : WellFormed t) (path : List κ) (n : Nat) :
    t (path.take (existingDepth t path n)) ≠ none ∧
      ∀ m, existingDepth t path n < m → m ≤ n → t (path.take m) = none := by
  induction n with
  | zero =>
      refine ⟨?_, fun m hm hle => ?_⟩
      · rw [existingDepth, List.take_zero, h.root]
        simp
      · rw [existingDepth] at hm
        omega
  | succ n ih =>
      rw [existingDepth]
      split
      · rename_i hsome
        refine ⟨?_, fun m hm hle => ?_⟩
        · intro hnone
          rw [hnone] at hsome
          cases hsome
        · omega
      · rename_i hnone
        refine ⟨ih.1, fun m hm hle => ?_⟩
        by_cases hmn : m = n + 1
        · subst hmn
          simpa using hnone
        · exact ih.2 m hm (by omega)

section Trees

variable [DecidableEq κ]

def set (t : FileTree κ) (path : List κ) (node : FileNode) : FileTree κ :=
  fun q => if q = path then some node else t q

/-- Make a directory and its missing parents: none when the deepest part that
exists is not a directory. -/
def mkdirs (t : FileTree κ) (path : List κ) : Option (FileTree κ) :=
  let n := existingDepth t path path.length
  if t (path.take n) = some .directory then
    some fun q => if q <+: path ∧ n < q.length then some .directory else t q
  else none

/-- Open a regular file for writing, created if it is missing: none when it is
a directory, or is not in one. -/
def create (t : FileTree κ) (path : List κ) : Option (FileTree κ) :=
  if t path ≠ some .directory ∧ t path.dropLast = some .directory then some (t.set path .file)
  else none

/-- **A directory can be made exactly when no part of its path is a file**; it
is then there with its parents, and nothing else changed. -/
theorem mkdirs_eq_some {t t' : FileTree κ} (h : WellFormed t) {path : List κ} :
    t.mkdirs path = some t' ↔ (∀ q, q <+: path → t q ≠ some .file) ∧
      t' = fun q => if q <+: path then some .directory else t q := by
  obtain ⟨hexists, hmissing⟩ := existingDepth_spec h path path.length
  -- a part of the path is no longer than the deepest existing one, or missing
  have hdeeper : ∀ q, q <+: path → existingDepth t path path.length < q.length → t q = none := by
    intro q hq hlen
    have htake := hmissing q.length hlen hq.length_le
    rwa [← List.prefix_iff_eq_take.mp hq] at htake
  have hshallow : t (path.take (existingDepth t path path.length)) = some .directory →
      ∀ q, q <+: path → q.length ≤ existingDepth t path path.length → t q = some .directory := by
    intro hdir q hq hlen
    have hpart : q <+: path.take (existingDepth t path path.length) :=
      List.prefix_take_iff.mpr ⟨hq, hlen⟩
    by_cases heq : q = path.take (existingDepth t path path.length)
    · rw [heq, hdir]
    · exact h.above hpart heq hexists
  have htree : t (path.take (existingDepth t path path.length)) = some .directory →
      (fun q => if q <+: path ∧ existingDepth t path path.length < q.length then
        some .directory else t q) =
      fun q => if q <+: path then some .directory else t q := by
    intro hdir
    funext q
    by_cases hq : q <+: path
    · by_cases hlen : existingDepth t path path.length < q.length
      · simp [hq, hlen]
      · simp [hq, hlen, hshallow hdir q hq (by omega)]
    · simp [hq]
  simp only [mkdirs]
  constructor
  · intro hmk
    split at hmk
    · rename_i hdir
      rw [Option.some.injEq, htree hdir] at hmk
      refine ⟨fun q hq => ?_, hmk.symm⟩
      by_cases hlen : existingDepth t path path.length < q.length
      · rw [hdeeper q hq hlen]
        simp
      · rw [hshallow hdir q hq (by omega)]
        simp
    · cases hmk
  · rintro ⟨hfiles, rfl⟩
    have hdir : t (path.take (existingDepth t path path.length)) = some .directory := by
      have hfile := hfiles _ (List.take_prefix (existingDepth t path path.length) path)
      cases hnode : t (path.take (existingDepth t path path.length)) with
      | none => exact absurd hnode hexists
      | some node =>
          cases node with
          | file => exact absurd hnode hfile
          | directory => rfl
    rw [if_pos hdir, htree hdir]

theorem create_eq_some {t t' : FileTree κ} {path : List κ} :
    t.create path = some t' ↔ t path ≠ some .directory ∧ t path.dropLast = some .directory ∧
      t' = t.set path .file := by
  unfold create
  split
  · rename_i h
    simp [h.1, h.2, eq_comm]
  · rename_i h
    constructor
    · intro hnone
      cases hnone
    · rintro ⟨h1, h2, -⟩
      exact absurd ⟨h1, h2⟩ h

end Trees

end FileTree
end RalphVault
