import RalphVault.SortedMap

/-!
# Schemas

A mapping is normalised field by field: each field of a schema is read off the
mapping, and the mapping of what was read replaces it. To read it once more
gives the same mapping exactly when each field reads its own value back.
-/

namespace RalphVault.Schema

variable {κ β : Type}

/-- A field: what it makes of a mapping. No value (`some none`) leaves the key
out, `none` is an error. -/
structure Field (κ β : Type) where
  key : κ
  read : List (κ × β) → Option (Option β)

/-- The mapping of the fields, in their order. -/
def readAll : List (Field κ β) → List (κ × β) → Option (List (κ × β))
  | [], _ => some []
  | f :: fs, m =>
      match f.read m, readAll fs m with
      | some (some v), some rest => some ((f.key, v) :: rest)
      | some none, some rest => some rest
      | _, _ => none

variable {f : Field κ β} {fs fs' : List (Field κ β)} {m m' r : List (κ × β)}

theorem readAll_cons (h : readAll (f :: fs) m = some r) : ∃ v rest, f.read m = some v ∧
    readAll fs m = some rest ∧ r = (v.map fun v => (f.key, v)).toList ++ rest := by
  rw [readAll] at h
  split at h
  · rename_i v rest hread hrest
    exact ⟨some v, rest, hread, hrest, (Option.some.inj h).symm⟩
  · rename_i rest hread hrest
    exact ⟨none, rest, hread, hrest, (Option.some.inj h).symm⟩
  · cases h

theorem readAll_congr (h : List.Forall₂ (fun f f' => f.key = f'.key ∧ f.read m = f'.read m') fs fs') :
    readAll fs m = readAll fs' m' := by
  induction h with
  | nil => rfl
  | cons hfield _ ih => rw [readAll, readAll, hfield.1, hfield.2, ih]

section Lookup

variable [DecidableEq κ] {k : κ}

/-- Only the keys of the schema are written. -/
theorem get?_readAll_none (h : readAll fs m = some r) (hk : k ∉ fs.map Field.key) :
    SortedMap.get? k r = none := by
  induction fs generalizing r with
  | nil =>
      cases h
      rfl
  | cons f fs ih =>
      obtain ⟨v, rest, -, hrest, rfl⟩ := readAll_cons h
      rw [List.map_cons, List.mem_cons, not_or] at hk
      have hother := ih hrest hk.2
      cases v with
      | none => exact hother
      | some v =>
          rw [Option.map_some, Option.toList_some, List.singleton_append, SortedMap.get?,
            if_neg (Ne.symm hk.1)]
          exact hother

/-- Each field's value is found under its key. -/
theorem read_of_readAll (hkeys : (fs.map Field.key).Nodup) (h : readAll fs m = some r) :
    ∀ f ∈ fs, f.read m = some (SortedMap.get? f.key r) := by
  induction fs generalizing r with
  | nil => exact fun f hf => absurd hf List.not_mem_nil
  | cons f fs ih =>
      obtain ⟨v, rest, hread, hrest, rfl⟩ := readAll_cons h
      rw [List.map_cons, List.nodup_cons] at hkeys
      intro g hg
      rcases List.mem_cons.mp hg with rfl | hg
      · rw [hread]
        cases v with
        | none => rw [Option.map_none, Option.toList_none, List.nil_append,
            get?_readAll_none hrest hkeys.1]
        | some v => rw [Option.map_some, Option.toList_some, List.singleton_append, SortedMap.get?,
            if_pos rfl]
      · have hne : f.key ≠ g.key := fun heq => hkeys.1 (heq ▸ List.mem_map_of_mem hg)
        rw [ih hkeys.2 hrest g hg]
        cases v with
        | none => rfl
        | some v => rw [Option.map_some, Option.toList_some, List.singleton_append, SortedMap.get?,
            if_neg hne]

/-- The field of a later schema has the key of the earlier one's and reads its
value back. -/
def Settled (r : List (κ × β)) (f f' : Field κ β) : Prop :=
  f.key = f'.key ∧ f'.read r = some (SortedMap.get? f'.key r)

/-- Whatever the earlier field reads, the later one reads it back. -/
def Steady (f f' : Field κ β) : Prop :=
  f.key = f'.key ∧ ∀ m v r, f.read m = some v → SortedMap.get? f'.key r = v → f'.read r = some v

theorem settled_of_steady (h : ∀ f ∈ fs, f.read m = some (SortedMap.get? f.key r))
    (hsteady : List.Forall₂ Steady fs fs') : List.Forall₂ (Settled r) fs fs' := by
  induction hsteady with
  | nil => exact .nil
  | cons hfield _ ih =>
      obtain ⟨hread, hrest⟩ := List.forall_mem_cons.mp h
      exact .cons ⟨hfield.1, hfield.2 m _ r (hfield.1 ▸ hread) rfl⟩ (ih hrest)

theorem settled_of_read (hsame : List.Forall₂ (fun f f' => f.key = f'.key) fs fs')
    (h : ∀ f' ∈ fs', f'.read r = some (SortedMap.get? f'.key r)) :
    List.Forall₂ (Settled r) fs fs' := by
  induction hsame with
  | nil => exact .nil
  | cons hkey _ ih =>
      obtain ⟨hread, hrest⟩ := List.forall_mem_cons.mp h
      exact .cons ⟨hkey, hread⟩ (ih hrest)

theorem same_reads (h : ∀ f ∈ fs, f.read m = some (SortedMap.get? f.key r))
    (hsettled : List.Forall₂ (Settled r) fs fs') :
    List.Forall₂ (fun f f' => f.key = f'.key ∧ f.read m = f'.read r) fs fs' := by
  induction hsettled with
  | nil => exact .nil
  | cons hfield _ ih =>
      obtain ⟨hread, hrest⟩ := List.forall_mem_cons.mp h
      exact .cons ⟨hfield.1, by rw [hread, hfield.2, hfield.1]⟩ (ih hrest)

/-- What a schema gives is given again by a later schema with the same keys
exactly when each of its fields reads its own value back. -/
theorem readAll_again_iff (hkeys : (fs.map Field.key).Nodup) (h : readAll fs m = some r)
    (hsame : List.Forall₂ (fun f f' => f.key = f'.key) fs fs') :
    readAll fs' r = some r ↔ List.Forall₂ (Settled r) fs fs' := by
  have hmap : fs.map Field.key = fs'.map Field.key :=
    List.forall₂_eq_eq_eq ▸ List.forall₂_map_left_iff.mpr (List.forall₂_map_right_iff.mpr hsame)
  constructor
  · intro hagain
    exact settled_of_read hsame (read_of_readAll (hmap ▸ hkeys) hagain)
  · intro hsettled
    rw [← readAll_congr (same_reads (read_of_readAll hkeys h) hsettled), h]

end Lookup

end RalphVault.Schema
