import RalphVault.Recency
import RalphVault.Text

/-!
# State files

A file of state that is read, changed and replaced as a whole, under a
lock, by any number of processes. What the disk does to one reading and
to one replacement is a value (`Reading`, `Publication`); a file is its
content, or absent.

The content often is a dictionary of records (`Records`) of which only
the most recent ones are carried over from one version to the next.
-/

namespace RalphVault.StateFile

open Recency

/-- What becomes of reading a file that is there. -/
inductive Reading where
  | sound
  /-- The reading raises, and what is being done ends there. -/
  | raised
  /-- The file is taken for corrupt and moved aside. -/
  | quarantined
  /-- It is taken for corrupt and cannot be moved. -/
  | stuck
deriving DecidableEq

/-- What becomes of replacing a file. -/
inductive Publication where
  | done
  /-- It raised before the file was replaced. -/
  | refused
  /-- It raised after the file was replaced. -/
  | unacknowledged
deriving DecidableEq

variable {α β τ : Type}

/-- Read a file: the file that is left and the content that was read,
`empty` where there is none. -/
def load (empty : α) (reading : Reading) (file : Option α) : Option (Option α × α) :=
  match file, reading with
  | none, _ => some (none, empty)
  | some content, .sound => some (some content, content)
  | some _, .raised => none
  | some _, .quarantined => some (none, empty)
  | some content, .stuck => some (some content, empty)

/-- Replace a file: the file that is left, and whether the replacement
returned. -/
def publish (publication : Publication) (file : Option α) (content : α) : Option α × Bool :=
  match publication with
  | .done => (some content, true)
  | .refused => (file, false)
  | .unacknowledged => (some content, false)

theorem load_cases {empty content : α} {reading : Reading} {file left : Option α}
    (h : load empty reading file = some (left, content)) :
    (left = file ∧ content = file.getD empty) ∨
      (content = empty ∧ (left = none ∨ left = file)) := by
  cases file with
  | none =>
      cases h
      exact .inl ⟨rfl, rfl⟩
  | some old =>
      cases reading <;> simp only [load, Option.some.injEq, Prod.mk.injEq, reduceCtorEq] at h
      · exact .inl ⟨h.1.symm, h.2.symm⟩
      · exact .inr ⟨h.2.symm, .inl h.1.symm⟩
      · exact .inr ⟨h.2.symm, .inr h.1.symm⟩

theorem exists_load {empty : α} {reading : Reading} (h : reading ≠ .raised) (file : Option α) :
    ∃ left content, load empty reading file = some (left, content) := by
  cases file with
  | none => exact ⟨_, _, rfl⟩
  | some old =>
      cases reading with
      | raised => exact absurd rfl h
      | sound => exact ⟨_, _, rfl⟩
      | quarantined => exact ⟨_, _, rfl⟩
      | stuck => exact ⟨_, _, rfl⟩

theorem load_left {empty content : α} {reading : Reading} {file left : Option α}
    (h : load empty reading file = some (left, content)) : left = none ∨ left = file := by
  rcases load_cases h with ⟨hleft, -⟩ | ⟨-, hleft⟩
  · exact .inr hleft
  · exact hleft

theorem publish_cases (publication : Publication) (file : Option α) (content : α) :
    (publish publication file content).1 = some content ∨
      publish publication file content = (file, false) := by
  cases publication
  · exact .inl rfl
  · exact .inr rfl
  · exact .inl rfl

/-! ## Dictionaries of records -/

/-- A dictionary of records, in the order of its keys. -/
structure Records (β : Type) where
  entries : List (Text × β)
  sorted : SortedMap.Sorted textLt entries

namespace Records

@[ext] theorem ext {r s : Records β} (h : r.entries = s.entries) : r = s := by
  cases r
  cases s
  cases h
  rfl

instance [DecidableEq β] : DecidableEq (Records β) := fun r s =>
  decidable_of_iff (r.entries = s.entries) ⟨ext, fun h => h ▸ rfl⟩

theorem sorted_nil : ([] : List (Text × β)).Pairwise fun a b => textLt a.1 b.1 = true :=
  List.Pairwise.nil

def empty : Records β := ⟨[], sorted_nil⟩

def get? (r : Records β) (k : Text) : Option β := SortedMap.get? k r.entries

/-- `d[k] = v`. -/
def assign (r : Records β) (k : Text) (v : β) : Records β :=
  ⟨SortedMap.insert textLt k v r.entries, SortedMap.sorted_insert textLt_strict k v r.sorted⟩

/-- `d.pop(k, None)`. -/
def erase (r : Records β) (k : Text) : Records β :=
  ⟨r.entries.filter fun e => e.1 ≠ k, List.Pairwise.filter _ r.sorted⟩

/-- The `n` most recent of the records that are still live. -/
def recent [LinearOrder τ] (live : β → Bool) (time : β → τ) (n : Nat) (r : Records β) :
    Records β :=
  ⟨SortedMap.ofList textLt
      (mostRecent (fun e : Text × β => time e.2) n (r.entries.filter fun e => live e.2)),
    SortedMap.sorted_ofList textLt_strict _⟩

theorem nodup_keys (r : Records β) : (r.entries.map Prod.fst).Nodup := by
  rw [List.nodup_iff_pairwise_ne, List.pairwise_map]
  refine List.Pairwise.imp (fun {a b} hab heq => ?_) r.sorted
  rw [heq, textLt_irrefl] at hab
  cases hab

@[simp] theorem get?_empty (k : Text) : (empty : Records β).get? k = none := rfl

theorem get?_assign (r : Records β) (k k' : Text) (v : β) :
    (r.assign k v).get? k' = if k = k' then some v else r.get? k' :=
  SortedMap.get?_insert k' k v r.entries

@[simp] theorem get?_assign_self (r : Records β) (k : Text) (v : β) :
    (r.assign k v).get? k = some v := by
  rw [get?_assign, if_pos rfl]

theorem get?_assign_of_ne {r : Records β} {k k' : Text} {v : β} (h : k ≠ k') :
    (r.assign k v).get? k' = r.get? k' := by
  rw [get?_assign, if_neg h]

theorem get?_of_get?_erase {r : Records β} {k k' : Text} {v : β}
    (h : (r.erase k).get? k' = some v) : r.get? k' = some v :=
  SortedMap.get?_of_mem r.nodup_keys (List.mem_of_mem_filter (SortedMap.mem_of_get? h))

section Recent

variable [LinearOrder τ] {live : β → Bool} {time : β → τ} {n : Nat}

theorem get?_recent (r : Records β) (k : Text) :
    (r.recent live time n).get? k = SortedMap.get? k
      (mostRecent (fun e : Text × β => time e.2) n (r.entries.filter fun e => live e.2)) := by
  apply SortedMap.get?_ofList
  apply nodup_map_mostRecent
  exact r.nodup_keys.sublist (List.filter_sublist.map _)

/-- What is carried over is a live record, unchanged. -/
theorem get?_of_get?_recent {r : Records β} {k : Text} {v : β}
    (h : (r.recent live time n).get? k = some v) : r.get? k = some v ∧ live v = true := by
  rw [get?_recent] at h
  have hmem := List.mem_filter.mp (mem_of_mem_mostRecent (SortedMap.mem_of_get? h))
  exact ⟨SortedMap.get?_of_mem r.nodup_keys hmem.1, hmem.2⟩

theorem get?_recent_eq_none {r : Records β} {k : Text} (h : r.get? k = none) :
    (r.recent live time n).get? k = none := by
  cases hget : (r.recent live time n).get? k with
  | none => rfl
  | some v =>
      rw [(get?_of_get?_recent hget).1] at h
      cases h

end Recent

end Records

/-! ## Files of records -/

/-- The record of a key in a file. -/
def entryIn (file : Option (Records β)) (key : Text) : Option β := (file.getD .empty).get? key

@[simp] theorem entryIn_none (key : Text) : entryIn (none : Option (Records β)) key = none := rfl

@[simp] theorem entryIn_some (entries : Records β) (key : Text) :
    entryIn (some entries) key = entries.get? key := rfl

/-- What is read of a file and carried over still has a record as it was:
the file was not taken for corrupt, and the record was not dropped. -/
def Keeps (reading : Reading) (carry : Records β → Records β) (key : Text)
    (file : Option (Records β)) : Prop :=
  ∀ left stored, load .empty reading file = some (left, stored) →
    (carry stored).get? key = entryIn file key

section Keeps

variable {carry : Records β → Records β} {key : Text} {reading : Reading}
  {file left : Option (Records β)} {stored : Records β}

theorem Keeps.of_sound (h : (carry (file.getD .empty)).get? key = entryIn file key) :
    Keeps .sound carry key file := by
  intro left stored hload
  cases file with
  | none =>
      cases hload
      exact h
  | some old =>
      cases hload
      exact h

/-- Moving a corrupt file aside loses no record that is kept. -/
theorem entryIn_left (hempty : (carry .empty).get? key = none)
    (hload : load .empty reading file = some (left, stored))
    (hkept : (carry stored).get? key = entryIn file key) :
    entryIn left key = entryIn file key := by
  rcases load_cases hload with ⟨hleft, -⟩ | ⟨hstored, hleft | hleft⟩
  · rw [hleft]
  · rw [← hkept, hstored, hleft, hempty, entryIn_none]
  · rw [hleft]

/-- A record that is read is in the file. -/
theorem entryIn_of_stored {v : β} (hload : load .empty reading file = some (left, stored))
    (h : stored.get? key = some v) : entryIn file key = some v := by
  rcases load_cases hload with ⟨-, hstored⟩ | ⟨hstored, -⟩
  · rw [entryIn, ← hstored, h]
  · rw [hstored, Records.get?_empty] at h
    cases h

/-- A record in the file that is left was in the file. -/
theorem entryIn_of_left {v : β} (hload : load .empty reading file = some (left, stored))
    (h : entryIn left key = some v) : entryIn file key = some v := by
  rcases load_left hload with hleft | hleft
  · rw [hleft, entryIn_none] at h
    cases h
  · rwa [hleft] at h

end Keeps
end RalphVault.StateFile
