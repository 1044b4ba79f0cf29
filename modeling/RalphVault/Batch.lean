import Mathlib

/-!
# Batches

Several files are replaced one after the other. When a replacement fails, the
files that were tried are put back as a snapshot has them, the last one first.
-/

namespace RalphVault

/-- What is at each path, if anything. -/
abbrev Files (κ ν : Type) := κ → Option ν

namespace Batch

variable {κ ν β ε : Type}

/-- Publish each item in turn. The keys tried are returned, the last one
first, with the error that has stopped the batch. -/
def publishAll (publish : κ × β → Files κ ν → Files κ ν × Option ε) :
    List (κ × β) → List κ → Files κ ν → Files κ ν × List κ × Option ε
  | [], applied, f => (f, applied, none)
  | item :: items, applied, f =>
      match publish item f with
      | (f', some e) => (f', item.1 :: applied, some e)
      | (f', none) => publishAll publish items (item.1 :: applied) f'

/-- Restore each key in turn, up to the first error. -/
def restoreAll (restore : κ → Files κ ν → Files κ ν × Option ε) :
    List κ → Files κ ν → Files κ ν × Option ε
  | [], f => (f, none)
  | k :: ks, f =>
      match restore k f with
      | (f', some e) => (f', some e)
      | (f', none) => restoreAll restore ks f'

example (publish : κ × β → Files κ ν → Files κ ν × Option ε) (f : Files κ ν) :
    publishAll publish [] [] f = (f, [], none) := by rw [publishAll]

example (restore : κ → Files κ ν → Files κ ν × Option ε) (f : Files κ ν) :
    restoreAll restore [] f = (f, none) := by rw [restoreAll]

/-- `publish` replaces the file of its item only. -/
def Local (publish : κ × β → Files κ ν → Files κ ν × Option ε) : Prop :=
  ∀ item f k, k ≠ item.1 → (publish item f).1 k = f k

section Publish

variable {publish : κ × β → Files κ ν → Files κ ν × Option ε}

theorem mem_publishAll {items : List (κ × β)} {applied : List κ} {f : Files κ ν} {k : κ}
    (h : k ∈ applied) : k ∈ (publishAll publish items applied f).2.1 := by
  induction items generalizing applied f with
  | nil => exact h
  | cons item items ih =>
      rw [publishAll]
      split
      · exact List.mem_cons_of_mem _ h
      · exact ih (List.mem_cons_of_mem _ h)

/-- **Files that were not tried are as they were.** -/
theorem publishAll_other (hlocal : Local publish) {items : List (κ × β)} {applied : List κ}
    {f : Files κ ν} {k : κ} (h : k ∉ (publishAll publish items applied f).2.1) :
    (publishAll publish items applied f).1 k = f k := by
  induction items generalizing applied f with
  | nil => rfl
  | cons item items ih =>
      have hother := hlocal item f k
      rw [publishAll] at h ⊢
      split at h <;> rename_i hpublish <;> rw [hpublish] at hother
      · exact hother fun heq => h (by rw [heq]; exact List.mem_cons_self)
      · have hk : k ≠ item.1 := fun heq =>
          h (mem_publishAll (by rw [heq]; exact List.mem_cons_self))
        rw [ih h]
        exact hother hk

/-- The keys tried are the given ones and some of the items'. -/
theorem publishAll_tried {items : List (κ × β)} {applied : List κ} {f : Files κ ν} {k : κ}
    (h : k ∈ (publishAll publish items applied f).2.1) :
    k ∈ applied ∨ k ∈ items.map Prod.fst := by
  induction items generalizing applied f with
  | nil => exact .inl h
  | cons item items ih =>
      rw [publishAll] at h
      split at h
      · rcases List.mem_cons.mp h with rfl | h
        · exact .inr List.mem_cons_self
        · exact .inl h
      · rcases ih h with h | h
        · rcases List.mem_cons.mp h with rfl | h
          · exact .inr List.mem_cons_self
          · exact .inl h
        · exact .inr (List.mem_cons_of_mem _ h)

/-- A batch that is not stopped stops at none of its items. -/
theorem publishAll_none {items : List (κ × β)} {applied : List κ} {f : Files κ ν}
    (h : (publishAll publish items applied f).2.2 = none) {item : κ × β} (hitem : item ∈ items) :
    ∃ f', (publish item f').2 = none := by
  induction items generalizing applied f with
  | nil => exact absurd hitem List.not_mem_nil
  | cons item' items ih =>
      rw [publishAll] at h
      split at h
      · cases h
      · rename_i f' hpublish
        rcases List.mem_cons.mp hitem with rfl | hitem
        · exact ⟨f, by rw [hpublish]⟩
        · exact ih h hitem

/-- **A batch that is not stopped has published every item.** -/
theorem publishAll_published (hlocal : Local publish) {P : κ × β → Option ν → Prop}
    (hpublish : ∀ item f, (publish item f).2 = none → P item ((publish item f).1 item.1))
    {items : List (κ × β)} (hkeys : (items.map Prod.fst).Nodup) {applied : List κ}
    {f : Files κ ν} (h : (publishAll publish items applied f).2.2 = none) :
    (∀ item ∈ items, P item ((publishAll publish items applied f).1 item.1)) ∧
      ∀ k, k ∉ items.map Prod.fst → (publishAll publish items applied f).1 k = f k := by
  induction items generalizing applied f with
  | nil => exact ⟨fun item hitem => absurd hitem List.not_mem_nil, fun k _ => rfl⟩
  | cons item items ih =>
      have hfirst := hpublish item f
      have hother := hlocal item f
      rw [List.map_cons, List.nodup_cons] at hkeys
      rw [publishAll] at h ⊢
      split at h
      · cases h
      · rename_i f' heq
        rw [heq] at hfirst hother
        obtain ⟨hitems, hrest⟩ := ih hkeys.2 h
        refine ⟨fun item' hitem' => ?_, fun k hk => ?_⟩
        · rcases List.mem_cons.mp hitem' with rfl | hitem'
          · rw [hrest _ hkeys.1]
            exact hfirst rfl
          · exact hitems item' hitem'
        · rw [List.map_cons, List.mem_cons, not_or] at hk
          rw [hrest k hk.2]
          exact hother k hk.1

end Publish

section Restore

variable [DecidableEq κ]

/-- The files with one of them replaced or removed. -/
def set (k : κ) (v : Option ν) (f : Files κ ν) : Files κ ν := fun k' => if k' = k then v else f k'

@[simp] theorem set_self (k : κ) (v : Option ν) (f : Files κ ν) : set k v f k = v := if_pos rfl

theorem set_other {k k' : κ} (h : k' ≠ k) (v : Option ν) (f : Files κ ν) : set k v f k' = f k' :=
  if_neg h

/-- Restores that succeed give the files of the snapshot. -/
theorem restoreAll_eq {restore : κ → Files κ ν → Files κ ν × Option ε} {snapshot : Files κ ν}
    {ks : List κ} (hrestore : ∀ k ∈ ks, ∀ f, restore k f = (set k (snapshot k) f, none))
    (f : Files κ ν) :
    restoreAll restore ks f = (fun k => if k ∈ ks then snapshot k else f k, none) := by
  induction ks generalizing f with
  | nil => simp [restoreAll]
  | cons k ks ih =>
      have hrest := ih fun k' hk' => hrestore k' (List.mem_cons_of_mem _ hk')
      rw [restoreAll, hrestore k List.mem_cons_self]
      simp only [hrest]
      refine congrArg (·, none) (funext fun k' => ?_)
      by_cases hmem : k' ∈ ks
      · rw [if_pos hmem, if_pos (List.mem_cons_of_mem _ hmem)]
      · rw [if_neg hmem]
        by_cases hk : k' = k
        · rw [hk, set_self, if_pos List.mem_cons_self]
        · rw [set_other hk, if_neg (by simp [hk, hmem])]

/-- **Rollback**: wherever a batch was stopped, restoring what it tried gives
the files before it. -/
theorem rollback {publish : κ × β → Files κ ν → Files κ ν × Option ε}
    {restore : κ → Files κ ν → Files κ ν × Option ε} (hlocal : Local publish)
    {items : List (κ × β)} {f : Files κ ν}
    (hrestore : ∀ k ∈ items.map Prod.fst, ∀ g, restore k g = (set k (f k) g, none)) :
    restoreAll restore (publishAll publish items [] f).2.1 (publishAll publish items [] f).1 =
      (f, none) := by
  have htried : ∀ k ∈ (publishAll publish items [] f).2.1, k ∈ items.map Prod.fst := fun k hk =>
    (publishAll_tried hk).resolve_left List.not_mem_nil
  rw [restoreAll_eq fun k hk => hrestore k (htried k hk)]
  refine congrArg (·, none) (funext fun k => ?_)
  split
  · rfl
  · rename_i hk
    exact publishAll_other hlocal hk

end Restore

end Batch
end RalphVault
