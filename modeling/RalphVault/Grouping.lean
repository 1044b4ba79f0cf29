import Mathlib

/-!
# Groups

Items are put into the group of their key, in the order they come: the first
item with a key opens its group at the end, and every item is taken in by the
group it belongs to. What a group holds depends on the items with its key only.
-/

namespace RalphVault.Grouping

variable {α β κ : Type} [DecidableEq κ]

/-- Put an item into the group of its key. -/
def put (key : α → κ) (start : α → β) (add : β → α → β) : List (κ × β) → α → List (κ × β)
  | [], a => [(key a, add (start a) a)]
  | g :: gs, a => if g.1 = key a then (g.1, add g.2 a) :: gs else g :: put key start add gs a

/-- The groups of a list of items. -/
def groups (key : α → κ) (start : α → β) (add : β → α → β) (as : List α) : List (κ × β) :=
  as.foldl (put key start add) []

/-- What the group of these items holds, if there are any. -/
def content (start : α → β) (add : β → α → β) : List α → Option β
  | [] => none
  | a :: as => some (as.foldl add (add (start a) a))

variable {key : α → κ} {start : α → β} {add : β → α → β}

theorem content_append_singleton (as : List α) (a : α) :
    content start add (as ++ [a]) =
      some (add ((content start add as).getD (start a)) a) := by
  cases as with
  | nil => rfl
  | cons b as => simp [content]

/-- The groups of the items are held once each, and hold what they should. -/
structure Holds (key : α → κ) (start : α → β) (add : β → α → β) (gs : List (κ × β))
    (as : List α) : Prop where
  nodup : (gs.map Prod.fst).Nodup
  mem_iff : ∀ k b, (k, b) ∈ gs ↔ content start add (as.filter (key · = k)) = some b

theorem mem_keys_put {gs : List (κ × β)} {a : α} {k : κ} :
    k ∈ (put key start add gs a).map Prod.fst ↔ k ∈ gs.map Prod.fst ∨ k = key a := by
  induction gs with
  | nil => simp [put]
  | cons g gs ih =>
      rw [put]
      split
      · next hg =>
        rw [List.map_cons, List.map_cons, List.mem_cons, ← hg]
        tauto
      · rw [List.map_cons, List.map_cons, List.mem_cons, List.mem_cons, ih]
        tauto

theorem nodup_put {gs : List (κ × β)} (h : (gs.map Prod.fst).Nodup) (a : α) :
    ((put key start add gs a).map Prod.fst).Nodup := by
  induction gs with
  | nil => simp [put]
  | cons g gs ih =>
      rw [List.map_cons, List.nodup_cons] at h
      rw [put]
      split
      · rw [List.map_cons, List.nodup_cons]
        exact h
      · next hg =>
        rw [List.map_cons, List.nodup_cons, mem_keys_put, not_or]
        exact ⟨⟨h.1, hg⟩, ih h.2⟩

/-- The group of the item takes it in. -/
theorem mem_put_self {gs : List (κ × β)} (h : (gs.map Prod.fst).Nodup) {a : α} {b : β} :
    (key a, b) ∈ put key start add gs a ↔
      b = add (start a) a ∧ key a ∉ gs.map Prod.fst ∨
        ∃ c, (key a, c) ∈ gs ∧ b = add c a := by
  induction gs with
  | nil => simp [put]
  | cons g gs ih =>
      obtain ⟨k, c⟩ := g
      rw [List.map_cons, List.nodup_cons] at h
      rw [put]
      split
      · next hg =>
        -- the group is the first one, and no other has its key
        obtain rfl : k = key a := hg
        have hkey : key a ∉ gs.map Prod.fst := h.1
        have hother : ∀ c, (key a, c) ∉ gs := fun c hc => hkey (List.mem_map_of_mem hc)
        constructor
        · intro hmem
          rcases List.mem_cons.mp hmem with heq | hmem
          · rw [Prod.mk.injEq] at heq
            exact .inr ⟨c, List.mem_cons_self, heq.2⟩
          · exact absurd hmem (hother b)
        · rintro (⟨-, hnew⟩ | ⟨c', hc', rfl⟩)
          · exact absurd List.mem_cons_self hnew
          · rcases List.mem_cons.mp hc' with heq | hc'
            · rw [Prod.mk.injEq] at heq
              rw [heq.2]
              exact List.mem_cons_self
            · exact absurd hc' (hother c')
      · next hg =>
        have hne : key a ≠ k := fun heq => hg heq.symm
        have hhead : ∀ b', (key a, b') ≠ (k, c) := fun b' heq => hne (Prod.mk.inj heq).1
        rw [List.mem_cons, ih h.2, List.map_cons, List.mem_cons]
        simp only [List.mem_cons, hhead, hne, false_or]

/-- The other groups stay as they are. -/
theorem mem_put_other {gs : List (κ × β)} {a : α} {k : κ} (hk : k ≠ key a) {b : β} :
    (k, b) ∈ put key start add gs a ↔ (k, b) ∈ gs := by
  induction gs with
  | nil => simp [put, hk]
  | cons g gs ih =>
      rw [put]
      split
      · next hg =>
        have hhead : ∀ c, (k, b) ≠ (g.1, c) := by
          intro c heq
          exact hk ((Prod.mk.inj heq).1.trans hg)
        rw [List.mem_cons, List.mem_cons, or_iff_right (hhead _), or_iff_right (hhead g.2)]
      · rw [List.mem_cons, List.mem_cons, ih]

theorem Holds.put {gs : List (κ × β)} {as : List α} (h : Holds key start add gs as) (a : α) :
    Holds key start add (put key start add gs a) (as ++ [a]) := by
  refine ⟨nodup_put h.nodup a, fun k b => ?_⟩
  rw [List.filter_append]
  by_cases hk : k = key a
  · subst hk
    have hone : [a].filter (key · = key a) = [a] := by simp
    have hnew : key a ∉ gs.map Prod.fst ↔
        content start add (as.filter (key · = key a)) = none := by
      constructor
      · intro hnot
        cases hcontent : content start add (as.filter (key · = key a)) with
        | none => rfl
        | some c => exact absurd (List.mem_map_of_mem ((h.mem_iff _ c).mpr hcontent)) hnot
      · intro hnone hmem
        obtain ⟨⟨k, c⟩, hc, rfl⟩ := List.mem_map.mp hmem
        rw [h.mem_iff, hnone] at hc
        cases hc
    rw [mem_put_self h.nodup, hone, content_append_singleton, hnew]
    simp only [h.mem_iff]
    cases content start add (as.filter (key · = key a)) with
    | none => simp [eq_comm]
    | some c => simp [eq_comm]
  · have hnone : [a].filter (key · = k) = [] := by simp [Ne.symm hk]
    rw [hnone, List.append_nil, mem_put_other hk]
    exact h.mem_iff k b

/-- **Every group holds the items with its key**, taken in one after the other. -/
theorem holds_groups (as : List α) : Holds key start add (groups key start add as) as := by
  suffices h : ∀ (as done : List α) (gs : List (κ × β)), Holds key start add gs done →
      Holds key start add (as.foldl (Grouping.put key start add) gs) (done ++ as) by
    refine h as [] [] ⟨List.nodup_nil, fun k b => ?_⟩
    simp [content]
  intro as
  induction as with
  | nil =>
      intro done gs h
      rw [List.append_nil]
      exact h
  | cons a as ih =>
      intro done gs h
      have hnext := ih (done ++ [a]) _ (h.put a)
      rwa [List.append_assoc] at hnext

end RalphVault.Grouping
