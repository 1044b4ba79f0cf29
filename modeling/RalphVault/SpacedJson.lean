import RalphVault.IndentedJson

/-!
# JSON with spaces

`json.dumps(value, sort_keys=True)` with its default separators. Like the
canonical text, it does not depend on the order of the members of an
object.
-/

namespace RalphVault.Json

/-! ## The text -/

def spacedItemsTo : List (Text → Text) → Text → Text
  | [], rest => rest
  | [item], rest => item rest
  | item :: items, rest => item (',' :: ' ' :: spacedItemsTo items rest)

mutual
/-- The text of a value in front of a rest. -/
def spacedTo : Json → Text → Text
  | null => fun rest => txt "null" ++ rest
  | bool b => fun rest => (if b then txt "true" else txt "false") ++ rest
  | num n => fun rest => intText n ++ rest
  | str t => fun rest => asciiQuoteTo t rest
  | arr items => fun rest => '[' :: spacedItemsTo (spacedItems items) (']' :: rest)
  | obj fields => fun rest => '\x7b' ::
      spacedItemsTo ((sortMembers (spacedFields fields)).map asciiMemberTo) ('\x7d' :: rest)

def spacedItems : List Json → List (Text → Text)
  | [] => []
  | j :: js => spacedTo j :: spacedItems js

def spacedFields : List (Text × Json) → List (Text × (Text → Text))
  | [] => []
  | (k, j) :: fs => (k, spacedTo j) :: spacedFields fs
end

/-- `json.dumps(value, sort_keys=True)`. -/
def spaced (j : Json) : Text := spacedTo j []

theorem spacedItems_eq (js : List Json) : spacedItems js = js.map spacedTo := by
  induction js with
  | nil => rfl
  | cons j js ih => rw [spacedItems, ih, List.map_cons]

theorem spacedFields_eq (fs : List (Text × Json)) :
    spacedFields fs = fs.map fun m => (m.1, spacedTo m.2) := by
  induction fs with
  | nil => rfl
  | cons m fs ih =>
      obtain ⟨k, j⟩ := m
      rw [spacedFields, ih, List.map_cons]

/-! ## The order of members -/

theorem sortMembers_sortMembers (ms : List (Text × β)) :
    sortMembers (sortMembers ms) = sortMembers ms :=
  SortedMap.ofList_of_sorted textLt_strict (SortedMap.sorted_ofList textLt_strict ms)

/-- Rendering the normal form of each member gives the same members. -/
theorem sortMembers_normFields {render : Json → β} {fs : List (Text × Json)}
    (h : ∀ m ∈ fs, render (norm m.2) = render m.2) :
    sortMembers ((sortMembers (normFields fs)).map fun m => (m.1, render m.2)) =
      sortMembers (fs.map fun m => (m.1, render m.2)) := by
  rw [← sortMembers_map, sortMembers_sortMembers, normFields_eq, List.map_map]
  congr 1
  exact List.map_congr_left fun m hm => congrArg (Prod.mk m.1) (h m hm)

theorem renderTo_norm (j : Json) : renderTo (norm j) = renderTo j := by
  induction j using induction with
  | null => rfl
  | bool b => rfl
  | num n => rfl
  | str t => rfl
  | arr items ih =>
      funext rest
      have hitems : items.map (renderTo ∘ norm) = items.map renderTo := List.map_congr_left ih
      rw [norm, renderTo, renderTo, normItems_eq, renderItems_eq, renderItems_eq, List.map_map,
        hitems]
  | obj fields ih =>
      funext rest
      rw [norm, renderTo, renderTo, renderFields_eq, renderFields_eq, sortMembers_normFields ih]

theorem canonical_norm (j : Json) : canonical (norm j) = canonical j :=
  congrFun (renderTo_norm j) []

theorem spacedTo_norm (j : Json) : spacedTo (norm j) = spacedTo j := by
  induction j using induction with
  | null => rfl
  | bool b => rfl
  | num n => rfl
  | str t => rfl
  | arr items ih =>
      funext rest
      have hitems : items.map (spacedTo ∘ norm) = items.map spacedTo := List.map_congr_left ih
      rw [norm, spacedTo, spacedTo, normItems_eq, spacedItems_eq, spacedItems_eq, List.map_map,
        hitems]
  | obj fields ih =>
      funext rest
      rw [norm, spacedTo, spacedTo, spacedFields_eq, spacedFields_eq, sortMembers_normFields ih]

theorem spaced_norm (j : Json) : spaced (norm j) = spaced j := congrFun (spacedTo_norm j) []

/-- Values with one canonical text have one normal form, and conversely. -/
theorem canonical_eq_iff {j j' : Json} : canonical j = canonical j' ↔ norm j = norm j' :=
  ⟨canonical_inj, fun h => by rw [← canonical_norm j, h, canonical_norm]⟩

theorem norm_norm (j : Json) : norm (norm j) = norm j := canonical_inj (canonical_norm j)

/-! ## Objects as dictionaries -/

/-- `d[k] = v`. -/
theorem get?_putMember (m : Text × Json) (d : List (Text × Json)) (k : Text) :
    SortedMap.get? k (putMember m d) = if m.1 = k then some m.2 else SortedMap.get? k d := by
  obtain ⟨a, v⟩ := m
  induction d with
  | nil => rfl
  | cons e d ih =>
      obtain ⟨b, w⟩ := e
      by_cases hb : b = a
      · subst hb
        by_cases hk : b = k
        · simp [putMember, SortedMap.get?, hk]
        · simp [putMember, SortedMap.get?, hk]
      · by_cases hk : b = k
        · subst hk
          simp [putMember, SortedMap.get?, hb, Ne.symm hb]
        · simp [putMember, SortedMap.get?, hb, hk, ih]

theorem keys_putMember (m : Text × Json) (d : List (Text × Json)) :
    (putMember m d).map Prod.fst =
      if m.1 ∈ d.map Prod.fst then d.map Prod.fst else d.map Prod.fst ++ [m.1] := by
  induction d with
  | nil => rfl
  | cons e d ih =>
      by_cases he : e.1 = m.1
      · simp [putMember, he]
      · rw [putMember, if_neg he, List.map_cons, ih]
        by_cases hm : m.1 ∈ d.map Prod.fst
        · simp [hm]
        · simp [hm, Ne.symm he]

theorem nodup_putMember {m : Text × Json} {d : List (Text × Json)} (h : (d.map Prod.fst).Nodup) :
    ((putMember m d).map Prod.fst).Nodup := by
  rw [keys_putMember]
  split
  · exact h
  · rename_i hm
    refine List.nodup_append.mpr ⟨h, by simp, fun a ha b hb heq => hm ?_⟩
    rwa [heq, List.mem_singleton.mp hb] at ha

theorem nodup_members (ms : List (Text × Json)) : ((members ms).map Prod.fst).Nodup := by
  have hfold : ∀ acc : List (Text × Json), (acc.map Prod.fst).Nodup →
      ((ms.foldl (fun acc m => putMember m acc) acc).map Prod.fst).Nodup := by
    induction ms with
    | nil => exact fun acc h => h
    | cons m ms ih => exact fun acc h => ih _ (nodup_putMember h)
  exact hfold [] List.nodup_nil

/-- An object that is read has each key once. -/
theorem nodup_of_loads {t : Text} {d : List (Text × Json)} (h : loads t = some (.obj d)) :
    (d.map Prod.fst).Nodup := by
  simp only [loads, Option.bind_eq_bind, Option.bind_eq_some_iff] at h
  obtain ⟨⟨j, rest⟩, hvalue, hrest⟩ := h
  have hj : j = .obj d := by
    dsimp only at hrest
    split at hrest
    · exact Option.some.inj hrest
    · cases hrest
  subst hj
  simp only [loadValue] at hvalue
  split at hvalue
  all_goals try cases hvalue
  all_goals
    obtain ⟨r, -, heq⟩ := Option.map_eq_some_iff.mp hvalue
    cases heq
  exact nodup_members _

/-- A member of an object that is read back. -/
theorem get?_norm_fields {d : List (Text × Json)} (h : (d.map Prod.fst).Nodup) (k : Text) :
    SortedMap.get? k (sortMembers (normFields d)) = (SortedMap.get? k d).map norm := by
  rw [normFields_eq, sortMembers_map, SortedMap.get?_map, sortMembers, SortedMap.get?_ofList h]

/-- Dictionaries with the same members have the same normal form. -/
theorem norm_obj_ext {d d' : List (Text × Json)} (hd : (d.map Prod.fst).Nodup)
    (hd' : (d'.map Prod.fst).Nodup)
    (h : ∀ k, (SortedMap.get? k d).map norm = (SortedMap.get? k d').map norm) :
    norm (.obj d) = norm (.obj d') := by
  rw [norm, norm, obj.injEq, normFields_eq, normFields_eq, sortMembers_map, sortMembers_map]
  refine SortedMap.ext textLt_strict ?_ ?_ fun k => ?_
  · rw [← sortMembers_map]
    exact SortedMap.sorted_ofList textLt_strict _
  · rw [← sortMembers_map]
    exact SortedMap.sorted_ofList textLt_strict _
  · rw [SortedMap.get?_map, SortedMap.get?_map, sortMembers, sortMembers,
      SortedMap.get?_ofList hd, SortedMap.get?_ofList hd']
    exact h k

end RalphVault.Json
