import Mathlib

/-!
# Sorted maps

Finite maps as association lists in strictly ascending key order. The
order is a Boolean test with the three laws of `StrictOrder`; insertion
replaces an earlier value. A sorted list is its own normal form, so two
maps with the same entries are the same list.
-/

namespace RalphVault

/-- A decidable strict total order. -/
structure StrictOrder {κ : Type} (lt : κ → κ → Bool) : Prop where
  irrefl : ∀ a, lt a a = false
  trans : ∀ {a b c}, lt a b = true → lt b c = true → lt a c = true
  total : ∀ {a b}, a ≠ b → lt a b = false → lt b a = true

namespace SortedMap

variable {κ β γ : Type} [DecidableEq κ] (lt : κ → κ → Bool)

def insert (k : κ) (v : β) : List (κ × β) → List (κ × β)
  | [] => [(k, v)]
  | (k', v') :: rest =>
      if k = k' then (k, v) :: rest
      else if lt k k' then (k, v) :: (k', v') :: rest
      else (k', v') :: insert k v rest

/-- Insert the entries of a list one after another. -/
def ofList (es : List (κ × β)) : List (κ × β) :=
  es.foldl (fun acc e => insert lt e.1 e.2 acc) []

def get? (k : κ) : List (κ × β) → Option β
  | [] => none
  | (k', v) :: m => if k' = k then some v else get? k m

def Sorted (m : List (κ × β)) : Prop := m.Pairwise fun a b => lt a.1 b.1 = true

variable {lt}

theorem length_insert_le (k : κ) (v : β) (m : List (κ × β)) :
    (insert lt k v m).length ≤ m.length + 1 := by
  induction m with
  | nil => simp [insert]
  | cons e m ih =>
      obtain ⟨k', v'⟩ := e
      simp only [insert]
      split
      · simp
      · split
        · simp
        · simpa using ih

theorem mem_insert {k : κ} {v : β} {m : List (κ × β)} {e : κ × β}
    (h : e ∈ insert lt k v m) : e = (k, v) ∨ e ∈ m := by
  induction m with
  | nil => simpa [insert] using h
  | cons e' m ih =>
      obtain ⟨k', v'⟩ := e'
      simp only [insert] at h
      split at h
      · rcases List.mem_cons.mp h with h | h
        · exact .inl h
        · exact .inr (List.mem_cons_of_mem _ h)
      · split at h
        · rcases List.mem_cons.mp h with h | h
          · exact .inl h
          · exact .inr h
        · rcases List.mem_cons.mp h with h | h
          · exact .inr (h ▸ List.mem_cons_self)
          · rcases ih h with h | h
            · exact .inl h
            · exact .inr (List.mem_cons_of_mem _ h)

theorem mem_of_get? {k : κ} {v : β} {m : List (κ × β)} (h : get? k m = some v) : (k, v) ∈ m := by
  induction m with
  | nil => simp [get?] at h
  | cons e m ih =>
      obtain ⟨k', v'⟩ := e
      simp only [get?] at h
      split at h
      · rename_i hk
        cases h
        rw [hk]
        exact List.mem_cons_self
      · exact List.mem_cons_of_mem _ (ih h)

theorem get?_insert (k k' : κ) (v : β) (m : List (κ × β)) :
    get? k (insert lt k' v m) = if k' = k then some v else get? k m := by
  induction m with
  | nil => simp [insert, get?]
  | cons e m ih =>
      obtain ⟨k'', v''⟩ := e
      by_cases h : k' = k''
      · subst h
        by_cases hk : k' = k <;> simp [insert, get?, hk]
      · by_cases hlt : lt k' k'' = true
        · simp [insert, get?, h, hlt]
        · by_cases hk : k'' = k
          · subst hk
            simp [insert, get?, h, hlt]
          · simp [insert, get?, h, hlt, hk, ih]

theorem sorted_insert (hlt : StrictOrder lt) (k : κ) (v : β) {m : List (κ × β)}
    (h : Sorted lt m) : Sorted lt (insert lt k v m) := by
  induction m with
  | nil => simp [insert, Sorted]
  | cons e m ih =>
      obtain ⟨k', v'⟩ := e
      rw [Sorted, List.pairwise_cons] at h
      simp only [insert]
      split
      · rename_i heq
        subst heq
        exact List.pairwise_cons.mpr h
      · rename_i hne
        split
        · rename_i hkk
          refine List.pairwise_cons.mpr ⟨?_, List.pairwise_cons.mpr h⟩
          intro e he
          rcases List.mem_cons.mp he with rfl | he
          · exact hkk
          · exact hlt.trans hkk (h.1 e he)
        · rename_i hkk
          refine List.pairwise_cons.mpr ⟨?_, ih h.2⟩
          intro e he
          rcases mem_insert he with rfl | he
          · exact hlt.total hne (by simpa using hkk)
          · exact h.1 e he

theorem sorted_ofList (hlt : StrictOrder lt) (es : List (κ × β)) : Sorted lt (ofList lt es) := by
  suffices h : ∀ acc : List (κ × β), Sorted lt acc →
      Sorted lt (es.foldl (fun acc e => insert lt e.1 e.2 acc) acc) from h [] (by simp [Sorted])
  induction es with
  | nil => exact fun acc h => h
  | cons e es ih => exact fun acc h => ih _ (sorted_insert hlt e.1 e.2 h)

theorem length_ofList_le (es : List (κ × β)) : (ofList lt es).length ≤ es.length := by
  suffices h : ∀ acc : List (κ × β),
      (es.foldl (fun acc e => insert lt e.1 e.2 acc) acc).length ≤ acc.length + es.length by
    simpa [ofList] using h []
  induction es with
  | nil => simp
  | cons e es ih =>
      intro acc
      have hstep := ih (insert lt e.1 e.2 acc)
      have hlen := @length_insert_le κ β _ lt e.1 e.2 acc
      simp only [List.foldl_cons, List.length_cons]
      omega

theorem mem_ofList {es : List (κ × β)} {e : κ × β} (h : e ∈ ofList lt es) : e ∈ es := by
  suffices hacc : ∀ acc : List (κ × β),
      e ∈ es.foldl (fun acc e => insert lt e.1 e.2 acc) acc → e ∈ acc ∨ e ∈ es by
    simpa using hacc [] h
  clear h
  induction es with
  | nil => exact fun acc h => .inl h
  | cons e' es ih =>
      intro acc h
      rcases ih _ h with h | h
      · rcases mem_insert h with rfl | h
        · exact .inr List.mem_cons_self
        · exact .inl h
      · exact .inr (List.mem_cons_of_mem _ h)

theorem get?_eq_none {k : κ} {m : List (κ × β)} (h : k ∉ m.map Prod.fst) : get? k m = none := by
  cases hget : get? k m with
  | none => rfl
  | some v => exact absurd (List.mem_map_of_mem (mem_of_get? hget)) h

theorem get?_append_of_not_mem {k : κ} {m m' : List (κ × β)} (h : k ∉ m.map Prod.fst) :
    get? k (m ++ m') = get? k m' := by
  induction m with
  | nil => rfl
  | cons e m ih =>
      rw [List.map_cons, List.mem_cons, not_or] at h
      rw [List.cons_append, get?, if_neg (Ne.symm h.1), ih h.2]

theorem get?_of_mem {k : κ} {v : β} {m : List (κ × β)} (hkeys : (m.map Prod.fst).Nodup)
    (h : (k, v) ∈ m) : get? k m = some v := by
  induction m with
  | nil => exact absurd h List.not_mem_nil
  | cons e m ih =>
      obtain ⟨k', v'⟩ := e
      rw [List.map_cons, List.nodup_cons] at hkeys
      rw [get?]
      rcases List.mem_cons.mp h with heq | hrest
      · cases heq
        rw [if_pos rfl]
      · have hne : k' ≠ k := by
          rintro rfl
          exact hkeys.1 (List.mem_map.mpr ⟨(k', v), hrest, rfl⟩)
        rw [if_neg hne]
        exact ih hkeys.2 hrest

theorem get?_map (f : β → γ) (k : κ) (m : List (κ × β)) :
    get? k (m.map fun e => (e.1, f e.2)) = (get? k m).map f := by
  induction m with
  | nil => rfl
  | cons e m ih =>
      obtain ⟨k', v⟩ := e
      rw [List.map_cons, get?, get?]
      split
      · rfl
      · exact ih

/-- Where no key comes twice, `ofList` has every entry. -/
theorem get?_ofList {es : List (κ × β)} (h : (es.map Prod.fst).Nodup) (k : κ) :
    get? k (ofList lt es) = get? k es := by
  suffices hacc : ∀ acc : List (κ × β),
      get? k (es.foldl (fun acc e => insert lt e.1 e.2 acc) acc) =
        (get? k es).or (get? k acc) by
    simpa [ofList, get?] using hacc []
  induction es with
  | nil => exact fun acc => rfl
  | cons e es ih =>
      intro acc
      obtain ⟨k', v⟩ := e
      rw [List.map_cons, List.nodup_cons] at h
      rw [List.foldl_cons, ih h.2, get?_insert, get?]
      by_cases hk : k' = k
      · subst hk
        simp [get?_eq_none h.1]
      · simp [hk]

/-- A key above all others goes to the end. -/
theorem insert_above (hlt : StrictOrder lt) {k : κ} {v : β} {m : List (κ × β)}
    (h : ∀ e ∈ m, lt e.1 k = true) : insert lt k v m = m ++ [(k, v)] := by
  induction m with
  | nil => rfl
  | cons e m ih =>
      obtain ⟨k', v'⟩ := e
      have hk : lt k' k = true := h (k', v') List.mem_cons_self
      have hne : k ≠ k' := by
        rintro rfl
        simp [hlt.irrefl] at hk
      have hnot : lt k k' = false := by
        cases hkk : lt k k' with
        | false => rfl
        | true =>
            have := hlt.trans hk hkk
            simp [hlt.irrefl] at this
      rw [insert, if_neg hne, hnot, ih fun e he => h e (List.mem_cons_of_mem _ he)]
      rfl

/-- A sorted list is unchanged by `ofList`. -/
theorem ofList_of_sorted (hlt : StrictOrder lt) {es : List (κ × β)} (h : Sorted lt es) :
    ofList lt es = es := by
  suffices hacc : ∀ acc : List (κ × β), Sorted lt (acc ++ es) →
      es.foldl (fun acc e => insert lt e.1 e.2 acc) acc = acc ++ es from hacc [] h
  clear h
  induction es with
  | nil => simp
  | cons e es ih =>
      intro acc h
      have habove : ∀ e' ∈ acc, lt e'.1 e.1 = true := by
        intro e' he'
        exact (List.pairwise_append.mp h).2.2 e' he' e List.mem_cons_self
      rw [List.foldl_cons, insert_above hlt habove,
        ih (acc ++ [(e.1, e.2)]) (by simpa using h)]
      simp

/-- Changing the values by a function of the entry commutes with `ofList`. -/
theorem ofList_map (f : β → γ) (es : List (κ × β)) :
    ofList lt (es.map fun e => (e.1, f e.2)) = (ofList lt es).map fun e => (e.1, f e.2) := by
  have hinsert : ∀ (k : κ) (v : β) (m : List (κ × β)),
      insert lt k (f v) (m.map fun e => (e.1, f e.2)) =
        (insert lt k v m).map fun e => (e.1, f e.2) := by
    intro k v m
    induction m with
    | nil => rfl
    | cons e m ih =>
        obtain ⟨k', v'⟩ := e
        by_cases h : k = k'
        · simp [insert, h]
        · by_cases hlt : lt k k' = true <;> simp [insert, h, hlt, ih]
  suffices h : ∀ acc : List (κ × β),
      (es.map fun e => (e.1, f e.2)).foldl (fun acc e => insert lt e.1 e.2 acc)
          (acc.map fun e => (e.1, f e.2)) =
        (es.foldl (fun acc e => insert lt e.1 e.2 acc) acc).map fun e => (e.1, f e.2) from h []
  induction es with
  | nil => exact fun acc => rfl
  | cons e es ih =>
      intro acc
      rw [List.map_cons, List.foldl_cons, List.foldl_cons, hinsert]
      exact ih _

theorem get?_filter (q : κ → Bool) (k : κ) (m : List (κ × β)) :
    get? k (m.filter fun e => q e.1) = if q k then get? k m else none := by
  induction m with
  | nil => simp [get?]
  | cons e m ih =>
      obtain ⟨k', v⟩ := e
      by_cases hk : k' = k
      · subst hk
        by_cases hq : q k' = true
        · simp [get?, hq]
        · simp [hq, ih]
      · by_cases hq : q k' = true <;> simp [get?, hk, hq, ih]

/-- A key below all others has no entry. -/
theorem get?_below (hlt : StrictOrder lt) {k : κ} {m : List (κ × β)}
    (h : ∀ e ∈ m, lt k e.1 = true) : get? k m = none := by
  apply get?_eq_none
  intro hmem
  obtain ⟨e, he, rfl⟩ := List.mem_map.mp hmem
  have hself := h e he
  rw [hlt.irrefl] at hself
  cases hself

/-- **Sorted maps with the same entries are equal.** -/
theorem ext (hlt : StrictOrder lt) {m m' : List (κ × β)} (h : Sorted lt m) (h' : Sorted lt m')
    (heq : ∀ k, get? k m = get? k m') : m = m' := by
  induction m generalizing m' with
  | nil =>
      cases m' with
      | nil => rfl
      | cons e m' => simpa [get?] using heq e.1
  | cons e m ih =>
      cases m' with
      | nil => simpa [get?] using heq e.1
      | cons e' m' =>
          obtain ⟨k, v⟩ := e
          obtain ⟨k', v'⟩ := e'
          rw [Sorted, List.pairwise_cons] at h h'
          have hk : k = k' := by
            by_contra hne
            -- the smaller of the two keys is missing in the other map
            cases hkk : lt k k' with
            | true =>
                have hmissing : get? k m' = none :=
                  get?_below hlt fun e he => hlt.trans hkk (h'.1 e he)
                have hself := heq k
                rw [get?, if_pos rfl, get?, if_neg (Ne.symm hne), hmissing] at hself
                cases hself
            | false =>
                have hkk' := hlt.total hne hkk
                have hmissing : get? k' m = none :=
                  get?_below hlt fun e he => hlt.trans hkk' (h.1 e he)
                have hself := heq k'
                rw [get?, if_neg hne, hmissing, get?, if_pos rfl] at hself
                cases hself
          subst hk
          have hv : v = v' := by
            have hself := heq k
            rw [get?, if_pos rfl, get?, if_pos rfl] at hself
            exact Option.some.inj hself
          subst hv
          congr 1
          refine ih h.2 h'.2 fun j => ?_
          by_cases hj : k = j
          · subst hj
            rw [get?_below hlt h.1, get?_below hlt h'.1]
          · have hrest := heq j
            rwa [get?, if_neg hj, get?, if_neg hj] at hrest

/-- Dropping keys and putting in order commute. -/
theorem ofList_filter_ofList (hlt : StrictOrder lt) (q : κ → Bool) {es : List (κ × β)}
    (h : (es.map Prod.fst).Nodup) :
    ofList lt ((ofList lt es).filter fun e => q e.1) = ofList lt (es.filter fun e => q e.1) := by
  have hsorted : Sorted lt ((ofList lt es).filter fun e => q e.1) :=
    List.Pairwise.filter _ (sorted_ofList hlt es)
  have hkeys : ((es.filter fun e => q e.1).map Prod.fst).Nodup :=
    h.sublist (List.filter_sublist.map _)
  rw [ofList_of_sorted hlt hsorted]
  refine ext hlt hsorted (sorted_ofList hlt _) fun k => ?_
  rw [get?_filter, get?_ofList h, get?_ofList hkeys, get?_filter]

/-- Maps with the same entries are permutations of one another. -/
theorem perm_of_get? {m m' : List (κ × β)} (h : (m.map Prod.fst).Nodup)
    (h' : (m'.map Prod.fst).Nodup) (hget : ∀ k, get? k m = get? k m') : m.Perm m' := by
  refine (List.perm_ext_iff_of_nodup (List.Nodup.of_map Prod.fst h)
    (List.Nodup.of_map Prod.fst h')).mpr fun e => ⟨fun he => ?_, fun he => ?_⟩
  · exact mem_of_get? ((hget e.1).symm.trans (get?_of_mem h he))
  · exact mem_of_get? ((hget e.1).trans (get?_of_mem h' he))

theorem get?_of_perm {m m' : List (κ × β)} (hp : m.Perm m') (h : (m.map Prod.fst).Nodup) (k : κ) :
    get? k m = get? k m' := by
  have h' : (m'.map Prod.fst).Nodup := (hp.map _).nodup_iff.mp h
  cases hget : get? k m' with
  | some v => exact get?_of_mem h (hp.mem_iff.mpr (mem_of_get? hget))
  | none =>
      cases hget' : get? k m with
      | none => rfl
      | some v =>
          rw [get?_of_mem h' (hp.mem_iff.mp (mem_of_get? hget'))] at hget
          cases hget

end SortedMap
end RalphVault
