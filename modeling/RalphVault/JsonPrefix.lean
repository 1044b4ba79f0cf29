import RalphVault.JsonText

/-!
# Beginnings of JSON text

The reader reads a text the same way in front of more text, a number at its
end apart. An object's text has a closing brace, so no proper beginning of it
is a JSON text: a line of a file of objects that was cut raises.
-/

namespace RalphVault.Json

variable {β : Type}

/-- A text that does not begin with a character does not in front of more. -/
theorem head_ne_append {t : Text} {c : Char} (hne : t ≠ []) (h : ∀ tail, t = c :: tail → False)
    (u : Text) : ∀ tail, t ++ u = c :: tail → False := by
  intro tail ht
  obtain ⟨d, t, rfl⟩ := List.exists_cons_of_ne_nil hne
  exact h t (by rw [(List.cons.inj ht).1])

/-! ## Strings -/

theorem loadHex_append {t rest : Text} {n : Nat} (h : loadHex t = some (n, rest)) (u : Text) :
    loadHex (t ++ u) = some (n, rest ++ u) := by
  unfold loadHex at h
  split at h
  · rename_i a b c d tail
    simp only [Option.bind_eq_bind, Option.bind_eq_some_iff, Option.pure_def, Option.some.injEq,
      Prod.mk.injEq] at h
    obtain ⟨i, hi, j, hj, k, hk, l, hl, hn, rfl⟩ := h
    simp only [List.cons_append, loadHex, hi, hj, hk, hl, Option.bind_eq_bind, Option.bind_some,
      Option.pure_def, hn]
  · cases h

theorem loadUnicode_append {t rest : Text} {c : Char} (h : loadUnicode t = some (c, rest))
    (u : Text) : loadUnicode (t ++ u) = some (c, rest ++ u) := by
  unfold loadUnicode at h ⊢
  simp only [Option.bind_eq_bind, Option.bind_eq_some_iff] at h
  obtain ⟨⟨n, tail⟩, hhex, h⟩ := h
  rw [loadHex_append hhex]
  simp only [Option.bind_eq_bind, Option.bind_some] at h ⊢
  split at h
  · rename_i hn
    simp only [Option.pure_def, Option.some.injEq, Prod.mk.injEq] at h
    rw [if_pos hn, h.1, h.2]
    rfl
  · rename_i hn
    rw [if_neg hn]
    split at h
    · -- the escape of the low surrogate
      rename_i low
      simp only [Option.bind_eq_some_iff] at h
      obtain ⟨⟨m, tail⟩, hlow, h⟩ := h
      simp only [List.cons_append, loadHex_append hlow, Option.bind_some]
      split at h
      · rename_i hm
        simp only [Option.pure_def, Option.some.injEq, Prod.mk.injEq] at h
        rw [if_pos hm, h.1, h.2]
        rfl
      · cases h
    · cases h

theorem loadChar_append {t rest : Text} {c : Char} (h : loadChar t = some (c, rest)) (u : Text) :
    loadChar (t ++ u) = some (c, rest ++ u) := by
  unfold loadChar at h
  split at h
  · rename_i d tail
    rw [List.cons_append, List.cons_append, loadChar]
    split_ifs at h ⊢
    all_goals first
      | exact loadUnicode_append h u
      | (cases h; done)
      | (obtain ⟨rfl, rfl⟩ := Prod.mk.inj (Option.some.inj h); rfl)
  · rename_i d tail hnot
    split at h
    · cases h
    · rename_i hd
      obtain ⟨rfl, rfl⟩ := Prod.mk.inj (Option.some.inj h)
      rw [List.cons_append]
      unfold loadChar
      split
      · rename_i heq
        exact absurd (.inl (List.cons.inj heq).1) hd
      · rename_i heq
        obtain ⟨rfl, rfl⟩ := List.cons.inj heq
        rw [if_neg hd]
      · rename_i heq
        cases heq
  · cases h

theorem loadString_append {n m : Nat} (hnm : n ≤ m) {t s rest : Text}
    (h : loadString n t = some (s, rest)) (u : Text) :
    loadString m (t ++ u) = some (s, rest ++ u) := by
  induction n generalizing m t s rest with
  | zero => cases h
  | succ n ih =>
      obtain ⟨m, rfl⟩ : ∃ k, m = k + 1 := ⟨m - 1, by omega⟩
      by_cases hquote : ∃ tail, t = '"' :: tail
      · obtain ⟨tail, rfl⟩ := hquote
        obtain ⟨rfl, rfl⟩ := Prod.mk.inj (Option.some.inj h)
        rfl
      · have hnot : ∀ tail, t = '"' :: tail → False := fun tail ht => hquote ⟨tail, ht⟩
        rw [loadString.eq_3 _ n hnot] at h
        simp only [Option.bind_eq_bind, Option.bind_eq_some_iff, Option.pure_def,
          Option.some.injEq, Prod.mk.injEq] at h
        obtain ⟨⟨c, tail⟩, hchar, ⟨s', rest'⟩, hstring, rfl, rfl⟩ := h
        have hnil : t ≠ [] := by
          rintro rfl
          cases hchar
        have hnot' := head_ne_append hnil hnot u
        rw [loadString.eq_3 _ m hnot', loadChar_append hchar]
        simp only [Option.bind_eq_bind, Option.bind_some, ih (Nat.le_of_succ_le_succ hnm) hstring]
        rfl

/-! ## Numbers -/

/-- What ends before the end of a text ends there in front of more text. -/
theorem span_append {p : Char → Bool} {t : Text} (h : t.dropWhile p ≠ []) (u : Text) :
    (t ++ u).takeWhile p = t.takeWhile p ∧ (t ++ u).dropWhile p = t.dropWhile p ++ u := by
  induction t with
  | nil => exact absurd rfl h
  | cons c t ih =>
      rw [List.cons_append, List.takeWhile_cons, List.takeWhile_cons, List.dropWhile_cons,
        List.dropWhile_cons]
      split
      · rename_i hc
        rw [List.dropWhile_cons_of_pos hc] at h
        exact ⟨congrArg _ (ih h).1, (ih h).2⟩
      · exact ⟨rfl, rfl⟩

theorem loadDigits_append {t rest : Text} {n : Nat} (h : loadDigits t = some (n, rest))
    (hrest : rest ≠ []) (u : Text) : loadDigits (t ++ u) = some (n, rest ++ u) := by
  by_cases hzero : ∃ tail, t = '0' :: tail
  · obtain ⟨tail, rfl⟩ := hzero
    obtain ⟨rfl, rfl⟩ := Prod.mk.inj (Option.some.inj h)
    rfl
  · have hnot : ∀ tail, t = '0' :: tail → False := fun tail ht => hzero ⟨tail, ht⟩
    rw [loadDigits.eq_2 t hnot] at h
    split at h
    · cases h
    · rename_i hne
      obtain ⟨rfl, rfl⟩ := Prod.mk.inj (Option.some.inj h)
      have hnil : t ≠ [] := by
        rintro rfl
        exact hne rfl
      obtain ⟨htake, hdrop⟩ := span_append hrest u
      rw [loadDigits.eq_2 _ (head_ne_append hnil hnot u), htake, hdrop]
      split
      · rename_i heq
        exact absurd heq hne
      · rfl

theorem skipBlank_append {t : Text} (h : skipBlank t ≠ []) (u : Text) :
    skipBlank (t ++ u) = skipBlank t ++ u := (span_append h u).2

theorem loadInt_append {t rest : Text} {n : Int} (h : loadInt t = some (n, rest))
    (hrest : rest ≠ []) (u : Text) : loadInt (t ++ u) = some (n, rest ++ u) := by
  by_cases hminus : ∃ tail, t = '-' :: tail
  · obtain ⟨tail, rfl⟩ := hminus
    rw [loadInt.eq_1] at h
    obtain ⟨⟨k, tail'⟩, hdigits, heq⟩ := Option.map_eq_some_iff.mp h
    obtain ⟨rfl, rfl⟩ := Prod.mk.inj heq
    rw [List.cons_append, loadInt.eq_1, loadDigits_append hdigits hrest]
    rfl
  · have hnot : ∀ tail, t = '-' :: tail → False := fun tail ht => hminus ⟨tail, ht⟩
    rw [loadInt.eq_2 t hnot] at h
    obtain ⟨⟨k, tail'⟩, hdigits, heq⟩ := Option.map_eq_some_iff.mp h
    obtain ⟨rfl, rfl⟩ := Prod.mk.inj heq
    have hnil : t ≠ [] := by
      rintro rfl
      cases hdigits
    rw [loadInt.eq_2 _ (head_ne_append hnil hnot u), loadDigits_append hdigits hrest]
    rfl

theorem loadNumber_append {t rest : Text} {n : Int} (h : loadNumber t = some (n, rest))
    (hrest : rest ≠ []) (u : Text) : loadNumber (t ++ u) = some (n, rest ++ u) := by
  unfold loadNumber at h ⊢
  simp only [Option.bind_eq_bind, Option.bind_eq_some_iff] at h
  obtain ⟨⟨k, tail⟩, hint, h⟩ := h
  split at h
  · cases h
  · rename_i hfraction
    obtain ⟨rfl, rfl⟩ := Prod.mk.inj (Option.some.inj h)
    obtain ⟨c, tail', rfl⟩ := List.exists_cons_of_ne_nil hrest
    rw [loadInt_append hint hrest]
    simp only [Option.bind_eq_bind, Option.bind_some, List.cons_append]
    rw [if_neg (by simpa [isFraction] using hfraction)]
    rfl

/-! ## Lists and values -/

/-- What one reader reads, with some text left, the other reads in front of more text. -/
structure Extends (item item' : Text → Option (β × Text)) : Prop where
  nil : item [] = none
  append : ∀ {t b rest}, item t = some (b, rest) → rest ≠ [] → ∀ u,
    item' (t ++ u) = some (b, rest ++ u)

theorem loadItems_append {item item' : Text → Option (β × Text)} (hitem : Extends item item')
    {close : Char} {n m : Nat} (hnm : n ≤ m) {t rest : Text} {bs : List β}
    (h : loadItems item close n t = some (bs, rest)) (u : Text) :
    loadItems item' close m (t ++ u) = some (bs, rest ++ u) := by
  induction n generalizing m t bs rest with
  | zero => cases h
  | succ n ih =>
      obtain ⟨m, rfl⟩ : ∃ k, m = k + 1 := ⟨m - 1, by omega⟩
      rw [loadItems] at h
      obtain ⟨⟨b, tail⟩, hfirst, h⟩ := Option.bind_eq_some_iff.mp h
      cases hskip : skipBlank tail with
      | nil =>
          simp only [hskip] at h
          cases h
      | cons c after =>
          simp only [hskip] at h
          have htail : tail ≠ [] := by
            rintro rfl
            cases hskip
          have hskip' : skipBlank (tail ++ u) = c :: (after ++ u) := by
            rw [skipBlank_append (by rw [hskip]; exact List.cons_ne_nil _ _), hskip,
              List.cons_append]
          rw [loadItems, hitem.append hfirst htail]
          simp only [Option.bind_eq_bind, Option.bind_some, hskip']
          split at h
          · rename_i hclose
            obtain ⟨rfl, rfl⟩ := Prod.mk.inj (Option.some.inj h)
            rw [if_pos hclose]
            rfl
          · rename_i hclose
            rw [if_neg hclose]
            split at h
            · rename_i hcomma
              simp only [Option.bind_eq_bind, Option.bind_eq_some_iff] at h
              obtain ⟨⟨bs', rest'⟩, hmore, heq⟩ := h
              obtain ⟨rfl, rfl⟩ := Prod.mk.inj (Option.some.inj heq)
              -- another item follows, so the text is not at its end
              have hafter : skipBlank after ≠ [] := by
                intro hnil
                rw [hnil] at hmore
                cases n with
                | zero => cases hmore
                | succ n =>
                    rw [loadItems, hitem.nil] at hmore
                    cases hmore
              rw [if_pos hcomma, skipBlank_append hafter,
                ih (Nat.le_of_succ_le_succ hnm) hmore]
              rfl
            · cases h

theorem loadList_append {item item' : Text → Option (β × Text)} (hitem : Extends item item')
    {close : Char} {n m : Nat} (hnm : n ≤ m) {t rest : Text} {bs : List β}
    (h : loadList item close n t = some (bs, rest)) (u : Text) :
    loadList item' close m (t ++ u) = some (bs, rest ++ u) := by
  unfold loadList at h ⊢
  cases hskip : skipBlank t with
  | nil =>
      rw [hskip] at h
      cases h
  | cons c after =>
      rw [skipBlank_append (by rw [hskip]; exact List.cons_ne_nil _ _)]
      simp only [hskip, List.cons_append] at h ⊢
      split at h
      · rename_i hclose
        obtain ⟨rfl, rfl⟩ := Prod.mk.inj (Option.some.inj h)
        rw [if_pos hclose]
      · rename_i hclose
        rw [if_neg hclose]
        exact loadItems_append hitem hnm h u

theorem loadMember_extends {value value' : Text → Option (Json × Text)}
    (hvalue : Extends value value') {n m : Nat} (hnm : n ≤ m) :
    Extends (loadMember value n) (loadMember value' m) where
  nil := rfl
  append := by
    intro t b rest h hrest u
    unfold loadMember at h
    split at h
    · rename_i tail
      simp only [Option.bind_eq_bind, Option.bind_eq_some_iff] at h
      obtain ⟨⟨k, after⟩, hkey, h⟩ := h
      split at h
      · rename_i colon hskip
        simp only [Option.bind_eq_some_iff] at h
        obtain ⟨⟨j, rest'⟩, hread, heq⟩ := h
        obtain ⟨rfl, rfl⟩ := Prod.mk.inj (Option.some.inj heq)
        have hcolon : skipBlank colon ≠ [] := by
          intro hnil
          rw [hnil, hvalue.nil] at hread
          cases hread
        rw [List.cons_append, loadMember, loadString_append hnm hkey]
        simp only [Option.bind_eq_bind, Option.bind_some]
        rw [skipBlank_append (by rw [hskip]; exact List.cons_ne_nil _ _), hskip]
        simp only [List.cons_append]
        rw [skipBlank_append hcolon, hvalue.append hread hrest]
        rfl
      · cases h
    · cases h

/-- A number begins with a minus sign or a digit. -/
theorem loadNumber_head {t : Text} {r : Int × Text} (h : loadNumber t = some r) :
    ∃ c tail, t = c :: tail ∧ (c = '-' ∨ c.isDigit = true) := by
  cases t with
  | nil => cases h
  | cons c tail =>
      refine ⟨c, tail, rfl, ?_⟩
      by_contra hc
      obtain ⟨hminus, hdigit⟩ := not_or.mp hc
      have hzero : ∀ rest, c :: tail = '0' :: rest → False := by
        rintro rest heq
        rw [(List.cons.inj heq).1] at hdigit
        exact hdigit (by decide)
      have hint : loadInt (c :: tail) = none := by
        rw [loadInt.eq_2 _ fun rest heq => hminus (List.cons.inj heq).1, loadDigits.eq_2 _ hzero,
          List.takeWhile_cons_of_neg hdigit]
        rfl
      rw [loadNumber, hint] at h
      cases h

/-- A text that begins a number begins nothing else. -/
theorem loadValue_number {t : Text} {c : Char} {tail : Text} (ht : t = c :: tail)
    (hc : c = '-' ∨ c.isDigit = true) (n : Nat) :
    loadValue (n + 1) t = (fun r => (Json.num r.1, r.2)) <$> loadNumber t := by
  have hne : ∀ d, d ≠ '-' → d.isDigit = false → c ≠ d := by
    rintro d hminus hdigit rfl
    rcases hc with hc | hc
    · exact hminus hc
    · rw [hc] at hdigit
      cases hdigit
  have hquote := hne '"' (by decide) (by decide)
  have hbracket := hne '[' (by decide) (by decide)
  have hbrace := hne '{' (by decide) (by decide)
  have hnull := hne 'n' (by decide) (by decide)
  have htrue := hne 't' (by decide) (by decide)
  have hfalse := hne 'f' (by decide) (by decide)
  subst ht
  rw [loadValue.eq_def]
  simp only
  split
  all_goals first
    | (rename_i heq; exact absurd (List.cons.inj heq).1 (by assumption))
    | rfl

/-- **What is read with text left is read in front of more text.** -/
theorem loadValue_extends {n m : Nat} (hnm : n ≤ m) : Extends (loadValue n) (loadValue m) := by
  induction n generalizing m with
  | zero => exact ⟨rfl, fun h => by cases h⟩
  | succ n ih =>
      obtain ⟨m, rfl⟩ : ∃ k, m = k + 1 := ⟨m - 1, by omega⟩
      have hle : n ≤ m := Nat.le_of_succ_le_succ hnm
      refine ⟨rfl, ?_⟩
      intro t b rest h hrest u
      unfold loadValue at h
      split at h
      · obtain ⟨⟨s, tail⟩, hread, heq⟩ := Option.map_eq_some_iff.mp h
        obtain ⟨rfl, rfl⟩ := Prod.mk.inj heq
        rw [List.cons_append, loadValue, loadString_append hle hread]
        rfl
      · obtain ⟨⟨bs, tail⟩, hread, heq⟩ := Option.map_eq_some_iff.mp h
        obtain ⟨rfl, rfl⟩ := Prod.mk.inj heq
        rw [List.cons_append, loadValue, loadList_append (ih hle) hle hread]
        rfl
      · obtain ⟨⟨bs, tail⟩, hread, heq⟩ := Option.map_eq_some_iff.mp h
        obtain ⟨rfl, rfl⟩ := Prod.mk.inj heq
        rw [List.cons_append, loadValue,
          loadList_append (loadMember_extends (ih hle) hle) hle hread]
        rfl
      · obtain ⟨rfl, rfl⟩ := Prod.mk.inj (Option.some.inj h)
        rfl
      · obtain ⟨rfl, rfl⟩ := Prod.mk.inj (Option.some.inj h)
        rfl
      · obtain ⟨rfl, rfl⟩ := Prod.mk.inj (Option.some.inj h)
        rfl
      · obtain ⟨⟨k, tail⟩, hread, heq⟩ := Option.map_eq_some_iff.mp h
        obtain ⟨rfl, rfl⟩ := Prod.mk.inj heq
        obtain ⟨c, tail', rfl, hc⟩ := loadNumber_head hread
        rw [loadValue_number (List.cons_append ..) hc, loadNumber_append hread hrest]
        rfl

/-- An object is read in front of anything: its text ends at a brace. -/
theorem loadValue_object {n m : Nat} (hnm : n ≤ m) {t rest : Text} {j : Json}
    (h : loadValue n ('{' :: t) = some (j, rest)) (u : Text) :
    loadValue m ('{' :: (t ++ u)) = some (j, rest ++ u) := by
  cases n with
  | zero => cases h
  | succ n =>
      obtain ⟨m, rfl⟩ : ∃ k, m = k + 1 := ⟨m - 1, by omega⟩
      have hle : n ≤ m := Nat.le_of_succ_le_succ hnm
      rw [loadValue] at h
      obtain ⟨⟨bs, tail⟩, hread, heq⟩ := Option.map_eq_some_iff.mp h
      obtain ⟨rfl, rfl⟩ := Prod.mk.inj heq
      rw [loadValue, loadList_append (loadMember_extends (loadValue_extends hle) hle) hle hread]
      rfl

/-- **A proper beginning of an object's text is no JSON text.** -/
theorem loads_torn {t u : Text} {j : Json} {n : Nat} (hn : ('{' :: t).length < n)
    (h : loadValue n ('{' :: (t ++ u)) = some (j, [])) (hu : u ≠ []) : loads ('{' :: t) = none := by
  cases htorn : loads ('{' :: t) with
  | none => rfl
  | some j' =>
      exfalso
      rw [loads, skipBlank, List.dropWhile_cons_of_neg (by decide)] at htorn
      obtain ⟨⟨i, rest⟩, hread, hend⟩ := Option.bind_eq_some_iff.mp htorn
      have hmore := loadValue_object hn hread u
      rw [h] at hmore
      exact hu (List.append_eq_nil_iff.mp (Prod.mk.inj (Option.some.inj hmore)).2.symm).2

end RalphVault.Json
