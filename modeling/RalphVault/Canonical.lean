import Mathlib
import RalphVault.Json

/-!
# Canonical JSON

The canonical encoding is unambiguous: two values with the same canonical
text are the same up to the order of the members of their objects. The
proof reads a text from the left; after a value stands a character that
cannot belong to it.
-/

namespace RalphVault.Json

/-! ## Induction and normal forms -/

/-- What holds of a value when it holds of its parts holds of every value. -/
theorem induction {P : Json → Prop} (null : P .null) (bool : ∀ b, P (.bool b))
    (num : ∀ n, P (.num n)) (str : ∀ t, P (.str t))
    (arr : ∀ items, (∀ j ∈ items, P j) → P (.arr items))
    (obj : ∀ fields, (∀ m ∈ fields, P m.2) → P (.obj fields)) (j : Json) : P j :=
  @Json.rec P (fun items => ∀ j ∈ items, P j) (fun fields => ∀ m ∈ fields, P m.2)
    (fun m => P m.2) null bool num str arr obj
    (fun _ h => absurd h List.not_mem_nil)
    (fun _ _ hj hjs => List.forall_mem_cons.mpr ⟨hj, hjs⟩)
    (fun _ h => absurd h List.not_mem_nil)
    (fun _ _ hm hms => List.forall_mem_cons.mpr ⟨hm, hms⟩)
    (fun _ _ hj => hj) j

mutual
/-- The value with the members of its objects in key order. -/
def norm : Json → Json
  | null => .null
  | bool b => .bool b
  | num n => .num n
  | str t => .str t
  | arr items => .arr (normItems items)
  | obj fields => .obj (sortMembers (normFields fields))

def normItems : List Json → List Json
  | [] => []
  | j :: js => norm j :: normItems js

def normFields : List (Text × Json) → List (Text × Json)
  | [] => []
  | (k, j) :: fs => (k, norm j) :: normFields fs
end

theorem normItems_eq (js : List Json) : normItems js = js.map norm := by
  induction js with
  | nil => rfl
  | cons j js ih => rw [normItems, ih, List.map_cons]

theorem normFields_eq (fs : List (Text × Json)) :
    normFields fs = fs.map fun m => (m.1, norm m.2) := by
  induction fs with
  | nil => rfl
  | cons m fs ih =>
      obtain ⟨k, j⟩ := m
      rw [normFields, ih, List.map_cons]

theorem renderItems_eq (js : List Json) : renderItems js = js.map renderTo := by
  induction js with
  | nil => rfl
  | cons j js ih => rw [renderItems, ih, List.map_cons]

theorem renderFields_eq (fs : List (Text × Json)) :
    renderFields fs = fs.map fun m => (m.1, renderTo m.2) := by
  induction fs with
  | nil => rfl
  | cons m fs ih =>
      obtain ⟨k, j⟩ := m
      rw [renderFields, ih, List.map_cons]

theorem sortMembers_map (f : β → γ) (ms : List (Text × β)) :
    sortMembers (ms.map fun m => (m.1, f m.2)) = (sortMembers ms).map fun m => (m.1, f m.2) :=
  SortedMap.ofList_map f ms

/-! ## Strings -/

/-- The text of one character of a string. -/
def escaped (c : Char) : Text := if isPlain c then [c] else escapeChar c

theorem escapeTo_cons (c : Char) (t rest : Text) :
    escapeTo (c :: t) rest = escaped c ++ escapeTo t rest := by
  rw [escapeTo, escaped]
  cases isPlain c <;> rfl

def hexValue (c : Char) : Nat := if c.toNat < 58 then c.toNat - 48 else c.toNat - 87

/-- Read one character of a string, escaped or not. -/
def readChar : Text → Option (Char × Text)
  | '\\' :: '"' :: rest => some ('"', rest)
  | '\\' :: '\\' :: rest => some ('\\', rest)
  | '\\' :: 'n' :: rest => some ('\n', rest)
  | '\\' :: 'r' :: rest => some ('\r', rest)
  | '\\' :: 't' :: rest => some ('\t', rest)
  | '\\' :: 'b' :: rest => some (Char.ofNat 8, rest)
  | '\\' :: 'f' :: rest => some (Char.ofNat 12, rest)
  | '\\' :: 'u' :: '0' :: '0' :: high :: low :: rest =>
      some (Char.ofNat (16 * hexValue high + hexValue low), rest)
  | '\\' :: _ => none
  | c :: rest => some (c, rest)
  | [] => none

theorem readChar_plain {c : Char} (h : c ≠ '\\') (rest : Text) :
    readChar (c :: rest) = some (c, rest) := by
  rw [readChar.eq_def]
  split <;> simp_all

/-- The escape of a control character. -/
theorem hexValue_hexDigit : ∀ d, d < 16 → hexValue (hexDigit d) = d := by decide

/-- **An escaped character is read back**, whatever follows. -/
theorem readChar_escaped (c : Char) (rest : Text) :
    readChar (escaped c ++ rest) = some (c, rest) := by
  unfold escaped
  by_cases hplain : isPlain c = true
  · have hne : c ≠ '\\' := by
      rintro rfl
      exact absurd hplain (by decide)
    rw [if_pos hplain]
    exact readChar_plain hne rest
  · rw [if_neg hplain]
    unfold escapeChar
    by_cases h1 : c = '"'
    · subst h1
      rfl
    by_cases h2 : c = '\\'
    · subst h2
      rfl
    by_cases h3 : c = '\n'
    · subst h3
      rfl
    by_cases h4 : c = '\r'
    · subst h4
      rfl
    by_cases h5 : c = '\t'
    · subst h5
      rfl
    rw [if_neg h1, if_neg h2, if_neg h3, if_neg h4, if_neg h5]
    by_cases h6 : c.toNat = 8
    · rw [if_pos h6, ← Char.ofNat_toNat c, h6]
      rfl
    by_cases h7 : c.toNat = 12
    · rw [if_neg h6, if_pos h7, ← Char.ofNat_toNat c, h7]
      rfl
    rw [if_neg h6, if_neg h7]
    by_cases h8 : c.toNat < 32
    · have hhigh := hexValue_hexDigit (c.toNat / 16) (by omega)
      have hlow := hexValue_hexDigit (c.toNat % 16) (by omega)
      have hsum : 16 * (c.toNat / 16) + c.toNat % 16 = c.toNat := by omega
      rw [if_pos h8]
      simp only [List.cons_append, List.nil_append, readChar, hhigh, hlow, hsum, Char.ofNat_toNat]
    · rw [if_neg h8]
      exact readChar_plain h2 rest

/-- A character of a string is not its closing quote. -/
theorem escaped_ne_quote (c : Char) (rest rest' : Text) : escaped c ++ rest ≠ '"' :: rest' := by
  intro h
  have hread := congrArg readChar h
  rw [readChar_escaped, readChar_plain (by decide), Option.some.injEq, Prod.mk.injEq] at hread
  rw [hread.1] at h
  exact absurd (List.cons.inj h).1 (by decide)

/-- **A string ends at its quote.** -/
theorem escapeTo_inj {t t' rest rest' : Text}
    (h : escapeTo t ('"' :: rest) = escapeTo t' ('"' :: rest')) : t = t' ∧ rest = rest' := by
  induction t generalizing t' with
  | nil =>
      cases t' with
      | nil => simpa [escapeTo] using h
      | cons c t' =>
          rw [escapeTo_cons, escapeTo] at h
          exact absurd h.symm (escaped_ne_quote c _ _)
  | cons c t ih =>
      cases t' with
      | nil =>
          rw [escapeTo_cons, escapeTo] at h
          exact absurd h (escaped_ne_quote c _ _)
      | cons c' t' =>
          rw [escapeTo_cons, escapeTo_cons] at h
          have hread := congrArg readChar h
          rw [readChar_escaped, readChar_escaped, Option.some.injEq, Prod.mk.injEq] at hread
          obtain ⟨hc, hrest⟩ := hread
          obtain ⟨ht, hr⟩ := ih hrest
          exact ⟨by rw [hc, ht], hr⟩

theorem quoteTo_inj {t t' rest rest' : Text} (h : quoteTo t rest = quoteTo t' rest') :
    t = t' ∧ rest = rest' := by
  rw [quoteTo, quoteTo, List.cons.injEq] at h
  exact escapeTo_inj h.2

/-! ## Numbers -/

/-- What follows a number does not begin with a digit. -/
def Ends (rest : Text) : Prop := ∀ c t, rest = c :: t → c.isDigit = false

theorem ends_cons {c : Char} (h : c.isDigit = false) (rest : Text) : Ends (c :: rest) := by
  intro c' t heq
  cases heq
  exact h

theorem ends_nil : Ends [] := by
  intro c t heq
  cases heq

theorem isDigit_decimalText {n : Nat} {c : Char} (h : c ∈ decimalText n) : c.isDigit = true :=
  Nat.isDigit_of_mem_toDigits (by decide) (by decide) h

theorem takeWhile_decimalText (n : Nat) {rest : Text} (h : Ends rest) :
    (decimalText n ++ rest).takeWhile Char.isDigit = decimalText n := by
  rw [List.takeWhile_append_of_pos fun c hc => isDigit_decimalText hc]
  cases rest with
  | nil => simp
  | cons c t => simp [h c t rfl]

/-- **A number ends before the first character that is no digit.** -/
theorem decimalText_inj {n m : Nat} {rest rest' : Text} (hr : Ends rest) (hr' : Ends rest')
    (h : decimalText n ++ rest = decimalText m ++ rest') : n = m ∧ rest = rest' := by
  have hdigits := congrArg (List.takeWhile Char.isDigit) h
  rw [takeWhile_decimalText n hr, takeWhile_decimalText m hr'] at hdigits
  have hvalue := congrArg (Nat.ofDigitChars 10 · 0) hdigits
  simp only [decimalText, Nat.ofDigitChars_ten_toDigits] at hvalue
  subst hvalue
  exact ⟨rfl, List.append_cancel_left h⟩

theorem decimalText_ne_minus (n : Nat) (rest rest' : Text) :
    decimalText n ++ rest ≠ '-' :: rest' := by
  intro h
  cases hd : decimalText n with
  | nil => exact Nat.toDigits_ne_nil hd
  | cons c cs =>
      rw [hd, List.cons_append, List.cons.injEq] at h
      have hdigit : c.isDigit = true := @isDigit_decimalText n c (by rw [hd]; exact List.mem_cons_self ..)
      rw [h.1] at hdigit
      exact absurd hdigit (by decide)

theorem intText_inj {n m : Int} {rest rest' : Text} (hr : Ends rest) (hr' : Ends rest')
    (h : intText n ++ rest = intText m ++ rest') : n = m ∧ rest = rest' := by
  unfold intText at h
  split at h
  · rename_i hn
    split at h
    · rename_i hm
      obtain ⟨habs, hrest⟩ := decimalText_inj hr hr' (List.cons.inj h).2
      exact ⟨by omega, hrest⟩
    · exact absurd h.symm (decimalText_ne_minus _ _ _)
  · rename_i hn
    split at h
    · exact absurd h (decimalText_ne_minus _ _ _)
    · rename_i hm
      obtain ⟨habs, hrest⟩ := decimalText_inj hr hr' h
      exact ⟨by omega, hrest⟩

/-! ## Values -/

/-- The kind of a value. -/
def kind : Json → Nat
  | null => 0
  | bool _ => 1
  | num _ => 2
  | str _ => 3
  | arr _ => 4
  | obj _ => 5

/-- The kind of the value a character begins. -/
def kindOf (c : Char) : Nat :=
  if c = 'n' then 0
  else if c = 't' ∨ c = 'f' then 1
  else if c = '-' ∨ c.isDigit = true then 2
  else if c = '"' then 3
  else if c = '[' then 4
  else if c = '{' then 5
  else 6

/-- The first character of a value tells its kind. -/
theorem renderTo_head (j : Json) (rest : Text) :
    ∃ c t, renderTo j rest = c :: t ∧ kindOf c = j.kind := by
  cases j with
  | null => exact ⟨'n', _, rfl, by decide⟩
  | bool b =>
      cases b
      · exact ⟨'f', _, rfl, by decide⟩
      · exact ⟨'t', _, rfl, by decide⟩
  | num n =>
      simp only [renderTo, intText]
      split
      · exact ⟨'-', _, rfl, rfl⟩
      · cases hd : decimalText n.natAbs with
        | nil => exact absurd hd Nat.toDigits_ne_nil
        | cons c cs =>
            have hdigit : c.isDigit = true :=
              @isDigit_decimalText n.natAbs c (by rw [hd]; exact List.mem_cons_self ..)
            have hletter : c ≠ 'n' ∧ ¬ (c = 't' ∨ c = 'f') := by
              refine ⟨?_, ?_⟩
              · rintro rfl
                exact absurd hdigit (by decide)
              · rintro (rfl | rfl) <;> exact absurd hdigit (by decide)
            refine ⟨c, _, rfl, ?_⟩
            rw [kindOf, if_neg hletter.1, if_neg hletter.2, if_pos (.inr hdigit)]
            rfl
  | str t => exact ⟨'"', _, rfl, rfl⟩
  | arr items => exact ⟨'[', _, rfl, rfl⟩
  | obj fields => exact ⟨'{', _, rfl, rfl⟩

/-- What is read of a value of a list is the value, if a comma or the end of
the list follows. -/
def Reads (render : β → Text → Text) (value : β → γ) (b : β) : Prop :=
  ∀ b' rest rest', Ends rest → Ends rest' → render b rest = render b' rest' →
    value b = value b' ∧ rest = rest'

/-- What follows the first item of a list. -/
def itemsTail (items : List (Text → Text)) (rest : Text) : Text :=
  if items.isEmpty then rest else ',' :: itemsTo items rest

theorem itemsTo_cons (item : Text → Text) (items : List (Text → Text)) (rest : Text) :
    itemsTo (item :: items) rest = item (itemsTail items rest) := by
  cases items <;> rfl

theorem ends_itemsTail {items : List (Text → Text)} {close : Char} (h : close.isDigit = false)
    (rest : Text) : Ends (itemsTail items (close :: rest)) := by
  unfold itemsTail
  split
  · exact ends_cons h rest
  · exact ends_cons (by decide) _

/-- **A list is read item by item**: an item does not begin with the closing
character, and after it stands a comma or that character. -/
theorem itemsTo_inj {render : β → Text → Text} {value : β → γ} {close : Char}
    (hdigit : close.isDigit = false) (hcomma : close ≠ ',')
    (hopen : ∀ b rest, ∃ c t, render b rest = c :: t ∧ c ≠ close) {bs bs' : List β}
    {rest rest' : Text} (hreads : ∀ b ∈ bs, Reads render value b)
    (h : itemsTo (bs.map render) (close :: rest) = itemsTo (bs'.map render) (close :: rest')) :
    bs.map value = bs'.map value ∧ rest = rest' := by
  have hnonempty : ∀ (b : β) (items : List (Text → Text)) (r r' : Text),
      itemsTo (render b :: items) r ≠ close :: r' := by
    intro b items r r' heq
    obtain ⟨c, t, hc, hne⟩ := hopen b (itemsTail items r)
    rw [itemsTo_cons, hc, List.cons.injEq] at heq
    exact hne heq.1
  induction bs generalizing bs' with
  | nil =>
      cases bs' with
      | nil => exact ⟨rfl, (List.cons.inj h).2⟩
      | cons b' bs' => exact absurd h.symm (hnonempty b' _ _ _)
  | cons b bs ih =>
      cases bs' with
      | nil => exact absurd h (hnonempty b _ _ _)
      | cons b' bs' =>
          rw [List.map_cons, List.map_cons, itemsTo_cons, itemsTo_cons] at h
          obtain ⟨hvalue, htail⟩ := hreads b (List.mem_cons_self ..) b' _ _
            (ends_itemsTail hdigit rest) (ends_itemsTail hdigit rest') h
          have hrest : itemsTo (bs.map render) (close :: rest) =
              itemsTo (bs'.map render) (close :: rest') := by
            cases bs with
            | nil =>
                cases bs' with
                | nil => exact htail
                | cons c' bs' => exact absurd (List.cons.inj htail).1 hcomma
            | cons c bs =>
                cases bs' with
                | nil => exact absurd (List.cons.inj htail).1.symm hcomma
                | cons c' bs' => exact (List.cons.inj htail).2
          obtain ⟨hvalues, hr⟩ := ih (fun d hd => hreads d (List.mem_cons_of_mem _ hd)) hrest
          exact ⟨by rw [List.map_cons, List.map_cons, hvalue, hvalues], hr⟩

theorem renderTo_arr (items : List Json) (rest : Text) :
    renderTo (.arr items) rest = '[' :: itemsTo (items.map renderTo) (']' :: rest) := by
  rw [renderTo, renderItems_eq]

/-- The text of a member of an object. -/
def renderMember (m : Text × Json) : Text → Text := memberTo (m.1, renderTo m.2)

theorem renderTo_obj (fields : List (Text × Json)) (rest : Text) :
    renderTo (.obj fields) rest =
      '{' :: itemsTo ((sortMembers fields).map renderMember) ('}' :: rest) := by
  rw [renderTo, renderFields_eq, sortMembers_map, List.map_map]
  rfl

theorem kind_eq {j j' : Json} {rest rest' : Text} (h : renderTo j rest = renderTo j' rest') :
    j.kind = j'.kind := by
  obtain ⟨c, t, hc, hkind⟩ := renderTo_head j rest
  obtain ⟨c', t', hc', hkind'⟩ := renderTo_head j' rest'
  rw [hc, hc', List.cons.injEq] at h
  rw [← hkind, ← hkind', h.1]

/-- A member is read to the end of its value. -/
theorem reads_member {m : Text × Json} (h : Reads renderTo norm m.2) :
    Reads renderMember (fun m => (m.1, norm m.2)) m := by
  intro m' rest rest' hr hr' heq
  obtain ⟨hkey, hvalue⟩ := quoteTo_inj heq
  obtain ⟨hnorm, hrest⟩ := h m'.2 rest rest' hr hr' (List.cons.inj hvalue).2
  exact ⟨Prod.ext hkey hnorm, hrest⟩

/-- **The text of a value ends where the value does**, and tells the value up
to the order of members. -/
theorem renderTo_inj (j : Json) : Reads renderTo norm j := by
  induction j using induction with
  | null =>
      intro j' rest rest' hr hr' h
      have hkind := kind_eq h
      cases j' with
      | null => exact ⟨rfl, List.append_cancel_left h⟩
      | _ => simp [kind] at hkind
  | bool b =>
      intro j' rest rest' hr hr' h
      have hkind := kind_eq h
      cases j' with
      | bool b' =>
          cases b with
          | false =>
              cases b' with
              | false => exact ⟨rfl, List.append_cancel_left h⟩
              | true => exact absurd (List.cons.inj h).1 (by decide)
          | true =>
              cases b' with
              | false => exact absurd (List.cons.inj h).1 (by decide)
              | true => exact ⟨rfl, List.append_cancel_left h⟩
      | _ => simp [kind] at hkind
  | num n =>
      intro j' rest rest' hr hr' h
      have hkind := kind_eq h
      cases j' with
      | num m =>
          obtain ⟨hn, hrest⟩ := intText_inj hr hr' h
          exact ⟨by rw [hn], hrest⟩
      | _ => simp [kind] at hkind
  | str t =>
      intro j' rest rest' hr hr' h
      have hkind := kind_eq h
      cases j' with
      | str t' =>
          obtain ⟨ht, hrest⟩ := quoteTo_inj h
          exact ⟨by rw [ht], hrest⟩
      | _ => simp [kind] at hkind
  | arr items ih =>
      intro j' rest rest' hr hr' h
      have hkind := kind_eq h
      cases j' with
      | arr items' =>
          rw [renderTo_arr, renderTo_arr] at h
          have hopen : ∀ (j : Json) (r : Text), ∃ c t, renderTo j r = c :: t ∧ c ≠ ']' := by
            intro j r
            obtain ⟨c, t, hc, hkindOf⟩ := renderTo_head j r
            refine ⟨c, t, hc, ?_⟩
            rintro rfl
            cases j <;> simp [kind, kindOf] at hkindOf
          obtain ⟨hitems, hrest⟩ := itemsTo_inj (by decide) (by decide) hopen ih (List.cons.inj h).2
          exact ⟨by rw [norm, norm, normItems_eq, normItems_eq, hitems], hrest⟩
      | _ => simp [kind] at hkind
  | obj fields ih =>
      intro j' rest rest' hr hr' h
      have hkind := kind_eq h
      cases j' with
      | obj fields' =>
          rw [renderTo_obj, renderTo_obj] at h
          have hopen : ∀ (m : Text × Json) (r : Text), ∃ c t, renderMember m r = c :: t ∧ c ≠ '}' :=
            fun m r => ⟨'"', _, rfl, by decide⟩
          have hreads : ∀ m ∈ sortMembers fields,
              Reads renderMember (fun m => (m.1, norm m.2)) m :=
            fun m hm => reads_member (ih m (SortedMap.mem_ofList hm))
          obtain ⟨hfields, hrest⟩ :=
            itemsTo_inj (by decide) (by decide) hopen hreads (List.cons.inj h).2
          refine ⟨?_, hrest⟩
          rw [norm, norm, normFields_eq, normFields_eq, sortMembers_map, sortMembers_map, hfields]
      | _ => simp [kind] at hkind

/-- **Canonical texts are unambiguous.** -/
theorem canonical_inj {j j' : Json} (h : canonical j = canonical j') : norm j = norm j' :=
  (renderTo_inj j j' [] [] ends_nil ends_nil h).1

/-- Objects with the same normal form have the same members. -/
theorem norm_obj_get? {d d' : List (Text × Json)} (hd : (d.map Prod.fst).Nodup)
    (hd' : (d'.map Prod.fst).Nodup) (h : norm (.obj d) = norm (.obj d')) (k : Text) :
    (SortedMap.get? k d).map norm = (SortedMap.get? k d').map norm := by
  rw [norm, norm, normFields_eq, normFields_eq, sortMembers_map, sortMembers_map,
    obj.injEq] at h
  have hget := congrArg (SortedMap.get? k) h
  rw [SortedMap.get?_map, SortedMap.get?_map, sortMembers, sortMembers,
    SortedMap.get?_ofList hd, SortedMap.get?_ofList hd'] at hget
  exact hget

end RalphVault.Json
