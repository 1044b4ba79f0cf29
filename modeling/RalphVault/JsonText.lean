import RalphVault.Canonical

/-!
# Reading JSON text

The Python call `json.loads` on a text, as far as it yields a value of
`Json`: a text with a fraction, an exponent or a lone surrogate has none
here. A canonical text is read back as its value, with the members of its
objects in key order, and it has no line break inside, so that a file of
canonical lines is read back line by line.
-/

namespace RalphVault.Json

/-! ## The reader -/

/-- The white space of JSON. -/
def isBlankChar (c : Char) : Bool := [' ', '\t', '\n', '\r'].contains c

def skipBlank (t : Text) : Text := t.dropWhile isBlankChar

/-- The value of a hexadecimal digit. -/
def hexDigitValue (c : Char) : Option Nat :=
  let n := c.toNat
  if 48 ≤ n ∧ n ≤ 57 then some (n - 48)
  else if 97 ≤ n ∧ n ≤ 102 then some (n - 87)
  else if 65 ≤ n ∧ n ≤ 70 then some (n - 55)
  else none

/-- The four digits of a `\u` escape. -/
def loadHex : Text → Option (Nat × Text)
  | a :: b :: c :: d :: rest => do
      let a ← hexDigitValue a
      let b ← hexDigitValue b
      let c ← hexDigitValue c
      let d ← hexDigitValue d
      pure (((a * 16 + b) * 16 + c) * 16 + d, rest)
  | _ => none

/-- The character of a `\u` escape. A high surrogate takes the escape of the
low one with it. -/
def loadUnicode (t : Text) : Option (Char × Text) := do
  let (n, rest) ← loadHex t
  if n < 0xD800 ∨ 0xDFFF < n then pure (Char.ofNat n, rest)
  else match rest with
    | '\\' :: 'u' :: low => do
        let (m, rest) ← loadHex low
        if n < 0xDC00 ∧ 0xDC00 ≤ m ∧ m ≤ 0xDFFF then
          pure (Char.ofNat (0x10000 + (n - 0xD800) * 1024 + (m - 0xDC00)), rest)
        else none
    | _ => none

/-- One character of a string. -/
def loadChar : Text → Option (Char × Text)
  | '\\' :: c :: rest =>
      if c = '"' ∨ c = '\\' ∨ c = '/' then some (c, rest)
      else if c = 'n' then some ('\n', rest)
      else if c = 'r' then some ('\r', rest)
      else if c = 't' then some ('\t', rest)
      else if c = 'b' then some (Char.ofNat 8, rest)
      else if c = 'f' then some (Char.ofNat 12, rest)
      else if c = 'u' then loadUnicode rest
      else none
  | c :: rest => if c = '\\' ∨ c.toNat < 32 then none else some (c, rest)
  | [] => none

/-- The rest of a string, up to its closing quote. -/
def loadString : Nat → Text → Option (Text × Text)
  | 0, _ => none
  | _ + 1, '"' :: rest => some ([], rest)
  | n + 1, t => do
      let (c, rest) ← loadChar t
      let (s, rest) ← loadString n rest
      pure (c :: s, rest)

/-- The digits of a number; after a leading zero there are none. -/
def loadDigits (t : Text) : Option (Nat × Text) :=
  match t with
  | '0' :: rest => some (0, rest)
  | _ =>
      match t.takeWhile Char.isDigit with
      | [] => none
      | ds => some (Nat.ofDigitChars 10 ds 0, t.dropWhile Char.isDigit)

def loadInt (t : Text) : Option (Int × Text) :=
  match t with
  | '-' :: t => (fun r => (-(r.1 : Int), r.2)) <$> loadDigits t
  | _ => (fun r => ((r.1 : Int), r.2)) <$> loadDigits t

/-- A fraction or an exponent follows. -/
def isFraction : Text → Bool
  | c :: _ => ['.', 'e', 'E'].contains c
  | [] => false

/-- A number; one with a fraction or an exponent is no integer. -/
def loadNumber (t : Text) : Option (Int × Text) := do
  let (n, rest) ← loadInt t
  if isFraction rest then none else pure (n, rest)

/-- The items of a list after its opening character and white space. -/
def loadItems (item : Text → Option (β × Text)) (close : Char) : Nat → Text → Option (List β × Text)
  | 0, _ => none
  | n + 1, t => do
      let (b, rest) ← item t
      match skipBlank rest with
      | c :: rest =>
          if c = close then pure ([b], rest)
          else if c = ',' then do
            let (bs, rest) ← loadItems item close n (skipBlank rest)
            pure (b :: bs, rest)
          else none
      | [] => none

def loadList (item : Text → Option (β × Text)) (close : Char) (n : Nat) (t : Text) :
    Option (List β × Text) :=
  match skipBlank t with
  | c :: rest => if c = close then some ([], rest) else loadItems item close n (c :: rest)
  | [] => none

/-- A member of an object. -/
def loadMember (value : Text → Option (Json × Text)) (n : Nat) :
    Text → Option ((Text × Json) × Text)
  | '"' :: t => do
      let (k, rest) ← loadString n t
      match skipBlank rest with
      | ':' :: rest => do
          let (j, rest) ← value (skipBlank rest)
          pure ((k, j), rest)
      | _ => none
  | _ => none

/-- A later member of the same key replaces the value of the earlier one. -/
def putMember (m : Text × Json) : List (Text × Json) → List (Text × Json)
  | [] => [m]
  | q :: qs => if q.1 = m.1 then m :: qs else q :: putMember m qs

def members (ms : List (Text × Json)) : List (Text × Json) :=
  ms.foldl (fun acc m => putMember m acc) []

/-- A value at the beginning of a text. -/
def loadValue : Nat → Text → Option (Json × Text)
  | 0, _ => none
  | n + 1, t =>
      match t with
      | '"' :: t => (fun r => (.str r.1, r.2)) <$> loadString n t
      | '[' :: t => (fun r => (.arr r.1, r.2)) <$> loadList (loadValue n) ']' n t
      | '{' :: t =>
          (fun r => (.obj (members r.1), r.2)) <$> loadList (loadMember (loadValue n) n) '}' n t
      | 'n' :: 'u' :: 'l' :: 'l' :: rest => some (.null, rest)
      | 't' :: 'r' :: 'u' :: 'e' :: rest => some (.bool true, rest)
      | 'f' :: 'a' :: 'l' :: 's' :: 'e' :: rest => some (.bool false, rest)
      | _ => (fun r => (.num r.1, r.2)) <$> loadNumber t

/-- `json.loads`. -/
def loads (t : Text) : Option Json := do
  let (j, rest) ← loadValue (t.length + 1) (skipBlank t)
  if skipBlank rest = [] then pure j else none

/-! ## Strings -/

theorem hexDigitValue_hexDigit : ∀ d, d < 16 → hexDigitValue (hexDigit d) = some d := by decide

theorem loadChar_plain {c : Char} (h : c ≠ '\\') (hc : 32 ≤ c.toNat) (rest : Text) :
    loadChar (c :: rest) = some (c, rest) := by
  rw [loadChar.eq_def]
  split
  · rename_i heq
    cases heq
    exact absurd rfl h
  · rename_i heq
    cases heq
    rw [if_neg]
    rintro (rfl | hlt)
    · exact h rfl
    · omega
  · rename_i heq
    cases heq

theorem loadChar_control {c : Char} (h : c.toNat < 32) (rest : Text) :
    loadChar (['\\', 'u', '0', '0', hexDigit (c.toNat / 16), hexDigit (c.toNat % 16)] ++ rest) =
      some (c, rest) := by
  have hhigh := hexDigitValue_hexDigit (c.toNat / 16) (by omega)
  have hlow := hexDigitValue_hexDigit (c.toNat % 16) (by omega)
  have hzero : hexDigitValue '0' = some 0 := by decide
  have hsum : (((0 * 16 + 0) * 16 + c.toNat / 16) * 16 + c.toNat % 16) = c.toNat := by omega
  have hsmall : c.toNat < 0xD800 ∨ 0xDFFF < c.toNat := by omega
  have hhex : loadHex ('0' :: '0' :: hexDigit (c.toNat / 16) :: hexDigit (c.toNat % 16) :: rest) =
      some (c.toNat, rest) := by
    simp only [loadHex, hzero, hhigh, hlow, Option.bind_eq_bind, Option.bind_some, hsum]
    rfl
  show loadUnicode ('0' :: '0' :: hexDigit (c.toNat / 16) :: hexDigit (c.toNat % 16) :: rest) = _
  rw [loadUnicode, hhex]
  simp only [Option.bind_eq_bind, Option.bind_some, if_pos hsmall, Char.ofNat_toNat]
  rfl

/-- **An escaped character is read back**, whatever follows. -/
theorem loadChar_escaped (c : Char) (rest : Text) :
    loadChar (escaped c ++ rest) = some (c, rest) := by
  unfold escaped
  by_cases hplain : isPlain c = true
  · have hne : c ≠ '\\' := by
      rintro rfl
      exact absurd hplain (by decide)
    have hprintable : 32 ≤ c.toNat := by
      simp only [isPlain, Bool.or_eq_true, Bool.and_eq_true, Nat.ble_eq, Nat.beq_eq] at hplain
      omega
    rw [if_pos hplain]
    exact loadChar_plain hne hprintable rest
  rw [if_neg hplain]
  unfold escapeChar
  by_cases h1 : c = '"'
  · subst h1
    rfl
  by_cases h2 : c = '\\'
  · subst h2
    rfl
  by_cases h3 : c = '\n'
  · subst h3
    rfl
  by_cases h4 : c = '\r'
  · subst h4
    rfl
  by_cases h5 : c = '\t'
  · subst h5
    rfl
  rw [if_neg h1, if_neg h2, if_neg h3, if_neg h4, if_neg h5]
  by_cases h6 : c.toNat = 8
  · rw [if_pos h6, ← Char.ofNat_toNat c, h6]
    rfl
  by_cases h7 : c.toNat = 12
  · rw [if_neg h6, if_pos h7, ← Char.ofNat_toNat c, h7]
    rfl
  rw [if_neg h6, if_neg h7]
  by_cases h8 : c.toNat < 32
  · rw [if_pos h8]
    exact loadChar_control h8 rest
  · rw [if_neg h8]
    exact loadChar_plain h2 (by omega) rest

theorem escaped_ne_nil (c : Char) : escaped c ≠ [] := by
  intro h
  have hread := loadChar_escaped c []
  rw [h] at hread
  cases hread

theorem loadString_escaped (c : Char) (n : Nat) (rest : Text) :
    loadString (n + 1) (escaped c ++ rest) =
      (fun r : Text × Text => (c :: r.1, r.2)) <$> loadString n rest := by
  rw [loadString.eq_def]
  split
  · omega
  · rename_i heq
    exact absurd heq (escaped_ne_quote c _ _)
  · rename_i m heq _
    cases heq
    rw [loadChar_escaped]
    simp only [Option.bind_eq_bind, Option.bind_some]
    cases hrest : loadString n rest <;> rfl

/-- **A string is read up to its quote.** -/
theorem loadString_escapeTo {t rest : Text} :
    ∀ {n : Nat}, (escapeTo t ('"' :: rest)).length ≤ n →
      loadString n (escapeTo t ('"' :: rest)) = some (t, rest) := by
  induction t with
  | nil =>
      intro n hn
      cases n with
      | zero => simp [escapeTo] at hn
      | succ n => rfl
  | cons c t ih =>
      intro n hn
      rw [escapeTo_cons, List.length_append] at hn
      have hpos : 0 < (escaped c).length := List.length_pos_of_ne_nil (escaped_ne_nil c)
      cases n with
      | zero => omega
      | succ n =>
          have htail : (escapeTo t ('"' :: rest)).length ≤ n := by omega
          rw [escapeTo_cons, loadString_escaped, ih htail]
          rfl

/-! ## Numbers -/

/-- What may stand after a value in a canonical line. -/
def Delimited (rest : Text) : Prop := rest = [] ∨ ∃ c t, rest = c :: t ∧ c ∈ [',', ']', '}', '\n']

theorem Delimited.ends {rest : Text} (h : Delimited rest) : Ends rest := by
  rcases h with rfl | ⟨c, t, rfl, hc⟩
  · exact ends_nil
  · refine ends_cons ?_ t
    simp only [List.mem_cons, List.not_mem_nil, or_false] at hc
    rcases hc with rfl | rfl | rfl | rfl <;> decide

theorem dropWhile_decimalText (n : Nat) {rest : Text} (h : Ends rest) :
    (decimalText n ++ rest).dropWhile Char.isDigit = rest := by
  have hsplit := List.takeWhile_append_dropWhile (p := Char.isDigit) (l := decimalText n ++ rest)
  rw [takeWhile_decimalText n h] at hsplit
  exact List.append_cancel_left hsplit

/-- The text of a positive number does not begin with a zero. -/
theorem decimalText_pos {n : Nat} (h : 0 < n) : ∃ c t, decimalText n = c :: t ∧ c ≠ '0' := by
  induction n using Nat.strong_induction_on with
  | _ n ih =>
      rw [decimalText, Nat.toDigits_eq_if (by decide)]
      split
      · rename_i hsmall
        refine ⟨n.digitChar, [], rfl, ?_⟩
        interval_cases n <;> decide
      · obtain ⟨c, t, hdigits, hc⟩ := ih (n / 10) (by omega) (by omega)
        rw [decimalText] at hdigits
        rw [hdigits]
        exact ⟨c, _, rfl, hc⟩

theorem loadDigits_decimalText (n : Nat) {rest : Text} (h : Ends rest) :
    loadDigits (decimalText n ++ rest) = some (n, rest) := by
  have hvalue : Nat.ofDigitChars 10 (decimalText n) 0 = n := Nat.ofDigitChars_ten_toDigits
  by_cases hn : n = 0
  · subst hn
    rfl
  · obtain ⟨c, t, hdigits, hc⟩ := decimalText_pos (Nat.pos_of_ne_zero hn)
    rw [loadDigits.eq_def]
    split
    · rename_i heq
      rw [hdigits] at heq
      exact absurd (List.cons.inj heq).1 hc
    · rw [takeWhile_decimalText n h, dropWhile_decimalText n h]
      split
      · rename_i heq
        rw [hdigits] at heq
        cases heq
      · rw [hvalue]

theorem loadInt_intText (n : Int) {rest : Text} (h : Ends rest) :
    loadInt (intText n ++ rest) = some (n, rest) := by
  have hdigits := loadDigits_decimalText n.natAbs h
  unfold intText
  split
  · rename_i hneg
    have hn : -(n.natAbs : Int) = n := by omega
    show (fun r : Nat × Text => (-(r.1 : Int), r.2)) <$> loadDigits (decimalText n.natAbs ++ rest) = _
    rw [hdigits, Option.map_eq_map, Option.map_some, hn]
  · rename_i hpos
    have hn : (n.natAbs : Int) = n := by omega
    rw [loadInt.eq_def]
    split
    · rename_i heq
      exact absurd heq (decimalText_ne_minus _ _ _)
    · rw [hdigits, Option.map_eq_map, Option.map_some, hn]

/-- **A number is read up to what delimits it.** -/
theorem loadNumber_intText (n : Int) {rest : Text} (h : Delimited rest) :
    loadNumber (intText n ++ rest) = some (n, rest) := by
  have hfraction : isFraction rest = false := by
    rcases h with rfl | ⟨c, t, rfl, hc⟩
    · rfl
    · simp only [List.mem_cons, List.not_mem_nil, or_false] at hc
      rcases hc with rfl | rfl | rfl | rfl <;> rfl
  rw [loadNumber, loadInt_intText n h.ends]
  simp only [Option.bind_eq_bind, Option.bind_some, hfraction]
  rfl

/-! ## Lists -/

/-- An item is read back in front of whatever may follow it, from a text of at
most `k` characters. -/
def Loads (k : Nat) (item : Text → Option (γ × Text)) (render : β → Text → Text) (value : β → γ)
    (b : β) : Prop :=
  ∀ rest, Delimited rest → (render b rest).length ≤ k → item (render b rest) = some (value b, rest)

theorem skipBlank_cons {c : Char} (h : isBlankChar c = false) (rest : Text) :
    skipBlank (c :: rest) = c :: rest := by
  rw [skipBlank, List.dropWhile_cons_of_neg (by simp [h])]

section Lists

variable {item : Text → Option (γ × Text)} {render : β → Text → Text} {value : β → γ}
  {close : Char}

/-- **A list is read item by item.** -/
theorem loadItems_itemsTo (hclose : close ∈ [']', '}'])
    (hopen : ∀ b rest, skipBlank (render b rest) = render b rest)
    (hgrow : ∀ b rest, rest.length < (render b rest).length) {k : Nat} {b : β} {bs : List β}
    {rest : Text} (hloads : ∀ c ∈ b :: bs, Loads k item render value c) :
    ∀ {n : Nat}, (itemsTo ((b :: bs).map render) (close :: rest)).length ≤ n → n ≤ k →
      loadItems item close n (itemsTo ((b :: bs).map render) (close :: rest)) =
        some ((b :: bs).map value, rest) := by
  have hdelimiter : close ∈ [',', ']', '}', '\n'] := by
    simp only [List.mem_cons, List.not_mem_nil, or_false] at hclose ⊢
    tauto
  have hcomma : ',' ≠ close := by
    rintro rfl
    exact absurd hclose (by decide)
  have hnonblank : isBlankChar close = false := by
    simp only [List.mem_cons, List.not_mem_nil, or_false] at hclose
    rcases hclose with rfl | rfl <;> decide
  induction bs generalizing b with
  | nil =>
      intro n hn hk
      rw [List.map_cons, List.map_nil, itemsTo] at hn ⊢
      have hpos := hgrow b (close :: rest)
      have hb := hloads b (List.mem_cons_self ..) (close :: rest)
        (.inr ⟨close, rest, rfl, hdelimiter⟩) (by omega)
      cases n with
      | zero => omega
      | succ n =>
          rw [loadItems, hb]
          simp only [Option.bind_eq_bind, Option.bind_some, skipBlank_cons hnonblank, if_true]
          rfl
  | cons b' bs ih =>
      intro n hn hk
      rw [List.map_cons, itemsTo_cons] at hn ⊢
      have htail : itemsTail (List.map render (b' :: bs)) (close :: rest) =
          ',' :: itemsTo (List.map render (b' :: bs)) (close :: rest) := rfl
      rw [htail] at hn ⊢
      have hgrows := hgrow b (',' :: itemsTo (List.map render (b' :: bs)) (close :: rest))
      rw [List.length_cons] at hgrows
      have hb := hloads b (List.mem_cons_self ..) _
        (.inr ⟨',', itemsTo (List.map render (b' :: bs)) (close :: rest), rfl, by decide⟩) (by omega)
      cases n with
      | zero => omega
      | succ n =>
          have hrest := ih (fun c hc => hloads c (List.mem_cons_of_mem _ hc)) (n := n) (by omega)
            (by omega)
          have hskip : skipBlank (itemsTo (List.map render (b' :: bs)) (close :: rest)) =
              itemsTo (List.map render (b' :: bs)) (close :: rest) := by
            rw [List.map_cons, itemsTo_cons]
            exact hopen b' _
          rw [loadItems, hb]
          simp only [Option.bind_eq_bind, Option.bind_some,
            skipBlank_cons (show isBlankChar ',' = false by decide), if_neg hcomma, if_true]
          rw [hskip, hrest]
          rfl

theorem loadList_itemsTo (hclose : close ∈ [']', '}'])
    (hopen : ∀ b rest, skipBlank (render b rest) = render b rest)
    (hgrow : ∀ b rest, rest.length < (render b rest).length)
    (hfirst : ∀ b rest, ∃ c t, render b rest = c :: t ∧ c ≠ close) {k : Nat} {bs : List β}
    {rest : Text} (hloads : ∀ c ∈ bs, Loads k item render value c)
    (hk : (itemsTo (bs.map render) (close :: rest)).length ≤ k) :
    loadList item close k (itemsTo (bs.map render) (close :: rest)) =
      some (bs.map value, rest) := by
  have hnonblank : isBlankChar close = false := by
    simp only [List.mem_cons, List.not_mem_nil, or_false] at hclose
    rcases hclose with rfl | rfl <;> decide
  cases bs with
  | nil =>
      rw [List.map_nil, itemsTo, loadList, skipBlank_cons hnonblank]
      simp
  | cons b bs =>
      have hskip : skipBlank (itemsTo ((b :: bs).map render) (close :: rest)) =
          itemsTo ((b :: bs).map render) (close :: rest) := by
        rw [List.map_cons, itemsTo_cons]
        exact hopen b _
      obtain ⟨c, t, hc, hne⟩ := hfirst b (itemsTail (bs.map render) (close :: rest))
      have hitems := loadItems_itemsTo hclose hopen hgrow hloads hk (Nat.le_refl k)
      rw [loadList, hskip]
      rw [List.map_cons, itemsTo_cons, hc] at hitems ⊢
      simp only [if_neg hne]
      exact hitems

end Lists

/-! ## Values -/

theorem putMember_new {m : Text × Json} {ms : List (Text × Json)} (h : m.1 ∉ ms.map Prod.fst) :
    putMember m ms = ms ++ [m] := by
  induction ms with
  | nil => rfl
  | cons q ms ih =>
      rw [List.map_cons, List.mem_cons, not_or] at h
      rw [putMember, if_neg (Ne.symm h.1), ih h.2, List.cons_append]

theorem foldl_putMember {ms acc : List (Text × Json)}
    (h : ((acc ++ ms).map Prod.fst).Nodup) :
    ms.foldl (fun acc m => putMember m acc) acc = acc ++ ms := by
  induction ms generalizing acc with
  | nil => simp
  | cons m ms ih =>
      have hnew : m.1 ∉ acc.map Prod.fst := by
        intro hm
        rw [List.map_append, List.nodup_append] at h
        exact h.2.2 m.1 hm m.1 (List.mem_cons_self ..) rfl
      rw [List.foldl_cons, putMember_new hnew, ih]
      · simp
      · simpa using h

/-- Members with different keys are kept as they are. -/
theorem members_eq {ms : List (Text × Json)} (h : (ms.map Prod.fst).Nodup) : members ms = ms :=
  @foldl_putMember ms [] h

theorem keys_sortMembers (ms : List (Text × β)) : ((sortMembers ms).map Prod.fst).Nodup := by
  have hsorted := SortedMap.sorted_ofList textLt_strict ms
  rw [SortedMap.Sorted] at hsorted
  rw [List.Nodup, List.pairwise_map]
  refine hsorted.imp ?_
  intro a b hab heq
  rw [heq, textLt_irrefl] at hab
  cases hab

theorem escapeTo_eq (t rest : Text) : escapeTo t rest = escapeTo t [] ++ rest := by
  induction t with
  | nil => rfl
  | cons c t ih => rw [escapeTo_cons, escapeTo_cons, ih, List.append_assoc]

theorem quoteTo_eq (t rest : Text) : quoteTo t rest = '"' :: (escapeTo t [] ++ '"' :: rest) := by
  rw [quoteTo, escapeTo_eq]

theorem isBlankChar_kindOf {c : Char} (h : isBlankChar c = true) : kindOf c = 6 := by
  simp only [isBlankChar, List.contains_cons, List.contains_nil, Bool.or_false, Bool.or_eq_true,
    beq_iff_eq] at h
  rcases h with rfl | rfl | rfl | rfl <;> decide

/-- A value does not begin with white space. -/
theorem skipBlank_renderTo (j : Json) (rest : Text) :
    skipBlank (renderTo j rest) = renderTo j rest := by
  obtain ⟨c, t, hc, hkind⟩ := renderTo_head j rest
  rw [hc]
  refine skipBlank_cons ?_ t
  by_contra hblank
  rw [isBlankChar_kindOf (by simpa using hblank)] at hkind
  cases j <;> cases hkind

/-- A list ends after its items. -/
theorem itemsTo_length {render : β → Text → Text} {bs : List β} {close : Char} {rest : Text}
    (hgrow : ∀ b ∈ bs, ∀ rest, rest.length < (render b rest).length) :
    rest.length < (itemsTo (bs.map render) (close :: rest)).length := by
  induction bs with
  | nil => simp [itemsTo]
  | cons b bs ih =>
      have hb := hgrow b (List.mem_cons_self ..) (itemsTail (bs.map render) (close :: rest))
      have htail : rest.length < (itemsTail (bs.map render) (close :: rest)).length := by
        have hbs := ih fun c hc => hgrow c (List.mem_cons_of_mem _ hc)
        unfold itemsTail
        split
        · simp
        · rw [List.length_cons]
          omega
      rw [List.map_cons, itemsTo_cons]
      omega

theorem quoteTo_length (t rest : Text) : rest.length < (quoteTo t rest).length := by
  rw [quoteTo_eq]
  simp only [List.length_cons, List.length_append]
  omega

theorem member_length (m : Text × Json) {rest : Text}
    (h : rest.length < (renderTo m.2 rest).length) :
    rest.length < (renderMember m rest).length := by
  have hkey := quoteTo_length m.1 (':' :: renderTo m.2 rest)
  rw [List.length_cons] at hkey
  show rest.length < (quoteTo m.1 (':' :: renderTo m.2 rest)).length
  omega

/-- A value has at least one character. -/
theorem renderTo_length (j : Json) : ∀ rest, rest.length < (renderTo j rest).length := by
  induction j using induction with
  | null =>
      intro rest
      simp only [renderTo, txt, List.length_append, List.length_cons, List.length_nil]
      omega
  | bool b =>
      intro rest
      cases b
      · show rest.length < rest.length + 5
        omega
      · show rest.length < rest.length + 4
        omega
  | num n =>
      intro rest
      rw [renderTo, List.length_append]
      have hpos : 0 < (intText n).length := by
        unfold intText
        split
        · simp
        · exact List.length_pos_of_ne_nil Nat.toDigits_ne_nil
      omega
  | str t =>
      intro rest
      exact quoteTo_length t rest
  | arr items ih =>
      intro rest
      rw [renderTo_arr, List.length_cons]
      exact Nat.lt_succ_of_lt (itemsTo_length ih)
  | obj fields ih =>
      intro rest
      rw [renderTo_obj, List.length_cons]
      refine Nat.lt_succ_of_lt (itemsTo_length fun m hm r => ?_)
      exact member_length m (ih m (SortedMap.mem_ofList hm) r)

theorem loadMember_renderMember {m : Text × Json} {k : Nat}
    (h : Loads k (loadValue k) renderTo norm m.2) :
    Loads k (loadMember (loadValue k) k) renderMember (fun m => (m.1, norm m.2)) m := by
  intro rest hrest hk
  have hm : renderMember m rest = '"' :: escapeTo m.1 ('"' :: ':' :: renderTo m.2 rest) := rfl
  rw [hm] at hk ⊢
  rw [List.length_cons] at hk
  have hvalue : (renderTo m.2 rest).length ≤ k := by
    rw [escapeTo_eq, List.length_append, List.length_cons, List.length_cons] at hk
    omega
  have hkey := @loadString_escapeTo m.1 (':' :: renderTo m.2 rest) _ (Nat.le_of_succ_le hk)
  simp only [loadMember, hkey, Option.bind_eq_bind, Option.bind_some,
    skipBlank_cons (show isBlankChar ':' = false by decide), skipBlank_renderTo,
    h rest hrest hvalue]
  rfl

/-- A number is not read as anything else. -/
theorem loadValue_num (k : Nat) (n : Int) {rest : Text} (h : Delimited rest) :
    loadValue (k + 1) (intText n ++ rest) = some (.num n, rest) := by
  obtain ⟨c, t, hc, hkind⟩ := renderTo_head (.num n) rest
  have hnumber := loadNumber_intText n h
  rw [show intText n ++ rest = c :: t from hc] at hnumber ⊢
  have hne : ∀ d, kindOf d ≠ 2 → c ≠ d := by
    rintro d hd rfl
    exact hd hkind
  have hquote := hne '"' (by decide)
  have hbracket := hne '[' (by decide)
  have hbrace := hne '{' (by decide)
  have hnull := hne 'n' (by decide)
  have htrue := hne 't' (by decide)
  have hfalse := hne 'f' (by decide)
  rw [loadValue.eq_def]
  simp only
  split
  all_goals first
    | (rename_i heq; exact absurd (List.cons.inj heq).1 (by assumption))
    | skip
  rw [hnumber]
  rfl

/-- **A value is read back**, with the members of its objects in order. -/
theorem loadValue_renderTo (j : Json) : ∀ k, Loads k (loadValue k) renderTo norm j := by
  induction j using induction with
  | null =>
      intro k rest hrest hk
      cases k with
      | zero => simp [renderTo, txt] at hk
      | succ k => rfl
  | bool b =>
      intro k rest hrest hk
      cases k with
      | zero => cases b <;> simp [renderTo, txt] at hk
      | succ k => cases b <;> rfl
  | num n =>
      intro k rest hrest hk
      cases k with
      | zero =>
          have hpos := renderTo_length (.num n) rest
          omega
      | succ k => exact loadValue_num k n hrest
  | str t =>
      intro k rest hrest hk
      cases k with
      | zero => simp [renderTo, quoteTo] at hk
      | succ k =>
          have hstring : loadString k (escapeTo t ('"' :: rest)) = some (t, rest) :=
            loadString_escapeTo (Nat.le_of_succ_le_succ hk)
          show (fun r : Text × Text => (Json.str r.1, r.2)) <$>
            loadString k (escapeTo t ('"' :: rest)) = _
          rw [hstring]
          rfl
  | arr items ih =>
      intro k rest hrest hk
      rw [renderTo_arr] at hk ⊢
      cases k with
      | zero => simp at hk
      | succ k =>
          have hfirst : ∀ (j : Json) (r : Text), ∃ c t, renderTo j r = c :: t ∧ c ≠ ']' := by
            intro j r
            obtain ⟨c, t, hc, hkind⟩ := renderTo_head j r
            refine ⟨c, t, hc, ?_⟩
            rintro rfl
            cases j <;> simp [kind, kindOf] at hkind
          have hclose : ']' ∈ [']', '}'] := by decide
          have hlist := loadList_itemsTo hclose skipBlank_renderTo renderTo_length hfirst
            (fun c hc => ih c hc k) (Nat.le_of_succ_le_succ hk)
          show (fun r : List Json × Text => (Json.arr r.1, r.2)) <$>
            loadList (loadValue k) ']' k (itemsTo (items.map renderTo) (']' :: rest)) = _
          rw [hlist, norm, normItems_eq]
          rfl
  | obj fields ih =>
      intro k rest hrest hk
      rw [renderTo_obj] at hk ⊢
      cases k with
      | zero => simp at hk
      | succ k =>
          have hskip : ∀ m r, skipBlank (renderMember m r) = renderMember m r :=
            fun m r => skipBlank_cons (by decide) _
          have hfirst : ∀ (m : Text × Json) (r : Text),
              ∃ c t, renderMember m r = c :: t ∧ c ≠ '}' := fun m r => ⟨'"', _, rfl, by decide⟩
          have hlist := loadList_itemsTo (by decide) hskip
            (fun m r => member_length m (renderTo_length m.2 r)) hfirst
            (fun m (hm : m ∈ sortMembers fields) =>
              loadMember_renderMember (ih m (SortedMap.mem_ofList hm) k))
            (Nat.le_of_succ_le_succ hk)
          show (fun r : List (Text × Json) × Text => (Json.obj (members r.1), r.2)) <$>
            loadList (loadMember (loadValue k) k) '}' k
              (itemsTo ((sortMembers fields).map renderMember) ('}' :: rest)) = _
          rw [hlist, norm, normFields_eq, sortMembers_map, Option.map_eq_map, Option.map_some,
            members_eq]
          rw [List.map_map]
          exact keys_sortMembers fields

/-! ## Lines -/

/-- What follows a list of items is appended to its text. -/
theorem itemsTo_append {render : β → Text → Text} {bs : List β}
    (h : ∀ b ∈ bs, ∀ rest, render b rest = render b [] ++ rest) (rest : Text) :
    itemsTo (bs.map render) rest = itemsTo (bs.map render) [] ++ rest := by
  induction bs with
  | nil => rfl
  | cons b bs ih =>
      have htail : itemsTail (bs.map render) rest = itemsTail (bs.map render) [] ++ rest := by
        unfold itemsTail
        split
        · rfl
        · rw [ih fun c hc => h c (List.mem_cons_of_mem _ hc), List.cons_append]
      rw [List.map_cons, itemsTo_cons, itemsTo_cons, htail,
        h b (List.mem_cons_self ..) (itemsTail _ [] ++ rest),
        h b (List.mem_cons_self ..) (itemsTail _ []), List.append_assoc]

theorem member_append {m : Text × Json}
    (h : ∀ rest, renderTo m.2 rest = renderTo m.2 [] ++ rest) (rest : Text) :
    renderMember m rest = renderMember m [] ++ rest := by
  show quoteTo m.1 (':' :: renderTo m.2 rest) = quoteTo m.1 (':' :: renderTo m.2 []) ++ rest
  rw [quoteTo_eq, quoteTo_eq, h rest]
  simp

/-- What follows a value is appended to its text. -/
theorem renderTo_append (j : Json) : ∀ rest, renderTo j rest = canonical j ++ rest := by
  unfold canonical
  induction j using induction with
  | null => exact fun rest => rfl
  | bool b => exact fun rest => by cases b <;> rfl
  | num n => simp [renderTo]
  | str t =>
      intro rest
      show quoteTo t rest = quoteTo t [] ++ rest
      rw [quoteTo_eq, quoteTo_eq]
      simp
  | arr items ih =>
      intro rest
      rw [renderTo_arr, renderTo_arr, itemsTo_append ih, itemsTo_append ih [']']]
      simp
  | obj fields ih =>
      intro rest
      have hmembers : ∀ m ∈ sortMembers fields, ∀ rest,
          renderMember m rest = renderMember m [] ++ rest :=
        fun m hm => member_append (ih m (SortedMap.mem_ofList hm))
      rw [renderTo_obj, renderTo_obj, itemsTo_append hmembers, itemsTo_append hmembers ['}']]
      simp

/-! ## The characters of a text -/

mutual
/-- The characters of the strings of a value, its keys among them. -/
def chars : Json → Text
  | null => []
  | bool _ => []
  | num _ => []
  | str t => t
  | arr items => charsItems items
  | obj fields => charsFields fields

def charsItems : List Json → Text
  | [] => []
  | j :: js => chars j ++ charsItems js

def charsFields : List (Text × Json) → Text
  | [] => []
  | (k, j) :: fs => k ++ (chars j ++ charsFields fs)
end

theorem mem_charsItems {c : Char} {js : List Json} :
    c ∈ charsItems js ↔ ∃ j ∈ js, c ∈ chars j := by
  induction js with
  | nil => simp [charsItems]
  | cons j js ih => simp [charsItems, ih]

theorem mem_charsFields {c : Char} {fs : List (Text × Json)} :
    c ∈ charsFields fs ↔ ∃ m ∈ fs, c ∈ m.1 ∨ c ∈ chars m.2 := by
  induction fs with
  | nil => simp [charsFields]
  | cons m fs ih =>
      obtain ⟨k, j⟩ := m
      simp [charsFields, ih, or_assoc]

/-- The characters a text has outside its strings. -/
def isBare (c : Char) : Bool := 32 ≤ c.toNat && c.toNat < 127 && c != '\\'

/-- A property of texts that outlasts what a rendering puts in front of
them, as long as the characters of its strings are in a class. -/
structure Outlasts (cls : Char → Prop) (P : Text → Prop) : Prop where
  bare : ∀ {c : Char} {rest : Text}, isBare c = true → P rest → P (c :: rest)
  escaped : ∀ {c : Char} {rest : Text}, cls c → P rest → P (escaped c ++ rest)

section Outlasts

variable {cls : Char → Prop} {P : Text → Prop}

theorem Outlasts.append (h : Outlasts cls P) {t rest : Text}
    (ht : ∀ c ∈ t, isBare c = true) (hrest : P rest) : P (t ++ rest) := by
  induction t with
  | nil => exact hrest
  | cons c t ih =>
      exact h.bare (ht c List.mem_cons_self) (ih fun c' hc => ht c' (List.mem_cons_of_mem _ hc))

theorem Outlasts.quoteTo (h : Outlasts cls P) {t rest : Text} (ht : ∀ c ∈ t, cls c)
    (hrest : P rest) : P (quoteTo t rest) := by
  apply h.bare (by decide)
  induction t with
  | nil => exact h.bare (by decide) hrest
  | cons c t ih =>
      rw [escapeTo_cons]
      exact h.escaped (ht c List.mem_cons_self) (ih fun c' hc => ht c' (List.mem_cons_of_mem _ hc))

theorem Outlasts.itemsTo (h : Outlasts cls P) {render : β → Text → Text} {bs : List β}
    (hb : ∀ b ∈ bs, ∀ rest, P rest → P (render b rest)) {rest : Text}
    (hrest : P rest) : P (itemsTo (bs.map render) rest) := by
  induction bs with
  | nil => exact hrest
  | cons b bs ih =>
      have htail : P (itemsTail (bs.map render) rest) := by
        unfold itemsTail
        split
        · exact hrest
        · exact h.bare (by decide) (ih fun c hc => hb c (List.mem_cons_of_mem _ hc))
      rw [List.map_cons, itemsTo_cons]
      exact hb b (List.mem_cons_self ..) _ htail

theorem isBare_decimalText {n : Nat} {c : Char} (hc : c ∈ decimalText n) : isBare c = true := by
  have hdigit := isDigit_decimalText hc
  simp only [Char.isDigit, Bool.and_eq_true, decide_eq_true_eq] at hdigit
  have hlow : 48 ≤ c.toNat := hdigit.1
  have hhigh : c.toNat ≤ 57 := hdigit.2
  have hne : c ≠ '\\' := by
    rintro rfl
    exact absurd hhigh (by decide)
  simp only [isBare, Bool.and_eq_true, decide_eq_true_eq, bne_iff_ne]
  exact ⟨⟨by omega, by omega⟩, hne⟩

theorem Outlasts.renderTo (h : Outlasts cls P) (j : Json) (hj : ∀ c ∈ chars j, cls c) :
    ∀ rest, P rest → P (renderTo j rest) := by
  induction j using induction with
  | null =>
      intro rest hrest
      show P (txt "null" ++ rest)
      exact h.append (by decide) hrest
  | bool b =>
      intro rest hrest
      cases b
      · show P (txt "false" ++ rest)
        exact h.append (by decide) hrest
      · show P (txt "true" ++ rest)
        exact h.append (by decide) hrest
  | num n =>
      intro rest hrest
      show P (intText n ++ rest)
      refine h.append ?_ hrest
      unfold intText
      split
      · exact List.forall_mem_cons.mpr ⟨by decide, fun c hc => isBare_decimalText hc⟩
      · exact fun c hc => isBare_decimalText hc
  | str t => exact fun rest hrest => h.quoteTo hj hrest
  | arr items ih =>
      intro rest hrest
      rw [renderTo_arr]
      refine h.bare (by decide) (h.itemsTo ?_ (h.bare (by decide) hrest))
      exact fun j hmem => ih j hmem fun c hc => hj c (mem_charsItems.mpr ⟨j, hmem, hc⟩)
  | obj fields ih =>
      intro rest hrest
      rw [renderTo_obj]
      refine h.bare (by decide) (h.itemsTo ?_ (h.bare (by decide) hrest))
      intro m hm r hr
      have hmem := SortedMap.mem_ofList hm
      have hchars : ∀ c, c ∈ m.1 ∨ c ∈ chars m.2 → cls c := fun c hc =>
        hj c (mem_charsFields.mpr ⟨m, hmem, hc⟩)
      apply h.quoteTo fun c hc => hchars c (.inl hc)
      exact h.bare (by decide) (ih m hmem (fun c hc => hchars c (.inr hc)) r hr)

end Outlasts

/-- A text without control characters, and so without line breaks. -/
def Printable (t : Text) : Prop := ∀ c ∈ t, 32 ≤ c.toNat

theorem printable_cons {c : Char} {t : Text} (hc : 32 ≤ c.toNat) (h : Printable t) :
    Printable (c :: t) := List.forall_mem_cons.mpr ⟨hc, h⟩

theorem printable_append {s t : Text} (hs : Printable s) (ht : Printable t) :
    Printable (s ++ t) := List.forall_mem_append.mpr ⟨hs, ht⟩

theorem hexDigit_bounds : ∀ d, d < 16 →
    32 ≤ (hexDigit d).toNat ∧ (hexDigit d).toNat < 127 ∧ hexDigit d ≠ '\\' := by decide

/-- The shapes of an escaped character. -/
theorem escaped_cases (c : Char) :
    (escaped c = [c] ∧ c ≠ '\\' ∧ 32 ≤ c.toNat) ∨
      (∃ d : Char, escaped c = ['\\', d] ∧ d ≠ 'u' ∧ 32 ≤ d.toNat ∧ d.toNat < 127) ∨
      (c.toNat < 32 ∧ escaped c =
        ['\\', 'u', '0', '0', hexDigit (c.toNat / 16), hexDigit (c.toNat % 16)]) := by
  unfold escaped
  split
  · rename_i hplain
    refine .inl ⟨rfl, ?_, ?_⟩
    · rintro rfl
      exact absurd hplain (by decide)
    · simp only [isPlain, Bool.or_eq_true, Bool.and_eq_true, Nat.ble_eq, Nat.beq_eq] at hplain
      omega
  · unfold escapeChar
    split; · exact .inr (.inl ⟨_, rfl, by decide, by decide, by decide⟩)
    split; · exact .inr (.inl ⟨_, rfl, by decide, by decide, by decide⟩)
    rename_i hne
    split; · exact .inr (.inl ⟨_, rfl, by decide, by decide, by decide⟩)
    split; · exact .inr (.inl ⟨_, rfl, by decide, by decide, by decide⟩)
    split; · exact .inr (.inl ⟨_, rfl, by decide, by decide, by decide⟩)
    split; · exact .inr (.inl ⟨_, rfl, by decide, by decide, by decide⟩)
    split; · exact .inr (.inl ⟨_, rfl, by decide, by decide, by decide⟩)
    split
    · rename_i hlow
      exact .inr (.inr ⟨hlow, rfl⟩)
    · exact .inl ⟨rfl, hne, by omega⟩

theorem printable_escaped (c : Char) : Printable (escaped c) := by
  intro d hd
  rcases escaped_cases c with ⟨hc, -, hlow⟩ | ⟨e, hc, -, hlow, -⟩ | ⟨hc, heq⟩
  · rw [hc, List.mem_singleton] at hd
    rwa [hd]
  · rw [hc] at hd
    rcases List.mem_cons.mp hd with rfl | hd
    · decide
    · rwa [List.mem_singleton.mp hd]
  · have hhigh := (hexDigit_bounds (c.toNat / 16) (by omega)).1
    have hlow := (hexDigit_bounds (c.toNat % 16) (by omega)).1
    rw [heq] at hd
    simp only [List.mem_cons, List.not_mem_nil, or_false] at hd
    rcases hd with rfl | rfl | rfl | rfl | rfl | rfl
    · decide
    · decide
    · decide
    · decide
    · exact hhigh
    · exact hlow

theorem printable_outlasts : Outlasts (fun _ => True) Printable where
  bare {c rest} hc := printable_cons (by
    simp only [isBare, Bool.and_eq_true, decide_eq_true_eq] at hc
    exact hc.1.1)
  escaped {c rest} _ := printable_append (printable_escaped c)

/-- **A canonical text has no line break.** -/
theorem printable_canonical (j : Json) : Printable (canonical j) :=
  printable_outlasts.renderTo j (fun _ _ => trivial) [] (by simp [Printable])

/-- **A canonical text is read back**, also with a line feed after it. -/
theorem loads_canonical (j : Json) {rest : Text} (h : rest = [] ∨ rest = ['\n']) :
    loads (canonical j ++ rest) = some (norm j) := by
  have hdelimited : Delimited rest := by
    rcases h with rfl | rfl
    · exact .inl rfl
    · exact .inr ⟨'\n', [], rfl, by decide⟩
  have hblank : skipBlank rest = [] := by
    rcases h with rfl | rfl <;> rfl
  rw [← renderTo_append, loads, skipBlank_renderTo,
    loadValue_renderTo j _ rest hdelimited (Nat.le_succ _)]
  simp only [Option.bind_eq_bind, Option.bind_some, hblank, if_true]
  rfl

/-- `splitlines(keepends=True)` on bytes. -/
def splitLines : Text → List Text
  | [] => []
  | '\r' :: '\n' :: t => ['\r', '\n'] :: splitLines t
  | c :: t =>
      if c = '\n' ∨ c = '\r' then [c] :: splitLines t
      else match splitLines t with
        | [] => [[c]]
        | line :: lines => (c :: line) :: lines

theorem splitLines_cons {c : Char} (h : 32 ≤ c.toNat) (t : Text) :
    splitLines (c :: t) = match splitLines t with
      | [] => [[c]]
      | line :: lines => (c :: line) :: lines := by
  have hfeed : c ≠ '\n' := by
    rintro rfl
    exact absurd h (by decide)
  have hreturn : c ≠ '\r' := by
    rintro rfl
    exact absurd h (by decide)
  rw [splitLines.eq_def]
  split
  · rename_i heq
    cases heq
  · rename_i heq
    cases heq
    exact absurd rfl hreturn
  · rename_i heq
    cases heq
    rw [if_neg (not_or.mpr ⟨hfeed, hreturn⟩)]

/-- **A line ends at its line feed.** -/
theorem splitLines_line {t : Text} (h : Printable t) (rest : Text) :
    splitLines (t ++ '\n' :: rest) = (t ++ ['\n']) :: splitLines rest := by
  induction t with
  | nil => simp [splitLines]
  | cons c t ih =>
      obtain ⟨hc, ht⟩ := List.forall_mem_cons.mp h
      rw [List.cons_append, splitLines_cons hc, ih ht, List.cons_append]

/-- The lines of a file of canonical records. -/
theorem splitLines_records (js : List Json) :
    splitLines (js.flatMap fun j => canonical j ++ ['\n']) =
      js.map fun j => canonical j ++ ['\n'] := by
  induction js with
  | nil => simp [splitLines]
  | cons j js ih =>
      rw [List.flatMap_cons, List.append_assoc, List.singleton_append,
        splitLines_line (printable_canonical j), ih, List.map_cons]

end RalphVault.Json
