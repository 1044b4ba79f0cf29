import RalphVault.AsciiJson

/-!
# Indented JSON

`json.dumps(value, indent=2, sort_keys=True)`: a member or an item a line,
strings in ASCII. `json.loads` reads such a text back, with the members
of its objects in key order.
-/

namespace RalphVault.Json

/-! ## The text -/

/-- The body of a string in ASCII, in front of a rest. -/
def asciiEscapeTo : Text → Text → Text
  | [], rest => rest
  | c :: t, rest => asciiText (escaped c) ++ asciiEscapeTo t rest

def asciiQuoteTo (t rest : Text) : Text := '"' :: asciiEscapeTo t ('"' :: rest)

/-- A line feed and the indentation of the next line. -/
def lineBreak (depth : Nat) : Text := '\n' :: List.replicate (2 * depth) ' '

/-- The items after the first one, each on a line of its own. -/
def linesTo (depth : Nat) : List (Text → Text) → Text → Text
  | [], rest => rest
  | item :: items, rest => ',' :: (lineBreak depth ++ item (linesTo depth items rest))

/-- A list of items between its brackets. -/
def blockTo (left right : Char) (depth : Nat) : List (Text → Text) → Text → Text
  | [], rest => left :: right :: rest
  | item :: items, rest =>
      left :: (lineBreak (depth + 1) ++
        item (linesTo (depth + 1) items (lineBreak depth ++ right :: rest)))

def asciiMemberTo (m : Text × (Text → Text)) (rest : Text) : Text :=
  asciiQuoteTo m.1 (':' :: ' ' :: m.2 rest)

mutual
/-- The indented text of a value in front of a rest. -/
def indentTo : Nat → Json → Text → Text
  | _, null => fun rest => txt "null" ++ rest
  | _, bool b => fun rest => (if b then txt "true" else txt "false") ++ rest
  | _, num n => fun rest => intText n ++ rest
  | _, str t => fun rest => asciiQuoteTo t rest
  | depth, arr items => fun rest => blockTo '[' ']' depth (indentItems (depth + 1) items) rest
  | depth, obj fields => fun rest =>
      blockTo '{' '}' depth ((sortMembers (indentFields (depth + 1) fields)).map asciiMemberTo) rest

def indentItems : Nat → List Json → List (Text → Text)
  | _, [] => []
  | depth, j :: js => indentTo depth j :: indentItems depth js

def indentFields : Nat → List (Text × Json) → List (Text × (Text → Text))
  | _, [] => []
  | depth, (k, j) :: fs => (k, indentTo depth j) :: indentFields depth fs
end

/-- `json.dumps(value, indent=2, sort_keys=True) + "\n"`. -/
def indented (j : Json) : Text := indentTo 0 j ['\n']

theorem indentItems_eq (depth : Nat) (js : List Json) :
    indentItems depth js = js.map (indentTo depth) := by
  induction js with
  | nil => rfl
  | cons j js ih => rw [indentItems, ih, List.map_cons]

theorem indentFields_eq (depth : Nat) (fs : List (Text × Json)) :
    indentFields depth fs = fs.map fun m => (m.1, indentTo depth m.2) := by
  induction fs with
  | nil => rfl
  | cons m fs ih =>
      obtain ⟨k, j⟩ := m
      rw [indentFields, ih, List.map_cons]

theorem indentTo_arr (depth : Nat) (items : List Json) (rest : Text) :
    indentTo depth (.arr items) rest =
      blockTo '[' ']' depth (items.map (indentTo (depth + 1))) rest := by
  rw [indentTo, indentItems_eq]

/-- The text of a member. -/
def indentMember (depth : Nat) (m : Text × Json) : Text → Text :=
  asciiMemberTo (m.1, indentTo depth m.2)

theorem indentTo_obj (depth : Nat) (fields : List (Text × Json)) (rest : Text) :
    indentTo depth (.obj fields) rest =
      blockTo '{' '}' depth ((sortMembers fields).map (indentMember (depth + 1))) rest := by
  rw [indentTo, indentFields_eq, sortMembers_map, List.map_map]
  rfl

/-! ## Strings -/

theorem loadHex_hex4 {n : Nat} (h : n < 0x10000) (rest : Text) :
    loadHex (hex4 n ++ rest) = some (n, rest) := by
  have hvalue : (((n / 4096 * 16 + n / 256 % 16) * 16 + n / 16 % 16) * 16 + n % 16) = n := by
    omega
  simp only [hex4, List.cons_append, List.nil_append, loadHex,
    hexDigitValue_hexDigit _ (show n / 4096 < 16 by omega),
    hexDigitValue_hexDigit _ (show n / 256 % 16 < 16 by omega),
    hexDigitValue_hexDigit _ (show n / 16 % 16 < 16 by omega),
    hexDigitValue_hexDigit _ (show n % 16 < 16 by omega),
    Option.bind_eq_bind, Option.bind_some, hvalue]
  rfl

theorem loadChar_u (rest : Text) : loadChar ('\\' :: 'u' :: rest) = loadUnicode rest := rfl

theorem loadUnicode_hex4 {n : Nat} (hn : n < 0xD800 ∨ (0xE000 ≤ n ∧ n < 0x10000)) (rest : Text) :
    loadUnicode (hex4 n ++ rest) = some (Char.ofNat n, rest) := by
  rw [loadUnicode, loadHex_hex4 (by omega)]
  simp only [Option.bind_eq_bind, Option.bind_some]
  rw [if_pos (by omega)]
  rfl

theorem loadUnicode_surrogates {high low : Nat} (hhigh : high < 1024) (hlow : low < 1024)
    (rest : Text) :
    loadUnicode (hex4 (0xD800 + high) ++ ('\\' :: 'u' :: (hex4 (0xDC00 + low) ++ rest))) =
      some (Char.ofNat (0x10000 + high * 1024 + low), rest) := by
  rw [loadUnicode, loadHex_hex4 (by omega)]
  simp only [Option.bind_eq_bind, Option.bind_some]
  rw [if_neg (by omega), loadHex_hex4 (by omega)]
  simp only [Option.bind_some]
  rw [if_pos (by omega), Nat.add_sub_cancel_left, Nat.add_sub_cancel_left]
  rfl

/-- **A character of an ASCII string is read back.** -/
theorem loadChar_ascii (c : Char) (rest : Text) :
    loadChar (asciiText (escaped c) ++ rest) = some (c, rest) := by
  by_cases hlow : ∀ d ∈ escaped c, d.toNat < 127
  · rw [asciiText_low hlow]
    exact loadChar_escaped c rest
  -- an escape is ASCII already, so the character stands for itself
  have hescaped : escaped c = [c] := by
    rcases escaped_cases c with ⟨hc, -, -⟩ | ⟨d, hc, -, -, hd⟩ | ⟨hc, heq⟩
    · exact hc
    · exact absurd (by rw [hc]; simp [hd]) hlow
    · have hhigh := (hexDigit_bounds (c.toNat / 16) (by omega)).2.1
      have hdigit := (hexDigit_bounds (c.toNat % 16) (by omega)).2.1
      exact absurd (by rw [heq]; simp [hhigh, hdigit]) hlow
  have hc : ¬c.toNat < 127 := fun hc => hlow (by rw [hescaped]; simpa using hc)
  have hvalid := toNat_valid c
  rw [hescaped, asciiText_cons, asciiText_nil, List.append_nil, asciiChar, if_neg hc]
  by_cases hbmp : c.toNat < 0x10000
  · rw [if_pos hbmp, List.cons_append, List.cons_append, loadChar_u,
      loadUnicode_hex4 (by omega), Char.ofNat_toNat]
  · have hsum : 0x10000 + (c.toNat - 0x10000) / 1024 * 1024 + (c.toNat - 0x10000) % 1024 =
        c.toNat := by omega
    rw [if_neg hbmp, List.append_assoc, List.cons_append, List.cons_append, loadChar_u,
      List.cons_append, List.cons_append, loadUnicode_surrogates (by omega) (by omega), hsum,
      Char.ofNat_toNat]

theorem asciiText_escaped_ne_nil (c : Char) : asciiText (escaped c) ≠ [] := by
  intro h
  have hread := loadChar_ascii c []
  rw [h] at hread
  cases hread

theorem ascii_ne_quote (c : Char) (rest rest' : Text) :
    asciiText (escaped c) ++ rest ≠ '"' :: rest' := by
  intro h
  have hread := congrArg loadChar h
  rw [loadChar_ascii, loadChar_plain (by decide) (by decide), Option.some.injEq,
    Prod.mk.injEq] at hread
  rw [hread.1] at h
  exact absurd (List.cons.inj h).1 (by decide)

theorem loadString_ascii (c : Char) (n : Nat) (rest : Text) :
    loadString (n + 1) (asciiText (escaped c) ++ rest) =
      (fun r : Text × Text => (c :: r.1, r.2)) <$> loadString n rest := by
  rw [loadString.eq_def]
  split
  · omega
  · rename_i heq
    exact absurd heq (ascii_ne_quote c _ _)
  · rename_i m heq _
    cases heq
    rw [loadChar_ascii]
    simp only [Option.bind_eq_bind, Option.bind_some]
    cases hrest : loadString n rest <;> rfl

/-- **An ASCII string is read up to its quote.** -/
theorem loadString_asciiEscapeTo {t rest : Text} :
    ∀ {n : Nat}, (asciiEscapeTo t ('"' :: rest)).length ≤ n →
      loadString n (asciiEscapeTo t ('"' :: rest)) = some (t, rest) := by
  induction t with
  | nil =>
      intro n hn
      cases n with
      | zero => simp [asciiEscapeTo] at hn
      | succ n => rfl
  | cons c t ih =>
      intro n hn
      rw [asciiEscapeTo, List.length_append] at hn
      have hpos : 0 < (asciiText (escaped c)).length :=
        List.length_pos_of_ne_nil (asciiText_escaped_ne_nil c)
      cases n with
      | zero => omega
      | succ n =>
          have htail : (asciiEscapeTo t ('"' :: rest)).length ≤ n := by omega
          rw [asciiEscapeTo, loadString_ascii, ih htail]
          rfl

/-! ## Lists -/

theorem skipBlank_lineBreak (depth : Nat) (t : Text) :
    skipBlank (lineBreak depth ++ t) = skipBlank t := by
  have hblank : ∀ c ∈ lineBreak depth, isBlankChar c = true := by
    intro c hc
    rcases List.mem_cons.mp hc with rfl | hc
    · decide
    · rw [List.eq_of_mem_replicate hc]
      decide
  exact List.dropWhile_append_of_pos hblank

theorem delimited_lineBreak (depth : Nat) (t : Text) : Delimited (lineBreak depth ++ t) :=
  .inr ⟨'\n', _, rfl, by decide⟩

section Lists

variable {item : Text → Option (γ × Text)} {render : β → Text → Text} {value : β → γ}
  {right : Char}

/-- **A list is read line by line.** -/
theorem loadItems_linesTo (hright : right ∈ [']', '}'])
    (hopen : ∀ b rest, skipBlank (render b rest) = render b rest)
    (hgrow : ∀ b rest, rest.length < (render b rest).length) {k depth outer : Nat} {b : β}
    {bs : List β} {rest : Text} (hloads : ∀ c ∈ b :: bs, Loads k item render value c) :
    ∀ {n : Nat}, (render b (linesTo depth (bs.map render)
        (lineBreak outer ++ right :: rest))).length ≤ n → n ≤ k →
      loadItems item right n (render b (linesTo depth (bs.map render)
        (lineBreak outer ++ right :: rest))) = some ((b :: bs).map value, rest) := by
  have hcomma : ',' ≠ right := by
    rintro rfl
    exact absurd hright (by decide)
  have hnonblank : isBlankChar right = false := by
    simp only [List.mem_cons, List.not_mem_nil, or_false] at hright
    rcases hright with rfl | rfl <;> decide
  induction bs generalizing b with
  | nil =>
      intro n hn hk
      rw [List.map_nil, linesTo] at hn ⊢
      have hpos := hgrow b (lineBreak outer ++ right :: rest)
      have hb := hloads b List.mem_cons_self (lineBreak outer ++ right :: rest)
        (delimited_lineBreak outer _) (by omega)
      cases n with
      | zero => omega
      | succ n =>
          rw [loadItems, hb]
          simp only [Option.bind_eq_bind, Option.bind_some, skipBlank_lineBreak,
            skipBlank_cons hnonblank, if_true]
          rfl
  | cons b' bs ih =>
      intro n hn hk
      have htail : ∀ t, linesTo depth (List.map render (b' :: bs)) t =
          ',' :: (lineBreak depth ++ render b' (linesTo depth (bs.map render) t)) := fun t => rfl
      rw [htail] at hn ⊢
      have hgrows := hgrow b (',' :: (lineBreak depth ++ render b' (linesTo depth (bs.map render)
        (lineBreak outer ++ right :: rest))))
      rw [List.length_cons, List.length_append] at hgrows
      have hb := hloads b List.mem_cons_self (',' :: (lineBreak depth ++ render b'
        (linesTo depth (bs.map render) (lineBreak outer ++ right :: rest))))
        (.inr ⟨',', _, rfl, by decide⟩) (Nat.le_trans hn hk)
      cases n with
      | zero => omega
      | succ n =>
          have hrest := ih (fun c hc => hloads c (List.mem_cons_of_mem _ hc)) (n := n) (by omega)
            (by omega)
          rw [loadItems, hb]
          simp only [Option.bind_eq_bind, Option.bind_some,
            skipBlank_cons (show isBlankChar ',' = false by decide), if_neg hcomma, if_true]
          rw [skipBlank_lineBreak, hopen, hrest]
          rfl

theorem loadList_blockTo {left : Char} (hright : right ∈ [']', '}'])
    (hopen : ∀ b rest, skipBlank (render b rest) = render b rest)
    (hgrow : ∀ b rest, rest.length < (render b rest).length)
    (hfirst : ∀ b rest, ∃ c t, render b rest = c :: t ∧ c ≠ right) {k depth : Nat}
    {bs : List β} {rest : Text} (hloads : ∀ c ∈ bs, Loads k item render value c)
    (hk : (blockTo left right depth (bs.map render) rest).length ≤ k + 1) :
    ∃ t, blockTo left right depth (bs.map render) rest = left :: t ∧
      loadList item right k t = some (bs.map value, rest) := by
  have hnonblank : isBlankChar right = false := by
    simp only [List.mem_cons, List.not_mem_nil, or_false] at hright
    rcases hright with rfl | rfl <;> decide
  cases bs with
  | nil =>
      refine ⟨right :: rest, rfl, ?_⟩
      rw [loadList, skipBlank_cons hnonblank]
      simp
  | cons b bs =>
      refine ⟨_, rfl, ?_⟩
      have hlength : (render b (linesTo (depth + 1) (bs.map render)
          (lineBreak depth ++ right :: rest))).length ≤ k := by
        have hblock : blockTo left right depth ((b :: bs).map render) rest =
            left :: (lineBreak (depth + 1) ++ render b (linesTo (depth + 1) (bs.map render)
              (lineBreak depth ++ right :: rest))) := rfl
        rw [hblock, List.length_cons, List.length_append] at hk
        omega
      obtain ⟨c, t, hc, hne⟩ := hfirst b (linesTo (depth + 1) (bs.map render)
        (lineBreak depth ++ right :: rest))
      have hitems := loadItems_linesTo hright hopen hgrow hloads hlength (Nat.le_refl k)
      rw [loadList, skipBlank_lineBreak, hopen]
      rw [hc] at hitems ⊢
      simp only [if_neg hne]
      exact hitems

theorem linesTo_length {bs : List β} (hgrow : ∀ b ∈ bs, ∀ rest, rest.length < (render b rest).length)
    (depth : Nat) (rest : Text) : rest.length ≤ (linesTo depth (bs.map render) rest).length := by
  induction bs with
  | nil => exact Nat.le_refl _
  | cons b bs ih =>
      have hb := hgrow b List.mem_cons_self (linesTo depth (bs.map render) rest)
      have htail := ih fun c hc => hgrow c (List.mem_cons_of_mem _ hc)
      show rest.length ≤ (',' :: (lineBreak depth ++
        render b (linesTo depth (bs.map render) rest))).length
      rw [List.length_cons, List.length_append]
      omega

theorem blockTo_length {left : Char} {bs : List β}
    (hgrow : ∀ b ∈ bs, ∀ rest, rest.length < (render b rest).length) (depth : Nat)
    (rest : Text) : rest.length < (blockTo left right depth (bs.map render) rest).length := by
  cases bs with
  | nil =>
      show rest.length < (left :: right :: rest).length
      rw [List.length_cons, List.length_cons]
      omega
  | cons b bs =>
      have hb := hgrow b List.mem_cons_self
        (linesTo (depth + 1) (bs.map render) (lineBreak depth ++ right :: rest))
      have htail := linesTo_length (fun c hc => hgrow c (List.mem_cons_of_mem _ hc)) (depth + 1)
        (lineBreak depth ++ right :: rest)
      rw [List.length_append, List.length_cons] at htail
      show rest.length < (left :: (lineBreak (depth + 1) ++ render b (linesTo (depth + 1)
        (bs.map render) (lineBreak depth ++ right :: rest)))).length
      rw [List.length_cons, List.length_append]
      omega

end Lists

/-! ## Values -/

/-- The first character of a value tells its kind. -/
theorem indentTo_head (depth : Nat) (j : Json) (rest : Text) :
    ∃ c t, indentTo depth j rest = c :: t ∧ kindOf c = j.kind := by
  have hblock : ∀ left right items, ∃ t, blockTo left right depth items rest = left :: t := by
    intro left right items
    cases items <;> exact ⟨_, rfl⟩
  cases j with
  | null => exact renderTo_head .null rest
  | bool b => exact renderTo_head (.bool b) rest
  | num n => exact renderTo_head (.num n) rest
  | str t => exact ⟨'"', _, rfl, rfl⟩
  | arr items =>
      obtain ⟨t, ht⟩ := hblock '[' ']' (indentItems (depth + 1) items)
      exact ⟨'[', t, ht, rfl⟩
  | obj fields =>
      obtain ⟨t, ht⟩ := hblock '{' '}'
        ((sortMembers (indentFields (depth + 1) fields)).map asciiMemberTo)
      exact ⟨'{', t, ht, rfl⟩

/-- A value does not begin with white space. -/
theorem skipBlank_indentTo (depth : Nat) (j : Json) (rest : Text) :
    skipBlank (indentTo depth j rest) = indentTo depth j rest := by
  obtain ⟨c, t, hc, hkind⟩ := indentTo_head depth j rest
  rw [hc]
  refine skipBlank_cons ?_ t
  by_contra hblank
  rw [isBlankChar_kindOf (by simpa using hblank)] at hkind
  cases j <;> cases hkind

theorem asciiEscapeTo_length (t rest : Text) : rest.length ≤ (asciiEscapeTo t rest).length := by
  induction t with
  | nil => exact Nat.le_refl _
  | cons c t ih =>
      rw [asciiEscapeTo, List.length_append]
      omega

theorem indentMember_length (depth : Nat) (m : Text × Json) {rest : Text}
    (h : rest.length < (indentTo depth m.2 rest).length) :
    rest.length < (indentMember depth m rest).length := by
  have hkey := asciiEscapeTo_length m.1 ('"' :: ':' :: ' ' :: indentTo depth m.2 rest)
  simp only [List.length_cons] at hkey
  show rest.length < ('"' :: asciiEscapeTo m.1
    ('"' :: ':' :: ' ' :: indentTo depth m.2 rest)).length
  rw [List.length_cons]
  omega

/-- A value has at least one character. -/
theorem indentTo_length (j : Json) :
    ∀ depth rest, rest.length < (indentTo depth j rest).length := by
  induction j using induction with
  | null => exact fun depth rest => renderTo_length .null rest
  | bool b => exact fun depth rest => renderTo_length (.bool b) rest
  | num n => exact fun depth rest => renderTo_length (.num n) rest
  | str t =>
      intro depth rest
      have h := asciiEscapeTo_length t ('"' :: rest)
      rw [List.length_cons] at h
      show rest.length < ('"' :: asciiEscapeTo t ('"' :: rest)).length
      rw [List.length_cons]
      omega
  | arr items ih =>
      intro depth rest
      rw [indentTo_arr]
      exact blockTo_length (fun j hj r => ih j hj (depth + 1) r) depth rest
  | obj fields ih =>
      intro depth rest
      rw [indentTo_obj]
      refine blockTo_length (fun m hm r => ?_) depth rest
      exact indentMember_length _ m (ih m (SortedMap.mem_ofList hm) (depth + 1) r)

theorem loadMember_indentMember {m : Text × Json} {k depth : Nat}
    (h : Loads k (loadValue k) (indentTo depth) norm m.2) :
    Loads k (loadMember (loadValue k) k) (indentMember depth) (fun m => (m.1, norm m.2)) m := by
  intro rest hrest hk
  have hm : indentMember depth m rest =
      '"' :: asciiEscapeTo m.1 ('"' :: ':' :: ' ' :: indentTo depth m.2 rest) := rfl
  rw [hm] at hk ⊢
  rw [List.length_cons] at hk
  have hvalue : (indentTo depth m.2 rest).length ≤ k := by
    have hkey := asciiEscapeTo_length m.1 ('"' :: ':' :: ' ' :: indentTo depth m.2 rest)
    simp only [List.length_cons] at hkey
    omega
  have hkey := @loadString_asciiEscapeTo m.1 (':' :: ' ' :: indentTo depth m.2 rest) _
    (Nat.le_of_succ_le hk)
  have hblank : skipBlank (' ' :: indentTo depth m.2 rest) = indentTo depth m.2 rest := by
    rw [skipBlank, List.dropWhile_cons_of_pos (by decide)]
    exact skipBlank_indentTo depth m.2 rest
  simp only [loadMember, hkey, Option.bind_eq_bind, Option.bind_some,
    skipBlank_cons (show isBlankChar ':' = false by decide), hblank, h rest hrest hvalue]
  rfl

/-- **A value is read back**, with the members of its objects in order. -/
theorem loadValue_indentTo (j : Json) :
    ∀ depth k, Loads k (loadValue k) (indentTo depth) norm j := by
  induction j using induction with
  | null => exact fun depth k => loadValue_renderTo .null k
  | bool b => exact fun depth k => loadValue_renderTo (.bool b) k
  | num n => exact fun depth k => loadValue_renderTo (.num n) k
  | str t =>
      intro depth k rest hrest hk
      cases k with
      | zero => simp [indentTo, asciiQuoteTo] at hk
      | succ k =>
          have hstring : loadString k (asciiEscapeTo t ('"' :: rest)) = some (t, rest) :=
            loadString_asciiEscapeTo (Nat.le_of_succ_le_succ hk)
          show (fun r : Text × Text => (Json.str r.1, r.2)) <$>
            loadString k (asciiEscapeTo t ('"' :: rest)) = _
          rw [hstring]
          rfl
  | arr items ih =>
      intro depth k rest hrest hk
      rw [indentTo_arr] at hk ⊢
      cases k with
      | zero =>
          have hlength := @blockTo_length Json (indentTo (depth + 1)) ']' '[' items
            (fun j _ r => indentTo_length j (depth + 1) r) depth rest
          omega
      | succ k =>
          have hfirst : ∀ (j : Json) (r : Text),
              ∃ c t, indentTo (depth + 1) j r = c :: t ∧ c ≠ ']' := by
            intro j r
            obtain ⟨c, t, hc, hkind⟩ := indentTo_head (depth + 1) j r
            refine ⟨c, t, hc, ?_⟩
            rintro rfl
            cases j <;> simp [kind, kindOf] at hkind
          obtain ⟨t, ht, hlist⟩ := loadList_blockTo (by decide)
            (skipBlank_indentTo (depth + 1)) (fun j r => indentTo_length j (depth + 1) r) hfirst
            (fun j hj => ih j hj (depth + 1) k) hk
          rw [ht]
          show (fun r : List Json × Text => (Json.arr r.1, r.2)) <$>
            loadList (loadValue k) ']' k t = _
          rw [hlist, norm, normItems_eq]
          rfl
  | obj fields ih =>
      intro depth k rest hrest hk
      rw [indentTo_obj] at hk ⊢
      cases k with
      | zero =>
          have hlength := @blockTo_length (Text × Json) (indentMember (depth + 1)) '}' '{'
            (sortMembers fields)
            (fun m _ r => indentMember_length (depth + 1) m (indentTo_length m.2 (depth + 1) r))
            depth rest
          omega
      | succ k =>
          have hskip : ∀ m r, skipBlank (indentMember (depth + 1) m r) =
              indentMember (depth + 1) m r := fun m r => skipBlank_cons (by decide) _
          have hfirst : ∀ (m : Text × Json) (r : Text),
              ∃ c t, indentMember (depth + 1) m r = c :: t ∧ c ≠ '}' :=
            fun m r => ⟨'"', _, rfl, by decide⟩
          obtain ⟨t, ht, hlist⟩ := loadList_blockTo (by decide) hskip
            (fun m r => indentMember_length (depth + 1) m (indentTo_length m.2 (depth + 1) r))
            hfirst
            (fun m (hm : m ∈ sortMembers fields) =>
              loadMember_indentMember (ih m (SortedMap.mem_ofList hm) (depth + 1) k)) hk
          rw [ht]
          show (fun r : List (Text × Json) × Text => (Json.obj (members r.1), r.2)) <$>
            loadList (loadMember (loadValue k) k) '}' k t = _
          rw [hlist, norm, normFields_eq, sortMembers_map, Option.map_eq_map, Option.map_some,
            members_eq]
          rw [List.map_map]
          exact keys_sortMembers fields

/-- **An indented text is read back.** -/
theorem loads_indented (j : Json) : loads (indented j) = some (norm j) := by
  have hdelimited : Delimited ['\n'] := .inr ⟨'\n', [], rfl, by decide⟩
  rw [loads, indented, skipBlank_indentTo,
    loadValue_indentTo j 0 _ ['\n'] hdelimited (Nat.le_succ _)]
  rfl

end RalphVault.Json
