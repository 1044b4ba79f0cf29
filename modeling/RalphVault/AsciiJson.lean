import RalphVault.JsonText

/-!
# JSON in ASCII

`json.dumps` with `ensure_ascii=True`, its default: a character above `~`
is written as one `\u` escape, or as the two of its surrogates. The text
is the canonical text with these characters replaced, since the two
encoders agree on all others.
-/

namespace RalphVault.Json

/-- Four hexadecimal digits. -/
def hex4 (n : Nat) : Text :=
  [hexDigit (n / 4096), hexDigit (n / 256 % 16), hexDigit (n / 16 % 16), hexDigit (n % 16)]

/-- One character as `ensure_ascii` writes it. -/
def asciiChar (c : Char) : Text :=
  if c.toNat < 127 then [c]
  else if c.toNat < 0x10000 then '\\' :: 'u' :: hex4 c.toNat
  else
    let n := c.toNat - 0x10000
    '\\' :: 'u' :: hex4 (0xD800 + n / 1024) ++ '\\' :: 'u' :: hex4 (0xDC00 + n % 1024)

def asciiText (t : Text) : Text := t.flatMap asciiChar

/-- `json.dumps(value, sort_keys=True, separators=(",", ":"))`. -/
def asciiDumps (j : Json) : Text := asciiText (canonical j)

@[simp] theorem asciiText_nil : asciiText [] = [] := rfl

@[simp] theorem asciiText_cons (c : Char) (t : Text) :
    asciiText (c :: t) = asciiChar c ++ asciiText t := rfl

@[simp] theorem asciiText_append (s t : Text) :
    asciiText (s ++ t) = asciiText s ++ asciiText t := List.flatMap_append

theorem asciiChar_low {c : Char} (h : c.toNat < 127) : asciiChar c = [c] := if_pos h

theorem asciiText_low {t : Text} (h : ∀ c ∈ t, c.toNat < 127) : asciiText t = t := by
  induction t with
  | nil => rfl
  | cons c t ih =>
      rw [asciiText_cons, asciiChar_low (h c List.mem_cons_self),
        ih fun c' hc => h c' (List.mem_cons_of_mem _ hc)]
      rfl

theorem hex4_low {n : Nat} (h : n < 0x10000) : ∀ c ∈ hex4 n, c.toNat < 127 := by
  intro c hc
  simp only [hex4, List.mem_cons, List.not_mem_nil, or_false] at hc
  rcases hc with rfl | rfl | rfl | rfl <;> exact (hexDigit_bounds _ (by omega)).2.1

/-- A character is no surrogate. -/
theorem toNat_valid (c : Char) :
    c.toNat < 0xD800 ∨ (0xE000 ≤ c.toNat ∧ c.toNat < 0x110000) := by
  rcases c.valid with h | ⟨hlow, hhigh⟩
  · exact .inl h
  · exact .inr ⟨Nat.succ_le_of_lt hlow, hhigh⟩

theorem asciiChar_ascii (c : Char) : ∀ d ∈ asciiChar c, d.toNat < 127 := by
  have hu : ∀ {n : Nat}, n < 0x10000 → ∀ d ∈ '\\' :: 'u' :: hex4 n, d.toNat < 127 := by
    intro n hn d hd
    rcases List.mem_cons.mp hd with rfl | hd
    · decide
    rcases List.mem_cons.mp hd with rfl | hd
    · decide
    · exact hex4_low hn d hd
  have hmax := toNat_valid c
  intro d hd
  unfold asciiChar at hd
  split at hd
  · rename_i hc
    rwa [List.mem_singleton.mp hd]
  split at hd
  · rename_i hc
    exact hu hc d hd
  · rcases List.mem_append.mp hd with hd | hd
    · exact hu (by omega) d hd
    · exact hu (by omega) d hd

/-- A text is left alone exactly if it has no character above `~`. -/
theorem asciiText_eq_iff {t : Text} : asciiText t = t ↔ ∀ c ∈ t, c.toNat < 127 := by
  refine ⟨fun h c hc => ?_, asciiText_low⟩
  rw [← h] at hc
  obtain ⟨d, -, hd⟩ := List.mem_flatMap.mp hc
  exact asciiChar_ascii d c hd

/-! ## Reading the escapes back -/

/-- The value of hexadecimal digits. -/
def hexNumber (ds : Text) : Nat := ds.foldl (fun n d => 16 * n + hexValue d) 0

/-- What one character, one pair or one escape of an ASCII text stands for
in the canonical text. -/
def readUnit : Text → Option (Text × Text)
  | '\\' :: 'u' :: a :: b :: c :: d :: rest =>
      let n := hexNumber [a, b, c, d]
      if n < 127 then some (['\\', 'u', a, b, c, d], rest)
      else if n < 0xD800 ∨ 0xE000 ≤ n then some ([Char.ofNat n], rest)
      else match rest with
        | '\\' :: 'u' :: a' :: b' :: c' :: d' :: rest =>
            let low := hexNumber [a', b', c', d'] - 0xDC00
            some ([Char.ofNat (0x10000 + 1024 * (n - 0xD800) + low)], rest)
        | _ => none
  | '\\' :: c :: rest => some (['\\', c], rest)
  | c :: rest => some ([c], rest)
  | [] => none

theorem hexNumber_hex4 {n : Nat} (h : n < 0x10000) : hexNumber (hex4 n) = n := by
  simp only [hexNumber, hex4, List.foldl_cons, List.foldl_nil,
    hexValue_hexDigit _ (show n / 4096 < 16 by omega),
    hexValue_hexDigit _ (show n / 256 % 16 < 16 by omega),
    hexValue_hexDigit _ (show n / 16 % 16 < 16 by omega),
    hexValue_hexDigit _ (show n % 16 < 16 by omega)]
  omega

/-- The pieces of a canonical text. -/
inductive Piece : Text → Prop where
  | char {c : Char} (hc : c ≠ '\\') : Piece [c]
  | pair {d : Char} (hd : d ≠ 'u') (hlow : d.toNat < 127) : Piece ['\\', d]
  | control {n : Nat} (hn : n < 32) :
      Piece ['\\', 'u', '0', '0', hexDigit (n / 16), hexDigit (n % 16)]

theorem readUnit_plain {c : Char} (hc : c ≠ '\\') (rest : Text) :
    readUnit (c :: rest) = some ([c], rest) := by
  rw [readUnit.eq_def]
  split <;> simp_all

theorem readUnit_pair {d : Char} (hd : d ≠ 'u') (rest : Text) :
    readUnit ('\\' :: d :: rest) = some (['\\', d], rest) := by
  rw [readUnit.eq_def]
  split <;> simp_all
  rename_i hno heq
  exact hno d rest heq.1.symm heq.2.symm

theorem hex4_eq (n : Nat) : ∃ a b c d, hex4 n = [a, b, c, d] := ⟨_, _, _, _, rfl⟩

/-- An escape of a character that is no surrogate. -/
theorem readUnit_hex4 {n : Nat} (hlow : 127 ≤ n) (hn : n < 0xD800 ∨ (0xE000 ≤ n ∧ n < 0x10000))
    (rest : Text) :
    readUnit ('\\' :: 'u' :: hex4 n ++ rest) = some ([Char.ofNat n], rest) := by
  have hvalue := hexNumber_hex4 (show n < 0x10000 by omega)
  obtain ⟨a, b, c, d, hhex⟩ := hex4_eq n
  rw [hhex] at hvalue ⊢
  simp only [List.cons_append, List.nil_append, readUnit, hvalue]
  rw [if_neg (by omega), if_pos (by omega)]

/-- The two escapes of a pair of surrogates. -/
theorem readUnit_surrogates {high low : Nat} (hhigh : high < 1024) (hlow : low < 1024)
    (rest : Text) :
    readUnit ('\\' :: 'u' :: hex4 (0xD800 + high) ++
        ('\\' :: 'u' :: hex4 (0xDC00 + low) ++ rest)) =
      some ([Char.ofNat (0x10000 + 1024 * high + low)], rest) := by
  have hfirst := hexNumber_hex4 (show 0xD800 + high < 0x10000 by omega)
  have hsecond := hexNumber_hex4 (show 0xDC00 + low < 0x10000 by omega)
  obtain ⟨a, b, c, d, hhex⟩ := hex4_eq (0xD800 + high)
  obtain ⟨a', b', c', d', hhex'⟩ := hex4_eq (0xDC00 + low)
  rw [hhex] at hfirst ⊢
  rw [hhex'] at hsecond ⊢
  simp only [List.cons_append, List.nil_append, readUnit, hfirst, hsecond]
  rw [if_neg (by omega), if_neg (by omega), Nat.add_sub_cancel_left, Nat.add_sub_cancel_left]

/-- **A piece is read back from its ASCII text.** -/
theorem Piece.readUnit {piece : Text} (h : Piece piece) (rest : Text) :
    readUnit (asciiText piece ++ rest) = some (piece, rest) := by
  cases h with
  | @char c hc =>
      have hvalid := toNat_valid c
      rw [asciiText_cons, asciiText_nil, List.append_nil]
      by_cases hlow : c.toNat < 127
      · rw [asciiChar_low hlow]
        exact readUnit_plain hc rest
      by_cases hbmp : c.toNat < 0x10000
      · rw [asciiChar, if_neg hlow, if_pos hbmp,
          readUnit_hex4 (by omega) (by omega), Char.ofNat_toNat]
      · have hsum : 0x10000 + 1024 * ((c.toNat - 0x10000) / 1024) +
            (c.toNat - 0x10000) % 1024 = c.toNat := by omega
        rw [asciiChar, if_neg hlow, if_neg hbmp, List.append_assoc,
          readUnit_surrogates (by omega) (by omega), hsum, Char.ofNat_toNat]
  | @pair d hd hlow =>
      rw [asciiText_low (List.forall_mem_cons.mpr ⟨by decide, List.forall_mem_singleton.mpr hlow⟩)]
      exact readUnit_pair hd rest
  | @control n hn =>
      have hhigh := (hexDigit_bounds (n / 16) (by omega)).2.1
      have hlow := (hexDigit_bounds (n % 16) (by omega)).2.1
      have hvalue : hexNumber ['0', '0', hexDigit (n / 16), hexDigit (n % 16)] = n := by
        simp only [hexNumber, List.foldl_cons, List.foldl_nil,
          hexValue_hexDigit _ (show n / 16 < 16 by omega),
          hexValue_hexDigit _ (show n % 16 < 16 by omega),
          show hexValue '0' = 0 by decide]
        omega
      rw [asciiText_low (by simp [hhigh, hlow])]
      simp only [List.cons_append, List.nil_append, Json.readUnit, hvalue]
      rw [if_pos (by omega)]

/-- A text made of pieces. -/
def Pieces (t : Text) : Prop :=
  ∃ pieces : List Text, (∀ piece ∈ pieces, Piece piece) ∧ t = pieces.flatten

theorem Pieces.nil : Pieces [] := ⟨[], fun piece h => absurd h List.not_mem_nil, rfl⟩

theorem Pieces.cons {piece rest : Text} (hpiece : Piece piece) (h : Pieces rest) :
    Pieces (piece ++ rest) := by
  obtain ⟨pieces, hall, rfl⟩ := h
  exact ⟨piece :: pieces, List.forall_mem_cons.mpr ⟨hpiece, hall⟩, rfl⟩

theorem pieces_outlasts : Outlasts (fun _ => True) Pieces where
  bare {c rest} hc h := by
    simp only [isBare, Bool.and_eq_true, bne_iff_ne] at hc
    exact Pieces.cons (.char hc.2) h
  escaped {c rest} _ h := by
    refine Pieces.cons ?_ h
    rcases escaped_cases c with ⟨hc, hne, -⟩ | ⟨d, hc, hd, -, hlow⟩ | ⟨hlow, hc⟩ <;> rw [hc]
    · exact .char hne
    · exact .pair hd hlow
    · exact .control hlow

theorem pieces_canonical (j : Json) : Pieces (canonical j) :=
  pieces_outlasts.renderTo j (fun _ _ => trivial) [] .nil

theorem asciiChar_ne_nil (c : Char) : asciiChar c ≠ [] := by
  unfold asciiChar
  split
  · exact List.cons_ne_nil _ _
  split <;> exact List.cons_ne_nil _ _

theorem Piece.asciiText_ne_nil {piece : Text} (h : Piece piece) : asciiText piece ≠ [] := by
  cases h <;> simp [asciiChar_ne_nil]

/-- Texts made of pieces are told apart by their ASCII texts. -/
theorem asciiText_inj {s t : Text} (hs : Pieces s) (ht : Pieces t)
    (h : asciiText s = asciiText t) : s = t := by
  obtain ⟨ps, hps, rfl⟩ := hs
  obtain ⟨qs, hqs, rfl⟩ := ht
  induction ps generalizing qs with
  | nil =>
      cases qs with
      | nil => rfl
      | cons q qs =>
          rw [List.flatten_cons, asciiText_append] at h
          exact absurd (List.append_eq_nil_iff.mp h.symm).1
            (hqs q List.mem_cons_self).asciiText_ne_nil
  | cons p ps ih =>
      have hp := hps p List.mem_cons_self
      cases qs with
      | nil =>
          rw [List.flatten_cons, asciiText_append] at h
          exact absurd (List.append_eq_nil_iff.mp h).1 hp.asciiText_ne_nil
      | cons q qs =>
          have hq := hqs q List.mem_cons_self
          rw [List.flatten_cons, List.flatten_cons, asciiText_append, asciiText_append] at h
          have hread := congrArg Json.readUnit h
          rw [hp.readUnit, hq.readUnit, Option.some.injEq, Prod.mk.injEq] at hread
          obtain ⟨rfl, hrest⟩ := hread
          rw [List.flatten_cons, List.flatten_cons,
            ih (fun r hr => hps r (List.mem_cons_of_mem _ hr)) qs
              (fun r hr => hqs r (List.mem_cons_of_mem _ hr)) hrest]

/-- **ASCII texts of values are unambiguous.** -/
theorem asciiDumps_inj {j j' : Json} (h : asciiDumps j = asciiDumps j') : norm j = norm j' :=
  canonical_inj (asciiText_inj (pieces_canonical j) (pieces_canonical j') h)

/-! ## Values in ASCII -/

/-- A text without a character above `~`. -/
def Ascii (t : Text) : Prop := ∀ c ∈ t, c.toNat < 127

instance (t : Text) : Decidable (Ascii t) := inferInstanceAs (Decidable (∀ c ∈ t, c.toNat < 127))

theorem ascii_escaped {c : Char} (h : c.toNat < 127) : Ascii (escaped c) := by
  rcases escaped_cases c with ⟨hc, -, -⟩ | ⟨d, hc, -, -, hd⟩ | ⟨hlow, hc⟩ <;> rw [hc]
  · exact List.forall_mem_singleton.mpr h
  · exact List.forall_mem_cons.mpr ⟨by decide, List.forall_mem_singleton.mpr hd⟩
  · have hhigh := (hexDigit_bounds (c.toNat / 16) (by omega)).2.1
    have hdigit := (hexDigit_bounds (c.toNat % 16) (by omega)).2.1
    simp [Ascii, hhigh, hdigit]

theorem ascii_outlasts : Outlasts (fun c => c.toNat < 127) Ascii where
  bare {c rest} hc h := by
    simp only [isBare, Bool.and_eq_true, decide_eq_true_eq] at hc
    exact List.forall_mem_cons.mpr ⟨hc.1.2, h⟩
  escaped {c rest} hc h := List.forall_mem_append.mpr ⟨ascii_escaped hc, h⟩

/-- A text with a character above `~`. -/
def High (t : Text) : Prop := ∃ c ∈ t, 127 ≤ c.toNat

theorem High.append {s t : Text} (h : High t) : High (s ++ t) := by
  obtain ⟨c, hc, hhigh⟩ := h
  exact ⟨c, List.mem_append_right s hc, hhigh⟩

theorem high_outlasts : Outlasts (fun _ => True) High where
  bare _ h := High.append (s := [_]) h
  escaped _ h := h.append

theorem high_quoteTo {t rest : Text} (h : High t) : High (quoteTo t rest) := by
  obtain ⟨c, hc, hhigh⟩ := h
  have hescaped : escaped c = [c] := by
    refine if_pos ?_
    simp only [isPlain, Bool.or_eq_true, Nat.ble_eq]
    omega
  refine High.append (s := ['"']) ?_
  induction t with
  | nil => cases hc
  | cons d t ih =>
      rw [escapeTo_cons]
      rcases List.mem_cons.mp hc with rfl | hc
      · exact ⟨c, List.mem_append_left _ (by rw [hescaped]; exact List.mem_singleton_self c), hhigh⟩
      · exact (ih hc).append

/-- One item with a character above `~` is enough. -/
theorem high_itemsTo {render : β → Text → Text} {bs : List β} {b : β} (hb : b ∈ bs)
    (hitem : ∀ rest, High (render b rest))
    (hrest : ∀ b ∈ bs, ∀ rest, High rest → High (render b rest)) (rest : Text) :
    High (itemsTo (bs.map render) rest) := by
  induction bs with
  | nil => cases hb
  | cons b' bs ih =>
      rw [List.map_cons, itemsTo_cons]
      rcases List.mem_cons.mp hb with rfl | hb
      · exact hitem _
      · have htail := ih hb fun c hc => hrest c (List.mem_cons_of_mem _ hc)
        refine hrest b' List.mem_cons_self _ ?_
        unfold itemsTail
        cases bs with
        | nil => cases hb
        | cons b'' bs => exact High.append (s := [',']) htail

/-- **The text of an object is in ASCII** exactly if its strings are. -/
theorem canonical_ascii_iff {d : List (Text × Text)} (hkeys : (d.map Prod.fst).Nodup)
    (hascii : ∀ m ∈ d, Ascii m.1) :
    Ascii (canonical (.obj (d.map fun m => (m.1, .str m.2)))) ↔ ∀ m ∈ d, Ascii m.2 := by
  constructor
  · intro h m hm c hc
    by_contra hhigh
    have hd : ((d.map fun m => (m.1, Json.str m.2)).map Prod.fst).Nodup := by
      rwa [List.map_map]
    have hmem : (m.1, Json.str m.2) ∈ sortMembers (d.map fun m => (m.1, Json.str m.2)) := by
      apply SortedMap.mem_of_get?
      rw [sortMembers, SortedMap.get?_ofList hd]
      exact SortedMap.get?_of_mem hd (List.mem_map_of_mem hm)
    have hvalue : High m.2 := ⟨c, hc, by omega⟩
    have htext : High (canonical (.obj (d.map fun m => (m.1, .str m.2)))) := by
      rw [canonical, renderTo_obj]
      refine High.append (s := ['{']) (high_itemsTo hmem (fun rest => ?_) (fun m' _ r hr => ?_) _)
      · refine High.append (s := ['"']) ?_
        rw [escapeTo_eq]
        exact High.append (High.append (s := ['"', ':']) (high_quoteTo hvalue))
      · exact high_outlasts.quoteTo (fun _ _ => trivial)
          (High.append (s := [':']) (high_outlasts.renderTo m'.2 (fun _ _ => trivial) r hr))
    obtain ⟨e, he, hlarge⟩ := htext
    have hsmall := h e he
    omega
  · intro h
    refine ascii_outlasts.renderTo _ (fun c hc => ?_) [] (fun c hc => absurd hc List.not_mem_nil)
    obtain ⟨m', hm', hc⟩ := mem_charsFields.mp hc
    obtain ⟨m, hm, rfl⟩ := List.mem_map.mp hm'
    rcases hc with hc | hc
    · exact hascii m hm c hc
    · exact h m hm c hc

end RalphVault.Json
