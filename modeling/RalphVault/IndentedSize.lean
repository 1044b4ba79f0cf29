import RalphVault.IndentedJson

/-!
# The size of indented JSON

How many bytes a value takes in `json.dumps(value, indent=2)`: those of
its strings and numbers, and of the lines they stand on.
-/

namespace RalphVault.Json

/-! ## Strings -/

/-- A character that stands for itself in an ASCII string. -/
def isAsciiPlain (c : Char) : Bool := isPlain c && c.toNat < 127

/-- The bytes of the body of an ASCII string. -/
def asciiSize (t : Text) : Nat := (t.map fun c => utf8Len (asciiText (escaped c))).sum

theorem utf8Size_of_lt {c : Char} (h : c.toNat < 127) : c.utf8Size = 1 := by
  have hval : c.val.toNat < 127 := h
  rw [Char.utf8Size, if_pos]
  rw [UInt32.le_iff_toNat_le]
  exact Nat.le_of_lt (lt_of_lt_of_le hval (by decide))

theorem asciiSize_plain {t : Text} (h : ∀ c ∈ t, isAsciiPlain c = true) : asciiSize t = t.length := by
  induction t with
  | nil => rfl
  | cons c t ih =>
      obtain ⟨hc, ht⟩ := List.forall_mem_cons.mp h
      simp only [isAsciiPlain, Bool.and_eq_true, decide_eq_true_eq] at hc
      have hsize : utf8Len (asciiText (escaped c)) = 1 := by
        rw [escaped, if_pos hc.1, asciiText_low (by simpa using hc.2), utf8Len_cons, utf8Size_of_lt hc.2]
        rfl
      rw [asciiSize, List.map_cons, List.sum_cons, hsize, ← asciiSize, ih ht, List.length_cons,
        Nat.add_comm]

theorem utf8Len_asciiQuoteTo (t rest : Text) :
    utf8Len (asciiQuoteTo t rest) = asciiSize t + 2 + utf8Len rest := by
  have hbody : ∀ rest, utf8Len (asciiEscapeTo t rest) = asciiSize t + utf8Len rest := by
    intro rest
    induction t with
    | nil => simp [asciiEscapeTo, asciiSize]
    | cons c t ih =>
        rw [asciiEscapeTo, utf8Len_append, ih, asciiSize, asciiSize, List.map_cons, List.sum_cons,
          Nat.add_assoc]
  have hquote : ('"' : Char).utf8Size = 1 := rfl
  rw [asciiQuoteTo, utf8Len_cons, hbody, utf8Len_cons, hquote]
  omega

/-! ## Values -/

/-- A value at a depth takes so many bytes. -/
def Occupies (depth : Nat) (j : Json) (size : Nat) : Prop :=
  ∀ rest, utf8Len (indentTo depth j rest) = size + utf8Len rest

theorem occupies_str (depth : Nat) (t : Text) : Occupies depth (.str t) (asciiSize t + 2) :=
  fun rest => by rw [indentTo, utf8Len_asciiQuoteTo]

theorem utf8Len_digits {t : Text} (h : ∀ c ∈ t, c.toNat < 127) : utf8Len t = t.length := by
  induction t with
  | nil => rfl
  | cons c t ih =>
      obtain ⟨hc, ht⟩ := List.forall_mem_cons.mp h
      rw [utf8Len_cons, utf8Size_of_lt hc, ih ht, List.length_cons, Nat.add_comm]

theorem occupies_num (depth n : Nat) : Occupies depth (.num n) (decimalText n).length := by
  intro rest
  have hdigits : ∀ c ∈ decimalText n, c.toNat < 127 := by
    intro c hc
    have hdigit := isDigit_decimalText hc
    simp only [Char.isDigit, Bool.and_eq_true, decide_eq_true_eq] at hdigit
    have hle := UInt32.le_iff_toNat_le.mp hdigit.2
    exact Nat.lt_of_le_of_lt hle (by decide)
  have hint : intText n = decimalText n := by
    rw [intText, if_neg (by omega), Int.natAbs_natCast]
  rw [indentTo, hint, utf8Len_append, utf8Len_digits hdigits]

/-- The bytes of a list of items between its brackets. -/
def blockSize (depth : Nat) (sizes : List Nat) : Nat :=
  if sizes.isEmpty then 2 else (sizes.map (· + (2 * depth + 4))).sum + (2 * depth + 2)

theorem blockSize_of_ne_nil {s : List Nat} (h : s ≠ []) (depth : Nat) :
    blockSize depth s = (s.map (· + (2 * depth + 4))).sum + (2 * depth + 2) := by
  rw [blockSize, if_neg (by simpa using h)]

theorem utf8Len_lineBreak (depth : Nat) : utf8Len (lineBreak depth) = 2 * depth + 1 := by
  have hbreak : ('\n' : Char).utf8Size = 1 := rfl
  have hspaces : ∀ n, utf8Len (List.replicate n ' ') = n := by
    intro n
    rw [utf8Len_digits (by simp), List.length_replicate]
  rw [lineBreak, utf8Len_cons, hbreak, hspaces, Nat.add_comm]

theorem utf8Len_linesTo {β : Type} {render : β → Text → Text} {size : β → Nat} (depth : Nat)
    {bs : List β} (h : ∀ b ∈ bs, ∀ rest, utf8Len (render b rest) = size b + utf8Len rest)
    (rest : Text) :
    utf8Len (linesTo depth (bs.map render) rest) =
      (bs.map fun b => size b + (2 * depth + 2)).sum + utf8Len rest := by
  have hcomma : (',' : Char).utf8Size = 1 := rfl
  induction bs with
  | nil => simp [linesTo]
  | cons b bs ih =>
      obtain ⟨hb, hbs⟩ := List.forall_mem_cons.mp h
      rw [List.map_cons, linesTo, utf8Len_cons, utf8Len_append, hb, ih hbs, utf8Len_lineBreak,
        hcomma, List.map_cons, List.sum_cons]
      omega

theorem utf8Len_blockTo {β : Type} {render : β → Text → Text} {size : β → Nat} (depth : Nat)
    {left right : Char} (hleft : left.utf8Size = 1) (hright : right.utf8Size = 1)
    {bs : List β} (h : ∀ b ∈ bs, ∀ rest, utf8Len (render b rest) = size b + utf8Len rest)
    (rest : Text) :
    utf8Len (blockTo left right depth (bs.map render) rest) =
      blockSize depth (bs.map size) + utf8Len rest := by
  cases bs with
  | nil =>
      rw [List.map_nil, blockTo, utf8Len_cons, utf8Len_cons, hleft, hright, blockSize]
      simp only [List.map_nil, List.isEmpty_nil, if_true]
      omega
  | cons b bs =>
      obtain ⟨hb, hbs⟩ := List.forall_mem_cons.mp h
      have hsizes : ((bs.map size).map (· + (2 * depth + 4))).sum =
          (bs.map fun b => size b + (2 * (depth + 1) + 2)).sum := by
        rw [List.map_map]
        rfl
      rw [List.map_cons, blockTo, utf8Len_cons, utf8Len_append, hb, utf8Len_linesTo _ hbs,
        utf8Len_append, utf8Len_cons, utf8Len_lineBreak, utf8Len_lineBreak, hleft, hright,
        blockSize]
      simp only [List.map_cons, List.isEmpty_cons, Bool.false_eq_true, if_false, List.sum_cons,
        hsizes]
      omega

theorem sortMembers_perm {β : Type} {ms : List (Text × β)} (h : (ms.map Prod.fst).Nodup) :
    (sortMembers ms).Perm ms :=
  SortedMap.perm_of_get? (keys_sortMembers ms) h fun k => SortedMap.get?_ofList h k

/-- An object, each member with the bytes of its value. -/
theorem occupies_obj (depth : Nat) (fs : List (Text × Json × Nat))
    (hkeys : (fs.map Prod.fst).Nodup) (h : ∀ f ∈ fs, Occupies (depth + 1) f.2.1 f.2.2) :
    Occupies depth (.obj (fs.map fun f => (f.1, f.2.1)))
      (blockSize depth (fs.map fun f => asciiSize f.1 + 4 + f.2.2)) := by
  intro rest
  have hperm : (sortMembers fs).Perm fs := sortMembers_perm hkeys
  have hmember : ∀ f ∈ sortMembers fs, ∀ rest,
      utf8Len (indentMember (depth + 1) (f.1, f.2.1) rest) =
        asciiSize f.1 + 4 + f.2.2 + utf8Len rest := by
    intro f hf rest
    have hcolon : (':' : Char).utf8Size = 1 := rfl
    have hspace : (' ' : Char).utf8Size = 1 := rfl
    have hquote := utf8Len_asciiQuoteTo f.1 (':' :: ' ' :: indentTo (depth + 1) f.2.1 rest)
    rw [utf8Len_cons, utf8Len_cons, h f (hperm.mem_iff.mp hf), hcolon, hspace] at hquote
    rw [indentMember, asciiMemberTo, hquote]
    omega
  have hsizes := hperm.map fun f => asciiSize f.1 + 4 + f.2.2
  rw [indentTo_obj, sortMembers_map, List.map_map,
    show indentMember (depth + 1) ∘ (fun f : Text × Json × Nat => (f.1, f.2.1)) =
      fun f => indentMember (depth + 1) (f.1, f.2.1) from rfl,
    utf8Len_blockTo depth rfl rfl hmember]
  congr 1
  rw [blockSize, blockSize, (hsizes.map _).sum_nat, hsizes.isEmpty_eq]

theorem utf8Len_indented {j : Json} {size : Nat} (h : Occupies 0 j size) :
    utf8Len (indented j) = size + 1 := h ['\n']

end RalphVault.Json
