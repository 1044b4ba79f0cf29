import RalphVault.Context.Capsule
import RalphVault.Blanks

/-!
# Context — what a capsule shows

The budgets of a capsule, and what its lines can hold: no absolute path,
and no run of seven or more hexadecimal digits, as long as the sanitised
fields hold no word that starts with more than 64 of them.
-/

namespace RalphVault.Context.Capsule

open Memory
open SessionStart (joinLines)

/-! ## Characters -/

theorem foldCase_of_not_wordChar {c : Char} (h : isWordChar c = false) : foldCase c = c := by
  unfold isWordChar at h
  unfold foldCase at h ⊢
  split
  · rename_i hupper
    rw [if_pos hupper] at h
    -- the lower case of a capital letter is a letter
    have hall : ∀ n < 128, isAsciiUpper (Char.ofNat n) = true →
        isAsciiLower (Char.ofNat ((Char.ofNat n).toNat + 32)) = true := by decide
    have hascii : c.toNat < 128 := by
      simp only [isAsciiUpper, Bool.and_eq_true, decide_eq_true_eq] at hupper
      omega
    have hlower := hall c.toNat hascii (by rwa [Char.ofNat_toNat])
    rw [Char.ofNat_toNat] at hlower
    rw [isAsciiAlnum, hlower] at h
    cases h
  · rename_i hupper
    rw [if_neg hupper] at h
    split
    · rename_i hi
      rw [if_pos hi] at h
      cases h
    · rename_i hi
      rw [if_neg hi] at h
      split
      · rename_i hs
        rw [if_pos hs] at h
        cases h
      · rename_i hs
        rw [if_neg hs] at h
        split
        · rename_i hk
          rw [if_pos hk] at h
          cases h
        · rfl

theorem isWordChar_of_alnum {c : Char} (h : isAsciiAlnum c = true) : isWordChar c = true := by
  by_contra hne
  have hword : isWordChar c = false := by simpa using hne
  have hfold := foldCase_of_not_wordChar hword
  rw [isWordChar, hfold, h] at hword
  cases hword

theorem isWordChar_of_isHex {c : Char} (h : isHex c = true) : isWordChar c = true := by
  refine isWordChar_of_alnum ?_
  simp only [isHex, isAsciiDigit, Bool.or_eq_true, Bool.and_eq_true, decide_eq_true_eq] at h
  simp only [isAsciiAlnum, isAsciiLower, isAsciiUpper, isAsciiDigit, Bool.or_eq_true,
    Bool.and_eq_true, decide_eq_true_eq]
  omega

theorem not_wordChar_of_space {c : Char} (h : isSpace c = true) : isWordChar c = false := by
  simp only [isSpace, Bool.or_eq_true, Bool.and_eq_true, decide_eq_true_eq, beq_iff_eq] at h
  have hupper : isAsciiUpper c = false := by
    simp only [isAsciiUpper, Bool.and_eq_false_iff, decide_eq_false_iff_not]
    omega
  have hfold : foldCase c = c := by
    unfold foldCase
    rw [if_neg (by simp [hupper]), if_neg (by simp only [Bool.or_eq_true, beq_iff_eq]; omega),
      if_neg (by simp only [beq_iff_eq]; omega), if_neg (by simp only [beq_iff_eq]; omega)]
  rw [isWordChar, hfold]
  simp only [isAsciiAlnum, isAsciiLower, isAsciiUpper, isAsciiDigit, Bool.or_eq_false_iff,
    Bool.and_eq_false_iff, decide_eq_false_iff_not]
  omega

/-- A blank, a comma or a semicolon is no letter or digit. -/
theorem not_wordChar_of_not_pathChar {c : Char} (h : isPathChar c = false) : isWordChar c = false := by
  simp only [isPathChar, Bool.not_eq_false', Bool.or_eq_true, beq_iff_eq] at h
  rcases h with (h | rfl) | rfl
  · exact not_wordChar_of_space h
  · decide
  · decide

theorem not_pathChar_of_space {c : Char} (h : isSpace c = true) : isPathChar c = false := by
  simp [isPathChar, h]

theorem not_alnum_of_not_wordChar {c : Char} (h : isWordChar c = false) : isAsciiAlnum c = false := by
  by_contra hne
  rw [isWordChar_of_alnum (by simpa using hne)] at h
  cases h

/-! ## What is looked for -/

/-- A digest mark with eight digits behind it. -/
def digestAt : Place := fun _ t => frontMatches digestMark t

/-- A word that starts with `n` hexadecimal digits. -/
def hexRunAt (n : Nat) : Place := fun prev t =>
  wordStart prev && frontMatches (List.replicate n isHex) t

/-- A word of seven or more hexadecimal digits. -/
def hashAt : Place := fun prev t =>
  let run := t.takeWhile isWordChar
  wordStart prev && run.all isHex && 7 ≤ run.length

/-- No absolute path and no content hash. -/
structure Sanitary (t : Text) : Prop where
  absolute : occurs absolutePathAt none t = false
  windows : occurs windowsPathAt none t = false
  hash : occurs hashAt none t = false

/-- No digest mark, and no word that starts with more than 64 digits of a hash. -/
structure Tame (t : Text) : Prop where
  digest : occurs digestAt none t = false
  hexRun : occurs (hexRunAt 65) none t = false

/-- The characters across which neither a digest nor a word goes. -/
def isTokenBreak (c : Char) : Bool := !(isWordChar c || c == ':')

theorem isTokenBreak_of_space {c : Char} (h : isSpace c = true) : isTokenBreak c = true := by
  have hcolon : c ≠ ':' := by
    rintro rfl
    revert h
    decide
  simp [isTokenBreak, not_wordChar_of_space h, hcolon]

theorem not_wordChar_of_break {c : Char} (h : isTokenBreak c = true) : isWordChar c = false := by
  simp only [isTokenBreak, Bool.not_eq_true', Bool.or_eq_false_iff] at h
  exact h.1

theorem digestMark_token : ∀ p ∈ digestMark, ∀ c, p c = true → (isWordChar c || c == ':') = true := by
  have hfold : ∀ a, isAsciiAlnum a = true → ∀ c, (foldCase c == a) = true → isWordChar c = true := by
    intro a ha c hc
    rw [isWordChar, beq_iff_eq.mp hc, ha]
  have hcolon : ∀ c, (foldCase c == ':') = true → (isWordChar c || c == ':') = true := by
    intro c hc
    cases hword : isWordChar c with
    | true => rfl
    | false =>
        rw [foldCase_of_not_wordChar hword] at hc
        rw [hc]
        rfl
  intro p hp
  rcases List.mem_append.mp hp with hp | hp
  · obtain ⟨a, ha, rfl⟩ := List.mem_map.mp hp
    have halnum : ∀ a ∈ txt "sha256:", a = ':' ∨ isAsciiAlnum a = true := by decide
    intro c hc
    rcases halnum a ha with rfl | ha
    · exact hcolon c hc
    · rw [hfold a ha c hc]
      rfl
  · intro c hc
    rw [List.eq_of_mem_replicate hp] at hc
    rw [isWordChar_of_isHex hc]
    rfl

theorem takeWhile_wordChar (t : Text) :
    (t.takeWhile fun c => !isTokenBreak c).takeWhile isWordChar = t.takeWhile isWordChar := by
  rw [List.takeWhile_takeWhile]
  congr 1
  funext c
  cases hc : isWordChar c with
  | true => simp [isTokenBreak, hc]
  | false => simp

theorem wordStart_break {b : Char} (h : isTokenBreak b = true) : wordStart (some b) = wordStart none := by
  simp [wordStart, not_wordChar_of_break h]

theorem not_frontMatches {p : Char → Bool} {ps : List (Char → Bool)} {c : Char} (h : p c = false)
    (t : Text) : frontMatches (p :: ps) (c :: t) = false := by
  show (p c && frontMatches ps t) = false
  rw [h]
  rfl

theorem not_digestMark {c : Char} (h : isWordChar c = false) (t : Text) :
    frontMatches digestMark (c :: t) = false := by
  have hfirst : (foldCase c == 's') = false := by
    rw [foldCase_of_not_wordChar h, beq_eq_false_iff_ne]
    rintro rfl
    revert h
    decide
  exact not_frontMatches hfirst t

theorem local_digestAt : Local isTokenBreak digestAt := by
  refine ⟨fun prev b t hb => ?_, fun b t hb => rfl, fun prev t => ?_⟩
  · exact not_digestMark (not_wordChar_of_break hb) t
  · refine (frontMatches_takeWhile (fun p hp c hc => ?_) t)
    rw [isTokenBreak, Bool.not_not]
    exact digestMark_token p hp c hc

theorem local_hexRunAt (n : Nat) : Local isTokenBreak (hexRunAt (n + 1)) := by
  refine ⟨fun prev b t hb => ?_, fun b t hb => ?_, fun prev t => ?_⟩
  · have hhex : isHex b = false := by
      by_contra hne
      rw [isTokenBreak, isWordChar_of_isHex (by simpa using hne)] at hb
      cases hb
    rw [hexRunAt, List.replicate_succ, not_frontMatches hhex, Bool.and_false]
  · rw [hexRunAt, hexRunAt, wordStart_break hb]
  · rw [hexRunAt, hexRunAt, frontMatches_takeWhile (fun p hp c hc => ?_) t]
    rw [List.eq_of_mem_replicate hp] at hc
    rw [isTokenBreak, isWordChar_of_isHex hc]
    rfl

theorem local_hashAt : Local isTokenBreak hashAt := by
  refine ⟨fun prev b t hb => ?_, fun b t hb => ?_, fun prev t => ?_⟩
  · have hrun : (b :: t).takeWhile isWordChar = [] :=
      List.takeWhile_cons_of_neg (by simp [not_wordChar_of_break hb])
    simp [hashAt, hrun]
  · simp only [hashAt, wordStart_break hb]
  · simp only [hashAt, takeWhile_wordChar]

theorem nameStart_space {b : Char} (h : isSpace b = true) : nameStart (some b) = nameStart none := by
  simp [nameStart, not_alnum_of_not_wordChar (not_wordChar_of_space h)]

/-- A path starts at a visible character, and every character asked for is visible. -/
theorem local_path {p : Char → Bool} {ps : List (Char → Bool)}
    (h : ∀ q ∈ p :: ps, ∀ c, q c = true → isSpace c = false) :
    Local isSpace fun prev t => nameStart prev && frontMatches (p :: ps) t := by
  refine ⟨fun prev b t hb => ?_, fun b t hb => ?_, fun prev t => ?_⟩
  · have hp : p b = false := by
      by_contra hne
      rw [h p List.mem_cons_self b (by simpa using hne)] at hb
      cases hb
    rw [not_frontMatches hp, Bool.and_false]
  · rw [nameStart_space hb]
  · rw [frontMatches_takeWhile (fun q hq c hc => ?_) t]
    rw [h q hq c hc]
    rfl

theorem not_space_of_eq {a c : Char} (ha : isSpace a = false) (h : (c == a) = true) : isSpace c = false :=
  beq_iff_eq.mp h ▸ ha

theorem not_space_of_pathChar {c : Char} (h : isPathChar c = true) : isSpace c = false := by
  by_contra hne
  rw [not_pathChar_of_space (by simpa using hne)] at h
  cases h

theorem not_space_of_letter {c : Char} (h : (isAsciiLower c || isAsciiUpper c) = true) :
    isSpace c = false := by
  by_contra hne
  have hword := not_alnum_of_not_wordChar (not_wordChar_of_space (c := c) (by simpa using hne))
  rw [isAsciiAlnum, h] at hword
  cases hword

theorem local_absolutePathAt : Local isSpace absolutePathAt := by
  refine local_path ?_
  rw [List.forall_mem_cons, List.forall_mem_singleton]
  exact ⟨fun c hc => not_space_of_eq (by decide) hc, fun c hc => not_space_of_pathChar hc⟩

theorem local_windowsPathAt : Local isSpace windowsPathAt := by
  refine local_path ?_
  rw [List.forall_mem_cons, List.forall_mem_cons, List.forall_mem_cons, List.forall_mem_singleton]
  exact ⟨fun c hc => not_space_of_letter hc, fun c hc => not_space_of_eq (by decide) hc,
    fun c hc => not_space_of_eq (by decide) hc, fun c hc => not_space_of_pathChar hc⟩

/-! ## Removing hexadecimal words -/

theorem hexHashAt_of_inside {prev : Option Char} (h : wordStart prev = false) (t : Text) :
    hexHashAt prev t = false := by
  simp [hexHashAt, h]

/-- Inside a word nothing is removed. -/
theorem takeWhile_dropHex (t : Text) : ∀ {prev : Option Char}, wordStart prev = false →
    (replaceFrom hexHashAt (fun c => !isWordChar c) [] false prev t).takeWhile isWordChar =
      t.takeWhile isWordChar := by
  induction t with
  | nil =>
      intro prev _
      rfl
  | cons c t ih =>
      intro prev h
      rw [replaceFrom, if_neg (by simp [hexHashAt_of_inside h])]
      cases hc : isWordChar c with
      | true =>
          have hinside : wordStart (some c) = false := by simp [wordStart, hc]
          rw [List.takeWhile_cons_of_pos hc, List.takeWhile_cons_of_pos hc, ih hinside]
      | false =>
          rw [List.takeWhile_cons_of_neg (by simp [hc]), List.takeWhile_cons_of_neg (by simp [hc])]

/-- A run of hexadecimal digits starts with as many as it has. -/
theorem frontMatches_run {n : Nat} {t : Text} (hall : (t.takeWhile isWordChar).all isHex = true)
    (hlen : n ≤ (t.takeWhile isWordChar).length) : frontMatches (List.replicate n isHex) t = true := by
  induction n generalizing t with
  | zero => rfl
  | succ n ih =>
      cases t with
      | nil => cases hlen
      | cons c t =>
          cases hc : isWordChar c with
          | false =>
              rw [List.takeWhile_cons_of_neg (by simp [hc])] at hlen
              cases hlen
          | true =>
              rw [List.takeWhile_cons_of_pos hc, List.all_cons, Bool.and_eq_true] at hall
              rw [List.takeWhile_cons_of_pos hc, List.length_cons] at hlen
              rw [List.replicate_succ, frontMatches, hall.1]
              exact ih hall.2 (by omega)

section DropHex

variable {P Q : Place} {t : Text}

/-- `occurs_replace` where nothing is put in the place of a match. -/
theorem occurs_dropHexHashes (hstop : ∀ prev c t, isWordChar c = false → P prev (c :: t) = false)
    (hkeep : ∀ prev c t, hexHashAt prev (c :: t) = false →
      P prev (c :: replaceFrom hexHashAt (fun c => !isWordChar c) [] false (some c) t) = true →
        Q prev (c :: t) = true)
    (h : occurs Q none t = false) : occurs P none (dropHexHashes t) = false := by
  have hreplace := (@occurs_replace hexHashAt (fun c => !isWordChar c) [] P Q
    (fun prev c t hc => hstop prev c t (by simpa using hc)) (fun prev u hu => ⟨prev, hu⟩) hkeep t none).1
  by_contra hne
  have hfound := hreplace (by simpa [dropHexHashes] using hne)
  rw [h] at hfound
  cases hfound

/-- What is left of hexadecimal words is longer than 64 digits. -/
theorem hashAt_dropHexHashes (h : occurs (hexRunAt 65) none t = false) :
    occurs hashAt none (dropHexHashes t) = false := by
  refine occurs_dropHexHashes (Q := hexRunAt 65) ?_ ?_ h
  · intro prev c t hc
    have hrun : (c :: t).takeWhile isWordChar = [] := List.takeWhile_cons_of_neg (by simp [hc])
    simp [hashAt, hrun]
  · intro prev c t hkept hfound
    simp only [hashAt, Bool.and_eq_true, decide_eq_true_eq] at hfound
    obtain ⟨⟨hstart, hall⟩, hlen⟩ := hfound
    have hc : isWordChar c = true := by
      by_contra hne
      rw [List.takeWhile_cons_of_neg hne] at hlen
      cases hlen
    have hinside : wordStart (some c) = false := by simp [wordStart, hc]
    have hrun : (c :: replaceFrom hexHashAt (fun c => !isWordChar c) [] false (some c) t).takeWhile
        isWordChar = (c :: t).takeWhile isWordChar := by
      rw [List.takeWhile_cons_of_pos hc, List.takeWhile_cons_of_pos hc, takeWhile_dropHex t hinside]
    rw [hrun] at hall hlen
    have hlong : 65 ≤ ((c :: t).takeWhile isWordChar).length := by
      by_contra hshort
      have hmatch : hexHashAt prev (c :: t) = true := by
        simp only [hexHashAt, Bool.and_eq_true, decide_eq_true_eq]
        exact ⟨⟨⟨hstart, hall⟩, hlen⟩, by omega⟩
      rw [hkept] at hmatch
      cases hmatch
    rw [hexRunAt, hstart, frontMatches_run hall hlong]
    rfl

end DropHex

/-! ## Replacing paths -/

/-- The result of a replacement from a place on. -/
def subPathsFrom (starts : Place) (prev : Option Char) (t : Text) : Text :=
  replaceFrom starts (fun c => !isPathChar c) repoFile false prev t

section SubPaths

variable {starts P Q : Place} {t : Text}

theorem occurs_subPaths (hstop : ∀ prev c t, isPathChar c = false → P prev (c :: t) = false)
    (hlabel : ∀ prev u, occurs P prev (repoFile ++ u) = occurs P (some 'e') u)
    (hkeep : ∀ prev c t, starts prev (c :: t) = false →
      P prev (c :: subPathsFrom starts (some c) t) = true → Q prev (c :: t) = true)
    (h : occurs Q none t = false) : occurs P none (subPaths starts t) = false := by
  have hreplace := (@occurs_replace starts (fun c => !isPathChar c) repoFile P Q
    (fun prev c t hc => hstop prev c t (by simpa using hc))
    (fun prev u hu => ⟨some 'e', by rw [← hlabel prev u, hu]⟩) hkeep t none).1
  by_contra hne
  have hfound := hreplace (by simpa [subPaths] using hne)
  rw [h] at hfound
  cases hfound

/-- A character of the result that does not start the label is one of the text. -/
theorem subPathsFrom_eq_cons {prev : Option Char} {a : Char} {o : Text}
    (h : subPathsFrom starts prev t = a :: o) (ha : a ≠ 'r') :
    ∃ t', t = a :: t' ∧ o = subPathsFrom starts (some a) t' := by
  refine replaceFrom_eq_cons h ?_ ?_
  · intro hhead
    exact ha (Option.some.inj hhead).symm
  · intro hnil
    cases hnil

/-- A word of the result that does not come from the label is one of the text. -/
theorem takeWhile_subPaths (t : Text) : ∀ {prev : Option Char},
    'r' ∉ (subPathsFrom starts prev t).takeWhile isWordChar →
    (subPathsFrom starts prev t).takeWhile isWordChar = t.takeWhile isWordChar := by
  induction t with
  | nil =>
      intro prev _
      rfl
  | cons c t ih =>
      intro prev h
      unfold subPathsFrom at h ⊢
      rw [replaceFrom] at h ⊢
      split
      · rename_i hstarts
        rw [if_pos hstarts] at h
        exact absurd List.mem_cons_self h
      · rename_i hstarts
        rw [if_neg hstarts] at h
        cases hc : isWordChar c with
        | true =>
            rw [List.takeWhile_cons_of_pos hc] at h
            rw [List.takeWhile_cons_of_pos hc, List.takeWhile_cons_of_pos hc]
            exact congrArg (c :: ·) (ih fun hmem => h (List.mem_cons_of_mem c hmem))
        | false =>
            rw [List.takeWhile_cons_of_neg (by simp [hc]), List.takeWhile_cons_of_neg (by simp [hc])]

theorem hashAt_subPaths (h : occurs hashAt none t = false) :
    occurs hashAt none (subPaths starts t) = false := by
  refine occurs_subPaths (Q := hashAt) ?_ ?_ ?_ h
  · intro prev c t hc
    have hrun : (c :: t).takeWhile isWordChar = [] :=
      List.takeWhile_cons_of_neg (by simp [not_wordChar_of_not_pathChar hc])
    simp [hashAt, hrun]
  · -- neither of the two words of the label is hexadecimal
    intro prev u
    have hinside : ∀ a t, isWordChar a = true → hashAt (some a) t = false := by
      intro a t ha
      simp [hashAt, wordStart, ha]
    have hlabel : repoFile ++ u = 'r' :: 'e' :: 'p' :: 'o' :: '-' :: 'f' :: 'i' :: 'l' :: 'e' :: u := rfl
    have hrepo : hashAt prev ('r' :: 'e' :: 'p' :: 'o' :: '-' :: 'f' :: 'i' :: 'l' :: 'e' :: u) = false := by
      have hrun : ('r' :: 'e' :: 'p' :: 'o' :: '-' :: 'f' :: 'i' :: 'l' :: 'e' :: u).takeWhile isWordChar =
          txt "repo" := rfl
      have hall : (txt "repo").all isHex = false := by decide
      simp [hashAt, hrun, hall]
    have hdash : hashAt (some 'o') ('-' :: 'f' :: 'i' :: 'l' :: 'e' :: u) = false := hinside 'o' _ rfl
    have hfile : hashAt (some '-') ('f' :: 'i' :: 'l' :: 'e' :: u) = false := by
      have hrun : ('f' :: 'i' :: 'l' :: 'e' :: u).takeWhile isWordChar =
          'f' :: 'i' :: ('l' :: 'e' :: u).takeWhile isWordChar := rfl
      have hall : ('f' :: 'i' :: ('l' :: 'e' :: u).takeWhile isWordChar).all isHex = false := by
        rw [List.all_cons, List.all_cons]
        rfl
      simp [hashAt, hrun, hall]
    simp only [hlabel, occurs_cons, hrepo, hdash, hfile, hinside 'r' _ rfl, hinside 'e' _ rfl,
      hinside 'p' _ rfl, hinside 'f' _ rfl, hinside 'i' _ rfl, hinside 'l' _ rfl, Bool.false_or]
  · intro prev c t _ hfound
    simp only [hashAt, Bool.and_eq_true, decide_eq_true_eq] at hfound
    obtain ⟨⟨hstart, hall⟩, hlen⟩ := hfound
    have hc : isWordChar c = true := by
      by_contra hne
      rw [List.takeWhile_cons_of_neg hne] at hlen
      cases hlen
    rw [List.takeWhile_cons_of_pos hc, List.all_cons, Bool.and_eq_true] at hall
    have hlabel : 'r' ∉ (subPathsFrom starts (some c) t).takeWhile isWordChar := by
      intro hmem
      exact absurd (List.all_eq_true.mp hall.2 'r' hmem) (by decide)
    rw [List.takeWhile_cons_of_pos hc, takeWhile_subPaths t hlabel] at hlen
    rw [takeWhile_subPaths t hlabel] at hall
    simp only [hashAt, List.takeWhile_cons_of_pos hc, List.all_cons, Bool.and_eq_true, decide_eq_true_eq]
    exact ⟨⟨hstart, hall⟩, hlen⟩

/-- What follows a kept character in the result follows it in the text, as far
as it belongs to a path. -/
theorem pathChar_subPaths (hstarts : ∀ prev c t, isPathChar c = false → starts prev (c :: t) = false)
    {prev : Option Char} (h : frontMatches [isPathChar] (subPathsFrom starts prev t) = true) :
    frontMatches [isPathChar] t = true := by
  cases t with
  | nil => cases h
  | cons c t =>
      cases hc : isPathChar c with
      | true => simp [frontMatches, hc]
      | false =>
          have hkept : subPathsFrom starts prev (c :: t) = c :: subPathsFrom starts (some c) t := by
            unfold subPathsFrom
            rw [replaceFrom, if_neg (by simp [hstarts prev c t hc])]
          rw [hkept, not_frontMatches hc] at h
          cases h

theorem not_path_of_stop {p : Char → Bool} {ps : List (Char → Bool)}
    (hp : ∀ c, p c = true → isPathChar c = true) (prev : Option Char) {c : Char}
    (hc : isPathChar c = false) (t : Text) : (nameStart prev && frontMatches (p :: ps) (c :: t)) = false := by
  have hpc : p c = false := by
    by_contra hne
    rw [hp c (by simpa using hne)] at hc
    cases hc
  rw [not_frontMatches hpc, Bool.and_false]

theorem absolutePathAt_stop (prev : Option Char) (c : Char) (t : Text) (hc : isPathChar c = false) :
    absolutePathAt prev (c :: t) = false := by
  refine not_path_of_stop (fun d hd => ?_) prev hc t
  rw [beq_iff_eq.mp hd]
  decide

theorem windowsPathAt_stop (prev : Option Char) (c : Char) (t : Text) (hc : isPathChar c = false) :
    windowsPathAt prev (c :: t) = false := by
  refine not_path_of_stop (fun d hd => ?_) prev hc t
  by_contra hne
  have hword := not_alnum_of_not_wordChar (not_wordChar_of_not_pathChar (by simpa using hne))
  rw [isAsciiAlnum, hd] at hword
  cases hword

theorem absolutePathAt_label (prev : Option Char) (u : Text) :
    occurs absolutePathAt prev (repoFile ++ u) = occurs absolutePathAt (some 'e') u := by
  have hlabel : repoFile ++ u = 'r' :: 'e' :: 'p' :: 'o' :: '-' :: 'f' :: 'i' :: 'l' :: 'e' :: u := rfl
  have hno : ∀ prev c t, (c == '/') = false → absolutePathAt prev (c :: t) = false := by
    intro prev c t hc
    have hfront : frontMatches [(· == '/'), isPathChar] (c :: t) = false := not_frontMatches hc t
    rw [absolutePathAt, hfront, Bool.and_false]
  simp only [hlabel, occurs_cons, hno _ 'r' _ rfl, hno _ 'e' _ rfl, hno _ 'p' _ rfl, hno _ 'o' _ rfl,
    hno _ '-' _ rfl, hno _ 'f' _ rfl, hno _ 'i' _ rfl, hno _ 'l' _ rfl, Bool.false_or]

/-- A place of an absolute path in the result is one in the text, and was not
started at. -/
theorem absolutePathAt_kept (hstarts : ∀ prev c t, isPathChar c = false → starts prev (c :: t) = false)
    (prev : Option Char) (c : Char) (t : Text)
    (h : absolutePathAt prev (c :: subPathsFrom starts (some c) t) = true) :
    absolutePathAt prev (c :: t) = true := by
  rw [absolutePathAt, Bool.and_eq_true, frontMatches, Bool.and_eq_true] at h
  obtain ⟨hname, hc, hrest⟩ := h
  rw [absolutePathAt, hname, frontMatches, hc, pathChar_subPaths hstarts hrest]
  rfl

/-- No absolute path is left. -/
theorem absolutePathAt_subPaths (t : Text) :
    occurs absolutePathAt none (subPaths absolutePathAt t) = false := by
  have hnone : occurs (fun _ _ => false) none t = false := by
    suffices h : ∀ prev, occurs (fun _ _ => false) prev t = false from h none
    induction t with
    | nil => exact fun _ => rfl
    | cons c t ih => exact fun _ => ih (some c)
  refine occurs_subPaths absolutePathAt_stop absolutePathAt_label (fun prev c t hkept h => ?_) hnone
  rw [absolutePathAt_kept absolutePathAt_stop prev c t h] at hkept
  cases hkept

theorem absolutePathAt_subWindows (h : occurs absolutePathAt none t = false) :
    occurs absolutePathAt none (subPaths windowsPathAt t) = false :=
  occurs_subPaths absolutePathAt_stop absolutePathAt_label
    (fun prev c t _ h => absolutePathAt_kept windowsPathAt_stop prev c t h) h

theorem windowsPathAt_label (prev : Option Char) (u : Text) :
    occurs windowsPathAt prev (repoFile ++ u) = occurs windowsPathAt (some 'e') u := by
  have hlabel : repoFile ++ u = 'r' :: 'e' :: 'p' :: 'o' :: '-' :: 'f' :: 'i' :: 'l' :: 'e' :: u := rfl
  have hno : ∀ prev c d t, (d == ':') = false → windowsPathAt prev (c :: d :: t) = false := by
    intro prev c d t hd
    have hfront : frontMatches [(· == ':'), (· == '\\'), isPathChar] (d :: t) = false :=
      not_frontMatches hd t
    rw [windowsPathAt, frontMatches, hfront, Bool.and_false, Bool.and_false]
  have hlast : windowsPathAt (some 'l') ('e' :: u) = false := rfl
  simp only [hlabel, occurs_cons, hno _ 'r' 'e' _ rfl, hno _ 'e' 'p' _ rfl, hno _ 'p' 'o' _ rfl,
    hno _ 'o' '-' _ rfl, hno _ '-' 'f' _ rfl, hno _ 'f' 'i' _ rfl, hno _ 'i' 'l' _ rfl,
    hno _ 'l' 'e' _ rfl, hlast, Bool.false_or]

/-- No path with a drive is left. -/
theorem windowsPathAt_subPaths (t : Text) :
    occurs windowsPathAt none (subPaths windowsPathAt t) = false := by
  have hnone : occurs (fun _ _ => false) none t = false := by
    suffices h : ∀ prev, occurs (fun _ _ => false) prev t = false from h none
    induction t with
    | nil => exact fun _ => rfl
    | cons c t ih => exact fun _ => ih (some c)
  refine occurs_subPaths windowsPathAt_stop windowsPathAt_label (fun prev c t hkept h => ?_) hnone
  rw [windowsPathAt, Bool.and_eq_true, frontMatches, Bool.and_eq_true] at h
  obtain ⟨hname, hletter, hrest⟩ := h
  -- the colon and the backslash are kept characters of the text
  cases hout : subPathsFrom windowsPathAt (some c) t with
  | nil =>
      rw [hout] at hrest
      cases hrest
  | cons d o =>
      rw [hout, frontMatches, Bool.and_eq_true, beq_iff_eq] at hrest
      obtain ⟨rfl, hrest⟩ := hrest
      obtain ⟨t, rfl, rfl⟩ := subPathsFrom_eq_cons hout (by decide)
      cases hout' : subPathsFrom windowsPathAt (some ':') t with
      | nil =>
          rw [hout'] at hrest
          cases hrest
      | cons d o =>
          rw [hout', frontMatches, Bool.and_eq_true, beq_iff_eq] at hrest
          obtain ⟨rfl, hrest⟩ := hrest
          obtain ⟨t, rfl, rfl⟩ := subPathsFrom_eq_cons hout' (by decide)
          have hmatch : windowsPathAt prev (c :: ':' :: '\\' :: t) = true := by
            rw [windowsPathAt, hname, frontMatches, hletter, frontMatches, frontMatches,
              pathChar_subPaths windowsPathAt_stop hrest]
            rfl
          rw [hkept] at hmatch
          cases hmatch

end SubPaths

/-! ## The whole of `_clean` -/

theorem occurs_compactSpace {P : Place} (h : Local isSpace P) (t : Text) :
    occurs P none (compactSpace t) = occurs P none t := by
  rw [h.occurs_words t]
  exact h.occurs_joinWith (by decide) rfl (.inl rfl) (words t)

theorem dropDigests_of_none {t : Text} {prev : Option Char} (h : occurs digestAt prev t = false) :
    dropDigests 0 t = t := by
  induction t generalizing prev with
  | nil => rfl
  | cons c t ih =>
      rw [occurs_cons, Bool.or_eq_false_iff] at h
      have hlen : digestLength (c :: t) = 0 := by
        have hmark : frontMatches digestMark (c :: t) = false := h.1
        rw [digestLength, hmark]
        rfl
      rw [dropDigests, hlen]
      exact congrArg (c :: ·) (ih h.2)

/-- A tame text is sanitary once it is cleaned. -/
theorem Tame.sanitized {t : Text} (h : Tame t) : Sanitary (sanitized t) := by
  have hspace : ∀ {P : Place}, Local isTokenBreak P → Local isSpace P :=
    fun hP => hP.mono fun c hc => isTokenBreak_of_space hc
  have hdigest : occurs digestAt none (compactSpace t) = false := by
    rw [occurs_compactSpace (hspace local_digestAt), h.digest]
  have hhex : occurs (hexRunAt 65) none (compactSpace t) = false := by
    rw [occurs_compactSpace (hspace (local_hexRunAt 64)), h.hexRun]
  have hhash := hashAt_dropHexHashes hhex
  have habsolute := absolutePathAt_subPaths (dropHexHashes (compactSpace t))
  unfold Capsule.sanitized
  rw [dropDigests_of_none hdigest]
  refine ⟨?_, ?_, ?_⟩
  · rw [occurs_compactSpace local_absolutePathAt]
    exact absolutePathAt_subWindows habsolute
  · rw [occurs_compactSpace local_windowsPathAt]
    exact windowsPathAt_subPaths _
  · rw [occurs_compactSpace (hspace local_hashAt)]
    exact hashAt_subPaths (hashAt_subPaths hhash)

/-! ## The lines of a capsule -/

/-- A word that the mark of a cut ends: the head of a sanitary word. -/
def CutWord (w : Text) : Prop :=
  ∃ whole head, Sanitary whole ∧ head <+: whole ∧ w = head ++ txt "..."

/-- The words of a line are sanitary; only a line of the full length may end in
the head of one. -/
structure SafeLine (line : Text) : Prop where
  compact : compactSpace line = line
  front : ∀ w ∈ (words line).dropLast, Sanitary w
  last : ∀ w ∈ (words line).getLast?, Sanitary w ∨ 499 ≤ line.length ∧ CutWord w

theorem Sanitary.word {t w : Text} (h : Sanitary t) (hw : w ∈ words t) : Sanitary w := by
  have hpart : ∀ {P : Place}, Local isSpace P → occurs P none t = false → occurs P none w = false := by
    intro P hP ht
    rw [hP.occurs_words, List.any_eq_false] at ht
    simpa using ht w hw
  exact ⟨hpart local_absolutePathAt h.absolute, hpart local_windowsPathAt h.windows,
    hpart (local_hashAt.mono fun c hc => isTokenBreak_of_space hc) h.hash⟩

theorem joinWith_concat_append (front : List Text) (last t : Text) :
    joinWith [' '] (front ++ [last]) ++ t = joinWith [' '] (front ++ [last ++ t]) := by
  induction front with
  | nil => rfl
  | cons w front ih =>
      cases front with
      | nil => simp [joinWith]
      | cons w' front =>
          rw [List.cons_append, List.cons_append, List.cons_append, List.cons_append,
            joinWith_cons_cons, joinWith_cons_cons, ← List.cons_append, ← List.cons_append, ← ih,
            List.append_assoc, List.cons_append]

/-- A cleaned line is safe. -/
theorem safeLine_clean {raw : Text} (h : Tame raw) : SafeLine (clean 500 raw) := by
  have hsanitary := h.sanitized
  obtain ⟨ws, hgood, hws⟩ : ∃ ws : List Text, (∀ w ∈ ws, w ≠ [] ∧ ∀ c ∈ w, isSpace c = false) ∧
      sanitized raw = joinWith [' '] ws := ⟨_, fun _ hw => mem_words hw, rfl⟩
  have hwords : words (sanitized raw) = ws := by rw [hws, words_joinWith hgood]
  have hword : ∀ w ∈ ws, Sanitary w := fun w hw => hsanitary.word (by rw [hwords]; exact hw)
  unfold clean
  split
  · rename_i hlong
    obtain ⟨hs, hjoin, hheads, hfront, hlast, hlen⟩ :=
      @exists_heads ws hgood ((sanitized raw).take (500 - 3)) (hws ▸ List.take_prefix _ _)
    have hcount : ((sanitized raw).take (500 - 3)).length = 497 := by
      rw [List.length_take]
      omega
    rw [hcount] at hlen
    rcases List.eq_nil_or_concat hs with rfl | ⟨front, last, rfl⟩
    · rw [hjoin] at hlen
      exact absurd hlen (by decide)
    · rw [List.concat_eq_append] at *
      rw [List.dropLast_concat] at hfront
      obtain ⟨whole, hwhole, hprefix⟩ := hlast last (by rw [List.getLast?_concat]; rfl)
      -- the mark goes to the last word
      have hline : rstrip ((sanitized raw).take (500 - 3)) ++ txt "..." =
          joinWith [' '] (front ++ [last ++ txt "..."]) := by
        rw [hjoin, joinWith_concat_append]
      have hgood' : ∀ w ∈ front ++ [last ++ txt "..."], w ≠ [] ∧ ∀ c ∈ w, isSpace c = false := by
        intro w hw
        rcases List.mem_append.mp hw with hw | hw
        · exact hheads w (List.mem_append_left _ hw)
        · obtain ⟨hne, hvisible⟩ := hheads last (List.mem_append_right _ List.mem_cons_self)
          rw [List.mem_singleton.mp hw]
          refine ⟨List.append_ne_nil_of_left_ne_nil hne _, List.forall_mem_append.mpr ⟨hvisible, ?_⟩⟩
          decide
      have hlineWords := words_joinWith hgood'
      refine ⟨?_, ?_, ?_⟩
      · rw [hline, compactSpace, hlineWords]
      · rw [hline, hlineWords, List.dropLast_concat]
        exact fun w hw => hword w (hfront w hw)
      · intro w hw
        have hlength : 499 ≤ (rstrip ((sanitized raw).take (500 - 3)) ++ txt "...").length := by
          rw [List.length_append]
          show 499 ≤ _ + 3
          omega
        refine .inr ⟨hlength, whole, last, hword whole hwhole, hprefix, ?_⟩
        rw [hline, hlineWords, List.getLast?_concat] at hw
        exact (Option.some.inj hw).symm
  · refine ⟨by rw [compactSpace, hwords, hws], ?_, ?_⟩
    · intro w hw
      exact hword w (hwords ▸ List.dropLast_subset _ hw)
    · intro w hw
      exact .inl (hword w (hwords ▸ List.mem_of_getLast? hw))

/-- Words taken off the end leave a safe line. -/
theorem SafeLine.popWords {line v : Text} {b w : Nat} (h : SafeLine line) :
    ∀ n, n ≤ (words line).length → popWords b w (words line) n = some v → SafeLine v := by
  intro n
  induction n with
  | zero =>
      intro _ hv
      cases hv
  | succ n ih =>
      intro hn hv
      rw [Capsule.popWords] at hv
      split at hv
      · rw [Option.some.injEq] at hv
        by_cases hall : n + 1 = (words line).length
        · have hself : joinWith [' '] (words line) = line := h.compact
          rw [hall, List.take_length, hself] at hv
          exact hv ▸ h
        · have hgood : ∀ u ∈ (words line).take (n + 1), u ≠ [] ∧ ∀ c ∈ u, isSpace c = false :=
            fun u hu => mem_words (List.mem_of_mem_take hu)
          have hwords := words_joinWith hgood
          have hsanitary : ∀ u ∈ (words line).take (n + 1), Sanitary u := by
            intro u hu
            refine h.front u ?_
            rw [List.dropLast_eq_take]
            exact (List.take_prefix_take_left (by omega)).subset hu
          subst hv
          refine ⟨by rw [compactSpace, hwords], ?_, ?_⟩
          · intro u hu
            exact hsanitary u (hwords ▸ List.dropLast_subset _ hu)
          · intro u hu
            exact .inl (hsanitary u (hwords ▸ List.mem_of_getLast? hu))
      · exact ih (by omega) hv

theorem popWords_fits {b w : Nat} {ws : List Text} {v : Text} :
    ∀ n, popWords b w ws n = some v → fits b w v = true := by
  intro n
  induction n with
  | zero =>
      intro hv
      cases hv
  | succ n ih =>
      intro hv
      rw [popWords] at hv
      split at hv
      · rename_i hfits
        rw [Option.some.injEq] at hv
        exact hv ▸ hfits
      · exact ih hv

/-- What a turn of the loop adds fits, and is safe if its line is tame. -/
theorem fitLine_spec {b w : Nat} {selected : List Text} {raw : Text}
    (h : fits b w (joinLines selected) = true) :
    fits b w (joinLines (fitLine b w selected raw)) = true ∧
      (Tame raw → (∀ l ∈ selected, SafeLine l) → ∀ l ∈ fitLine b w selected raw, SafeLine l) := by
  simp only [fitLine]
  split
  · exact ⟨h, fun _ hsafe => hsafe⟩
  · split
    · rename_i hfits
      refine ⟨hfits, fun htame hsafe l hl => ?_⟩
      rcases List.mem_append.mp hl with hl | hl
      · exact hsafe l hl
      · rw [List.mem_singleton.mp hl]
        exact safeLine_clean htame
    · split
      · cases hpop : popWords b w (words (clean 500 raw)) (words (clean 500 raw)).length with
        | none =>
            have hempty : fits b w (joinLines []) = true := by simp [fits, joinLines, joinWith, words, splitWhere]
            exact ⟨hempty, fun _ _ l hl => absurd hl List.not_mem_nil⟩
        | some v =>
            refine ⟨popWords_fits _ hpop, fun htame _ l hl => ?_⟩
            rw [List.mem_singleton.mp hl]
            exact (safeLine_clean htame).popWords _ (Nat.le_refl _) hpop
      · exact ⟨h, fun _ hsafe => hsafe⟩

/-- The text of `_fit_lines` stays within its limits, and its lines are safe. -/
theorem fitLines_spec (lines : List Text) (b w : Nat) :
    utf8Len (fitLines lines b w) ≤ b ∧ (words (fitLines lines b w)).length ≤ w ∧
      ((∀ l ∈ lines, Tame l) → ∃ shown, fitLines lines b w = joinLines shown ∧
        ∀ l ∈ shown, SafeLine l) := by
  suffices h : ∀ (lines selected : List Text), fits b w (joinLines selected) = true →
      fits b w (joinLines (lines.foldl (fitLine b w) selected)) = true ∧
        ((∀ l ∈ lines, Tame l) → (∀ l ∈ selected, SafeLine l) →
          ∀ l ∈ lines.foldl (fitLine b w) selected, SafeLine l) by
    have hempty : fits b w (joinLines []) = true := by simp [fits, joinLines, joinWith, words, splitWhere]
    obtain ⟨hfits, hsafe⟩ := h lines [] hempty
    rw [fits, Bool.and_eq_true, decide_eq_true_eq, decide_eq_true_eq] at hfits
    exact ⟨hfits.1, hfits.2, fun htame => ⟨_, rfl, hsafe htame fun _ hl => absurd hl List.not_mem_nil⟩⟩
  intro lines
  induction lines with
  | nil => exact fun selected h => ⟨h, fun _ hsafe => hsafe⟩
  | cons raw lines ih =>
      intro selected h
      obtain ⟨hfits, hsafe⟩ := @fitLine_spec b w selected raw h
      obtain ⟨hfits', hsafe'⟩ := ih _ hfits
      refine ⟨hfits', fun htame hselected => ?_⟩
      obtain ⟨hraw, hlines⟩ := List.forall_mem_cons.mp htame
      exact hsafe' hlines (hsafe hraw hselected)

/-! ## Lines put together from cleaned fields -/

theorem Tame.append {s u : Text} {b : Char} (hs : Tame s) (hb : isTokenBreak b = true) (hu : Tame u) :
    Tame (s ++ b :: u) := by
  refine ⟨?_, ?_⟩
  · rw [local_digestAt.occurs_append hb, hs.digest, hu.digest]
    rfl
  · rw [(local_hexRunAt 64).occurs_append hb, hs.hexRun, hu.hexRun]
    rfl

/-- A label ends in a blank. -/
theorem Tame.labelled {label value : Text} (hlabel : Tame label) (hvalue : Tame value) :
    Tame (label ++ [' '] ++ value) := by
  have h := hlabel.append (b := ' ') (by decide) hvalue
  rwa [List.append_assoc]

theorem tame_joinWith {b : Char} (hb : isTokenBreak b = true) {ts : List Text} (h : ∀ t ∈ ts, Tame t) :
    Tame (joinWith [b, ' '] ts) := by
  have hspace : isTokenBreak ' ' = true := by decide
  have hend : [' '] = [] ∨ ∃ (s : Text) (d : Char), [' '] = s ++ [d] ∧ isTokenBreak d = true :=
    .inr ⟨[], ' ', rfl, hspace⟩
  refine ⟨?_, ?_⟩
  · rw [local_digestAt.occurs_joinWith hb rfl hend, List.any_eq_false]
    exact fun t ht => by simp [(h t ht).digest]
  · have hsep : occurs (hexRunAt 65) none [' '] = false := by decide
    rw [(local_hexRunAt 64).occurs_joinWith hb hsep hend, List.any_eq_false]
    exact fun t ht => by simp [(h t ht).hexRun]

theorem tame_lineIf {label value : Text} (hlabel : Tame label) (hvalue : Tame value) :
    ∀ l ∈ lineIf (label ++ [' ']) value, Tame l := by
  intro l hl
  unfold lineIf at hl
  split at hl
  · exact absurd hl List.not_mem_nil
  · rw [List.mem_singleton.mp hl]
    exact hlabel.labelled hvalue

/-- The budget of a profile and a kind: bytes and words. -/
def budget (kind : Kind) (profile : Profile) (verified : Bool) : Nat × Nat :=
  if pointerOnly verified profile then (96, 40)
  else match profile, kind with
    | .terra, _ => (192, 32)
    | _, .delta => (256, 35)
    | _, .expanded => (1024, 180)
    | _, .full => (512, 80)

section Fields

variable (s : Source) (kind : Kind) (profile : Profile) (verified : Bool)

/-- The fields of the first lines. -/
def headFields : List Text :=
  [planText s kind profile verified, statusText s, phaseText s kind profile, nextText s]

def validationFields : List Text :=
  (validationPairs s.validation).flatMap fun e => [e.1, e.2]

/-- The cleaned fields a capsule is put together from. -/
def fieldTexts : List Text :=
  if pointerOnly verified profile then [planText s kind profile verified, statusText s]
  else match profile, kind with
    | .terra, _ => headFields s kind profile verified
    | _, .delta => headFields s kind profile verified ++
        [clean 120 (latestSummary s), clean 110 (nextText s)]
    | _, .expanded => headFields s kind profile verified ++
        [clean 240 s.objective, latestSummary s] ++ (shownItems s.openBlockers).take 3 ++
          (shownItems s.openQuestions).take 3 ++ validationFields s
    | _, .full => headFields s kind profile verified ++ [latestSummary s] ++
        (shownItems s.openBlockers).take 3 ++ validationFields s ++ [decimalText s.generation.toNat]

/-- A source whose cleaned fields hold no digest mark and no word that starts
with more than 64 hexadecimal digits. -/
def TameFields : Prop := ∀ t ∈ fieldTexts s kind profile verified, Tame t

end Fields

section Lines

variable {s : Source} {kind : Kind} {profile : Profile} {verified : Bool}

theorem tame_pointerLines (h : ∀ t ∈ headFields s kind profile verified, Tame t) :
    ∀ l ∈ pointerLines s kind profile verified, Tame l := by
  simp only [headFields, List.forall_mem_cons] at h
  obtain ⟨hplan, hstatus, hphase, hnext, -⟩ := h
  have hprogress : Tame (txt "Progress:") := ⟨by decide, by decide⟩
  have hstate : Tame (txt "State:") := ⟨by decide, by decide⟩
  have hphaseLabel : Tame (txt " phase:") := ⟨by decide, by decide⟩
  have hnextLabel : Tame (txt "Next:") := ⟨by decide, by decide⟩
  have hfull : Tame fullAuthority := ⟨by decide, by decide⟩
  have hshort : Tame shortAuthority := ⟨by decide, by decide⟩
  intro l hl
  unfold pointerLines at hl
  rw [List.mem_append, List.mem_append, List.mem_append, List.mem_singleton,
    List.mem_singleton] at hl
  rcases hl with ((rfl | hl) | rfl) | hl
  · exact hprogress.labelled hplan
  · unfold stateLine at hl
    split at hl
    · exact absurd hl List.not_mem_nil
    · split at hl
      · rw [List.mem_singleton.mp hl]
        exact hstate.labelled hstatus
      · rw [List.mem_singleton.mp hl]
        have hsemicolon : isTokenBreak ';' = true := by decide
        exact (hstate.labelled hstatus).append hsemicolon (hphaseLabel.labelled hphase)
  · split
    · exact hfull
    · exact hshort
  · exact tame_lineIf hnextLabel hnext l hl

theorem tame_validationLine (h : ∀ t ∈ validationFields s, Tame t) : Tame (validationLine s.validation) := by
  have hcomma : isTokenBreak ',' = true := by decide
  refine tame_joinWith hcomma fun t ht => ?_
  obtain ⟨e, he, rfl⟩ := List.mem_map.mp ht
  have hkey : Tame e.1 := h e.1 (List.mem_flatMap.mpr ⟨e, he, by simp⟩)
  have hvalue : Tame e.2 := h e.2 (List.mem_flatMap.mpr ⟨e, he, by simp⟩)
  have hequals : isTokenBreak '=' = true := by decide
  exact hkey.append hequals hvalue

theorem tame_capsuleLines (h : TameFields s kind profile verified) :
    ∀ l ∈ (capsuleLines s kind profile verified).1, Tame l := by
  have hprogress : Tame (txt "Progress:") := ⟨by decide, by decide⟩
  have hstate : Tame (txt "State:") := ⟨by decide, by decide⟩
  have hnextLabel : Tame (txt "Next:") := ⟨by decide, by decide⟩
  have hsummaryLabel : Tame (txt "Latest decision:") := ⟨by decide, by decide⟩
  have hblockersLabel : Tame (txt "Blockers:") := ⟨by decide, by decide⟩
  have hvalidationLabel : Tame (txt "Validation:") := ⟨by decide, by decide⟩
  have htitle : Tame (txt "Implementation progress") := ⟨by decide, by decide⟩
  have hshort : Tame shortAuthority := ⟨by decide, by decide⟩
  have hsemicolon : isTokenBreak ';' = true := by decide
  unfold TameFields fieldTexts at h
  unfold capsuleLines
  by_cases hpointer : pointerOnly verified profile = true
  · rw [if_pos hpointer] at h ⊢
    simp only [List.forall_mem_cons] at h
    intro l hl
    rw [List.mem_append, List.mem_append, List.mem_singleton, List.mem_singleton] at hl
    rcases hl with (rfl | hl) | rfl
    · exact hprogress.labelled h.1
    · exact tame_lineIf hstate h.2.1 l hl
    · exact hshort
  · rw [if_neg hpointer] at h ⊢
    have htake : ∀ {n}, (∀ t ∈ headFields s kind profile verified, Tame t) →
        ∀ l ∈ (pointerLines s kind profile verified).take n, Tame l :=
      fun hhead l hl => tame_pointerLines hhead l (List.mem_of_mem_take hl)
    cases profile with
    | terra => exact tame_pointerLines h
    | sol => exact absurd rfl hpointer
    | unknown => exact absurd rfl hpointer
    | luna =>
        cases kind with
        | delta =>
            simp only [List.forall_mem_append, List.forall_mem_cons] at h
            obtain ⟨hhead, hchanged, hnext, -⟩ := h
            have hdelta : Tame (txt "Implementation progress update") := ⟨by decide, by decide⟩
            have hchangedLabel : Tame (txt "Changed:") := ⟨by decide, by decide⟩
            simp only [List.forall_mem_append, List.forall_mem_singleton]
            refine ⟨⟨⟨hdelta, htake hhead⟩, ?_⟩, ?_⟩
            · split
              · exact fun _ hl => absurd hl List.not_mem_nil
              · rw [List.forall_mem_singleton]
                exact hchangedLabel.labelled hchanged
            · split
              · exact fun _ hl => absurd hl List.not_mem_nil
              · rw [List.forall_mem_singleton]
                exact hnextLabel.labelled hnext
        | expanded =>
            simp only [List.forall_mem_append, List.forall_mem_cons] at h
            obtain ⟨⟨⟨⟨hhead, hobjective, hsummary, -⟩, hblockers⟩, hquestions⟩, hvalidation⟩ := h
            have hnext : Tame (nextText s) := hhead _ (by simp [headFields])
            have hobjectiveLabel : Tame (txt "Objective:") := ⟨by decide, by decide⟩
            have hquestionsLabel : Tame (txt "Questions:") := ⟨by decide, by decide⟩
            simp only [List.forall_mem_append, List.forall_mem_singleton]
            exact ⟨⟨⟨⟨⟨⟨⟨htitle, htake hhead⟩, tame_lineIf hobjectiveLabel hobjective⟩,
              tame_lineIf hsummaryLabel hsummary⟩, tame_lineIf hnextLabel hnext⟩,
              tame_lineIf hblockersLabel (tame_joinWith hsemicolon hblockers)⟩,
              tame_lineIf hquestionsLabel (tame_joinWith hsemicolon hquestions)⟩,
              tame_lineIf hvalidationLabel (tame_validationLine hvalidation)⟩
        | full =>
            simp only [List.forall_mem_append, List.forall_mem_singleton] at h
            obtain ⟨⟨⟨⟨hhead, hsummary⟩, hblockers⟩, hvalidation⟩, hgeneration⟩ := h
            have hnext : Tame (nextText s) := hhead _ (by simp [headFields])
            have hgenerationLabel : Tame (txt "Generation:") := ⟨by decide, by decide⟩
            simp only [List.forall_mem_append, List.forall_mem_singleton]
            refine ⟨⟨⟨⟨⟨⟨htitle, htake hhead⟩, tame_lineIf hsummaryLabel hsummary⟩,
              tame_lineIf hnextLabel hnext⟩,
              tame_lineIf hblockersLabel (tame_joinWith hsemicolon hblockers)⟩,
              tame_lineIf hvalidationLabel (tame_validationLine hvalidation)⟩, ?_⟩
            split
            · rw [List.forall_mem_singleton]
              exact hgenerationLabel.labelled hgeneration
            · exact fun _ hl => absurd hl List.not_mem_nil

theorem capsuleLines_budget : (capsuleLines s kind profile verified).2 = budget kind profile verified := by
  unfold capsuleLines budget
  split
  · rfl
  · cases profile <;> cases kind <;> rfl

end Lines

/-- The text of a capsule: its lines, none of them with an absolute path or a
content hash. -/
def Clean (text : Text) : Prop := ∃ lines, text = joinLines lines ∧ ∀ l ∈ lines, SafeLine l

/-- Every word of a clean text is sanitary, or the head of a sanitary word that
the mark of a cut ends. -/
theorem Clean.word {text w : Text} (h : Clean text) (hw : w ∈ words text) : Sanitary w ∨ CutWord w := by
  obtain ⟨lines, rfl, hlines⟩ := h
  have hwords : ∀ lines : List Text, words (joinLines lines) = lines.flatMap words := by
    intro lines
    induction lines with
    | nil => rfl
    | cons l lines ih =>
        cases lines with
        | nil => simp [joinLines, joinWith]
        | cons l' lines =>
            have hjoin : joinLines (l :: l' :: lines) = l ++ '\n' :: joinLines (l' :: lines) := by
              simp [joinLines, joinWith]
            rw [hjoin, words_append (by decide), ih]
            rfl
  rw [hwords] at hw
  obtain ⟨l, hl, hw⟩ := List.mem_flatMap.mp hw
  have hsafe := hlines l hl
  rcases List.eq_nil_or_concat (words l) with hnil | ⟨front, last, hconcat⟩
  · rw [hnil] at hw
    exact absurd hw List.not_mem_nil
  · rw [List.concat_eq_append] at hconcat
    rw [hconcat] at hw
    rcases List.mem_append.mp hw with hfront | hlast
    · exact .inl (hsafe.front w (by rw [hconcat, List.dropLast_concat]; exact hfront))
    · rw [List.mem_singleton.mp hlast]
      have hend := hsafe.last last (by rw [hconcat, List.getLast?_concat]; rfl)
      exact hend.imp_right And.right

/-- The digits of a sha512 digest. -/
def sha512Digits : Text := (List.replicate 16 (txt "0123abcd")).flatten

def fullKind : Text := txt "full"
def lunaProfile : Text := txt "luna"

def plainSource : Source where
  planId := txt "plan-1"
  status := txt "active"
  phase := txt "build"
  objective := []
  nextAction := txt "run the tests"
  latestDecision := none
  openBlockers := []
  openQuestions := []
  validation := []
  generation := 3
  events := []

def hashSource : Source := { plainSource with nextAction := sha512Digits }

end RalphVault.Context.Capsule
