import RalphVault.Blanks

/-!
# Shell words

The lexer of Python's `shlex` with a set of punctuation characters, and the
quoting that it undoes. Words that are quoted and joined are read back as they
were.
-/

namespace RalphVault.ShellWords

/-! ## Quoting -/

/-- What `shlex.quote` leaves unquoted. -/
def isSafe (c : Char) : Bool := isAsciiAlnum c || (txt "_@%+=:,./-").contains c

def quoteChar (c : Char) : Text := if c = '\'' then txt "'\"'\"'" else [c]

/-- A text in single quotes. -/
def inQuotes (t : Text) : Text := '\'' :: (t.flatMap quoteChar ++ ['\''])

/-- `shlex.quote`. -/
def quote (word : Text) : Text :=
  if word.isEmpty then txt "''" else if word.all isSafe then word else inQuotes word

/-- `shlex.join`. -/
def join (words : List Text) : Text := joinWith [' '] (words.map quote)

/-! ## The lexer -/

/-- `shlex.whitespace`. -/
def isBlankChar (c : Char) : Bool := [' ', '\t', '\r', '\n'].contains c

/-- The states of the lexer: between words, in a comment, in a word, in a run
of punctuation, in a quote, after an escape (inside the quote it returns to,
if any). -/
inductive Lex where
  | blank
  | comment
  | word
  | punctuation
  | quoted (q : Char)
  | escaped (back : Option Char)

/-- The characters that are words of their own, and those that start a
comment. -/
structure Dialect where
  punct : Text
  commenters : Text
  plain : ∀ c ∈ punct ++ commenters, isSafe c = false ∧ c ≠ '\'' ∧ c ≠ '"'

section Lexer

variable (dialect : Dialect)

/-- The state and the word behind the first character of a word. -/
def start (c : Char) : Lex × Text :=
  if c = '\\' then (.escaped none, [])
  else if dialect.punct.contains c then (.punctuation, [c])
  else if c = '\'' || c = '"' then (.quoted c, [])
  else (.word, [c])

/-- `shlex.read_token` with `posix`, `whitespace_split` and punctuation,
until the text ends. -/
def lexStep : Lex → Text → Text → Option (List Text)
  | .blank, _, [] => some []
  | .blank, _, c :: t =>
      if isBlankChar c then lexStep .blank [] t
      else if dialect.commenters.contains c then lexStep .comment [] t
      else lexStep (start dialect c).1 (start dialect c).2 t
  | .comment, _, [] => some []
  | .comment, _, c :: t =>
      if c = '\n' then lexStep .blank [] t else lexStep .comment [] t
  | .word, tok, [] => some [tok]
  | .word, tok, c :: t =>
      if isBlankChar c then (lexStep .blank [] t).map (tok :: ·)
      else if dialect.commenters.contains c then (lexStep .comment [] t).map (tok :: ·)
      else if c = '\'' || c = '"' then lexStep (.quoted c) tok t
      else if c = '\\' then lexStep (.escaped none) tok t
      else if dialect.punct.contains c then (lexStep .punctuation [c] t).map (tok :: ·)
      else lexStep .word (tok ++ [c]) t
  | .punctuation, tok, [] => some [tok]
  | .punctuation, tok, c :: t =>
      if isBlankChar c then (lexStep .blank [] t).map (tok :: ·)
      else if dialect.commenters.contains c then (lexStep .comment [] t).map (tok :: ·)
      else if dialect.punct.contains c then lexStep .punctuation (tok ++ [c]) t
      else (lexStep (start dialect c).1 (start dialect c).2 t).map (tok :: ·)
  | .quoted _, _, [] => none
  | .quoted q, tok, c :: t =>
      if c = q then lexStep .word tok t
      else if c = '\\' && q = '"' then lexStep (.escaped (some q)) tok t
      else lexStep (.quoted q) (tok ++ [c]) t
  | .escaped _, _, [] => none
  | .escaped none, tok, c :: t => lexStep .word (tok ++ [c]) t
  | .escaped (some q), tok, c :: t =>
      lexStep (.quoted q) (if c ≠ '\\' && c ≠ q then tok ++ ['\\', c] else tok ++ [c]) t

/-- `list(shlex.shlex(command, posix=True, ...))`, and nothing where it
raises. -/
def lex (command : Text) : Option (List Text) := lexStep dialect .blank [] command

/-- A word of nothing but punctuation. -/
def isOperator (word : Text) : Bool := !word.isEmpty && word.all dialect.punct.contains

/-- The loop that cuts words at operators, with the words of the current
segment. -/
def segmentsFrom : List Text → List Text → List (List Text)
  | current, [] => if current.isEmpty then [] else [current]
  | current, word :: rest =>
      if isOperator dialect word then
        if current.isEmpty then segmentsFrom [] rest else current :: segmentsFrom [] rest
      else segmentsFrom (current ++ [word]) rest

/-- The segments of a list of words. -/
def segments (words : List Text) : List (List Text) := segmentsFrom dialect [] words

end Lexer

/-- The dialect of `shlex.split`. -/
def splitting : Dialect := ⟨[], [], by simp⟩

/-! ## Joined words -/

@[simp] theorem join_singleton (w : Text) : join [w] = quote w := rfl

theorem join_cons (w v : Text) (ws : List Text) :
    join (w :: v :: ws) = quote w ++ ' ' :: join (v :: ws) := by
  show quote w ++ [' '] ++ join (v :: ws) = _
  rw [List.append_assoc]
  rfl

theorem isSafe_cases {c : Char} (h : isSafe c = true) :
    isBlankChar c = false ∧ isSpace c = false ∧ c ≠ '\\' ∧ c ≠ '\'' ∧ c ≠ '"' := by
  have hbounds : (48 ≤ c.toNat ∧ c.toNat ≤ 58) ∨ (64 ≤ c.toNat ∧ c.toNat ≤ 90) ∨
      (97 ≤ c.toNat ∧ c.toNat ≤ 122) ∨ c.toNat = 37 ∨ (43 ≤ c.toNat ∧ c.toNat ≤ 47) ∨
      c.toNat = 61 ∨ c.toNat = 95 := by
    rw [isSafe, Bool.or_eq_true] at h
    rcases h with h | h
    · simp only [isAsciiAlnum, isAsciiLower, isAsciiUpper, isAsciiDigit, Bool.or_eq_true,
        Bool.and_eq_true, decide_eq_true_eq] at h
      omega
    · have hall : ∀ d ∈ txt "_@%+=:,./-", (48 ≤ d.toNat ∧ d.toNat ≤ 58) ∨
          (64 ≤ d.toNat ∧ d.toNat ≤ 90) ∨ (97 ≤ d.toNat ∧ d.toNat ≤ 122) ∨ d.toNat = 37 ∨
          (43 ≤ d.toNat ∧ d.toNat ≤ 47) ∨ d.toNat = 61 ∨ d.toNat = 95 := by decide
      exact hall c (by simpa using h)
  have hne {d : Char} (hd : c = d) : c.toNat = d.toNat := by rw [hd]
  refine ⟨?_, ?_, ?_, ?_, ?_⟩
  · simp only [isBlankChar, List.contains_eq_mem, List.mem_cons, List.not_mem_nil, or_false,
      decide_eq_false_iff_not]
    rintro (h' | h' | h' | h') <;> have := hne h' <;> simp at this <;> omega
  · simp only [isSpace, Bool.or_eq_false_iff, Bool.and_eq_false_iff, decide_eq_false_iff_not,
      beq_eq_false_iff_ne]
    omega
  all_goals
    intro h'
    have := hne h'
    simp at this
    omega

/-! ## Reading back -/

section ReadBack

variable {dialect : Dialect}

theorem Dialect.safe {c : Char} (h : isSafe c = true) :
    dialect.punct.contains c = false ∧ dialect.commenters.contains c = false := by
  have hplain : c ∉ dialect.punct ++ dialect.commenters := by
    intro hmem
    rw [(dialect.plain c hmem).1] at h
    cases h
  simpa using hplain

theorem Dialect.quotes {c : Char} (h : c = '\'' ∨ c = '"') :
    dialect.punct.contains c = false ∧ dialect.commenters.contains c = false := by
  have hplain : c ∉ dialect.punct ++ dialect.commenters := by
    intro hmem
    rcases h with rfl | rfl
    · exact (dialect.plain _ hmem).2.1 rfl
    · exact (dialect.plain _ hmem).2.2 rfl
  simpa using hplain

theorem lexStep_blank (tok t : Text) :
    lexStep dialect .word tok (' ' :: t) = (lexStep dialect .blank [] t).map (tok :: ·) := rfl

/-- Safe characters go on with the word. -/
theorem lexStep_safe {w : Text} (hw : w.all isSafe = true) (tok rest : Text) :
    lexStep dialect .word tok (w ++ rest) = lexStep dialect .word (tok ++ w) rest := by
  induction w generalizing tok with
  | nil => simp
  | cons c w ih =>
      rw [List.all_cons, Bool.and_eq_true] at hw
      obtain ⟨hblank, -, hescape, hsingle, hdouble⟩ := isSafe_cases hw.1
      obtain ⟨hpunct, hcomment⟩ := dialect.safe hw.1
      rw [List.cons_append, lexStep]
      simp only [hblank, hcomment, hescape, hsingle, hdouble, hpunct, Bool.false_eq_true, if_false,
        decide_false, Bool.or_false]
      rw [ih hw.2, List.append_assoc]
      rfl

theorem lexStep_quoted_char (c : Char) (tok rest : Text) :
    lexStep dialect (.quoted '\'') tok (quoteChar c ++ rest) =
      lexStep dialect (.quoted '\'') (tok ++ [c]) rest := by
  by_cases hc : c = '\''
  · subst hc
    have hcomment : dialect.commenters.contains '\'' = false := (dialect.quotes (.inl rfl)).2
    have hcomment' : dialect.commenters.contains '"' = false := (dialect.quotes (.inr rfl)).2
    show lexStep dialect (.quoted '\'') tok ('\'' :: '"' :: '\'' :: '"' :: '\'' :: rest) = _
    simp only [lexStep, hcomment, hcomment']
    rfl
  · rw [quoteChar, if_neg hc, List.singleton_append, lexStep, if_neg hc]
    simp

/-- A text in quotes is read as it is. -/
theorem lexStep_quoted (t tok rest : Text) :
    lexStep dialect (.quoted '\'') tok (t.flatMap quoteChar ++ '\'' :: rest) =
      lexStep dialect .word (tok ++ t) rest := by
  induction t generalizing tok with
  | nil => simp [lexStep]
  | cons c t ih =>
      rw [List.flatMap_cons, List.append_assoc, lexStep_quoted_char c tok, ih,
        List.append_assoc]
      rfl

theorem lexStep_inQuotes (t rest : Text) :
    lexStep dialect .blank [] (inQuotes t ++ rest) = lexStep dialect .word t rest := by
  obtain ⟨hpunct, hcomment⟩ := dialect.quotes (.inl rfl)
  have hstart : start dialect '\'' = (.quoted '\'', []) := by
    simp only [start, hpunct]
    rfl
  have hopen (u : Text) : lexStep dialect .blank [] ('\'' :: u) = lexStep dialect (.quoted '\'') [] u := by
    rw [lexStep, hstart, hcomment]
    rfl
  rw [inQuotes, List.cons_append, hopen, List.append_assoc, List.singleton_append,
    lexStep_quoted, List.nil_append]

theorem lexStep_bare {w : Text} (hne : w ≠ []) (hw : w.all isSafe = true)
    (rest : Text) : lexStep dialect .blank [] (w ++ rest) = lexStep dialect .word w rest := by
  cases w with
  | nil => exact absurd rfl hne
  | cons c w =>
      rw [List.all_cons, Bool.and_eq_true] at hw
      obtain ⟨hblank, -, hescape, hsingle, hdouble⟩ := isSafe_cases hw.1
      obtain ⟨hpunct, hcomment⟩ := dialect.safe hw.1
      have hstart : start dialect c = (.word, [c]) := by
        simp only [start, hescape, hsingle, hdouble, hpunct, Bool.false_eq_true, if_false,
          decide_false, Bool.or_false]
      rw [List.cons_append, lexStep, hblank, hstart]
      simp only [hcomment, Bool.false_eq_true, if_false]
      rw [lexStep_safe hw.2]
      rfl

/-- A quoted word is read as the word. -/
theorem lexStep_quote (w rest : Text) :
    lexStep dialect .blank [] (quote w ++ rest) = lexStep dialect .word w rest := by
  unfold quote
  split
  · next hempty =>
    rw [List.isEmpty_iff.mp hempty]
    exact lexStep_inQuotes [] rest
  · next hempty =>
    split
    · next hsafe => exact lexStep_bare (fun hnil => hempty (by rw [hnil]; rfl)) hsafe rest
    · exact lexStep_inQuotes w rest

/-- **Words that are joined are read back.** -/
theorem lex_join (words : List Text) : lex dialect (join words) = some words := by
  induction words with
  | nil => rfl
  | cons w ws ih =>
      cases ws with
      | nil =>
          have hquote := @lexStep_quote dialect w []
          rw [List.append_nil] at hquote
          exact hquote
      | cons v ws =>
          rw [join_cons]
          show lexStep dialect .blank [] (quote w ++ ' ' :: _) = _
          rw [lexStep_quote, lexStep_blank]
          show (lex dialect (join (v :: ws))).map (w :: ·) = _
          rw [ih]
          rfl

end ReadBack

/-! ## Segments -/

section Segments

variable {dialect : Dialect}

theorem segmentsFrom_operator {w : Text} (h : isOperator dialect w = true) {current : List Text}
    (hne : current ≠ []) (rest : List Text) :
    segmentsFrom dialect current (w :: rest) = current :: segments dialect rest := by
  rw [segmentsFrom, h, List.isEmpty_eq_false_iff.mpr hne]
  rfl

/-- The current segment takes the words up to the first operator. -/
theorem segmentsFrom_cut {current : List Text} (hne : current ≠ []) (ws : List Text) :
    segmentsFrom dialect current ws =
      (current ++ ws.takeWhile fun w => !isOperator dialect w) ::
        segments dialect (ws.dropWhile fun w => !isOperator dialect w) := by
  induction ws generalizing current with
  | nil =>
      rw [segmentsFrom, List.isEmpty_eq_false_iff.mpr hne]
      simp [segments, segmentsFrom]
  | cons w ws ih =>
      cases hw : isOperator dialect w with
      | true =>
          rw [segmentsFrom_operator hw hne]
          simp [hw, segments, segmentsFrom]
      | false =>
          rw [segmentsFrom, hw]
          simp only [Bool.false_eq_true, if_false]
          rw [ih (by simp)]
          simp [hw]

end Segments

/-! ## Occurrences -/

/-- A text without quotes begins a quoted text exactly if it begins the text. -/
theorem prefix_quoted {p : Text} (h : ∀ c ∈ p, c ≠ '\'' ∧ c ≠ '"') (x y : Text) :
    p <+: x.flatMap quoteChar ++ '\'' :: y ↔ p <+: x := by
  induction p generalizing x with
  | nil => exact iff_of_true (List.nil_prefix) (List.nil_prefix)
  | cons a p ih =>
      obtain ⟨ha, hp⟩ := List.forall_mem_cons.mp h
      cases x with
      | nil =>
          refine iff_of_false (fun hpre => ?_) (fun hpre => ?_)
          · exact ha.1 (List.cons_prefix_cons.mp hpre).1
          · exact List.cons_ne_nil _ _ (List.prefix_nil.mp hpre)
      | cons c x =>
          rw [List.flatMap_cons, List.cons_prefix_cons]
          by_cases hc : c = '\''
          · subst hc
            refine iff_of_false (fun hpre => ?_) (fun hpre => ha.1 hpre.1)
            exact ha.1 (List.cons_prefix_cons.mp hpre).1
          · rw [quoteChar, if_neg hc, List.append_assoc, List.singleton_append,
              List.cons_prefix_cons, ih hp]

section Occurrences

variable {p : Text}

theorem prefix_before {b : Char} (hb : b ∉ p) (x y : Text) : p <+: x ++ b :: y ↔ p <+: x := by
  refine ⟨fun hp => ?_, fun hp => hp.trans (List.prefix_append x _)⟩
  rcases List.prefix_or_prefix_of_prefix hp (List.prefix_append x _) with hx | ⟨q, rfl⟩
  · exact hx
  · cases q with
    | nil => simp
    | cons c q =>
        obtain ⟨z, hz⟩ := (List.prefix_append_right_inj x).mp hp
        rw [(List.cons.inj hz).1] at hb
        simp at hb

theorem contains_before {b : Char} (hne : p ≠ []) (hb : b ∉ p) (x y : Text) :
    contains p (x ++ b :: y) = (contains p x || contains p y) := by
  have hfront (x : Text) : p.isPrefixOf (x ++ b :: y) = p.isPrefixOf x := by
    rw [Bool.eq_iff_iff, List.isPrefixOf_iff_prefix, List.isPrefixOf_iff_prefix,
      prefix_before hb]
  have hempty : p.isEmpty = false := List.isEmpty_eq_false_iff.mpr hne
  have hnil : p.isPrefixOf [] = false := by
    obtain ⟨c, q, rfl⟩ := List.exists_cons_of_ne_nil hne
    rfl
  induction x with
  | nil =>
      rw [List.nil_append, contains, contains, hempty, Bool.false_or]
      have hblank := hfront []
      rw [List.nil_append, hnil] at hblank
      rw [hblank, Bool.false_or]
  | cons c x ih =>
      have hcons := hfront (c :: x)
      rw [List.cons_append] at hcons ⊢
      rw [contains, contains, hcons, ih, Bool.or_assoc]

theorem contains_inQuotes (hne : p ≠ []) (h : ∀ c ∈ p, c ≠ '\'' ∧ c ≠ '"') (x : Text) :
    contains p (inQuotes x) = contains p x := by
  have hopen {c : Char} (hc : c = '\'' ∨ c = '"') (t : Text) : contains p (c :: t) = contains p t := by
    have hmem : c ∉ p := fun hmem => by
      rcases hc with rfl | rfl
      · exact (h _ hmem).1 rfl
      · exact (h _ hmem).2 rfl
    have hfront := contains_before hne hmem [] t
    rw [List.nil_append] at hfront
    rw [hfront, contains, List.isEmpty_eq_false_iff.mpr hne, Bool.false_or]
  have hclosed : contains p (x.flatMap quoteChar ++ ['\'']) = contains p x := by
    induction x with
    | nil => exact hopen (.inl rfl) []
    | cons c x ih =>
        have hfront : p.isPrefixOf ((c :: x).flatMap quoteChar ++ ['\'']) = p.isPrefixOf (c :: x) := by
          rw [Bool.eq_iff_iff, List.isPrefixOf_iff_prefix, List.isPrefixOf_iff_prefix,
            prefix_quoted h]
        by_cases hc : c = '\''
        · subst hc
          have hnone := hopen (.inl rfl) x
          rw [hnone, ← ih]
          show contains p ('\'' :: '"' :: '\'' :: '"' :: '\'' :: (x.flatMap quoteChar ++ ['\''])) = _
          rw [hopen (.inl rfl), hopen (.inr rfl), hopen (.inl rfl), hopen (.inr rfl),
            hopen (.inl rfl)]
        · have hcons : (c :: x).flatMap quoteChar ++ ['\''] =
              c :: (x.flatMap quoteChar ++ ['\'']) := by
            rw [List.flatMap_cons, quoteChar, if_neg hc]
            rfl
          rw [hcons] at hfront ⊢
          rw [contains, contains, hfront, ih]
  rw [inQuotes, hopen (.inl rfl), hclosed]

theorem contains_quote (hne : p ≠ []) (h : ∀ c ∈ p, c ≠ '\'' ∧ c ≠ '"') (w : Text) :
    contains p (quote w) = contains p w := by
  unfold quote
  split
  · next hempty =>
    rw [List.isEmpty_iff.mp hempty]
    exact contains_inQuotes hne h []
  · split
    · rfl
    · exact contains_inQuotes hne h w

/-- Joined words have an occurrence exactly if one of them has. -/
theorem contains_join (hne : p ≠ []) (h : ∀ c ∈ p, c ≠ ' ' ∧ c ≠ '\'' ∧ c ≠ '"')
    (words : List Text) : contains p (join words) = words.any (contains p ·) := by
  have hquotes : ∀ c ∈ p, c ≠ '\'' ∧ c ≠ '"' := fun c hc => (h c hc).2
  induction words with
  | nil => exact List.isEmpty_eq_false_iff.mpr hne
  | cons w ws ih =>
      cases ws with
      | nil => simpa using contains_quote hne hquotes w
      | cons v ws =>
          rw [join_cons, contains_before hne (fun hmem => (h _ hmem).1 rfl), ih,
            contains_quote hne hquotes]
          rfl

end Occurrences

end RalphVault.ShellWords
