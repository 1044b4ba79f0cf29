import RalphVault.HtmlTags
import RalphVault.Memory.RecallText
import RalphVault.RegexPlace
import RalphVault.Security.Patterns

/-!
# Plans — unsafe notes

`implementation_notes_consolidator.py`: two patterns over the text of the notes
stand for the active elements and attributes of HTML.

A search is one of the engine of `Regex`. The pattern of the `meta` elements has
groups and is written out: each of its repeats but one can end in one place
only, and that one, the `[^>]*` in front of `http-equiv`, takes as much as it
can.
-/

namespace RalphVault.Plans.Notes

open Html Regex
open Memory (strip)
open Security (boundary space litCI among)

/-- `str.lower`: on ASCII, and with nothing else but the Kelvin sign above it. -/
structure Casing where
  lower : Text → Text
  lower_ascii : ∀ t, (∀ c ∈ t, c.toNat < 128) → lower t = t.map asciiLower
  ascii_of_lower : ∀ t, (∀ c ∈ lower t, c.toNat < 128 ∧ c ≠ 'k') → ∀ c ∈ t, c.toNat < 128

section Search

variable (uni : Unicode)

/-! ## `UNSAFE_NOTES_HTML_RE` -/

def activeNames : List Text :=
  [txt "script", txt "iframe", txt "object", txt "embed", txt "base", txt "form", txt "input",
    txt "button", txt "textarea", txt "select", txt "svg", txt "math"]

def urlNames : List Text := [txt "href", txt "src", txt "xlink:href"]

def activeUrls : List Text := [txt "javascript:", txt "data:text/html", txt "data:application"]

def isQuote (c : Char) : Bool := c == '\'' || c == '"'

/-- `[a-z0-9_-]` under `(?i)`. -/
def isHandlerChar (c : Char) : Bool :=
  isAsciiLower (foldCase c) || isAsciiDigit c || c == '_' || c == '-'

/-- `<\s*(names)\b` -/
def elementRe (names : List Text) : Regex Char :=
  seq ([among ['<'], star true space, anyOf (names.map litCI)] ++ [boundary uni])

/-- `<[^>]+\s+on[a-z0-9_-]+\s*=` -/
def handlerRe : Regex Char :=
  seq [among ['<'], atLeast 1 (chr fun c => c != '>'), atLeast 1 space, litCI (txt "on"),
    atLeast 1 (chr isHandlerChar), star true space, among ['=']]

/-- `(?:href|src|xlink:href)\s*=\s*(['\"]?)\s*(?:javascript:|data:text/html|data:application)` -/
def urlRe : Regex Char :=
  seq [anyOf (urlNames.map litCI), star true space, among ['='], star true space,
    opt (chr isQuote), star true space, anyOf (activeUrls.map litCI)]

/-- `UNSAFE_NOTES_HTML_RE`. -/
def unsafeNotesHtmlRe : Regex Char :=
  anyOf [elementRe uni activeNames, elementRe uni [txt "link"], handlerRe, urlRe]

/-! ## `META_HTTP_EQUIV_RE` -/

/-- What stands behind a word under `(?i)`. -/
def dropFold (w t : Text) : Option Text :=
  if (t.take w.length).map foldCase = w then some (t.drop w.length) else none

/-- What stands behind `[^>]*>`. -/
def dropTag (t : Text) : Option Text := if '>' ∈ t then some (behindBracket t) else none

/-- `['\"]([^'\"]+)['\"][^>]*>`: the group, and what stands behind. -/
def readQuoted : Text → Option (Text × Text)
  | [] => none
  | q :: t =>
      if isQuote q && t.takeWhile (!isQuote ·) ≠ [] then
        match t.dropWhile (!isQuote ·) with
        | [] => none
        | _ :: rest => (dropTag rest).map (t.takeWhile (!isQuote ·), ·)
      else none

/-- `[^\s>]` -/
def isPlainChar (c : Char) : Bool := !isSpace c && c != '>'

/-- `([^\s>]+)[^>]*>` -/
def readPlain (t : Text) : Option (Text × Text) :=
  if t.takeWhile isPlainChar ≠ [] then
    (dropTag (t.dropWhile isPlainChar)).map (t.takeWhile isPlainChar, ·)
  else none

def httpEquiv : Text := txt "http-equiv"

/-- `http-equiv\s*=\s*(?:['\"]([^'\"]+)['\"]|([^\s>]+))[^>]*>` -/
def readHttpEquiv (t : Text) : Option (Text × Text) := do
  let u ← dropFold httpEquiv t
  match lstrip u with
  | '=' :: v => (readQuoted (lstrip v)).or (readPlain (lstrip v))
  | _ => none

/-- `[^>]*` in front of it: the last place is tried first. -/
def lastHttpEquiv : Text → Option (Text × Text)
  | [] => none
  | c :: t => if c = '>' then none else (lastHttpEquiv t).or (readHttpEquiv (c :: t))

def metaName : Text := txt "meta"

/-- `META_HTTP_EQUIV_RE.match`: the group that matched, and what stands behind. -/
def matchMeta : Text → Option (Text × Text)
  | '<' :: t => do
      let u ← dropFold metaName (lstrip t)
      -- the letter in front is one of a word
      if u.head?.any uni.word then none else lastHttpEquiv u
  | _ => none

/-- `META_HTTP_EQUIV_RE.finditer`: the matches and their groups. -/
def metaMatches : Nat → Text → List (Text × Text)
  | _, [] => []
  | skip + 1, _ :: t => metaMatches skip t
  | 0, c :: t =>
      match matchMeta uni (c :: t) with
      | some (value, rest) =>
          ((c :: t).take ((c :: t).length - rest.length), value) ::
            metaMatches (t.length - rest.length) t
      | none => metaMatches 0 t

/-! ## The search -/

def policy : Text := txt "content-security-policy"

/-- `value.strip().lower() == "content-security-policy"` -/
def IsPolicy (casing : Casing) (value : Text) : Prop := casing.lower (strip value) = policy

instance (casing : Casing) (value : Text) : Decidable (IsPolicy casing value) :=
  inferInstanceAs (Decidable (_ = _))

/-- `unsafe_notes_html_match`: the text of the match. -/
def unsafeNotesHtmlMatch (casing : Casing) (text : Text) : Option Text :=
  match (findall (unsafeNotesHtmlRe uni) text).head? with
  | some found => some found
  | none =>
      ((metaMatches uni 0 text).find? fun hit => ¬ IsPolicy casing hit.2).map Prod.fst

end Search

/-! ## Unsafe tags -/

/-- An attribute for the handler of an event. -/
def isHandler (key : Text) : Bool :=
  startsWith (txt "on") key && !(key.drop 2).isEmpty && (key.drop 2).all isAsciiLower

/-- The `data:` URLs of `activeUrls`, by their type. -/
def isActiveType (type : Text) : Bool :=
  type == txt "text/html" || startsWith (txt "application/") type

def isActiveUrl (value : Text) : Bool := isJavascript value || (dataType? value).any isActiveType

def activeElements : List Text := activeNames ++ [txt "link"]

/-- A tag that the notes must not have. -/
def UnsafeTag (entities : Entities) (tag : StartTag) : Prop :=
  tag.element ∈ activeElements ∨
    (∃ a ∈ tag.attributes, isHandler a.key = true) ∨
    (∃ key ∈ urlNames, ∃ value ∈ tag.get? entities key, isActiveUrl value = true) ∨
    (tag.element = metaName ∧ ∃ value ∈ tag.get? entities httpEquiv, value.map asciiLower ≠ policy)

/-! ## Plainly written tags -/

/-- A handler with a value, behind a blank and in front of every bracket of the tag. -/
def PlainHandler (tag : StartTag) : Prop :=
  ∃ done a later, tag.attributes = done ++ a :: later ∧ isHandler a.key = true ∧
    (∃ c ∈ a.gap.getLast?, isHtmlSpace c = true) ∧ a.assigned.isSome = true ∧
    '>' ∉ done.flatMap Attribute.text

/-- The value of a URL begins, but for white space, as one of the active URLs is written. -/
def PlainUrl (tag : StartTag) : Prop :=
  ∃ a ∈ tag.attributes, a.key ∈ urlNames ∧ ∃ s ∈ a.assigned, ∃ w ∈ activeUrls,
    ((lstrip s.value).take w.length).map foldCase = w

/-- The last `http-equiv` of a tag without a bracket inside, its value written
without quotes in it and, without quotes around it, without white space. -/
def PlainMeta (casing : Casing) (tag : StartTag) : Prop :=
  tag.element = metaName ∧ '>' ∉ tag.attributes.flatMap Attribute.text ∧
    ∃ done a later s, tag.attributes = done ++ a :: later ∧ a.key = httpEquiv ∧
      a.assigned = some s ∧ (∀ c ∈ s.value, isQuote c = false) ∧
      (s.quote = none → s.value ≠ [] ∧ ∀ c ∈ s.value, isSpace c = false) ∧
      ¬ IsPolicy casing s.value ∧
      contains httpEquiv ((s.text ++ (later.flatMap Attribute.text ++ tag.tail)).map foldCase) = false

/-- A tag of which something is written so that a pattern sees it. -/
def PlainTag (casing : Casing) (tag : StartTag) : Prop :=
  tag.element ∈ activeElements ∨ PlainHandler tag ∨ PlainUrl tag ∨ PlainMeta casing tag

/-- One of the patterns describes a part of the text: the first pattern any
part, the second one whose value is not the policy. -/
def Marked (uni : Unicode) (casing : Casing) (text : Text) : Prop :=
  (∃ before u behind, text = before ++ u ++ behind ∧
    Matches (unsafeNotesHtmlRe uni) before.getLast? u behind.head?) ∨
  ∃ before behind value rest, text = before ++ behind ∧
    matchMeta uni behind = some (value, rest) ∧ ¬ IsPolicy casing value

/-- What the search says of a text holds. -/
def Screened (uni : Unicode) (casing : Casing) (entities : Entities) (scripting : Bool)
    (text : Text) : Prop :=
  unsafeNotesHtmlMatch uni casing text = none →
    ∀ tag ∈ startTags scripting text, ¬ UnsafeTag entities tag

/-! ## Names -/

/-- A character that HTML reads as an ASCII character. -/
theorem foldCase_of_key {c k : Char} (h : asciiLower (shown c) = k) (hk : k.toNat < 128) :
    foldCase c = k ∧ c.toNat < 128 := by
  by_cases hnul : c.toNat = 0
  · rw [shown, if_pos hnul] at h
    subst h
    exact absurd hk (by decide)
  rw [shown, if_neg hnul] at h
  by_cases hupper : isAsciiUpper c = true
  · rw [asciiLower, if_pos hupper] at h
    refine ⟨by rw [foldCase, if_pos hupper, h], ?_⟩
    simp only [isAsciiUpper, Bool.and_eq_true, decide_eq_true_iff] at hupper
    omega
  · rw [asciiLower, if_neg hupper] at h
    subst h
    refine ⟨?_, hk⟩
    rw [foldCase, if_neg hupper, if_neg, if_neg, if_neg]
    · simp only [beq_iff_eq]
      omega
    · simp only [beq_iff_eq]
      omega
    · simp only [Bool.or_eq_true, beq_iff_eq]
      omega

/-- A name that HTML reads as an ASCII word is this word in any case. -/
theorem fold_of_key {name w : Text} (h : (name.map fun c => asciiLower (shown c)) = w)
    (hw : ∀ k ∈ w, k.toNat < 128) :
    name.map foldCase = w ∧ ∀ c ∈ name, c.toNat < 128 := by
  subst h
  have hall : ∀ c ∈ name, foldCase c = asciiLower (shown c) ∧ c.toNat < 128 := fun c hc =>
    foldCase_of_key rfl (hw _ (List.mem_map_of_mem hc))
  exact ⟨List.map_congr_left fun c hc => (hall c hc).1, fun c hc => (hall c hc).2⟩

theorem foldCase_of_space {c : Char} (h : isSpace c = true) : foldCase c = c := by
  simp only [isSpace, Bool.or_eq_true, Bool.and_eq_true, decide_eq_true_iff, beq_iff_eq] at h
  have hupper : ¬ isAsciiUpper c = true := by
    simp only [isAsciiUpper, Bool.and_eq_true, decide_eq_true_iff]
    omega
  rw [foldCase, if_neg hupper, if_neg, if_neg, if_neg]
  · simp only [beq_iff_eq]
    omega
  · simp only [beq_iff_eq]
    omega
  · simp only [Bool.or_eq_true, beq_iff_eq]
    omega

theorem always_litCI {w u : Text} (h : u.map foldCase = w) : Always (litCI w) u := by
  refine Always.word ?_
  subst h
  induction u with
  | nil => exact .nil
  | cons c u ih => exact .cons (by simp) ih

theorem always_among {c : Char} {cs : Text} (h : c ∈ cs) : Always (among cs) [c] :=
  Always.chr (by simpa using h)

theorem always_spaces {u : Text} (h : ∀ c ∈ u, isSpace c = true) : Always (.star true space) u :=
  Always.star true h

theorem isSpace_of_html {c : Char} (h : isHtmlSpace c = true) : isSpace c = true := by
  simp only [isHtmlSpace, Bool.or_eq_true, beq_iff_eq] at h
  rcases h with (((rfl | rfl) | rfl) | rfl) | rfl <;> decide

/-! ## What the first pattern sees -/

section Seen

variable {uni : Unicode}

/-- A pattern of the first describes a part of the text. -/
theorem marked_of_matches {casing : Casing} {r : Regex Char}
    (hr : r ∈ [elementRe uni activeNames, elementRe uni [txt "link"], handlerRe, urlRe])
    {before u behind text : Text} (htext : text = before ++ u ++ behind)
    (h : Matches r before.getLast? u behind.head?) : Marked uni casing text := by
  refine .inl ⟨before, u, behind, htext, ?_⟩
  simp only [List.mem_cons, List.not_mem_nil, or_false] at hr
  rw [unsafeNotesHtmlRe]
  rcases hr with rfl | rfl | rfl | rfl
  · exact .altL h
  · exact .altR (.altL h)
  · exact .altR (.altR (.altL h))
  · exact .altR (.altR (.altR h))

theorem marked_of_always {casing : Casing} {r : Regex Char}
    (hr : r ∈ [elementRe uni activeNames, elementRe uni [txt "link"], handlerRe, urlRe])
    {u text : Text} (h : Always r u) (hin : u <:+: text) : Marked uni casing text := by
  obtain ⟨before, behind, htext⟩ := hin
  exact marked_of_matches hr htext.symm (h _ _)

theorem word_of_lower {c : Char} (h : isAsciiLower (foldCase c) = true) (hc : c.toNat < 128) :
    uni.word c = true := by
  rw [Unicode.word, uni.alnum_ascii c hc]
  by_cases hupper : isAsciiUpper c = true
  · simp [isAsciiAlnum, hupper]
  · have hsame : foldCase c = c := by
      rw [foldCase, if_neg hupper, if_neg, if_neg, if_neg] <;> simp <;> omega
    rw [hsame] at h
    simp [isAsciiAlnum, h]

/-- Behind the name of a tag stands no character of a word. -/
theorem not_word_of_ended {c : Char} (h : isTagName c = false) : uni.word c = false := by
  have hc : c = '\t' ∨ c = '\n' ∨ c = '\x0c' ∨ c = '\r' ∨ c = ' ' ∨ c = '/' ∨ c = '>' := by
    simpa only [isTagName, isGap, isHtmlSpace, Bool.and_eq_false_iff, Bool.not_eq_false',
      Bool.or_eq_true, beq_iff_eq, bne_eq_false_iff_eq, or_assoc] using h
  have hascii : c.toNat < 128 ∧ isAsciiAlnum c = false ∧ (c == '_') = false := by
    rcases hc with rfl | rfl | rfl | rfl | rfl | rfl | rfl <;> decide
  rw [Unicode.word, uni.alnum_ascii c hascii.1, hascii.2.1, hascii.2.2]
  rfl

theorem matches_element {names : List Text} {name behind : Text} {l : Option Char}
    (hname : (name.map foldCase) ∈ names) (hne : name ≠ [])
    (hword : ∀ c ∈ name, uni.word c = true) (hend : ∀ c ∈ behind.head?, uni.word c = false) :
    Matches (elementRe uni names) l ('<' :: name) behind.head? := by
  have hparts : List.Forall₂ Always [among ['<'], .star true space, anyOf (names.map litCI)]
      [['<'], [], name] :=
    .cons (always_among (by simp)) (.cons (always_spaces (by simp))
      (.cons (Always.anyOf (List.mem_map_of_mem hname) (always_litCI rfl)) .nil))
  have hflat : [['<'], [], name].flatten = '<' :: name := by simp
  rw [← hflat, elementRe]
  refine Always.seq_look hparts ?_
  have hlast : ([['<'], [], name].flatten.getLast?.or l).any uni.word = true := by
    obtain ⟨front, c, rfl⟩ := (List.eq_nil_or_concat' name).resolve_left hne
    rw [hflat, ← List.cons_append, List.getLast?_append]
    exact hword c (by simp)
  have hhead : behind.head?.any uni.word = false := by
    cases hb : behind.head? with
    | none => rfl
    | some c => exact hend c hb
  rw [hlast, hhead]
  rfl

variable {casing : Casing} {tag : StartTag} {text : Text}

theorem activeElements_names : ∀ w ∈ activeElements, w ≠ [] ∧
    ∀ k ∈ w, k.toNat < 128 ∧ isAsciiLower k = true := by decide

theorem marked_of_element (hwritten : tag.Written) (hin : tag.text <:+: text)
    (h : tag.element ∈ activeElements) : Marked uni casing text := by
  obtain ⟨before, rest, htext⟩ := hin
  obtain ⟨hne, hchars⟩ := activeElements_names _ h
  obtain ⟨hfold, hascii⟩ := @fold_of_key tag.name tag.element rfl fun k hk =>
    (hchars k hk).1
  have hname : tag.name ≠ [] := by
    intro hnil
    exact hne (by rw [StartTag.element, hnil]; rfl)
  have hword : ∀ c ∈ tag.name, uni.word c = true := by
    intro c hc
    refine word_of_lower ?_ (hascii c hc)
    have hmem : foldCase c ∈ tag.element := by
      rw [← hfold]
      exact List.mem_map_of_mem hc
    exact (hchars _ hmem).2
  have hend : ∀ c ∈ (tag.attributes.flatMap Attribute.text ++ (tag.tail ++ '>' :: rest)).head?,
      uni.word c = false := by
    intro c hc
    rw [head?_bracket] at hc
    exact not_word_of_ended (hwritten.ended c hc)
  have hsplit : text = before ++ ('<' :: tag.name) ++
      (tag.attributes.flatMap Attribute.text ++ (tag.tail ++ '>' :: rest)) := by
    rw [← htext, StartTag.text, StartTag.inner]
    simp
  have hfolded : tag.name.map foldCase ∈ activeElements := by
    rw [hfold]
    exact h
  rcases List.mem_append.1 hfolded with hactive | hlink
  · exact marked_of_matches (by simp) hsplit (matches_element hactive hname hword hend)
  · exact marked_of_matches (by simp) hsplit (matches_element hlink hname hword hend)

/-- What HTML reads as the name of a handler. -/
theorem handler_name {a : Attribute} (h : isHandler a.key = true) : ∃ on name,
    a.name = on ++ name ∧ on.map foldCase = txt "on" ∧ name ≠ [] ∧
      ∀ c ∈ name, isHandlerChar c = true := by
  simp only [isHandler, Bool.and_eq_true, List.all_eq_true, Bool.not_eq_true'] at h
  obtain ⟨⟨hon, hne⟩, hletters⟩ := h
  obtain ⟨name, hkey⟩ := List.isPrefixOf_iff_prefix.1 hon
  have hrest : a.key.drop 2 = name := by
    rw [← hkey]
    rfl
  rw [hrest] at hne hletters
  have hascii : ∀ k ∈ a.key, k.toNat < 128 := by
    intro k hk
    rw [← hkey] at hk
    rcases List.mem_append.1 hk with hk | hk
    · exact (by decide : ∀ k ∈ txt "on", k.toNat < 128) k hk
    · have := hletters k hk
      simp only [isAsciiLower, Bool.and_eq_true, decide_eq_true_iff] at this
      omega
  obtain ⟨hfold, -⟩ := @fold_of_key a.name a.key rfl hascii
  have hfold : a.name.map foldCase = txt "on" ++ name := by
    rw [hfold]
    exact hkey.symm
  obtain ⟨on, letters, hname, hon, hletter⟩ := List.map_eq_append_iff.1 hfold
  refine ⟨on, letters, hname, hon, ?_, ?_⟩
  · rintro rfl
    rw [← hletter] at hne
    cases hne
  · intro c hc
    have hlower : isAsciiLower (foldCase c) = true := by
      refine hletters _ ?_
      rw [← hletter]
      exact List.mem_map_of_mem hc
    simp [isHandlerChar, hlower]

theorem marked_of_handler (hwritten : tag.Written) (hname : tag.name ≠ [])
    (hin : tag.text <:+: text) (h : PlainHandler tag) : Marked uni casing text := by
  obtain ⟨before, rest, htext⟩ := hin
  obtain ⟨done, a, later, hsplit, hkey, hblank, hassigned, hopen⟩ := h
  obtain ⟨s, hs⟩ := Option.isSome_iff_exists.1 hassigned
  obtain ⟨blank, hlast, hblank⟩ := hblank
  obtain ⟨gap, hgap⟩ := List.getLast?_eq_some_iff.1 hlast
  obtain ⟨on, name, hon, hfold, hne, hchars⟩ := handler_name hkey
  have ha := hwritten.attributes a (by rw [hsplit]; simp)
  -- No bracket stands in front of the handler.
  have hopen : ∀ c ∈ tag.name ++ (done.flatMap Attribute.text ++ gap), (c != '>') = true := by
    intro c hc
    rw [bne_iff_ne]
    rintro rfl
    rcases List.mem_append.1 hc with hc | hc
    · exact absurd (hwritten.name _ hc) (by decide)
    rcases List.mem_append.1 hc with hc | hc
    · exact hopen hc
    · have hbracket := ha.gap '>' (by rw [hgap]; exact List.mem_append_left _ hc)
      exact absurd hbracket (by decide)
  have hmatch : Always handlerRe ([['<'], tag.name ++ (done.flatMap Attribute.text ++ gap), [blank],
      on, name, s.before, ['=']].flatten) := by
    refine Always.seq (.cons (always_among (by simp)) (.cons (Always.atLeast_one ?_ hopen)
      (.cons (Always.atLeast_one (by simp) ?_) (.cons (always_litCI hfold)
        (.cons (Always.atLeast_one hne hchars) (.cons (always_spaces ?_)
          (.cons (always_among (by simp)) .nil)))))))
    · simp [hname]
    · intro c hc
      obtain rfl := List.mem_singleton.1 hc
      exact isSpace_of_html hblank
    · exact fun c hc => isSpace_of_html ((ha.assigned s hs).before c hc)
  refine marked_of_always (by simp) hmatch ⟨before, s.after ++ (s.quote.toList ++ (s.value ++
    (s.quote.toList ++ (later.flatMap Attribute.text ++ (tag.tail ++ '>' :: rest))))), ?_⟩
  rw [← htext, StartTag.text_split hsplit, hs, hgap, hon]
  simp [Assignment.text]

theorem marked_of_url (hwritten : tag.Written) (hin : tag.text <:+: text) (h : PlainUrl tag) :
    Marked uni casing text := by
  obtain ⟨before, rest, htext⟩ := hin
  obtain ⟨a, hmem, hkey, s, hs, w, hw, hfront⟩ := h
  obtain ⟨done, later, hsplit⟩ := List.append_of_mem hmem
  have ha := (hwritten.attributes a hmem).assigned s hs
  have hascii : ∀ w ∈ urlNames, ∀ k ∈ w, k.toNat < 128 := by decide
  obtain ⟨hfold, -⟩ := @fold_of_key a.name a.key rfl (hascii _ hkey)
  obtain ⟨lead, front, back, hvalue, hlead, hfront⟩ : ∃ lead front back : Text,
      s.value = lead ++ (front ++ back) ∧ (∀ c ∈ lead, isSpace c = true) ∧
        front.map foldCase = w := by
    refine ⟨s.value.takeWhile isSpace, (lstrip s.value).take w.length,
      (lstrip s.value).drop w.length, ?_, fun c hc => mem_takeWhile_imp hc, hfront⟩
    rw [List.take_append_drop]
    exact (List.takeWhile_append_dropWhile (p := isSpace) (l := s.value)).symm
  have hquote : Always (opt (chr isQuote)) s.quote.toList := by
    cases hq : s.quote with
    | none => exact Always.opt_none
    | some q =>
        refine Always.opt_some (Always.chr ?_)
        rcases ha.quote q hq with rfl | rfl <;> decide
  have hmatch : Always urlRe
      ([a.name, s.before, ['='], s.after, s.quote.toList, lead, front].flatten) := by
    refine Always.seq (.cons (Always.anyOf (List.mem_map_of_mem hkey) (always_litCI hfold))
      (.cons (always_spaces ?_) (.cons (always_among (by simp)) (.cons (always_spaces ?_)
        (.cons hquote (.cons (always_spaces hlead)
          (.cons (Always.anyOf (List.mem_map_of_mem hw) (always_litCI hfront)) .nil)))))))
    · exact fun c hc => isSpace_of_html (ha.before c hc)
    · exact fun c hc => isSpace_of_html (ha.after c hc)
  refine marked_of_always (by simp) hmatch
    ⟨before ++ ('<' :: (tag.name ++ (done.flatMap Attribute.text ++ a.gap))),
      back ++ (s.quote.toList ++ (later.flatMap Attribute.text ++ (tag.tail ++ '>' :: rest))), ?_⟩
  rw [← htext, StartTag.text_split hsplit, Option.mem_def.1 hs]
  simp only [Option.map_some, Option.getD_some, Assignment.text, hvalue]
  simp

/-! ## What the second pattern sees -/

theorem mem_strip {t : Text} {c : Char} (h : c ∈ t) (hc : isSpace c = false) : c ∈ strip t := by
  have hkept : ∀ {u : Text}, c ∈ u → c ∈ u.dropWhile isSpace := by
    intro u hu
    rw [← List.takeWhile_append_dropWhile (p := isSpace) (l := u)] at hu
    rcases List.mem_append.1 hu with hu | hu
    · rw [mem_takeWhile_imp hu] at hc
      cases hc
    · exact hu
  exact List.mem_reverse.2 (hkept (List.mem_reverse.2 (hkept h)))

/-- A value that reads as the policy has its characters only, and white space. -/
theorem IsPolicy.chars {value : Text} (h : IsPolicy casing value) :
    ∀ c ∈ value, isSpace c = true ∨ asciiLower c ∈ policy := by
  have hpolicy : ∀ k ∈ policy, k.toNat < 128 ∧ k ≠ 'k' := by decide
  have hascii := casing.ascii_of_lower (strip value) (by rw [h]; exact hpolicy)
  have hlower := casing.lower_ascii (strip value) hascii
  intro c hc
  by_cases hspace : isSpace c = true
  · exact .inl hspace
  · have hmem := mem_strip hc (by simpa using hspace)
    rw [h] at hlower
    rw [hlower]
    exact .inr (List.mem_map_of_mem hmem)

theorem IsPolicy.not_mem {value : Text} (h : IsPolicy casing value) {c : Char}
    (hspace : isSpace c = false) (hc : asciiLower c ∉ policy) : c ∉ value := by
  intro hmem
  rcases h.chars c hmem with htrue | hin
  · rw [hspace] at htrue
    cases htrue
  · exact hc hin

theorem lastHttpEquiv_append {front t : Text} {r : Text × Text} (hfront : '>' ∉ front)
    (h : lastHttpEquiv t = some r) : lastHttpEquiv (front ++ t) = some r := by
  induction front with
  | nil => exact h
  | cons c front ih =>
      obtain ⟨hc, hrest⟩ := List.ne_and_not_mem_of_not_mem_cons hfront
      rw [List.cons_append, lastHttpEquiv, if_neg (Ne.symm hc), ih hrest]
      rfl

theorem dropFold_eq_some {w t u : Text} (h : dropFold w t = some u) :
    ∃ front, t = front ++ u ∧ front.map foldCase = w := by
  rw [dropFold] at h
  split at h
  · rename_i hfold
    cases h
    exact ⟨t.take w.length, (List.take_append_drop _ _).symm, hfold⟩
  · cases h

/-- A word without a bracket is written without one. -/
theorem bracket_not_mem_fold {front w : Text} (h : front.map foldCase = w) (hw : '>' ∉ w) :
    '>' ∉ front := by
  intro hmem
  refine hw ?_
  rw [← h]
  exact List.mem_map_of_mem hmem

theorem bracket_not_mem_spaces (t : Text) : '>' ∉ t.takeWhile isSpace := fun hmem =>
  absurd (mem_takeWhile_imp hmem) (by decide)

theorem lstrip_split (t : Text) : t = t.takeWhile isSpace ++ lstrip t :=
  (List.takeWhile_append_dropWhile (p := isSpace) (l := t)).symm

/-- What a match has at its start, the place of its `http-equiv` is the last of
the tag. -/
theorem lastHttpEquiv_of_matchMeta {t : Text} {r : Text × Text} (h : matchMeta uni t = some r) :
    lastHttpEquiv t = some r := by
  rw [matchMeta.eq_def] at h
  split at h
  · rename_i u
    obtain ⟨x, hx, h⟩ := Option.bind_eq_some_iff.1 h
    split at h
    · cases h
    obtain ⟨name, hsplit, hname⟩ := dropFold_eq_some hx
    have htext : '<' :: u = ('<' :: u.takeWhile isSpace ++ name) ++ x := by
      conv_lhs => rw [lstrip_split u, hsplit]
      simp
    rw [htext]
    refine lastHttpEquiv_append ?_ h
    have hbracket : '>' ∉ name := bracket_not_mem_fold hname (by decide)
    simp [bracket_not_mem_spaces u, hbracket]
  · cases h

theorem dropTag_eq_some {t rest : Text} (h : dropTag t = some rest) :
    ∃ front, t = front ++ '>' :: rest ∧ '>' ∉ front := by
  rw [dropTag] at h
  split at h
  · rename_i hmem
    cases h
    have hne : t.dropWhile (· != '>') ≠ [] := by
      intro hnil
      simpa using List.dropWhile_eq_nil_iff.1 hnil '>' hmem
    obtain ⟨c, u, hcons⟩ := List.exists_cons_of_ne_nil hne
    have hc : (c != '>') = false := head?_dropWhile_imp c (by rw [hcons]; rfl)
    rw [bne_eq_false_iff_eq] at hc
    subst hc
    refine ⟨t.takeWhile (· != '>'), ?_, fun hin => ?_⟩
    · rw [behindBracket, hcons]
      show t = t.takeWhile (· != '>') ++ '>' :: u
      rw [← hcons, List.takeWhile_append_dropWhile]
    · have := mem_takeWhile_imp hin
      simp at this
  · cases h

theorem readQuoted_eq_some {t value rest : Text} (h : readQuoted t = some (value, rest))
    (hvalue : '>' ∉ value) : ∃ front, t = front ++ '>' :: rest ∧ '>' ∉ front := by
  rw [readQuoted.eq_def] at h
  split at h
  · cases h
  rename_i q u
  split at h
  · rename_i hquote
    have hsplit := List.takeWhile_append_dropWhile (p := (!isQuote ·)) (l := u)
    split at h
    · cases h
    rename_i c v hv
    obtain ⟨rest', hdrop, heq⟩ := Option.map_eq_some_iff.1 h
    cases heq
    obtain ⟨front, hfront, hno⟩ := dropTag_eq_some hdrop
    rw [hv] at hsplit
    have hquotes : isQuote q = true ∧ isQuote c = true := by
      refine ⟨(Bool.and_eq_true_iff.1 hquote).1, ?_⟩
      have := head?_dropWhile_imp (p := (!isQuote ·)) c (by rw [hv]; rfl)
      simpa using this
    have hplain : ∀ {d}, isQuote d = true → '>' ≠ d := by
      rintro d hd rfl
      exact absurd hd (by decide)
    refine ⟨q :: (u.takeWhile (!isQuote ·) ++ c :: front), ?_, ?_⟩
    · rw [hfront] at hsplit
      conv_lhs => rw [← hsplit]
      simp
    · simp only [List.mem_cons, List.mem_append, not_or]
      exact ⟨hplain hquotes.1, hvalue, hplain hquotes.2, hno⟩
  · cases h

theorem readPlain_eq_some {t value rest : Text} (h : readPlain t = some (value, rest)) :
    ∃ front, t = front ++ '>' :: rest ∧ '>' ∉ front := by
  rw [readPlain] at h
  split at h
  · obtain ⟨rest', hdrop, heq⟩ := Option.map_eq_some_iff.1 h
    cases heq
    obtain ⟨front, hfront, hno⟩ := dropTag_eq_some hdrop
    refine ⟨t.takeWhile isPlainChar ++ front, ?_, ?_⟩
    · rw [List.append_assoc, ← hfront, List.takeWhile_append_dropWhile]
    · intro hmem
      rcases List.mem_append.1 hmem with hmem | hmem
      · exact absurd (mem_takeWhile_imp hmem) (by decide)
      · exact hno hmem
  · cases h

/-- A match ends with the first bracket behind its value. -/
theorem readHttpEquiv_eq_some {t value rest : Text} (h : readHttpEquiv t = some (value, rest))
    (hvalue : '>' ∉ value) : ∃ front, t = front ++ '>' :: rest ∧ '>' ∉ front := by
  obtain ⟨u, hu, h⟩ := Option.bind_eq_some_iff.1 h
  obtain ⟨name, hsplit, hname⟩ := dropFold_eq_some hu
  split at h
  · rename_i v hv
    have hread : ∃ front, lstrip v = front ++ '>' :: rest ∧ '>' ∉ front := by
      rcases Option.or_eq_some_iff.1 h with hread | ⟨-, hread⟩
      · exact readQuoted_eq_some hread hvalue
      · exact readPlain_eq_some hread
    obtain ⟨front, hfront, hno⟩ := hread
    have hbracket : '>' ∉ name := bracket_not_mem_fold hname (by decide)
    refine ⟨name ++ (u.takeWhile isSpace ++ '=' :: (v.takeWhile isSpace ++ front)), ?_, ?_⟩
    · rw [hsplit]
      conv_lhs => rw [lstrip_split u, hv, lstrip_split v, hfront]
      simp
    · simp [hbracket, bracket_not_mem_spaces, hno]
  · cases h

theorem lastHttpEquiv_eq_some {t value rest : Text} (h : lastHttpEquiv t = some (value, rest))
    (hvalue : '>' ∉ value) : ∃ front, t = front ++ '>' :: rest ∧ '>' ∉ front := by
  induction t with
  | nil => cases h
  | cons c t ih =>
      rw [lastHttpEquiv] at h
      split at h
      · cases h
      rename_i hc
      rcases Option.or_eq_some_iff.1 h with hlater | ⟨-, hhere⟩
      · obtain ⟨front, hfront, hno⟩ := ih hlater
        refine ⟨c :: front, by rw [hfront]; rfl, ?_⟩
        simp [Ne.symm hc, hno]
      · exact readHttpEquiv_eq_some hhere hvalue

/-- **The search for the second pattern misses no value but the policy**: what a
match of the policy covers has the same last `http-equiv`. -/
theorem metaMatches_all {text : Text} {skip : Nat}
    (h : ∀ hit ∈ metaMatches uni skip text, IsPolicy casing hit.2) :
    ∀ before behind value rest, text = before ++ behind → skip ≤ before.length →
      matchMeta uni behind = some (value, rest) → IsPolicy casing value := by
  induction text generalizing skip with
  | nil =>
      intro before behind value rest hsplit _ hmatch
      obtain ⟨-, rfl⟩ := List.append_eq_nil_iff.1 hsplit.symm
      cases hmatch
  | cons c t ih =>
      intro before behind value rest hsplit hskip hmatch
      cases skip with
      | succ skip =>
          cases before with
          | nil => simp at hskip
          | cons d before =>
              obtain ⟨-, hsplit⟩ := List.cons.inj hsplit
              exact ih h before behind value rest hsplit (by simpa using hskip) hmatch
      | zero =>
          rw [metaMatches] at h
          split at h
          · rename_i found rest' hfound
            obtain ⟨hhere, hlater⟩ := List.forall_mem_cons.1 h
            cases before with
            | nil =>
                rw [hsplit, List.nil_append, hmatch] at hfound
                obtain ⟨rfl, rfl⟩ := Prod.mk.inj (Option.some.inj hfound)
                exact hhere
            | cons d before =>
                obtain ⟨rfl, hrest⟩ := List.cons.inj hsplit
                by_cases hcovered : t.length - rest'.length ≤ before.length
                · exact ih hlater before behind value rest hrest hcovered hmatch
                · have hlast := lastHttpEquiv_of_matchMeta hfound
                  have hbracket : '>' ∉ found := hhere.not_mem (by decide) (by decide)
                  obtain ⟨front, hfront, hno⟩ := lastHttpEquiv_eq_some hlast hbracket
                  have hlength := congrArg List.length hfront
                  simp only [List.length_cons, List.length_append] at hlength
                  have hstart : c :: before <+: c :: t := ⟨behind, hsplit.symm⟩
                  have hinside : c :: before <+: front := by
                    refine List.prefix_of_prefix_length_le hstart ⟨_, hfront.symm⟩ ?_
                    rw [List.length_cons]
                    omega
                  have hclear : '>' ∉ c :: before := fun hmem => hno (hinside.subset hmem)
                  have hsame := lastHttpEquiv_append hclear (lastHttpEquiv_of_matchMeta hmatch)
                  rw [← hsplit, hlast] at hsame
                  obtain ⟨rfl, -⟩ := Prod.mk.inj (Option.some.inj hsame)
                  exact hhere
          · cases before with
            | nil =>
                rename_i hnone
                rw [hsplit, List.nil_append, hmatch] at hnone
                cases hnone
            | cons d before =>
                obtain ⟨-, hsplit⟩ := List.cons.inj hsplit
                exact ih h before behind value rest hsplit (by simp) hmatch

theorem metaMatches_place {text : Text} {skip : Nat} {hit : Text × Text}
    (h : hit ∈ metaMatches uni skip text) :
    ∃ before behind rest, text = before ++ behind ∧ matchMeta uni behind = some (hit.2, rest) := by
  induction text generalizing skip with
  | nil => cases skip <;> cases h
  | cons c t ih =>
      have hlater : ∀ {skip}, hit ∈ metaMatches uni skip t → ∃ before behind rest,
          c :: t = before ++ behind ∧ matchMeta uni behind = some (hit.2, rest) := by
        intro skip hmem
        obtain ⟨before, behind, rest, hsplit, hmatch⟩ := ih hmem
        exact ⟨c :: before, behind, rest, by rw [hsplit]; rfl, hmatch⟩
      cases skip with
      | succ skip => exact hlater h
      | zero =>
          rw [metaMatches] at h
          split at h
          · rename_i found rest hfound
            rcases List.mem_cons.1 h with rfl | hmem
            · exact ⟨[], c :: t, rest, rfl, hfound⟩
            · exact hlater hmem
          · exact hlater h

/-! ## A plain `meta` element -/

theorem lstrip_spaces {front t : Text} {c : Char} (h : ∀ d ∈ front, isSpace d = true)
    (hc : isSpace c = false) : lstrip (front ++ c :: t) = c :: t := by
  rw [lstrip, List.dropWhile_append_of_pos h, List.dropWhile_cons_of_neg (by simp [hc])]

theorem takeWhile_of_stop {p : Char → Bool} {u t : Text} (hu : ∀ c ∈ u, p c = true)
    (ht : ∀ c ∈ t.head?, p c = false) :
    (u ++ t).takeWhile p = u ∧ (u ++ t).dropWhile p = t := by
  rw [List.takeWhile_append_of_pos hu, List.dropWhile_append_of_pos hu]
  cases t with
  | nil => simp
  | cons c t =>
      have hc := ht c rfl
      simp [hc]

theorem dropFold_append {name w t : Text} (h : name.map foldCase = w) :
    dropFold w (name ++ t) = some t := by
  subst h
  rw [dropFold, List.length_map, List.take_left, List.drop_left, if_pos rfl]

/-- Without another `http-equiv` in the tag there is none to be read. -/
theorem lastHttpEquiv_none {front : Text} (h : contains httpEquiv (front.map foldCase) = false)
    (rest : Text) : lastHttpEquiv (front ++ '>' :: rest) = none := by
  induction front with
  | nil => rfl
  | cons c front ih =>
      rw [List.map_cons, contains, Bool.or_eq_false_iff] at h
      rw [List.cons_append, lastHttpEquiv]
      split
      · rfl
      have hno : dropFold httpEquiv (c :: (front ++ '>' :: rest)) = none := by
        rw [dropFold, if_neg]
        intro hfold
        rw [← List.cons_append] at hfold
        by_cases hlong : httpEquiv.length ≤ (c :: front).length
        · rw [List.take_append_of_le_length hlong, List.map_take] at hfold
          have hstart : httpEquiv <+: (c :: front).map foldCase := by
            rw [← hfold]
            exact List.take_prefix _ _
          rw [← List.map_cons, List.isPrefixOf_iff_prefix.2 hstart] at h
          cases h.1
        · -- the bracket would be a character of the word
          have hmem : '>' ∈ ((c :: front) ++ '>' :: rest).take httpEquiv.length := by
            refine List.mem_take_iff_getElem.2 ⟨(c :: front).length, ?_, by simp⟩
            simp only [List.length_append, List.length_cons] at hlong ⊢
            omega
          exact absurd (bracket_not_mem_fold hfold (by decide)) (not_not.2 hmem)
      rw [ih h.2, readHttpEquiv, hno]
      rfl

/-- The pattern reads what stands behind the sign of an attribute. -/
theorem readHttpEquiv_assigned {name rest : Text} {s : Assignment} (hs : s.Written)
    (hname : name.map foldCase = httpEquiv) {c : Char} {t : Text} (hc : isSpace c = false)
    (hvalue : s.quote.toList ++ (s.value ++ (s.quote.toList ++ rest)) = c :: t) :
    readHttpEquiv (name ++ (s.text ++ rest)) = (readQuoted (c :: t)).or (readPlain (c :: t)) := by
  have hbefore : ∀ d ∈ s.before, isSpace d = true := fun d hd => isSpace_of_html (hs.before d hd)
  have hafter : ∀ d ∈ s.after, isSpace d = true := fun d hd => isSpace_of_html (hs.after d hd)
  have hsign : lstrip (s.text ++ rest) =
      '=' :: (s.after ++ (s.quote.toList ++ (s.value ++ (s.quote.toList ++ rest)))) := by
    simp only [Assignment.text, List.append_assoc, List.cons_append]
    exact lstrip_spaces hbefore (by decide)
  rw [readHttpEquiv, dropFold_append hname]
  show (match lstrip (s.text ++ rest) with
    | '=' :: v => (readQuoted (lstrip v)).or (readPlain (lstrip v))
    | _ => none) = _
  rw [hsign, hvalue]
  show (readQuoted (lstrip (s.after ++ c :: t))).or (readPlain (lstrip (s.after ++ c :: t))) = _
  rw [lstrip_spaces hafter hc]

theorem readHttpEquiv_bare {name rest : Text} {s : Assignment} (hs : s.Written)
    (hname : name.map foldCase = httpEquiv) (hquote : s.quote = none)
    (hquotes : ∀ c ∈ s.value, isQuote c = false) (hne : s.value ≠ [])
    (hvisible : ∀ c ∈ s.value, isSpace c = false) (hend : ∀ c ∈ rest.head?, isBare c = false)
    (hrest : '>' ∈ rest) :
    readHttpEquiv (name ++ (s.text ++ rest)) = some (s.value, behindBracket rest) := by
  obtain ⟨c, value, hvalue⟩ := List.exists_cons_of_ne_nil hne
  have hc : c ∈ s.value := by rw [hvalue]; exact List.mem_cons_self
  have hplain : ∀ d ∈ s.value, isPlainChar d = true := by
    intro d hd
    have hbare := hs.bare hquote d hd
    simp only [isBare, Bool.and_eq_true] at hbare
    simp [isPlainChar, hvisible d hd, hbare.2]
  have hstop : ∀ d ∈ rest.head?, isPlainChar d = false := by
    intro d hd
    have hbare := hend d hd
    simp only [isBare, Bool.and_eq_false_iff, Bool.not_eq_false'] at hbare
    rcases hbare with hspace | hbracket
    · simp [isPlainChar, isSpace_of_html hspace]
    · simp [isPlainChar, hbracket]
  obtain ⟨htake, hdrop⟩ := takeWhile_of_stop hplain hstop
  rw [@readHttpEquiv_assigned _ rest s hs hname c (value ++ rest) (hvisible c hc)
    (by rw [hquote, hvalue]; rfl)]
  have hnone : readQuoted (c :: (value ++ rest)) = none := by
    rw [readQuoted, hquotes c hc]
    rfl
  rw [hnone, ← List.cons_append, ← hvalue, Option.none_or, readPlain, htake, hdrop, if_pos hne,
    dropTag, if_pos hrest]
  rfl

theorem readHttpEquiv_quoted {name rest : Text} {s : Assignment} (hs : s.Written)
    (hname : name.map foldCase = httpEquiv) {q : Char} (hquote : s.quote = some q)
    (hquotes : ∀ c ∈ s.value, isQuote c = false) (hpolicy : ¬ IsPolicy casing s.value)
    (hrest : '>' ∈ rest) :
    ∃ value behind, readHttpEquiv (name ++ (s.text ++ rest)) = some (value, behind) ∧
      ¬ IsPolicy casing value := by
  have hq : isQuote q = true ∧ isSpace q = false ∧ isPlainChar q = true ∧
      asciiLower q ∉ policy := by
    rcases hs.quote q hquote with rfl | rfl <;> decide
  rw [readHttpEquiv_assigned (t := s.value ++ q :: rest) hs hname hq.2.1 (by rw [hquote]; rfl)]
  have hstop : ∀ d ∈ (q :: rest).head?, (!isQuote d) = false := by
    intro d hd
    obtain rfl := Option.some.inj hd
    simp [hq.1]
  have hkept : ∀ d ∈ s.value, (!isQuote d) = true := fun d hd => by simp [hquotes d hd]
  obtain ⟨htake, hdrop⟩ := takeWhile_of_stop hkept hstop
  by_cases hempty : s.value = []
  · -- two quotes with nothing between them: the second alternative reads them
    rw [hempty] at htake ⊢
    have hnone : readQuoted (q :: ([] ++ q :: rest)) = none := by
      rw [readQuoted, htake]
      simp
    have hbracket : '>' ∈ (q :: ([] ++ q :: rest)).dropWhile isPlainChar := by
      have hmem : '>' ∈ q :: ([] ++ q :: rest) := by simp [hrest]
      rw [← List.takeWhile_append_dropWhile (p := isPlainChar) (l := q :: ([] ++ q :: rest))]
        at hmem
      rcases List.mem_append.1 hmem with hin | hin
      · exact absurd (mem_takeWhile_imp hin) (by decide)
      · exact hin
    have hfirst : q ∈ (q :: ([] ++ q :: rest)).takeWhile isPlainChar := by
      rw [List.takeWhile_cons_of_pos hq.2.2.1]
      exact List.mem_cons_self
    refine ⟨_, behindBracket ((q :: ([] ++ q :: rest)).dropWhile isPlainChar), ?_,
      fun hpol => hpol.not_mem hq.2.1 hq.2.2.2 hfirst⟩
    rw [hnone, Option.none_or, readPlain, if_pos (List.ne_nil_of_mem hfirst), dropTag,
      if_pos hbracket]
    rfl
  · refine ⟨s.value, behindBracket rest, ?_, hpolicy⟩
    have hread : readQuoted (q :: (s.value ++ q :: rest)) = some (s.value, behindBracket rest) := by
      rw [readQuoted, htake, hdrop, hq.1, if_pos (by simp [hempty])]
      show (dropTag rest).map _ = _
      rw [dropTag, if_pos hrest]
      rfl
    rw [hread]
    rfl

theorem marked_of_meta (hwritten : tag.Written) (hin : tag.text <:+: text)
    (h : PlainMeta casing tag) : Marked uni casing text := by
  obtain ⟨before, rest, htext⟩ := hin
  obtain ⟨helement, hopen, done, a, later, s, hsplit, hkey, hs, hquotes, hplain, hpolicy, hlast⟩ := h
  have ha := hwritten.attributes a (by rw [hsplit]; simp)
  have hsw := ha.assigned s hs
  have hascii : ∀ w ∈ [metaName, httpEquiv], ∀ k ∈ w, k.toNat < 128 := by decide
  obtain ⟨htag, -⟩ := @fold_of_key tag.name metaName helement (hascii _ (by simp))
  obtain ⟨hname, -⟩ := @fold_of_key a.name httpEquiv hkey (hascii _ (by simp))
  -- the place of the attribute
  obtain ⟨value, behind, hread, hno⟩ : ∃ value behind, readHttpEquiv (a.name ++ (s.text ++
      (later.flatMap Attribute.text ++ (tag.tail ++ '>' :: rest)))) = some (value, behind) ∧
        ¬ IsPolicy casing value := by
    have hbracket : '>' ∈ later.flatMap Attribute.text ++ (tag.tail ++ '>' :: rest) := by simp
    cases hquote : s.quote with
    | none =>
        have hend := hwritten.bareEnded done a later hsplit s hs hquote
        rw [← head?_bracket _ _ rest] at hend
        obtain ⟨hne, hvisible⟩ := hplain hquote
        exact ⟨_, _, readHttpEquiv_bare hsw hname hquote hquotes hne hvisible hend hbracket,
          hpolicy⟩
    | some q => exact readHttpEquiv_quoted hsw hname hquote hquotes hpolicy hbracket
  -- it is the last of the tag
  have hlastHere : lastHttpEquiv (a.name ++ (s.text ++ (later.flatMap Attribute.text ++
      (tag.tail ++ '>' :: rest)))) = some (value, behind) := by
    obtain ⟨c, name, hcons⟩ : ∃ c name, a.name = c :: name := by
      refine List.exists_cons_of_ne_nil fun hnil => ?_
      rw [hnil] at hname
      cases hname
    rw [hcons, List.map_cons] at hname
    obtain ⟨hc, hletters⟩ := List.cons.inj hname
    have hnone : lastHttpEquiv (name ++ (s.text ++ (later.flatMap Attribute.text ++
        (tag.tail ++ '>' :: rest)))) = none := by
      have hwithin : contains httpEquiv ((name ++ (s.text ++ (later.flatMap Attribute.text ++
          tag.tail))).map foldCase) = false := by
        rw [List.map_append, hletters]
        exact hlast
      have := lastHttpEquiv_none hwithin rest
      simpa only [List.append_assoc] using this
    have hfirst : c ≠ '>' := by
      rintro rfl
      exact absurd hc (by decide)
    rw [hcons] at hread ⊢
    rw [List.cons_append, lastHttpEquiv, if_neg hfirst, hnone, Option.none_or]
    exact hread
  -- the name of the element
  have hword : ((done.flatMap Attribute.text ++ (a.gap ++ (a.name ++ (s.text ++
      (later.flatMap Attribute.text ++ (tag.tail ++ '>' :: rest)))))).head?.any uni.word) = false := by
    have hended := hwritten.ended
    rw [← head?_bracket _ _ rest, hsplit, List.flatMap_append, List.flatMap_cons] at hended
    simp only [Attribute.text, hs, Option.map_some, Option.getD_some, List.append_assoc] at hended
    cases hhead : (done.flatMap Attribute.text ++ (a.gap ++ (a.name ++ (s.text ++
      (later.flatMap Attribute.text ++ (tag.tail ++ '>' :: rest)))))).head? with
    | none => rfl
    | some c => exact not_word_of_ended (hended c hhead)
  refine .inr ⟨before, tag.text ++ rest, value, behind, ?_, ?_, hno⟩
  · rw [← htext, List.append_assoc]
  · have hclear : '>' ∉ done.flatMap Attribute.text ++ a.gap := by
      rw [hsplit, List.flatMap_append, List.mem_append, not_or] at hopen
      simp only [List.mem_append, not_or]
      exact ⟨hopen.1, fun hmem => absurd (ha.gap _ hmem) (by decide)⟩
    obtain ⟨c, name, hcons⟩ : ∃ c name, tag.name = c :: name := by
      refine List.exists_cons_of_ne_nil fun hnil => ?_
      rw [hnil] at htag
      cases htag
    have hvisible : isSpace c = false := by
      rw [hcons, List.map_cons] at htag
      obtain ⟨hc, -⟩ := List.cons.inj htag
      by_contra hspace
      have hspace : isSpace c = true := by simpa using hspace
      rw [foldCase_of_space hspace] at hc
      subst hc
      exact absurd hspace (by decide)
    have hsource : tag.text ++ rest = '<' :: (tag.name ++ (done.flatMap Attribute.text ++ (a.gap ++
        (a.name ++ (s.text ++ (later.flatMap Attribute.text ++ (tag.tail ++ '>' :: rest))))))) := by
      rw [StartTag.text_split hsplit, hs]
      simp
    have hstrip : lstrip (tag.name ++ (done.flatMap Attribute.text ++ (a.gap ++ (a.name ++ (s.text ++
        (later.flatMap Attribute.text ++ (tag.tail ++ '>' :: rest))))))) = tag.name ++
          (done.flatMap Attribute.text ++ (a.gap ++ (a.name ++ (s.text ++
            (later.flatMap Attribute.text ++ (tag.tail ++ '>' :: rest)))))) := by
      rw [hcons, List.cons_append]
      exact @lstrip_spaces [] _ c (by simp) hvisible
    rw [hsource, matchMeta, hstrip, dropFold_append htag]
    show (if _ then none else _) = _
    rw [hword]
    have := lastHttpEquiv_append hclear hlastHere
    rwa [List.append_assoc] at this

/-! ## Exact searches -/

/-- A plainly written tag is seen. -/
theorem marked_of_plain (hwritten : tag.Written) (hname : tag.name ≠ [])
    (hin : tag.text <:+: text) (h : PlainTag casing tag) : Marked uni casing text := by
  rcases h with hactive | hhandler | hurl | hmeta
  · exact marked_of_element hwritten hin hactive
  · exact marked_of_handler hwritten hname hin hhandler
  · exact marked_of_url hwritten hin hurl
  · exact marked_of_meta hwritten hin hmeta

/-- **The search finds nothing exactly in a text without a mark.** -/
theorem unsafeNotesHtmlMatch_eq_none (text : Text) :
    unsafeNotesHtmlMatch uni casing text = none ↔ ¬ Marked uni casing text := by
  have hfirst : (findall (unsafeNotesHtmlRe uni) text).head? = none ↔
      test (unsafeNotesHtmlRe uni) text = false := by
    rw [List.head?_eq_none_iff, findall, List.map_eq_nil_iff, List.filter_eq_nil_iff, test,
      List.any_eq_false]
  have hnull : nullable (unsafeNotesHtmlRe uni) = false := rfl
  constructor
  · intro h hmarked
    rw [unsafeNotesHtmlMatch] at h
    split at h
    · cases h
    rename_i hnone
    rw [hfirst] at hnone
    rcases hmarked with ⟨before, u, behind, hsplit, hmatch⟩ | ⟨before, behind, value, rest, hsplit,
      hmatch, hno⟩
    · rw [hsplit, test_of_place hnull hmatch] at hnone
      cases hnone
    · have hall : ∀ hit ∈ metaMatches uni 0 text, IsPolicy casing hit.2 := by
        rw [Option.map_eq_none_iff, List.find?_eq_none] at h
        intro hit hhit
        simpa using h hit hhit
      exact hno (metaMatches_all hall before behind value rest hsplit (Nat.zero_le _) hmatch)
  · intro hclear
    rw [unsafeNotesHtmlMatch]
    split
    · rename_i found hfound
      refine absurd ?_ hclear
      have htest : test (unsafeNotesHtmlRe uni) text = true := by
        by_contra hno
        rw [hfirst.2 (by simpa using hno)] at hfound
        cases hfound
      exact .inl (test_place htest)
    · rw [Option.map_eq_none_iff, List.find?_eq_none]
      intro hit hhit hno
      obtain ⟨before, behind, rest, hsplit, hmatch⟩ := metaMatches_place hhit
      exact hclear (.inr ⟨before, behind, hit.2, rest, hsplit, hmatch, by simpa using hno⟩)

end Seen

/-- **The search is right about a text** exactly if its unsafe tags are written
plainly or the patterns see something else in it. -/
theorem screened_iff (uni : Unicode) (casing : Casing) (entities : Entities) (scripting : Bool)
    (text : Text) : Screened uni casing entities scripting text ↔
      (∀ tag ∈ startTags scripting text, UnsafeTag entities tag → PlainTag casing tag) ∨
        Marked uni casing text := by
  rw [Screened, unsafeNotesHtmlMatch_eq_none]
  constructor
  · intro h
    by_cases hmarked : Marked uni casing text
    · exact .inr hmarked
    · exact .inl fun tag htag hunsafe => absurd hunsafe (h hmarked tag htag)
  · rintro (hplain | hmarked) hclear tag htag hunsafe
    · obtain ⟨hwritten, hname, hin⟩ := startTags_spec htag
      exact hclear (marked_of_plain hwritten hname hin (hplain tag htag hunsafe))
    · exact hclear hmarked

/-- An interpreter that knows ASCII only. -/
def Casing.ascii : Casing where
  lower t := t.map fun c => if c.toNat < 128 then asciiLower c else c
  lower_ascii t h := List.map_congr_left fun c hc => if_pos (h c hc)
  ascii_of_lower t h c hc := by
    by_contra hno
    have := (h c (List.mem_map.2 ⟨c, hc, if_neg hno⟩)).1
    exact hno this

/-- A handler behind a slash. -/
def slashed : Text := txt "<img/onerror=x>"

/-- **A tag that the patterns do not see.** -/
theorem not_screened :
    unsafeNotesHtmlMatch Unicode.ascii Casing.ascii slashed = none ∧
      (startTags true slashed).map (fun tag => tag.attributes.map Attribute.key) =
        [[txt "onerror"]] ∧
      ¬ ∀ (uni : Unicode) (casing : Casing) (entities : Entities) (scripting : Bool) (text : Text),
        Screened uni casing entities scripting text := by
  have hnone : unsafeNotesHtmlMatch Unicode.ascii Casing.ascii slashed = none := by
    decide +kernel
  have hkeys : (startTags true slashed).map (fun tag => tag.attributes.map Attribute.key) =
      [[txt "onerror"]] := by
    decide +kernel
  refine ⟨hnone, hkeys, fun h => ?_⟩
  obtain ⟨tag, htags, hattributes⟩ : ∃ tag, tag ∈ startTags true slashed ∧
      tag.attributes.map Attribute.key = [txt "onerror"] := by
    obtain ⟨tag, tags, hcons⟩ : ∃ tag tags, startTags true slashed = tag :: tags := by
      refine List.exists_cons_of_ne_nil fun hnil => ?_
      rw [hnil] at hkeys
      cases hkeys
    rw [hcons] at hkeys ⊢
    exact ⟨tag, List.mem_cons_self, (List.cons.inj hkeys).1⟩
  obtain ⟨a, ha, hkey⟩ := List.mem_map.1
    (show txt "onerror" ∈ tag.attributes.map Attribute.key by rw [hattributes]; simp)
  refine h Unicode.ascii Casing.ascii [] true slashed hnone tag htags (.inr (.inl ⟨a, ha, ?_⟩))
  rw [hkey]
  decide

end RalphVault.Plans.Notes
