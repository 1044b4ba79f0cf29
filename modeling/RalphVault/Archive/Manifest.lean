import RalphVault.JsonPrefix
import RalphVault.AutoResearch.Scope

/-!
# The manifest of moved sessions

The manifest that `archive_sessions` of `keep_codex_fast.py` writes, one JSON
line a moved file, and what the restore script reads of it. The script cuts
the text with `str.splitlines`, which ends a line also at the next line, line
separator and paragraph separator characters that `json.dumps` leaves as they
are: a record with one of these is torn, and the script raises at it.
-/

namespace RalphVault.Archive

open Json
open SessionStart (splitlines)
open AutoResearch (splitlines_cons splitlines_line)

/-! ## Records -/

/-- A record of the manifest. -/
structure Moved where
  threadId : Text
  bytes : Nat
  source : Text
  dest : Text
deriving DecidableEq

/-- One member of an object as `json.dumps` writes it. -/
def spacedMember (m : Text × Json) (rest : Text) : Text :=
  quoteTo m.1 (':' :: ' ' :: renderTo m.2 rest)

def spacedMembers : List (Text × Json) → Text → Text
  | [], rest => rest
  | [m], rest => spacedMember m rest
  | m :: ms, rest => spacedMember m (',' :: ' ' :: spacedMembers ms rest)

/-- `record`, in the order of its members. -/
def Moved.fields (m : Moved) : List (Text × Json) :=
  [(txt "thread_id", .str m.threadId), (txt "bytes", .num m.bytes),
    (txt "from", .str m.source), (txt "to", .str m.dest)]

/-- `json.dumps(record, ensure_ascii=False)`. -/
def Moved.line (m : Moved) : Text := '{' :: spacedMembers m.fields ['}']

/-- The text of the manifest. -/
def manifestText (ms : List Moved) : Text := ms.flatMap fun m => m.line ++ ['\n']

/-! ## What the restore script reads -/

/-- What the script takes of a record: `rec["from"]`, `rec["to"]` and
`rec.get("thread_id")`, empty when there is none. -/
structure Undo where
  threadId : Text
  source : Text
  dest : Text
deriving DecidableEq

def Moved.undo (m : Moved) : Undo := ⟨m.threadId, m.source, m.dest⟩

/-- One line, none where reading it raises. -/
def readLine (line : Text) : Option Undo :=
  match loads line with
  | some (.obj fields) =>
      match SortedMap.get? (txt "to") fields, SortedMap.get? (txt "from") fields with
      | some (.str dest), some (.str source) =>
          match SortedMap.get? (txt "thread_id") fields with
          | some (.str threadId) => some ⟨threadId, source, dest⟩
          | _ => some ⟨[], source, dest⟩
      | _, _ => none
  | _ => none

/-- The records before the first line that raises, and whether there is none. -/
def readLines : List Text → List Undo × Bool
  | [] => ([], true)
  | line :: lines =>
      match readLine line with
      | some u => (u :: (readLines lines).1, (readLines lines).2)
      | none => ([], false)

/-- `manifest.read_text(...).splitlines()`, read line by line. -/
def readManifest (t : Text) : List Undo × Bool := readLines (splitlines t)

/-- A text without the line ends that JSON leaves as they are. -/
def unbroken (t : Text) : Bool := t.all fun c => !isLineBoundary c || c.toNat < 32

def Moved.whole (m : Moved) : Bool := unbroken m.threadId && unbroken m.source && unbroken m.dest

/-- A path that a raw literal `r"..."` of the script gives back: no quote ends
it early, no line end stands in it and no backslash takes the closing quote. -/
def rawLiteral : Text → Bool
  | [] => true
  | ['\\'] => false
  | '\\' :: c :: t => c != '\r' && rawLiteral t
  | c :: t => c != '"' && c != '\n' && c != '\r' && rawLiteral t

/-! ## Records are read back -/

theorem spacedMember_length (m : Text × Json) (rest : Text) :
    rest.length + 2 < (spacedMember m rest).length := by
  have hkey := quoteTo_length m.1 (':' :: ' ' :: renderTo m.2 rest)
  have hvalue := renderTo_length m.2 rest
  rw [List.length_cons, List.length_cons] at hkey
  show rest.length + 2 < (quoteTo m.1 (':' :: ' ' :: renderTo m.2 rest)).length
  omega

theorem loadMember_spacedMember (m : Text × Json) {k : Nat} {rest : Text} (hrest : Delimited rest)
    (hk : (spacedMember m rest).length ≤ k + 1) :
    loadMember (loadValue k) k (spacedMember m rest) = some ((m.1, Json.norm m.2), rest) := by
  have hm : spacedMember m rest = '"' :: escapeTo m.1 ('"' :: ':' :: ' ' :: renderTo m.2 rest) :=
    rfl
  rw [hm] at hk ⊢
  rw [List.length_cons] at hk
  have hvalue : (renderTo m.2 rest).length ≤ k := by
    rw [escapeTo_eq, List.length_append, List.length_cons, List.length_cons, List.length_cons] at hk
    omega
  have hkey := @loadString_escapeTo m.1 (':' :: ' ' :: renderTo m.2 rest) _
    (Nat.le_of_succ_le_succ hk)
  have hspace : skipBlank (' ' :: renderTo m.2 rest) = renderTo m.2 rest := by
    rw [skipBlank, List.dropWhile_cons_of_pos (by decide)]
    exact skipBlank_renderTo m.2 rest
  simp only [loadMember, hkey, Option.bind_eq_bind, Option.bind_some,
    skipBlank_cons (show isBlankChar ':' = false by decide), hspace,
    loadValue_renderTo m.2 k rest hrest hvalue]
  rfl

/-- Members with a space after their commas are read back. -/
theorem loadItems_spacedMembers {k : Nat} (ms : List (Text × Json)) (hms : ms ≠ []) (rest : Text) :
    ∀ n, (spacedMembers ms ('}' :: rest)).length ≤ n →
      (spacedMembers ms ('}' :: rest)).length ≤ k + 1 →
      loadItems (loadMember (loadValue k) k) '}' n (spacedMembers ms ('}' :: rest)) =
        some (ms.map fun m => (m.1, Json.norm m.2), rest) := by
  induction ms with
  | nil => exact absurd rfl hms
  | cons m ms ih =>
      intro n hn hk
      cases ms with
      | nil =>
          have hlen := spacedMember_length m ('}' :: rest)
          rw [spacedMembers] at hn hk ⊢
          obtain ⟨n, rfl⟩ : ∃ i, n = i + 1 := ⟨n - 1, by omega⟩
          rw [loadItems, loadMember_spacedMember m (.inr ⟨'}', rest, rfl, by decide⟩) hk]
          rfl
      | cons m' ms =>
          have hlen := spacedMember_length m (',' :: ' ' :: spacedMembers (m' :: ms) ('}' :: rest))
          have hcons : spacedMembers (m :: m' :: ms) ('}' :: rest) =
              spacedMember m (',' :: ' ' :: spacedMembers (m' :: ms) ('}' :: rest)) := rfl
          rw [hcons] at hn hk ⊢
          rw [List.length_cons, List.length_cons] at hlen
          obtain ⟨n, rfl⟩ : ∃ i, n = i + 1 := ⟨n - 1, by omega⟩
          have hmore := ih (List.cons_ne_nil _ _) n (by omega) (by omega)
          have hquote : ∃ t, spacedMembers (m' :: ms) ('}' :: rest) = '"' :: t := by
            cases ms with
            | nil => exact ⟨_, rfl⟩
            | cons m'' ms => exact ⟨_, rfl⟩
          obtain ⟨t, ht⟩ := hquote
          have hskip : skipBlank (' ' :: spacedMembers (m' :: ms) ('}' :: rest)) =
              spacedMembers (m' :: ms) ('}' :: rest) := by
            rw [skipBlank, List.dropWhile_cons_of_pos (by decide), ht,
              List.dropWhile_cons_of_neg (by decide)]
          rw [loadItems, loadMember_spacedMember m (.inr ⟨',', _, rfl, by decide⟩) hk]
          simp only [Option.bind_eq_bind, Option.bind_some,
            skipBlank_cons (show isBlankChar ',' = false by decide), hskip, hmore]
          rfl

theorem loadValue_line (m : Moved) {k : Nat} (hk : m.line.length ≤ k) :
    loadValue (k + 1) m.line = some (.obj m.fields, []) := by
  have hlen : (spacedMembers m.fields ['}']).length ≤ k := by
    rw [Moved.line, List.length_cons] at hk
    omega
  have hitems := loadItems_spacedMembers (k := k) m.fields (by simp [Moved.fields]) [] k hlen
    (by omega)
  have hlist : loadList (loadMember (loadValue k) k) '}' k (spacedMembers m.fields ['}']) =
      some (m.fields.map fun f => (f.1, Json.norm f.2), []) := by
    rw [← hitems]
    rfl
  rw [Moved.line, loadValue, hlist]
  rfl

/-- **A record is read back from its line.** -/
theorem readLine_line (m : Moved) : readLine m.line = some m.undo := by
  have hbrace : skipBlank m.line = m.line := skipBlank_cons (by decide) _
  have hloads : loads m.line = some (.obj m.fields) := by
    rw [loads, hbrace, loadValue_line m (Nat.le_refl _)]
    rfl
  rw [readLine, hloads]
  rfl

/-- **A line that was cut raises.** -/
theorem readLine_torn {m : Moved} {t : Text} (h : t <+: m.line) (hne : t ≠ m.line) :
    readLine t = none := by
  obtain ⟨u, hu⟩ := h
  have hu' : u ≠ [] := by
    rintro rfl
    exact hne (by rw [← hu, List.append_nil])
  cases t with
  | nil => rfl
  | cons c t =>
      obtain ⟨rfl, hbody⟩ : c = '{' ∧ t ++ u = spacedMembers m.fields ['}'] :=
        List.cons.inj hu
      have hline := loadValue_line m (Nat.le_refl _)
      rw [Moved.line, ← hbody] at hline
      have hnone : loads ('{' :: t) = none := by
        refine loads_torn ?_ hline hu'
        simp only [List.length_cons, List.length_append]
        omega
      rw [readLine, hnone]

/-! ## Lines of the manifest -/

/-- A text that is not empty has a first line, which holds no line end. -/
theorem exists_first {t : Text} (h : t ≠ []) : ∃ first more, splitlines t = first :: more ∧
    first <+: t ∧ ∀ c ∈ first, isLineBoundary c = false := by
  induction t with
  | nil => exact absurd rfl h
  | cons c t ih =>
      by_cases hc : isLineBoundary c = true
      · obtain ⟨more, hmore⟩ : ∃ more, splitlines (c :: t) = [] :: more := by
          rw [SessionStart.splitlines.eq_def]
          split
          · exact absurd ‹c :: t = []› (List.cons_ne_nil _ _)
          · exact ⟨_, rfl⟩
          · rename_i heq
            obtain ⟨rfl, rfl⟩ := List.cons.inj heq
            exact ⟨_, if_pos hc⟩
        exact ⟨[], more, hmore, List.nil_prefix, fun _ hd => absurd hd List.not_mem_nil⟩
      · have hc' : isLineBoundary c = false := by simpa using hc
        have hsingle : ∀ d ∈ [c], isLineBoundary d = false := by simpa using hc'
        rw [splitlines_cons hc']
        by_cases ht : t = []
        · subst ht
          exact ⟨[c], [], rfl, List.prefix_refl _, hsingle⟩
        · obtain ⟨first, more, hfirst, hbegin, hclean⟩ := ih ht
          rw [hfirst]
          exact ⟨c :: first, more, rfl, (List.prefix_cons_inj c).mpr hbegin,
            List.forall_mem_cons.mpr ⟨hc', hclean⟩⟩

theorem boundary_of_ascii {c : Char} (h : 32 ≤ c.toNat ∧ c.toNat < 127) :
    isLineBoundary c = false := by
  unfold isLineBoundary
  simp only [Bool.or_eq_false_iff, Bool.and_eq_false_iff, decide_eq_false_iff_not, beq_eq_false_iff_ne]
  omega

theorem escaped_boundary (c : Char) : (∀ d ∈ escaped c, isLineBoundary d = false) ↔
    (!isLineBoundary c || c.toNat < 32) = true := by
  by_cases hplain : isPlain c = true
  · have hlow : ¬c.toNat < 32 := by
      simp only [isPlain, Bool.or_eq_true, Bool.and_eq_true, Nat.ble_eq, Nat.beq_eq] at hplain
      omega
    have hescaped : escaped c = [c] := if_pos hplain
    rw [hescaped, List.forall_mem_singleton, decide_eq_false hlow, Bool.or_false,
      Bool.not_eq_true']
  · -- what is escaped is a control character, a quote or a backslash
    have hclass : c.toNat < 32 ∨ c.toNat = 34 ∨ c.toNat = 92 := by
      simp only [isPlain, Bool.or_eq_true, Bool.and_eq_true, Nat.ble_eq, Nat.beq_eq] at hplain
      omega
    have hright : (!isLineBoundary c || c.toNat < 32) = true := by
      rcases hclass with hlow | hquote
      · rw [decide_eq_true hlow, Bool.or_true]
      · rw [boundary_of_ascii (by omega)]
        rfl
    refine iff_of_true (fun d hd => ?_) hright
    rcases escaped_cases c with ⟨hc, -, hlow⟩ | ⟨e, hc, -, hlow, hhigh⟩ | ⟨hc, heq⟩
    · rw [hc, List.mem_singleton] at hd
      subst hd
      exact boundary_of_ascii (by omega)
    · rw [hc] at hd
      rcases List.mem_cons.mp hd with rfl | hd
      · decide
      · rw [List.mem_singleton.mp hd]
        exact boundary_of_ascii ⟨hlow, hhigh⟩
    · have hfirst := hexDigit_bounds (c.toNat / 16) (by omega)
      have hsecond := hexDigit_bounds (c.toNat % 16) (by omega)
      rw [heq] at hd
      simp only [List.mem_cons, List.not_mem_nil, or_false] at hd
      rcases hd with rfl | rfl | rfl | rfl | rfl | rfl
      · decide
      · decide
      · decide
      · decide
      · exact boundary_of_ascii ⟨hfirst.1, hfirst.2.1⟩
      · exact boundary_of_ascii ⟨hsecond.1, hsecond.2.1⟩

/-- A text without a line end is one line. -/
theorem splitlines_single {t : Text} (hne : t ≠ []) (h : ∀ c ∈ t, isLineBoundary c = false) :
    splitlines t = [t] := by
  induction t with
  | nil => exact absurd rfl hne
  | cons c t ih =>
      obtain ⟨hc, ht⟩ := List.forall_mem_cons.mp h
      rw [splitlines_cons hc]
      by_cases hnil : t = []
      · subst hnil
        rfl
      · rw [ih hnil ht]

/-- The escapes of a string hold no line end but those of the string itself. -/
theorem quoteTo_boundary (t rest : Text) : (∀ c ∈ quoteTo t rest, isLineBoundary c = false) ↔
    unbroken t = true ∧ ∀ c ∈ rest, isLineBoundary c = false := by
  have hescape : (∀ c ∈ escapeTo t [], isLineBoundary c = false) ↔ unbroken t = true := by
    induction t with
    | nil => exact ⟨fun _ => rfl, fun _ _ hc => absurd hc List.not_mem_nil⟩
    | cons c t ih =>
        rw [escapeTo_cons, List.forall_mem_append, escaped_boundary, ih, unbroken, unbroken,
          List.all_cons, Bool.and_eq_true]
  have hquote : isLineBoundary '"' = false := by decide
  rw [quoteTo_eq, List.forall_mem_cons, List.forall_mem_append, hescape, List.forall_mem_cons]
  exact ⟨fun h => ⟨h.2.1, h.2.2.2⟩, fun h => ⟨hquote, h.1, hquote, h.2⟩⟩

/-- A line end in a record is one in its texts. -/
theorem line_boundary (m : Moved) :
    (∀ c ∈ m.line, isLineBoundary c = false) ↔ m.whole = true := by
  have hkeys : unbroken (txt "thread_id") = true ∧ unbroken (txt "bytes") = true ∧
      unbroken (txt "from") = true ∧ unbroken (txt "to") = true := by decide
  have hmember : ∀ (k t rest : Text), unbroken k = true →
      ((∀ c ∈ spacedMember (k, .str t) rest, isLineBoundary c = false) ↔
        unbroken t = true ∧ ∀ c ∈ rest, isLineBoundary c = false) := by
    intro k t rest hk
    show (∀ c ∈ quoteTo k (':' :: ' ' :: quoteTo t rest), isLineBoundary c = false) ↔ _
    rw [quoteTo_boundary, List.forall_mem_cons, List.forall_mem_cons, quoteTo_boundary]
    exact ⟨fun h => h.2.2.2, fun h => ⟨hk, by decide, by decide, h⟩⟩
  have hnumber : ∀ (k : Text) (n : Nat) (rest : Text), unbroken k = true →
      ((∀ c ∈ spacedMember (k, .num n) rest, isLineBoundary c = false) ↔
        ∀ c ∈ rest, isLineBoundary c = false) := by
    intro k n rest hk
    have hint : ∀ c ∈ intText n, isLineBoundary c = false := by
      intro c hc
      have hbare : isBare c = true := by
        rw [intText, if_neg (by omega)] at hc
        exact isBare_decimalText hc
      simp only [isBare, Bool.and_eq_true, decide_eq_true_eq] at hbare
      exact boundary_of_ascii hbare.1
    show (∀ c ∈ quoteTo k (':' :: ' ' :: (intText n ++ rest)), isLineBoundary c = false) ↔ _
    rw [quoteTo_boundary, List.forall_mem_cons, List.forall_mem_cons, List.forall_mem_append]
    exact ⟨fun h => h.2.2.2.2, fun h => ⟨hk, by decide, by decide, hint, h⟩⟩
  have hcomma : ∀ rest, (∀ c ∈ ',' :: ' ' :: rest, isLineBoundary c = false) ↔
      ∀ c ∈ rest, isLineBoundary c = false := by
    intro rest
    rw [List.forall_mem_cons, List.forall_mem_cons]
    exact ⟨fun h => h.2.2, fun h => ⟨by decide, by decide, h⟩⟩
  have hbrace : (∀ c ∈ ['}'], isLineBoundary c = false) := by decide
  show (∀ c ∈ '{' :: spacedMember (txt "thread_id", .str m.threadId) (',' :: ' ' ::
    spacedMember (txt "bytes", .num m.bytes) (',' :: ' ' ::
      spacedMember (txt "from", .str m.source) (',' :: ' ' ::
        spacedMember (txt "to", .str m.dest) ['}']))), isLineBoundary c = false) ↔ _
  rw [List.forall_mem_cons, hmember _ _ _ hkeys.1, hcomma, hnumber _ _ _ hkeys.2.1, hcomma,
    hmember _ _ _ hkeys.2.2.1, hcomma, hmember _ _ _ hkeys.2.2.2, Moved.whole, Bool.and_eq_true,
    Bool.and_eq_true]
  exact ⟨fun h => ⟨⟨h.2.1, h.2.2.1⟩, h.2.2.2.1⟩,
    fun h => ⟨by decide, h.1.1, h.1.2, h.2, hbrace⟩⟩

theorem line_ne_nil (m : Moved) : m.line ≠ [] := List.cons_ne_nil _ _

/-- The script raises at the first line of a text that begins with a torn record. -/
theorem readManifest_torn {m : Moved} {t : Text} (hne : t ≠ [])
    (h : ∀ first, first <+: t → (∀ c ∈ first, isLineBoundary c = false) →
      first <+: m.line ∧ first ≠ m.line) : readManifest t = ([], false) := by
  obtain ⟨first, more, hlines, hbegin, hclean⟩ := exists_first hne
  obtain ⟨hline, hcut⟩ := h first hbegin hclean
  rw [readManifest, hlines, readLines, readLine_torn hline hcut]

theorem manifestText_cons (m : Moved) (ms : List Moved) :
    manifestText (m :: ms) = m.line ++ '\n' :: manifestText ms := by
  rw [manifestText, List.flatMap_cons, List.append_assoc]
  rfl

/-- The part of a text without line ends is inside a line that has one. -/
theorem prefix_of_broken {m : Moved} (hm : m.whole ≠ true) {first rest : Text}
    (hbegin : first <+: m.line ++ rest) (hclean : ∀ c ∈ first, isLineBoundary c = false) :
    first <+: m.line ∧ first ≠ m.line := by
  have hne : ¬m.line <+: first := by
    rintro ⟨u, rfl⟩
    refine hm ((line_boundary m).mp fun c hc => hclean c ?_)
    exact List.mem_append_left _ hc
  rcases List.prefix_or_prefix_of_prefix hbegin (List.prefix_append m.line rest) with h | h
  · refine ⟨h, ?_⟩
    rintro rfl
    exact hne (List.prefix_refl _)
  · exact absurd h hne

/-- **The script reads the records before the first broken one**, and raises there. -/
theorem readManifest_text (ms : List Moved) :
    readManifest (manifestText ms) =
      ((ms.takeWhile Moved.whole).map Moved.undo, ms.all Moved.whole) := by
  induction ms with
  | nil => rfl
  | cons m ms ih =>
      rw [manifestText_cons]
      by_cases hm : m.whole = true
      · have hlines := splitlines_line ((line_boundary m).mpr hm) (manifestText ms)
        unfold readManifest at ih ⊢
        rw [hlines, readLines, readLine_line, ih, List.takeWhile_cons_of_pos hm, List.all_cons, hm]
        rfl
      · have hne : m.line ++ '\n' :: manifestText ms ≠ [] :=
          List.append_ne_nil_of_left_ne_nil (line_ne_nil m) _
        rw [readManifest_torn hne fun first hbegin hclean => prefix_of_broken hm hbegin hclean,
          List.takeWhile_cons_of_neg hm, List.all_cons, Bool.eq_false_iff.mpr hm]
        rfl

/-- **Of a manifest that was cut the script reads some first records.** -/
theorem readManifest_cut {ms : List Moved} {t : Text} (h : t <+: manifestText ms) :
    (readManifest t).1 <+: ms.map Moved.undo := by
  induction ms generalizing t with
  | nil =>
      obtain rfl := List.prefix_nil.mp h
      exact List.nil_prefix
  | cons m ms ih =>
      rw [manifestText_cons] at h
      by_cases hne : t = []
      · subst hne
        exact List.nil_prefix
      by_cases hm : m.whole = true
      · rcases List.prefix_or_prefix_of_prefix h
          (show m.line ++ ['\n'] <+: m.line ++ '\n' :: manifestText ms from
            ⟨manifestText ms, by rw [List.append_assoc]; rfl⟩) with hshort | ⟨u, rfl⟩
        · -- the text is cut in the first line, or at its end
          rcases List.prefix_concat_iff.mp hshort with rfl | hline
          · have hlines := splitlines_line ((line_boundary m).mpr hm) []
            rw [readManifest, hlines, readLines, readLine_line]
            exact (List.prefix_cons_inj _).mpr List.nil_prefix
          · have hclean : ∀ c ∈ t, isLineBoundary c = false :=
              fun c hc => (line_boundary m).mpr hm c (hline.subset hc)
            rw [readManifest, splitlines_single hne hclean, readLines]
            by_cases hwhole : t = m.line
            · rw [hwhole, readLine_line]
              exact (List.prefix_cons_inj _).mpr List.nil_prefix
            · rw [readLine_torn hline hwhole]
              exact List.nil_prefix
        · have hmore : u <+: manifestText ms := by
            rw [List.append_assoc] at h
            exact (List.prefix_cons_inj _).mp ((List.prefix_append_right_inj _).mp h)
          have hlines := splitlines_line ((line_boundary m).mpr hm) u
          rw [readManifest, List.append_assoc, List.singleton_append, hlines, readLines,
            readLine_line, List.map_cons]
          exact (List.prefix_cons_inj _).mpr (ih hmore)
      · rw [readManifest_torn hne fun first hbegin hclean =>
          prefix_of_broken hm (hbegin.trans h) hclean]
        exact List.nil_prefix

end RalphVault.Archive
