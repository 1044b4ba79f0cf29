import RalphVault.Memory.RecallText
import RalphVault.Archive.Manifest
import RalphVault.Blanks

/-!
# Recall text — round trip

What `parse_recall_results` reads back from `render_markdown`. Previews and
metadata are written on lines of their own and come back as they are; what
can make a memory of its own is a line of the printed query or project,
and what can come back changed is a path or a preview with blanks around
it.
-/

namespace RalphVault.RecallText

open Memory
open SessionStart (splitlines joinLines)
open AutoResearch (items items_feed items_append_blank isSpace_of_lineBoundary
  strip_cons_space strip_of_blank strip_append_space)

/-! ## Lines as the reader sees them -/

/-- A text without line ends. -/
def Unbroken (t : Text) : Prop := ∀ c ∈ t, isLineBoundary c = false

theorem Unbroken.append {s t : Text} (hs : Unbroken s) (ht : Unbroken t) : Unbroken (s ++ t) :=
  List.forall_mem_append.mpr ⟨hs, ht⟩

theorem Unbroken.part {s t : Text} (ht : Unbroken t) (h : s ⊆ t) : Unbroken s :=
  fun c hc => ht c (h hc)

theorem strip_rstrip (t : Text) : strip (rstrip t) = strip t := by
  obtain ⟨b, hb, hblank⟩ := exists_rstrip t
  conv_rhs => rw [hb]
  exact (strip_append_space hblank).symm

/-- A line is one item, unless it is blank. -/
theorem items_line {l : Text} (h : Unbroken l) :
    items l = if strip l = [] then [] else [strip l] := by
  unfold items
  by_cases hnil : l = []
  · subst hnil
    rfl
  · rw [Archive.splitlines_single hnil h, List.map_singleton]
    by_cases hblank : strip l = []
    · rw [if_pos hblank, hblank]
      rfl
    · rw [if_neg hblank, List.filter_cons_of_pos (by simpa using hblank)]
      rfl

theorem items_of_visible {l : Text} (h : Unbroken l) (hne : l ≠ []) (hstrip : strip l = l) :
    items l = [l] := by
  rw [items_line h, hstrip, if_neg hne]

theorem items_joinLines (ls : List Text) : items (joinLines ls) = ls.flatMap items := by
  induction ls with
  | nil => rfl
  | cons l ls ih =>
      cases ls with
      | nil => simp [joinLines, joinWith]
      | cons l' ls =>
          have hjoin : joinLines (l :: l' :: ls) = l ++ '\n' :: joinLines (l' :: ls) := by
            simp [joinLines, joinWith]
          rw [hjoin, items_feed, ih]
          rfl

section Read

variable (py : Interpreter)

/-- A blank line says nothing. -/
theorem Reading.step_nil (s : Reading) : s.step py [] = s := by
  obtain ⟨memories, current⟩ := s
  cases current <;> rfl

theorem readLines_eq (t : Text) :
    readLines py (splitlines t) = ((items t).foldl (Reading.step py) ⟨[], none⟩).close := by
  suffices h : ∀ (ls : List Text) (s : Reading),
      ls.foldl (fun s line => Reading.step py s (strip line)) s =
        ((ls.map strip).filter (!·.isEmpty)).foldl (Reading.step py) s by
    unfold readLines
    rw [h]
    rfl
  intro ls
  induction ls with
  | nil =>
      intro s
      rfl
  | cons l ls ih =>
      intro s
      rw [List.foldl_cons, ih, List.map_cons]
      by_cases hblank : strip l = []
      · rw [hblank, Reading.step_nil, List.filter_cons_of_neg (by simp)]
      · rw [List.filter_cons_of_pos (by simpa using hblank), List.foldl_cons]

/-! ## The lines of one result -/

/-- What a result is made of: lines, a path with a visible end, and
metadata under distinct keys both scripts know. -/
structure Result.Printable (r : Result) : Prop where
  path : Unbroken r.path
  visible : ∃ front c, r.path = front ++ [c] ∧ isSpace c = false
  preview : Unbroken r.preview
  keys : ∀ e ∈ r.metadata, e.1 ∈ allowedKeys
  distinct : (r.metadata.map Prod.fst).Nodup
  values : ∀ e ∈ r.metadata, Unbroken e.2
  noTicks : ∀ e ∈ r.metadata, '\u0060' ∉ e.2

theorem unbroken_decimalText (n : Nat) : Unbroken (decimalText n) := by
  intro c hc
  have hdigit := Json.isDigit_decimalText hc
  simp only [Char.isDigit, Bool.and_eq_true, decide_eq_true_eq, ge_iff_le, UInt32.le_iff_toNat_le]
    at hdigit
  have hrange : 48 ≤ c.toNat ∧ c.toNat ≤ 57 := hdigit
  simp only [isLineBoundary, Bool.or_eq_false_iff, Bool.and_eq_false_iff, decide_eq_false_iff_not,
    beq_eq_false_iff_ne]
  omega

theorem isAsciiDigit_decimalText {n : Nat} {c : Char} (hc : c ∈ decimalText n) :
    c.toNat < 128 ∧ isAsciiDigit c = true := by
  have hdigit := Json.isDigit_decimalText hc
  simp only [Char.isDigit, Bool.and_eq_true, decide_eq_true_eq, ge_iff_le, UInt32.le_iff_toNat_le]
    at hdigit
  have hrange : 48 ≤ c.toNat ∧ c.toNat ≤ 57 := hdigit
  simp only [isAsciiDigit, Bool.and_eq_true, decide_eq_true_eq]
  omega

theorem items_pathLine {r : Result} (h : r.Printable) : items (pathLine r.path) = [pathLine r.path] := by
  obtain ⟨front, c, hpath, hc⟩ := h.visible
  have hmark : Unbroken (txt "### ") := by
    unfold Unbroken
    decide
  refine items_of_visible (hmark.append h.path) (List.cons_ne_nil _ _) (strip_of_visible ?_ ?_)
  · rintro d ⟨⟩
    decide
  · intro d hd
    rw [pathLine, hpath, ← List.append_assoc, List.getLast?_append] at hd
    cases hd
    exact hc

theorem items_ticked {t : Text} (h : Unbroken t) : items ('-' :: t ++ ['\u0060']) =
    ['-' :: t ++ ['\u0060']] := by
  have hunbroken : Unbroken ('-' :: t ++ ['\u0060']) := by
    refine Unbroken.append (List.forall_mem_cons.mpr ⟨by decide, h⟩) ?_
    unfold Unbroken
    decide
  refine items_of_visible hunbroken (List.cons_ne_nil _ _) (strip_of_visible ?_ ?_)
  · rintro d ⟨⟩
    decide
  · intro d hd
    rw [List.getLast?_append] at hd
    cases hd
    decide

theorem items_scoreLine (n : Nat) : items (scoreLine n) = [scoreLine n] := by
  refine items_ticked (t := txt " score: \u0060" ++ decimalText n) (Unbroken.append ?_ (unbroken_decimalText n))
  unfold Unbroken
  decide

theorem items_metadataLine {e : Text × Text} (hk : Unbroken e.1) (hv : Unbroken e.2) :
    items (metadataLine e) = [metadataLine e] := by
  have hcolon : Unbroken (txt ": \u0060") := by
    unfold Unbroken
    decide
  have hspace : Unbroken [' '] := by
    unfold Unbroken
    decide
  have hline : metadataLine e = '-' :: ([' '] ++ e.1 ++ txt ": \u0060" ++ e.2) ++ ['\u0060'] := rfl
  rw [hline]
  exact items_ticked (((hspace.append hk).append hcolon).append hv)

/-- The printed line of a preview without the blanks at its end. -/
def previewItem (p : Text) : Text := txt "- safe preview:" ++ rstrip (' ' :: p)

theorem items_previewLine {p : Text} (h : Unbroken p) :
    items (previewLine p) = [previewItem p] := by
  have hunbroken : Unbroken (previewLine p) := by
    refine Unbroken.append ?_ h
    unfold Unbroken
    decide
  have hstrip : strip (previewLine p) = previewItem p := by
    have hfirst : strip (previewLine p) = rstrip (previewLine p) := strip_visible (by decide) _
    rw [hfirst]
    exact rstrip_append_visible (f := txt "- safe preview") (c := ':') (by decide) (' ' :: p)
  have hne : previewItem p ≠ [] := List.cons_ne_nil _ _
  rw [items_line hunbroken, hstrip, if_neg hne]

/-! ## What the reader makes of them -/

theorem step_pathLine (s : Reading) (path : Text) :
    s.step py (pathLine path) = ⟨s.close, some (freshMemory (strip path))⟩ := rfl

theorem step_field {line : Text} (h : isHeading line = false) (s : Reading) :
    s.step py line = ⟨s.memories, s.current.map fun memory => readField py memory line⟩ := by
  rw [Reading.step, if_neg (by rw [h]; decide)]

theorem firstDigits_scoreLine (n : Nat) : firstDigits py (scoreLine n) = decimalText n := by
  have hfront : ∀ c ∈ txt "- score: \u0060", c.toNat < 128 ∧ isAsciiDigit c = false := by decide
  have hdigit : ∀ c ∈ decimalText n, py.host.unicode.decimal c = true := by
    intro c hc
    obtain ⟨hascii, hd⟩ := isAsciiDigit_decimalText hc
    rw [py.host.unicode.decimal_ascii c hascii, hd]
  have htick : py.host.unicode.decimal '\u0060' = false :=
    py.host.unicode.decimal_ascii '\u0060' (by decide)
  obtain ⟨d, ds, hd⟩ := List.exists_cons_of_ne_nil (Nat.toDigits_ne_nil (b := 10) (n := n))
  have hcons : decimalText n = d :: ds := hd
  have hfirst : py.host.unicode.decimal d = true := hdigit d (hcons ▸ List.mem_cons_self)
  rw [firstDigits, scoreLine, List.append_assoc, List.dropWhile_append_of_pos, hcons,
    List.cons_append, List.dropWhile_cons_of_neg (by simp [hfirst]), ← List.cons_append, ← hcons,
    List.takeWhile_append_of_pos hdigit, List.takeWhile_cons_of_neg (by simp [htick]),
    List.append_nil]
  intro c hc
  rw [py.host.unicode.decimal_ascii c (hfront c hc).1, (hfront c hc).2]
  rfl

theorem readField_scoreLine (memory : Fields) (n : Nat) :
    readField py memory (scoreLine n) = memory.set (txt "score") (.int n) := by
  have hprefix : startsWith (txt "- score:") (scoreLine n) = true := rfl
  have hne : decimalText n ≠ [] := Nat.toDigits_ne_nil
  rw [readField, if_pos hprefix, firstDigits_scoreLine, if_neg hne, py.intOf_decimalText]

theorem readField_previewLine (memory : Fields) (p : Text) :
    readField py memory (previewItem p) =
      memory.set (txt "preview") (.str (strip p)) := by
  have hscore : startsWith (txt "- score:") (previewItem p) = false := rfl
  have hprefix : startsWith (txt "- safe preview:") (previewItem p) = true :=
    rfl
  rw [readField, if_neg (by rw [hscore]; decide), if_pos hprefix, previewItem, List.drop_left, strip_rstrip,
    strip_cons_space (by decide)]

/-- The back quotes around a text without back quotes are those that are taken off. -/
theorem stripChar_ticked {t : Text} (h : '\u0060' ∉ t) :
    stripChar '\u0060' ('\u0060' :: (t ++ ['\u0060'])) = t := by
  have hkeep : ∀ c ∈ t, (c == '\u0060') = false := by
    intro c hc
    rw [beq_eq_false_iff_ne]
    rintro rfl
    exact h hc
  rw [stripChar, List.dropWhile_cons_of_pos (by decide)]
  cases t with
  | nil => rfl
  | cons a t =>
      rw [List.cons_append, List.dropWhile_cons_of_neg (by simp [hkeep a List.mem_cons_self]),
        ← List.cons_append, List.reverse_append, List.reverse_singleton, List.singleton_append,
        List.dropWhile_cons_of_pos (by decide)]
      have hrev : ∀ c ∈ (a :: t).reverse, (c == '\u0060') = false := fun c hc =>
        hkeep c (List.mem_reverse.mp hc)
      have hstay : (a :: t).reverse.dropWhile (· == '\u0060') = (a :: t).reverse := by
        cases hr : (a :: t).reverse with
        | nil => rfl
        | cons b u =>
            rw [List.dropWhile_cons_of_neg (by simp [hrev b (by rw [hr]; exact List.mem_cons_self)])]
      rw [hstay, List.reverse_reverse]

theorem readField_metadataLine (memory : Fields) {e : Text × Text} (hk : e.1 ∈ allowedKeys)
    (hv : '\u0060' ∉ e.2) : readField py memory (metadataLine e) = memory.set e.1 (.str e.2) := by
  obtain ⟨k, v⟩ := e
  -- what the reader compares lies in front of the value
  have hline : ∀ k ∈ allowedKeys, startsWith (txt "- score:") (metadataLine (k, v)) = false ∧
      startsWith (txt "- safe preview:") (metadataLine (k, v)) = false ∧
      startsWith (txt "- ") (metadataLine (k, v)) = true ∧
      strip (keyOf ((metadataLine (k, v)).drop 2)) = k ∧
      valueOf ((metadataLine (k, v)).drop 2) = ' ' :: '\u0060' :: (v ++ ['\u0060']) := by
    intro k hk
    simp only [allowedKeys, List.mem_cons, List.not_mem_nil, or_false] at hk
    rcases hk with rfl | rfl | rfl | rfl | rfl | rfl | rfl | rfl | rfl | rfl | rfl | rfl | rfl | rfl | rfl
    all_goals exact ⟨rfl, rfl, rfl, rfl, rfl⟩
  obtain ⟨hscore, hpreview, hdash, hkey, hvalue⟩ := hline k hk
  have hcolon : (metadataLine (k, v)).contains ':' = true := by
    simp [metadataLine, txt]
  have hticked : strip (' ' :: '\u0060' :: (v ++ ['\u0060'])) = '\u0060' :: (v ++ ['\u0060']) := by
    rw [strip_cons_space (by decide)]
    refine strip_of_visible ?_ ?_
    · rintro d ⟨⟩
      decide
    · intro d hd
      rw [← List.cons_append, List.getLast?_append] at hd
      cases hd
      decide
  rw [readField, if_neg (by rw [hscore]; decide), if_neg (by rw [hpreview]; decide),
    if_pos (by rw [hdash, hcolon]; rfl), hkey, hvalue, hticked, stripChar_ticked hv]
  exact if_pos (by simpa using hk)

/-! ## One result, and all of them -/

/-- The fields a result comes back with. -/
def fieldsOf (path preview : Text) (r : Result) : Fields :=
  [(txt "path", .str path), (txt "score", .int r.score), (txt "preview", .str preview)] ++
    r.metadata.map fun e => (e.1, .str e.2)

/-- The memory a result stands for. -/
def memoryOf (r : Result) : Fields := fieldsOf r.path r.preview r

theorem set_new {d : Fields} {k : Text} (h : k ∉ d.map Prod.fst) (v : Value) :
    d.set k v = d ++ [(k, v)] := by
  induction d with
  | nil => rfl
  | cons e d ih =>
      obtain ⟨a, w⟩ := e
      rw [List.map_cons, List.mem_cons, not_or] at h
      rw [Fields.set, if_neg (Ne.symm h.1), ih h.2, List.cons_append]

/-- Metadata under new keys is added in its order. -/
theorem foldl_metadata (s : List Fields) (ms : Metadata) : ∀ (memory : Fields),
    (∀ e ∈ ms, e.1 ∈ allowedKeys) → (∀ e ∈ ms, '\u0060' ∉ e.2) →
    (memory.map Prod.fst ++ ms.map Prod.fst).Nodup →
    (ms.map metadataLine).foldl (Reading.step py) ⟨s, some memory⟩ =
      ⟨s, some (memory ++ ms.map fun e => (e.1, .str e.2))⟩ := by
  induction ms with
  | nil =>
      intro memory _ _ _
      rw [List.map_nil, List.map_nil, List.append_nil]
      rfl
  | cons e ms ih =>
      intro memory hkeys hticks hnodup
      obtain ⟨hk, hks⟩ := List.forall_mem_cons.mp hkeys
      obtain ⟨hv, hvs⟩ := List.forall_mem_cons.mp hticks
      have hfresh : e.1 ∉ memory.map Prod.fst := by
        intro hmem
        exact List.disjoint_of_nodup_append hnodup hmem List.mem_cons_self
      have hstep : Reading.step py ⟨s, some memory⟩ (metadataLine e) =
          ⟨s, some (memory ++ [(e.1, .str e.2)])⟩ := by
        rw [step_field py rfl, Option.map_some, readField_metadataLine py memory hk hv,
          set_new hfresh]
      rw [List.map_cons, List.foldl_cons, hstep, ih _ hks hvs, List.append_assoc]
      · rfl
      · rw [List.map_append, List.append_assoc]
        exact hnodup

/-- The lines of a result make one memory. -/
theorem foldl_result {r : Result} (h : r.Printable) (s : Reading) :
    ((resultLines r).flatMap items).foldl (Reading.step py) s =
      ⟨s.close, some (fieldsOf (strip r.path) (strip r.preview) r)⟩ := by
  have hunbroken : ∀ k ∈ allowedKeys, Unbroken k := by
    unfold Unbroken
    decide
  have hmetadata : (r.metadata.map metadataLine).flatMap items = r.metadata.map metadataLine := by
    rw [List.flatMap_map, List.map_eq_flatMap]
    refine List.flatMap_congr fun e he => ?_
    exact items_metadataLine (hunbroken e.1 (h.keys e he)) (h.values e he)
  have hlines : (resultLines r).flatMap items = [pathLine r.path, scoreLine r.score,
      previewItem r.preview] ++ r.metadata.map metadataLine := by
    rw [resultLines, List.flatMap_append, List.flatMap_append, hmetadata, List.flatMap_cons,
      List.flatMap_cons, List.flatMap_cons, items_pathLine h, items_scoreLine,
      items_previewLine h.preview, List.flatMap_singleton]
    exact List.append_nil _
  rw [hlines, List.foldl_append, List.foldl_cons, List.foldl_cons, List.foldl_cons, List.foldl_nil,
    step_pathLine, step_field py (show isHeading (scoreLine r.score) = false from rfl),
    step_field py (show isHeading (previewItem r.preview) = false from rfl),
    Option.map_some, Option.map_some, readField_scoreLine, readField_previewLine,
    foldl_metadata py _ _ _ h.keys h.noTicks]
  · rfl
  · -- the three fields a heading starts with are no metadata keys
    have hbase : ∀ k ∈ allowedKeys, k ∉ [txt "path", txt "score", txt "preview"] := by decide
    refine List.Nodup.append ?_ h.distinct ?_
    · show [txt "path", txt "score", txt "preview"].Nodup
      decide
    · intro k hk hmem
      obtain ⟨e, he, rfl⟩ := List.mem_map.mp hmem
      exact hbase e.1 (h.keys e he) hk

theorem foldl_results {rs : List Result} (h : ∀ r ∈ rs, r.Printable) (s : Reading) :
    (((rs.flatMap resultLines).flatMap items).foldl (Reading.step py) s).close =
      s.close ++ rs.map fun r => fieldsOf (strip r.path) (strip r.preview) r := by
  induction rs generalizing s with
  | nil => exact (List.append_nil _).symm
  | cons r rs ih =>
      obtain ⟨hr, hrs⟩ := List.forall_mem_cons.mp h
      rw [List.flatMap_cons, List.flatMap_append, List.foldl_append, foldl_result py hr, ih hrs,
        List.map_cons, Reading.close, Option.toList_some, List.append_assoc]
      rfl

/-! ## The lines in front -/

/-- No line of a text is read as a heading. -/
def Quiet (t : Text) : Prop := ∀ line ∈ items t, isHeading line = false

instance (t : Text) : Decidable (Quiet t) := by
  unfold Quiet
  infer_instance

/-- Every heading starts a memory of its own. -/
theorem close_length (lines : List Text) (s : Reading) :
    (lines.foldl (Reading.step py) s).close.length =
      s.close.length + (lines.filter isHeading).length := by
  induction lines generalizing s with
  | nil => rfl
  | cons line lines ih =>
      rw [List.foldl_cons, ih]
      cases hline : isHeading line with
      | true =>
          rw [Reading.step, if_pos hline, List.filter_cons_of_pos hline]
          simp only [Reading.close, Option.toList_some, List.length_append, List.length_cons,
            List.length_nil]
          omega
      | false =>
          rw [step_field py hline, List.filter_cons_of_neg (by simp [hline])]
          cases hcurrent : s.current with
          | none => simp [Reading.close, hcurrent]
          | some memory => simp [Reading.close, hcurrent]

theorem headings_headLines (query project : Text) :
    ((headLines query project).flatMap items).filter isHeading =
      (items (queryLine query)).filter isHeading ++ (items (projectLine project)).filter isHeading := by
  have hfront : (items (txt "# Ralph Recall")).filter isHeading = [] := by decide
  have hnote : (items (txt "- note: recall is context, not authority")).filter isHeading = [] := by
    decide
  have hresults : (items (txt "## Results")).filter isHeading = [] := by decide
  have hblank : (items []).filter isHeading = [] := rfl
  simp only [headLines, List.flatMap_cons, List.flatMap_nil, List.filter_append, hfront, hnote,
    hresults, hblank, List.nil_append, List.append_nil]

theorem headings_eq_nil {query project : Text} :
    ((headLines query project).flatMap items).filter isHeading = [] ↔
      Quiet (queryLine query) ∧ Quiet (projectLine project) := by
  have hquiet : ∀ t, (items t).filter isHeading = [] ↔ Quiet t := by
    intro t
    rw [List.filter_eq_nil_iff]
    exact forall₂_congr fun line _ => Bool.not_eq_true _ ▸ Iff.rfl
  rw [headings_headLines, List.append_eq_nil_iff, hquiet, hquiet]

theorem renderMarkdown_hash (query project : Text) (rs : List Result) :
    ∃ t, renderMarkdown query project rs = '#' :: t := by
  unfold renderMarkdown
  split
  · exact ⟨_, rfl⟩
  · have hfirst : ∀ ls, ∃ t, joinLines (headLines query project ++ ls) = '#' :: t := fun ls => ⟨_, rfl⟩
    obtain ⟨t, ht⟩ := hfirst (rs.flatMap resultLines)
    refine ⟨rstrip t ++ ['\n'], ?_⟩
    rw [ht, ← List.nil_append ('#' :: t), rstrip_append_visible (by decide)]
    rfl

/-- The items of what is printed. -/
theorem items_renderMarkdown (query project : Text) (rs : List Result) :
    items (renderMarkdown query project rs) = (headLines query project).flatMap items ++
      (if rs.isEmpty then [txt "No safe matches found."] else (rs.flatMap resultLines).flatMap items) := by
  have hfeed : ∀ t, items (t ++ ['\n']) = items t := by
    intro t
    refine items_append_blank ?_
    decide
  unfold renderMarkdown
  split
  · have hnone : items (txt "No safe matches found.") = [txt "No safe matches found."] := by decide
    rw [hfeed, items_joinLines, List.flatMap_append, List.flatMap_singleton, hnone]
  · obtain ⟨b, hb, hblank⟩ := exists_rstrip (joinLines (headLines query project ++ rs.flatMap resultLines))
    rw [hfeed, ← List.flatMap_append, ← items_joinLines]
    conv_rhs => rw [hb]
    exact (items_append_blank hblank).symm

/-- The reading after the lines in front of the results. -/
def headReading (query project : Text) : Reading :=
  ((headLines query project).flatMap items).foldl (Reading.step py) ⟨[], none⟩

/-- What is read back: the memories of the lines in front, then one for each
result. -/
theorem parse_renderMarkdown (query project : Text) {rs : List Result}
    (h : ∀ r ∈ rs, r.Printable) : ∃ front : List Fields,
      parseRecallResults py (renderMarkdown query project rs) =
        front ++ rs.map (fun r => fieldsOf (strip r.path) (strip r.preview) r) ∧
      (front = [] ↔ Quiet (queryLine query) ∧ Quiet (projectLine project)) := by
  obtain ⟨t, ht⟩ := renderMarkdown_hash query project rs
  have hparse : parseRecallResults py (renderMarkdown query project rs) =
      ((items (renderMarkdown query project rs)).foldl (Reading.step py) ⟨[], none⟩).close := by
    rw [parseRecallResults, readLines_eq, ht, py.loads_heading, Option.bind_none, Option.getD_none]
  have hcount : ∀ ls : List Text, (ls.foldl (Reading.step py) ⟨[], none⟩).close = [] ↔
      ls.filter isHeading = [] := by
    intro ls
    rw [← List.length_eq_zero_iff, close_length, ← List.length_eq_zero_iff (l := ls.filter _)]
    simp [Reading.close]
  rw [hparse, items_renderMarkdown]
  cases rs with
  | nil =>
      refine ⟨_, (List.append_nil _).symm, ?_⟩
      rw [hcount, List.filter_append, ← headings_eq_nil]
      exact (List.append_nil (((headLines query project).flatMap items).filter isHeading)).symm ▸ Iff.rfl
  | cons r rs =>
      refine ⟨(headReading py query project).close, ?_, ?_⟩
      · rw [List.foldl_append, List.isEmpty_cons, if_neg (by decide), foldl_results py h]
        rfl
      · rw [headReading, hcount, headings_eq_nil]

end Read

/-! ## What a collected result is made of -/

theorem unbroken_of_space {t : Text} (h : ∀ c ∈ t, isSpace c = false ∨ c = ' ') : Unbroken t := by
  intro c hc
  rcases h c hc with hspace | rfl
  · by_contra hne
    rw [isSpace_of_lineBoundary (by simpa using hne)] at hspace
    cases hspace
  · decide

theorem strip_subset (t : Text) : strip t ⊆ t :=
  fun _ hc => (List.dropWhile_suffix isSpace).subset ((rstrip_isPrefix _).subset hc)

section Preview

variable (py : Interpreter) (query : Text)

/-- The place of the first term lies behind the text: where lower case is
longer than the text itself. -/
def Overshoots (text : Text) : Prop :=
  previewChars < text.length ∧ text.length ≤ previewStart py query text

instance (text : Text) : Decidable (Overshoots py query text) := by
  unfold Overshoots
  infer_instance

theorem unbroken_previewOf {text : Text} (h : ∀ c ∈ text, isSpace c = false ∨ c = ' ') :
    Unbroken (previewOf py query text) := by
  have htext : Unbroken text := unbroken_of_space h
  have hdots : Unbroken (txt "... ") := by
    unfold Unbroken
    decide
  have hend : Unbroken (txt " ...") := by
    unfold Unbroken
    decide
  have hslice : ∀ n m, Unbroken (strip ((text.take n).drop m)) := fun n m =>
    htext.part fun c hc => List.mem_of_mem_take (List.mem_of_mem_drop (strip_subset _ hc))
  unfold previewOf
  split
  · exact htext
  · show Unbroken (if _ then _ else _)
    split
    · split
      · exact (hdots.append (hslice _ _)).append hend
      · exact (hslice _ _).append hend
    · split
      · exact hdots.append (hslice _ _)
      · exact hslice _ _

/-- Behind the text there is only the mark in front. -/
theorem previewOf_of_overshoots {text : Text} (h : Overshoots py query text) :
    previewOf py query text = txt "... " := by
  obtain ⟨hlong, hstart⟩ := h
  have hpos : 0 < previewStart py query text := by omega
  have hstop : min text.length (previewStart py query text + previewChars) = text.length := by omega
  have hslice : (text.take text.length).drop (previewStart py query text) = [] := by
    rw [List.take_length]
    exact List.drop_eq_nil_of_le hstart
  unfold previewOf
  rw [if_neg (by omega)]
  simp only [hstop, hslice, if_pos hpos, lt_irrefl, if_false]
  rfl

/-- A slice of a text with the marks of `preview_for`, one at least. -/
def marked (front back : Prop) [Decidable front] [Decidable back] (slice : Text) : Text :=
  if back then (if front then txt "... " ++ slice else slice) ++ txt " ..."
  else if front then txt "... " ++ slice else slice

theorem strip_marked {front back : Prop} [Decidable front] [Decidable back] {slice : Text}
    (hfront : ¬front → slice ≠ [] ∧ ∀ c ∈ slice.head?, isSpace c = false)
    (hback : ¬back → slice ≠ [] ∧ ∀ c ∈ slice.getLast?, isSpace c = false) :
    strip (marked front back slice) = marked front back slice := by
  have hdots : ∀ t, ∀ c ∈ (txt "... " ++ t).head?, isSpace c = false := by
    rintro t c ⟨⟩
    decide
  have hend : ∀ t, ∀ c ∈ (t ++ txt " ...").getLast?, isSpace c = false := by
    intro t c hc
    rw [List.getLast?_append] at hc
    cases hc
    decide
  unfold marked
  by_cases hb : back
  · rw [if_pos hb]
    by_cases hf : front
    · rw [if_pos hf, List.append_assoc]
      refine strip_of_visible (hdots _) ?_
      rw [← List.append_assoc]
      exact hend _
    · rw [if_neg hf]
      obtain ⟨hne, hfirst⟩ := hfront hf
      refine strip_of_visible ?_ (hend _)
      obtain ⟨a, t, rfl⟩ := List.exists_cons_of_ne_nil hne
      exact hfirst
  · rw [if_neg hb]
    obtain ⟨hne, hlast⟩ := hback hb
    by_cases hf : front
    · rw [if_pos hf]
      refine strip_of_visible (hdots _) ?_
      obtain ⟨f, d, rfl⟩ := (List.eq_nil_or_concat slice).resolve_left hne
      rw [List.concat_eq_append] at hlast ⊢
      rw [← List.append_assoc]
      rw [List.getLast?_concat] at hlast ⊢
      exact hlast
    · rw [if_neg hf]
      exact strip_of_visible (hfront hf).2 hlast

theorem strip_previewOf {text : Text} (hfirst : ∀ c ∈ text.head?, isSpace c = false)
    (hlast : ∀ c ∈ text.getLast?, isSpace c = false) (h : ¬Overshoots py query text) :
    strip (previewOf py query text) = previewOf py query text := by
  by_cases hshort : text.length ≤ previewChars
  · rw [previewOf, if_pos hshort]
    exact strip_of_visible hfirst hlast
  · have hinside : previewStart py query text < text.length := by
      by_contra hge
      exact h ⟨by omega, by omega⟩
    have hne : text ≠ [] := by
      rintro rfl
      exact hshort (Nat.zero_le _)
    have hpreview : previewOf py query text = marked (0 < previewStart py query text)
        (min text.length (previewStart py query text + previewChars) < text.length)
        (strip ((text.take (min text.length (previewStart py query text + previewChars))).drop
          (previewStart py query text))) := by
      rw [previewOf, if_neg hshort]
      rfl
    rw [hpreview]
    generalize previewStart py query text = start at hinside
    refine strip_marked ?_ ?_
    · -- without a mark in front the slice starts where the text does
      intro hstart
      obtain rfl : start = 0 := by omega
      obtain ⟨a, t, rfl⟩ := List.exists_cons_of_ne_nil hne
      have ha : isSpace a = false := hfirst a rfl
      have hhead : (strip (((a :: t).take (min (a :: t).length (0 + previewChars))).drop 0)).head? =
          some a := by
        refine head?_strip ha ?_
        rw [List.drop_zero, Nat.zero_add, Nat.min_eq_right (by omega)]
        rfl
      refine ⟨?_, fun c hc => ?_⟩
      · intro hnil
        rw [hnil] at hhead
        cases hhead
      · rw [hhead] at hc
        cases hc
        exact ha
    · -- without a mark behind it ends where the text does
      intro hstop
      have hall : min text.length (start + previewChars) = text.length := by omega
      obtain ⟨f, d, rfl⟩ := (List.eq_nil_or_concat text).resolve_left hne
      rw [List.concat_eq_append] at *
      have hd : isSpace d = false := hlast d (by simp)
      have htail : (strip (((f ++ [d]).take (min (f ++ [d]).length (start + previewChars))).drop
          start)).getLast? = some d := by
        refine getLast?_strip hd ?_
        rw [hall, List.take_length, List.getLast?_drop, if_neg (by omega), List.getLast?_concat]
      refine ⟨?_, fun c hc => ?_⟩
      · intro hnil
        rw [hnil] at htail
        cases htail
      · rw [htail] at hc
        cases hc
        exact hd

end Preview

theorem unbroken_of_mem_splitlines {l t : Text} (h : l ∈ splitlines t) : Unbroken l := by
  have hnil : Unbroken [] := fun _ hc => absurd hc List.not_mem_nil
  induction t using SessionStart.splitlines.induct generalizing l with
  | case1 => exact absurd h List.not_mem_nil
  | case2 t ih =>
      rw [splitlines] at h
      rcases List.mem_cons.mp h with rfl | h
      · exact hnil
      · exact ih h
  | case3 c t hnot hboundary ih =>
      rw [splitlines, if_pos hboundary] at h
      · rcases List.mem_cons.mp h with rfl | h
        · exact hnil
        · exact ih h
      · exact hnot
  | case4 c t hnot hboundary hlines ih =>
      have hc : isLineBoundary c = false := by simpa using hboundary
      rw [AutoResearch.splitlines_cons hc, hlines, List.mem_singleton] at h
      subst h
      exact List.forall_mem_cons.mpr ⟨hc, hnil⟩
  | case5 c t hnot hboundary line lines hlines ih =>
      have hc : isLineBoundary c = false := by simpa using hboundary
      rw [AutoResearch.splitlines_cons hc, hlines] at h
      rw [hlines] at ih
      rcases List.mem_cons.mp h with rfl | h
      · exact List.forall_mem_cons.mpr ⟨hc, ih List.mem_cons_self⟩
      · exact ih (List.mem_cons_of_mem _ h)

theorem Metadata.mem_set {d : Metadata} {k v : Text} {e : Text × Text} (h : e ∈ d.set k v) :
    e = (k, v) ∨ e ∈ d := by
  induction d with
  | nil => exact .inl (List.mem_singleton.mp h)
  | cons a d ih =>
      obtain ⟨a, w⟩ := a
      rw [Metadata.set] at h
      split at h
      · rcases List.mem_cons.mp h with rfl | h
        · exact .inl rfl
        · exact .inr (List.mem_cons_of_mem _ h)
      · rcases List.mem_cons.mp h with rfl | h
        · exact .inr List.mem_cons_self
        · exact (ih h).imp_right (List.mem_cons_of_mem _)

theorem Metadata.nodup_set {d : Metadata} (h : (d.map Prod.fst).Nodup) (k v : Text) :
    ((d.set k v).map Prod.fst).Nodup := by
  induction d with
  | nil => exact List.nodup_singleton k
  | cons a d ih =>
      obtain ⟨a, w⟩ := a
      obtain ⟨hfresh, hd⟩ := List.nodup_cons.mp h
      rw [Metadata.set]
      split
      · rename_i heq
        subst heq
        exact h
      · rename_i hne
        refine List.nodup_cons.mpr ⟨fun hmem => ?_, ih hd⟩
        obtain ⟨e, he, hkey⟩ := List.mem_map.mp hmem
        rcases Metadata.mem_set he with rfl | he
        · exact hne hkey.symm
        · exact hfresh (List.mem_map.mpr ⟨e, he, hkey⟩)

theorem stripChar_subset (q : Char) (t : Text) : stripChar q t ⊆ t := by
  intro c hc
  have hrest := (List.dropWhile_suffix _).subset (List.mem_reverse.mp hc)
  exact (List.dropWhile_suffix _).subset (List.mem_reverse.mp hrest)

/-- Front matter has distinct keys, and each value is a part of one line. -/
theorem frontmatter_entries (text : Text) : ((frontmatter text).map Prod.fst).Nodup ∧
    ∀ e ∈ frontmatter text, Unbroken e.2 := by
  unfold frontmatter
  split
  · suffices h : ∀ (ls : List Text) (d : Metadata), (∀ l ∈ ls, Unbroken l) →
        ((d.map Prod.fst).Nodup ∧ ∀ e ∈ d, Unbroken e.2) →
        ((ls.foldl addEntry d).map Prod.fst).Nodup ∧ ∀ e ∈ ls.foldl addEntry d, Unbroken e.2 by
      refine h _ [] (fun l hl => unbroken_of_mem_splitlines (List.mem_of_mem_drop hl))
        ⟨List.nodup_nil, ?_⟩
      exact fun _ he => absurd he List.not_mem_nil
    intro ls
    induction ls with
    | nil => exact fun d _ hd => hd
    | cons l ls ih =>
        intro d hls hd
        obtain ⟨hl, hls⟩ := List.forall_mem_cons.mp hls
        refine ih (addEntry d l) hls ?_
        unfold addEntry
        split
        · refine ⟨Metadata.nodup_set hd.1 _ _, fun e he => ?_⟩
          rcases Metadata.mem_set he with rfl | he
          · refine hl.part fun c hc => ?_
            have hvalue := strip_subset _ (stripChar_subset _ _ hc)
            exact (List.dropWhile_suffix _).subset (List.mem_of_mem_drop hvalue)
          · exact hd.2 e he
        · exact hd
  · exact ⟨List.nodup_nil, fun _ he => absurd he List.not_mem_nil⟩

/-! ## The round trip -/

section Collect

variable {py : Interpreter} {classifier : Option (Text → Report)} {query : Text}

theorem mem_distinctSources {seen : List Text} {sources : List Source} {s : Source}
    (h : s ∈ distinctSources seen sources) : s ∈ sources := by
  induction sources generalizing seen with
  | nil => exact absurd h List.not_mem_nil
  | cons a sources ih =>
      rw [distinctSources] at h
      split at h
      · exact List.mem_cons_of_mem _ (ih h)
      · rcases List.mem_cons.mp h with rfl | h
        · exact List.mem_cons_self
        · exact List.mem_cons_of_mem _ (ih h)

/-- A collected result comes from one of the sources. -/
theorem exists_source {limit : Int} {sources : List Source} {r : Result}
    (h : r ∈ collectResults py classifier query limit sources) :
    ∃ s ∈ sources, resultOf py classifier query s = some r := by
  have hmem := List.mem_of_mem_take h
  rw [List.mem_insertionSort] at hmem
  obtain ⟨s, hs, hr⟩ := List.mem_filterMap.mp hmem
  exact ⟨s, mem_distinctSources hs, hr⟩

theorem resultOf_eq_some {s : Source} {r : Result} (h : resultOf py classifier query s = some r) :
    ∃ raw safe, s.text = some raw ∧ s.safeText py classifier = some safe ∧ r.path = s.shown ∧
      r.preview = previewFor py query safe ∧ r.metadata = explicitMemoryMetadata raw := by
  unfold resultOf at h
  obtain ⟨raw, hraw, h⟩ := Option.bind_eq_some_iff.mp h
  obtain ⟨safe, hsafe, h⟩ := Option.bind_eq_some_iff.mp h
  simp only [] at h
  split at h
  · cases h
  · cases h
    exact ⟨raw, safe, hraw, hsafe, rfl, rfl, rfl⟩

theorem printable_resultOf {s : Source} (hs : Unbroken s.shown) {r : Result}
    (h : resultOf py classifier query s = some r) : r.Printable := by
  obtain ⟨raw, safe, -, -, hpath, hpreview, hmetadata⟩ := resultOf_eq_some h
  obtain ⟨front, hmarkdown⟩ := s.markdown
  obtain ⟨hnodup, hvalues⟩ := frontmatter_entries raw
  have hentry : ∀ e ∈ r.metadata, e.1 ∈ allowedKeys ∧ Unbroken e.2 ∧ '\u0060' ∉ e.2 := by
    intro e he
    rw [hmetadata, explicitMemoryMetadata] at he
    split at he
    · obtain ⟨e, hmem, rfl⟩ := List.mem_map.mp he
      obtain ⟨hfront, hkey⟩ := List.mem_filter.mp hmem
      refine ⟨by simpa using hkey, (hvalues e hfront).part ?_, ?_⟩
      · exact fun c hc => (List.mem_filter.mp (List.mem_of_mem_take hc)).1
      · intro hc
        have htick := (List.mem_filter.mp (List.mem_of_mem_take hc)).2
        exact absurd htick (by decide)
    · exact absurd he List.not_mem_nil
  refine ⟨hpath ▸ hs, ⟨front ++ txt ".m", 'd', ?_, by decide⟩, ?_, fun e he => (hentry e he).1, ?_,
    fun e he => (hentry e he).2.1, fun e he => (hentry e he).2.2⟩
  · rw [hpath, ← hmarkdown, List.append_assoc]
    rfl
  · rw [hpreview]
    exact unbroken_previewOf py query (compactSpace_chars safe)
  · rw [hmetadata, explicitMemoryMetadata]
    split
    · rw [List.map_map]
      exact hnodup.sublist (List.filter_sublist.map Prod.fst)
    · exact List.nodup_nil

variable (py classifier query)

/-- The results come back as one memory each, in their order, unchanged. -/
def RoundTrips (project : Text) (results : List Result) : Prop :=
  parseRecallResults py (renderMarkdown query project results) = results.map memoryOf

/-- No result of the list is from a source the round trip changes: its path
starts with a blank, or its preview is the bare mark. -/
def Faithful (sources : List Source) (results : List Result) : Prop :=
  ∀ s ∈ sources, ∀ r ∈ results, resultOf py classifier query s = some r →
    strip s.shown = s.shown ∧
      ∀ safe, s.safeText py classifier = some safe → ¬Overshoots py query (compactSpace safe)

/-- **The round trip**, over everything a recall can collect. -/
theorem roundTrips_iff (project : Text) (limit : Int) (sources : List Source)
    (hpaths : ∀ s ∈ sources, Unbroken s.shown) :
    RoundTrips py query project (collectResults py classifier query limit sources) ↔
      Faithful py classifier query sources (collectResults py classifier query limit sources) ∧
        Quiet (queryLine query) ∧ Quiet (projectLine project) := by
  set results := collectResults py classifier query limit sources with hresults
  have hprintable : ∀ r ∈ results, r.Printable := by
    intro r hr
    obtain ⟨s, hs, hsr⟩ := exists_source hr
    exact printable_resultOf (hpaths s hs) hsr
  obtain ⟨front, hparse, hquiet⟩ := parse_renderMarkdown py query project hprintable
  unfold RoundTrips
  rw [hparse, ← hquiet]
  constructor
  · intro h
    have hfront : front = [] := by
      have hlen := congrArg List.length h
      rw [List.length_append, List.length_map, List.length_map] at hlen
      exact List.length_eq_zero_iff.mp (by omega)
    refine ⟨?_, hfront⟩
    rw [hfront, List.nil_append] at h
    intro s hs r hr hsr
    obtain ⟨raw, safe, -, hsafe, hpath, hpreview, -⟩ := resultOf_eq_some hsr
    have hsame := List.map_inj_left.mp h r hr
    simp only [memoryOf, fieldsOf, List.cons_append, List.cons.injEq, Prod.mk.injEq, Value.str.injEq,
      true_and] at hsame
    refine ⟨hpath ▸ hsame.1, fun safe' hsafe' hover => ?_⟩
    obtain rfl : safe = safe' := Option.some.inj (hsafe.symm.trans hsafe')
    have hbare := hsame.2.1
    rw [hpreview, previewFor, previewOf_of_overshoots py query hover] at hbare
    revert hbare
    decide
  · rintro ⟨hfaithful, rfl⟩
    rw [List.nil_append]
    refine List.map_inj_left.mpr fun r hr => ?_
    obtain ⟨s, hs, hsr⟩ := exists_source hr
    obtain ⟨raw, safe, -, hsafe, hpath, hpreview, -⟩ := resultOf_eq_some hsr
    obtain ⟨hshown, hover⟩ := hfaithful s hs r hr hsr
    have hvisible := compactSpace_visible safe
    rw [memoryOf, hpath, hshown, hpreview, previewFor,
      strip_previewOf py query hvisible.1 hvisible.2 (hover safe hsafe)]

end Collect

/-! ## Two recalls that come back changed -/

/-- An interpreter that knows ASCII and has no JSON to read. -/
def plainInterpreter : Interpreter where
  host := Host.ascii fun t => t
  intOf t := ((Json.loadDigits t).map fun n => (n.1 : Int)).getD 0
  loads _ := none
  intOf_decimalText n := by
    have h := @Json.loadDigits_decimalText n [] Json.ends_nil
    rw [List.append_nil] at h
    rw [h]
    rfl
  loads_heading _ := rfl

def demo : Text := txt "demo"
def planQuery : Text := txt "plan"
def headingQuery : Text := txt "plan\n### other.md"

/-- A note in the file `notes.md`, and one whose name starts with a blank. -/
def note : Source := ⟨txt "notes.md", txt "notes.md", some (txt "plan the work"), ⟨txt "notes", rfl⟩⟩
def blankNote : Source := ⟨txt " notes.md", txt " notes.md", some (txt "plan the work"), ⟨txt " notes", rfl⟩⟩

/-- The line of the query that looks like a heading makes a memory of its own;
the name that starts with a blank comes back without it. -/
theorem recall_comes_back_changed :
    ¬RoundTrips plainInterpreter headingQuery demo
        (collectResults plainInterpreter none headingQuery 8 [note]) ∧
      ¬RoundTrips plainInterpreter planQuery demo
        (collectResults plainInterpreter none planQuery 8 [blankNote]) := by
  constructor
  · intro h
    have hlen := congrArg List.length h
    revert hlen
    decide +kernel
  · intro h
    have hpath := congrArg (List.map fun d => (Fields.get? d (txt "path")).bind asText) h
    revert hpath
    decide +kernel

theorem note_comes_back :
    RoundTrips plainInterpreter planQuery demo
        (collectResults plainInterpreter none planQuery 8 [note]) ↔
      Faithful plainInterpreter none planQuery [note]
          (collectResults plainInterpreter none planQuery 8 [note]) ∧
        Quiet (queryLine planQuery) ∧ Quiet (projectLine demo) := by
  have hpaths : ∀ s ∈ [note], Unbroken s.shown := by
    intro s hs
    rw [List.mem_singleton.mp hs]
    show ∀ c ∈ txt "notes.md", isLineBoundary c = false
    decide
  exact roundTrips_iff plainInterpreter none planQuery demo 8 [note] hpaths

end RalphVault.RecallText
