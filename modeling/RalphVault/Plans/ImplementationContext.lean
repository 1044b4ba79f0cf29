import RalphVault.Blanks
import RalphVault.Outcome
import RalphVault.Plans.NotesParser
import RalphVault.Recency
import RalphVault.SessionStart.Reducer
import RalphVault.Store.Host
import Mathlib

/-!
# Plans — the implementation context

`implementation_context.py`: the title, the status and the objective of a plan
and the latest entries of its notes, as a text within a budget, and the hashes
that record which entries were selected for it.

Left out: the choice of the plan and of the notes.
-/

namespace RalphVault.Plans.Notes

open Store (Env)
open Memory (strip compactSpace wordCount)
open Outcome (bind_eq_ok)
open SessionStart (splitlines)

/-! ## The machine -/

/-- What `datetime.fromisoformat` returns: a date without or with a time zone,
and its instant. -/
inductive Moment where
  | naive (instant : Int)
  | aware (instant : Int)
deriving DecidableEq

def Moment.instant : Moment → Int
  | naive t => t
  | aware t => t

def Moment.isAware : Moment → Bool
  | naive _ => false
  | aware _ => true

structure Machine where
  env : Env
  /-- `str.lower`. -/
  lower : Text → Text
  /-- The calls of `html.parser`. -/
  tokenize : Text → List Call
  /-- `datetime.fromisoformat`, unless it raises `ValueError`. -/
  fromisoformat : Text → Option Moment

inductive ContextError where
  | notes (message : Text)
  | attributeError
  | typeError
deriving DecidableEq

/-- The paths and the texts of a selection. -/
structure Selection where
  planStem : Text
  plan : Text
  notesPath : Text
  notes : Text

/-- The limits, and their defaults `MAX_CONTEXT_CHARS`, `MAX_CONTEXT_WORDS` and
`MAX_CONTEXT_UNITS`. -/
structure Budget where
  maxChars : Int
  maxWords : Int
  maxUnits : Int

def Budget.standard : Budget := ⟨2000, 250, 500⟩

/-- `compact_field`. -/
def compactField (value : Text) (limit : Nat) : Text :=
  let normalized := compactSpace value
  if normalized.length ≤ limit then normalized
  else rstrip (normalized.take (limit - 3)) ++ txt "..."

/-- `within_budget`. -/
def withinBudget (b : Budget) (t : Text) : Bool :=
  (t.length : Int) ≤ min b.maxChars (b.maxUnits * 4) && (wordCount t : Int) ≤ b.maxWords

/-! ## The plan -/

/-- `plan_title`. -/
def planTitle (sel : Selection) : Text :=
  match (splitlines sel.plan).find? (startsWith ['#', ' ']) with
  | some line => strip (line.drop 2)
  | none => sel.planStem

section Context

variable (m : Machine)

/-- The loop of `plan_identity`: the status and the objective so far. -/
def identityFrom (status objective : Text) : List Text → Text × Text
  | [] => (status, objective)
  | line :: lines =>
      let status :=
        if startsWith (txt "implementation notes status:") (m.lower line) then
          strip ((line.dropWhile (· ≠ ':')).drop 1)
        else status
      let objective :=
        if m.lower (strip line) ∈ [txt "## purpose", txt "## objective"] then
          match lines.find? fun candidate => !isBlank candidate && !startsWith ['#'] candidate with
          | some candidate => strip candidate
          | none => objective
        else objective
      identityFrom status objective lines

/-- `plan_identity`. -/
def planIdentity (sel : Selection) : Text × Text :=
  let (status, objective) := identityFrom m [] [] (splitlines sel.plan)
  (status, compactField (if objective.isEmpty then planTitle sel else objective) 280)

/-! ## The entries -/

def resolvedStatuses : List Text := [txt "resolved", txt "closed", txt "complete"]

def timestamp (e : ParsedEntry) : Text := e.get (txt "Timestamp")

def momentOf (e : ParsedEntry) : Option Moment := m.fromisoformat (timestamp e)

/-- `entry_order`: the branch for a timestamp that is no date asks the class
`datetime` for the constant `UTC` of its module. -/
def entryOrder (e : ParsedEntry) : Except ContextError Moment :=
  match momentOf m e with
  | some moment => .ok moment
  | none => .error .attributeError

/-- The order of dates that compare, and of the timestamps of equal dates. -/
def orderKey (e : ParsedEntry) : Int ×ₗ List Char :=
  toLex ((((momentOf m e).map Moment.instant).getD 0), timestamp e)

/-- The entries `entries_for` sorts. -/
def eligible (entries : List ParsedEntry) (category : Text) (unresolved : Bool) :
    List ParsedEntry :=
  entries.filter fun e => e.category = category ∧
    (unresolved = true → m.lower (e.get (txt "Status")) ∉ resolvedStatuses)

/-- `sorted(selected, key=entry_order, reverse=True)[:limit]` -/
def latest (limit : Nat) (selected : List ParsedEntry) : List ParsedEntry :=
  Recency.mostRecent (orderKey m) limit selected

/-- `entries_for`. Dates with and without a time zone do not compare, and
sorting compares one of each if there are both. -/
def entriesFor (entries : List ParsedEntry) (category : Text) (limit : Nat) (unresolved : Bool) :
    Except ContextError (List ParsedEntry) := do
  let selected := eligible m entries category unresolved
  let moments ← selected.mapM (entryOrder m)
  if moments.any Moment.isAware && moments.any fun moment => !moment.isAware then .error .typeError
  else return latest m limit selected

/-! ## The text -/

/-- `entry_line`. -/
def entryLine (e : ParsedEntry) (includeReason : Bool) : Text :=
  let impact := compactField (e.get (txt "Impact")) 160
  txt "- " ++ compactField (e.get (txt "Decision")) 220 ++
    (if includeReason then txt "; reason: " ++ compactField (e.get (txt "Reason")) 170 else []) ++
    (if impact.isEmpty then [] else txt "; impact: " ++ impact)

/-- `compact_entry_line`. -/
def compactEntryLine (e : ParsedEntry) : Text :=
  txt "- " ++ compactField (e.get (txt "Decision")) 96

/-- The forms an entry is tried in. -/
def forms (includeReason : Bool) (e : ParsedEntry) : List Text :=
  [entryLine e includeReason, entryLine e false, compactEntryLine e]

structure Area where
  heading : Text
  entries : List ParsedEntry
  includeReason : Bool

/-- `sections`. -/
def sectionsOf (entries : List ParsedEntry) : Except ContextError (List Area) := do
  let decisions ← entriesFor m entries (txt "decision") 3 false
  let deviations ← entriesFor m entries (txt "deviation") 2 true
  let questions ← entriesFor m entries (txt "open-question") 3 true
  let validations ← entriesFor m entries (txt "validation") 2 false
  return [⟨txt "### Decisions", decisions, true⟩, ⟨txt "### Deviations", deviations, false⟩,
    ⟨txt "### Open Questions", questions, false⟩, ⟨txt "### Validation", validations, false⟩]

/-- The lines of a section in the text. -/
def areaLines (a : Area) (lines : List Text) : List Text :=
  a.heading :: if lines ≠ [] then lines else if a.entries = [] then [txt "- None recorded."] else []

def contextLines (header : List Text) (areas : List Area) (selected : List (List Text))
    (source : Text) : List Text :=
  header ++ (List.zipWith areaLines areas selected).flatten ++ [source]

/-- `render_context_lines`. -/
def renderContextLines (header : List Text) (areas : List Area) (selected : List (List Text))
    (source : Text) : Text :=
  joinWith ['\n'] (contextLines header areas selected source)

/-- The inner loop: an entry adds the first of its forms that fits. -/
def placeEntries (fits : List Text → Bool) (includeReason : Bool) (lines : List Text) :
    List ParsedEntry → List Text
  | [] => lines
  | e :: entries =>
      match (forms includeReason e).find? fun candidate => fits (lines ++ [candidate]) with
      | some candidate => placeEntries fits includeReason (lines ++ [candidate]) entries
      | none => placeEntries fits includeReason lines entries

/-- The outer loop: the sections behind the current one have no lines yet. -/
def placeAreas (fits : List (List Text) → Bool) (done : List (List Text)) :
    List Area → List (List Text)
  | [] => done
  | a :: areas =>
      let lines := placeEntries (fun lines => fits (done ++ lines :: areas.map fun _ => []))
        a.includeReason [] a.entries
      placeAreas fits (done ++ [lines]) areas

def header (sel : Selection) : List Text :=
  let identity := planIdentity m sel
  [txt "## Active Implementation Context", txt "Plan: " ++ planTitle sel,
    txt "Status: " ++ (if identity.1.isEmpty then txt "active" else identity.1),
    txt "Objective: " ++ identity.2]

def source (sel : Selection) : Text := txt "Source notes: " ++ sel.notesPath

/-- `valid_non_initial_entries` of the notes. -/
def notesEntries (sel : Selection) : Except ContextError (List ParsedEntry) :=
  (validNonInitialEntries m.env m.lower m.tokenize sel.notes).mapError .notes

/-- Whether the text of a selection of lines is within the budget. -/
def fits (sel : Selection) (b : Budget) (areas : List Area) (selected : List (List Text)) : Bool :=
  withinBudget b (renderContextLines (header m sel) areas selected (source sel))

/-- `render_implementation_context`. -/
def renderImplementationContext (sel : Selection) (b : Budget) : Except ContextError Text := do
  let entries ← notesEntries m sel
  let areas ← sectionsOf m entries
  return renderContextLines (header m sel) areas (placeAreas (fits m sel b areas) [] areas)
    (source sel)

/-- The hash of a selected entry. -/
def entryHash (e : ParsedEntry) : Text :=
  m.env.sha256 (joinWith ['\n']
    [e.category, timestamp e, e.get (txt "Decision"), e.get (txt "Status")])

/-- `selected_entry_hashes`. -/
def selectedEntryHashes (sel : Selection) : Except ContextError (List Text) := do
  let entries ← notesEntries m sel
  let decisions ← entriesFor m entries (txt "decision") 3 false
  let deviations ← entriesFor m entries (txt "deviation") 2 true
  let questions ← entriesFor m entries (txt "open-question") 3 true
  let validations ← entriesFor m entries (txt "validation") 2 false
  return (decisions ++ deviations ++ questions ++ validations).map (entryHash m)

end Context

/-! ## The size of a text of lines -/

section Lines

variable {lines shorter : List Text}

theorem length_joinLines (h : lines ≠ []) :
    (joinWith ['\n'] lines).length + 1 = (lines.map fun line => line.length + 1).sum := by
  induction lines with
  | nil => exact absurd rfl h
  | cons line lines ih =>
      cases lines with
      | nil => simp [joinWith]
      | cons next lines =>
          have hrest := ih (List.cons_ne_nil _ _)
          rw [List.map_cons, List.sum_cons, ← hrest]
          simp only [joinWith, List.length_append, List.length_singleton]
          omega

theorem count_joinLines (h : lines ≠ []) :
    (joinWith ['\n'] lines).count '\n' + 1 = (lines.map fun line => line.count '\n' + 1).sum := by
  induction lines with
  | nil => exact absurd rfl h
  | cons line lines ih =>
      cases lines with
      | nil => simp [joinWith]
      | cons next lines =>
          have hrest := ih (List.cons_ne_nil _ _)
          rw [List.map_cons, List.sum_cons, ← hrest]
          simp only [joinWith, List.count_append, List.count_singleton_self]
          omega

/-- With lines left out a text stays within the budget. -/
theorem withinBudget_of_sublist {b : Budget} (h : shorter.Sublist lines) (hne : shorter ≠ [])
    (hfits : withinBudget b (joinWith ['\n'] lines) = true) :
    withinBudget b (joinWith ['\n'] shorter) = true := by
  have hlines : lines ≠ [] := by
    rintro rfl
    exact hne (List.sublist_nil.1 h)
  have hlength := (h.map fun line => line.length + 1).sum_le_sum fun n _ => Nat.zero_le n
  have hwords := (h.map wordCount).sum_le_sum fun n _ => Nat.zero_le n
  rw [← length_joinLines hne, ← length_joinLines hlines] at hlength
  rw [← wordCount_lines, ← wordCount_lines] at hwords
  rw [withinBudget, Bool.and_eq_true, decide_eq_true_iff, decide_eq_true_iff] at hfits ⊢
  omega

end Lines

/-! ## Placing the entries -/

/-- Every entry adds a line: `out` is reached by taking for each one the first
of its forms that fits. -/
def Fills (fits : List Text → Bool) (includeReason : Bool) (lines : List Text) :
    List ParsedEntry → List Text → Prop
  | [], out => out = lines
  | e :: entries, out => ∃ form,
      ((forms includeReason e).find? fun candidate => fits (lines ++ [candidate])) = some form ∧
      Fills fits includeReason (lines ++ [form]) entries out

/-- Every entry of every section adds a line. -/
def FillsAll (fits : List (List Text) → Bool) (done : List (List Text)) : List Area → Prop
  | [] => True
  | a :: areas => ∃ lines,
      Fills (fun lines => fits (done ++ lines :: areas.map fun _ => [])) a.includeReason []
        a.entries lines ∧
      FillsAll fits (done ++ [lines]) areas

/-- The entries shown in a section, each with its line. -/
abbrev Shown := List (ParsedEntry × Text)

def Shown.entries (l : Shown) : List ParsedEntry := l.map Prod.fst

def Shown.lines (l : Shown) : List Text := l.map Prod.snd

/-- The entries are some of those selected, and the lines are forms of theirs. -/
def ShownOf (a : Area) (l : Shown) : Prop :=
  l.entries.Sublist a.entries ∧ ∀ p ∈ l, p.2 ∈ forms a.includeReason p.1

/-- What one run of the inner loop adds. -/
theorem placeEntries_spec (fits : List Text → Bool) (r : Bool) (lines : List Text)
    (entries : List ParsedEntry) : ∃ shown : Shown,
      placeEntries fits r lines entries = lines ++ shown.lines ∧
      shown.entries.Sublist entries ∧ (∀ p ∈ shown, p.2 ∈ forms r p.1) ∧
      (shown ≠ [] → fits (lines ++ shown.lines) = true) ∧
      ∀ out, Fills fits r lines entries out ↔
        out = lines ++ shown.lines ∧ shown.length = entries.length := by
  induction entries generalizing lines with
  | nil => exact ⟨[], by simp [placeEntries, Shown.lines], List.Sublist.slnil, by simp, by simp,
      by simp [Fills, Shown.lines]⟩
  | cons e entries ih =>
      cases hfind : (forms r e).find? fun candidate => fits (lines ++ [candidate]) with
      | none =>
          obtain ⟨shown, hplace, hsub, hforms, hfits, -⟩ := ih lines
          refine ⟨shown, ?_, hsub.cons e, hforms, hfits, fun out => ?_⟩
          · rw [placeEntries, hfind]
            exact hplace
          · have hlen : shown.length ≤ entries.length := by
              simpa [Shown.entries] using hsub.length_le
            rw [Fills, hfind]
            constructor
            · rintro ⟨form, hnone, -⟩
              cases hnone
            · rintro ⟨-, hall⟩
              rw [List.length_cons] at hall
              omega
      | some form =>
          obtain ⟨shown, hplace, hsub, hforms, hfits, hfills⟩ := ih (lines ++ [form])
          have hlines : lines ++ [form] ++ shown.lines = lines ++ Shown.lines ((e, form) :: shown) := by
            simp [Shown.lines]
          refine ⟨(e, form) :: shown, ?_, hsub.cons_cons e, ?_, fun _ => ?_, fun out => ?_⟩
          · rw [placeEntries, hfind, ← hlines]
            exact hplace
          · intro p hp
            obtain rfl | hmem := List.mem_cons.1 hp
            · exact List.mem_of_find?_eq_some hfind
            · exact hforms p hmem
          · by_cases hnil : shown = []
            · subst hnil
              have hform := List.find?_some hfind
              simpa [Shown.lines] using hform
            · rw [← hlines]
              exact hfits hnil
          · rw [Fills, ← hlines, List.length_cons, List.length_cons, Nat.add_right_cancel_iff,
              ← hfills out, hfind]
            simp

/-- The number of entries shown in all sections. -/
def total (shown : List Shown) : Nat := (shown.map List.length).sum

theorem length_le_of_shownOf {a : Area} {l : Shown} (h : ShownOf a l) :
    l.length ≤ a.entries.length := by
  simpa [Shown.entries] using h.1.length_le

theorem total_le {areas : List Area} {shown : List Shown} (h : List.Forall₂ ShownOf areas shown) :
    total shown ≤ (areas.map fun a => a.entries.length).sum := by
  induction h with
  | nil => exact le_rfl
  | cons hhere _ ih =>
      have := length_le_of_shownOf hhere
      simp only [total, List.map_cons, List.sum_cons] at ih ⊢
      omega

/-- If nothing is shown, no section has a line. -/
theorem lines_of_total_eq_zero {areas : List Area} {shown : List Shown}
    (h : List.Forall₂ ShownOf areas shown) (hzero : total shown = 0) :
    shown.map Shown.lines = areas.map fun _ => [] := by
  induction h with
  | nil => rfl
  | @cons a l areas shown _ _ ih =>
      simp only [total, List.map_cons, List.sum_cons] at hzero ih ⊢
      obtain rfl : l = [] := List.length_eq_zero_iff.1 (by omega)
      rw [ih (by omega)]
      rfl

/-- What one run of the outer loop adds. -/
theorem placeAreas_spec (fits : List (List Text) → Bool) (done : List (List Text))
    (areas : List Area) : ∃ shown : List Shown,
      placeAreas fits done areas = done ++ shown.map Shown.lines ∧
      List.Forall₂ ShownOf areas shown ∧
      (total shown ≠ 0 → fits (done ++ shown.map Shown.lines) = true) ∧
      (FillsAll fits done areas ↔ total shown = (areas.map fun a => a.entries.length).sum) := by
  induction areas generalizing done with
  | nil => exact ⟨[], by simp [placeAreas], .nil, by simp [total], by simp [FillsAll, total]⟩
  | cons a areas ih =>
      obtain ⟨here, hplace, hsub, hforms, hfits, hfills⟩ := placeEntries_spec
        (fun lines => fits (done ++ lines :: areas.map fun _ => [])) a.includeReason [] a.entries
      simp only [List.nil_append] at hplace hfits hfills
      obtain ⟨shown, hrun, hshown, hafter, hall⟩ := ih (done ++ [here.lines])
      have hlines : done ++ [here.lines] ++ shown.map Shown.lines =
          done ++ (here :: shown).map Shown.lines := by simp
      refine ⟨here :: shown, ?_, .cons ⟨hsub, hforms⟩ hshown, fun hne => ?_, ?_⟩
      · rw [placeAreas, hplace, ← hlines]
        exact hrun
      · by_cases hrest : total shown = 0
        · have hhere : here ≠ [] := by
            rintro rfl
            exact hne (by simpa [total] using hrest)
          -- Nothing is added behind this section.
          rw [List.map_cons, lines_of_total_eq_zero hshown hrest]
          exact hfits hhere
        · rw [← hlines]
          exact hafter hrest
      · have hle := length_le_of_shownOf ⟨hsub, hforms⟩
        have hrest := total_le hshown
        have hsum : total (here :: shown) = here.length + total shown := by simp [total]
        rw [List.map_cons, List.sum_cons, hsum]
        constructor
        · rintro ⟨lines, hhere, hbehind⟩
          obtain ⟨rfl, hlen⟩ := (hfills lines).1 hhere
          rw [hlen, hall.1 hbehind]
        · intro heq
          refine ⟨here.lines, (hfills _).2 ⟨rfl, by omega⟩, hall.2 (by omega)⟩

/-! ## The lines of the text -/

theorem newline_not_mem_compactField (value : Text) (limit : Nat) :
    '\n' ∉ compactField value limit := by
  have hcompact : '\n' ∉ compactSpace value := by
    intro hmem
    obtain hspace | hblank := compactSpace_chars value _ hmem
    · exact absurd hspace (by decide)
    · exact absurd hblank (by decide)
  simp only [compactField]
  split
  · exact hcompact
  · intro hmem
    obtain hcut | hdots := List.mem_append.1 hmem
    · exact hcompact (List.mem_of_mem_take ((rstrip_isPrefix _).subset hcut))
    · exact absurd hdots (by decide)

/-- A form of an entry is one line. -/
theorem newline_not_mem_form {r : Bool} {e : ParsedEntry} {form : Text} (h : form ∈ forms r e) :
    '\n' ∉ form := by
  have hline : ∀ r, '\n' ∉ entryLine e r := by
    intro r hmem
    rw [entryLine] at hmem
    obtain hmem | hmem := List.mem_append.1 hmem
    · obtain hmem | hmem := List.mem_append.1 hmem
      · obtain hmem | hmem := List.mem_append.1 hmem
        · exact absurd hmem (by decide)
        · exact newline_not_mem_compactField _ _ hmem
      · split at hmem
        · obtain hmem | hmem := List.mem_append.1 hmem
          · exact absurd hmem (by decide)
          · exact newline_not_mem_compactField _ _ hmem
        · cases hmem
    · split at hmem
      · cases hmem
      · obtain hmem | hmem := List.mem_append.1 hmem
        · exact absurd hmem (by decide)
        · exact newline_not_mem_compactField _ _ hmem
  obtain rfl | rfl | rfl : form = entryLine e r ∨ form = entryLine e false ∨
      form = compactEntryLine e := by simpa [forms] using h
  · exact hline r
  · exact hline false
  · intro hmem
    obtain hmem | hmem := List.mem_append.1 hmem
    · exact absurd hmem (by decide)
    · exact newline_not_mem_compactField _ _ hmem

/-- The newlines of the sections, each line with its own. -/
def newlines (lines : List Text) : Nat := (lines.map fun line => line.count '\n' + 1).sum

theorem newlines_append (lines more : List Text) :
    newlines (lines ++ more) = newlines lines + newlines more := by
  simp [newlines]

/-- The entries shown stand behind what a section has without them. -/
theorem areaLines_shown {a : Area} {l : Shown} (h : ShownOf a l) :
    areaLines a l.lines = areaLines a [] ++ l.lines := by
  by_cases hnil : l = []
  · subst hnil
    exact (List.append_nil _).symm
  · have hentries : a.entries ≠ [] := by
      intro hempty
      have hle := length_le_of_shownOf h
      rw [hempty, List.length_nil, Nat.le_zero] at hle
      exact hnil (List.length_eq_zero_iff.1 hle)
    have hne : l.lines ≠ [] := by simpa [Shown.lines] using hnil
    rw [areaLines, areaLines, if_pos hne, if_neg (by simp), if_neg hentries]
    rfl

/-- A line more for each entry shown. -/
theorem newlines_areas {areas : List Area} {shown : List Shown}
    (h : List.Forall₂ ShownOf areas shown) :
    newlines (List.zipWith areaLines areas (shown.map Shown.lines)).flatten =
      newlines (List.zipWith areaLines areas (areas.map fun _ => [])).flatten + total shown := by
  induction h with
  | nil => rfl
  | @cons a l areas shown hhere _ ih =>
      have hlines : newlines l.lines = l.length := by
        have hone : ∀ n ∈ l.lines.map fun line => line.count '\n' + 1, n = 1 := by
          intro n hn
          obtain ⟨line, hline, rfl⟩ := List.mem_map.1 hn
          obtain ⟨p, hp, rfl⟩ := List.mem_map.1 hline
          rw [List.count_eq_zero_of_not_mem (newline_not_mem_form (hhere.2 p hp))]
        rw [newlines, List.eq_replicate_of_mem hone]
        simp [Shown.lines]
      have hsum : total (l :: shown) = l.length + total shown := by simp [total]
      simp only [List.map_cons, List.zipWith_cons_cons, List.flatten_cons, newlines_append, ih,
        areaLines_shown hhere, hlines, hsum]
      omega

/-- A text without entries is a part of every text. -/
theorem sublist_contextLines (header : List Text) (source : Text) {areas : List Area}
    {shown : List Shown} (h : List.Forall₂ ShownOf areas shown) :
    (contextLines header areas (areas.map fun _ => []) source).Sublist
      (contextLines header areas (shown.map Shown.lines) source) := by
  have hareas : (List.zipWith areaLines areas (areas.map fun _ => [])).flatten.Sublist
      (List.zipWith areaLines areas (shown.map Shown.lines)).flatten := by
    induction h with
    | nil => exact List.Sublist.refl _
    | @cons a l areas shown hhere _ ih =>
        simp only [List.map_cons, List.zipWith_cons_cons, List.flatten_cons]
        rw [areaLines_shown hhere]
        exact (List.sublist_append_left _ _).append ih
  exact (List.Sublist.append (List.Sublist.refl _) hareas).append (List.Sublist.refl _)

/-! ## The order of the entries -/

section Order

variable (m : Machine) (entries : List ParsedEntry)

/-- The timestamps of the entries of a section are dates, all of them with a
time zone or all of them without. -/
structure Comparable (category : Text) (unresolved : Bool) : Prop where
  date : ∀ e ∈ eligible m entries category unresolved, (momentOf m e).isSome
  zone : ∀ e ∈ eligible m entries category unresolved,
    ∀ e' ∈ eligible m entries category unresolved,
      (momentOf m e).map Moment.isAware =
        (momentOf m e').map Moment.isAware

variable {m} {entries}

theorem mapM_entryOrder (selected : List ParsedEntry) (moments : List Moment) :
    selected.mapM (entryOrder m) = .ok moments ↔
      selected.map (momentOf m) = moments.map some := by
  induction selected generalizing moments with
  | nil =>
      cases moments with
      | nil => simp [pure, Except.pure]
      | cons moment moments => simp [pure, Except.pure]
  | cons e selected ih =>
      rw [List.mapM_cons, bind_eq_ok]
      constructor
      · rintro ⟨moment, horder, h⟩
        obtain ⟨rest, hrest, h⟩ := bind_eq_ok.1 h
        obtain rfl := Except.ok.inj h
        have hdate : momentOf m e = some moment := by
          rw [entryOrder] at horder
          split at horder
          · rename_i hsome
            rw [hsome, Except.ok.inj horder]
          · cases horder
        rw [List.map_cons, List.map_cons, hdate, (ih rest).1 hrest]
      · intro h
        cases moments with
        | nil => cases h
        | cons moment moments =>
            obtain ⟨hdate, hrest⟩ := List.cons.inj h
            refine ⟨moment, by rw [entryOrder, show momentOf m e = some moment from hdate], ?_⟩
            rw [(ih moments).2 hrest]
            rfl

theorem entriesFor_eq_ok {category : Text} {limit : Nat} {unresolved : Bool}
    {l : List ParsedEntry} : entriesFor m entries category limit unresolved = .ok l ↔
      Comparable m entries category unresolved ∧
        l = latest m limit (eligible m entries category unresolved) := by
  rw [entriesFor, bind_eq_ok]
  constructor
  · rintro ⟨moments, hmoments, h⟩
    rw [mapM_entryOrder] at hmoments
    have hdate : ∀ e ∈ eligible m entries category unresolved,
        ∃ moment ∈ moments, momentOf m e = some moment := by
      intro e he
      have hmem := List.mem_map_of_mem (f := momentOf m) he
      rw [hmoments] at hmem
      obtain ⟨moment, hmoment, heq⟩ := List.mem_map.1 hmem
      exact ⟨moment, hmoment, heq.symm⟩
    split at h
    · cases h
    · rename_i hmixed
      refine ⟨⟨fun e he => ?_, fun e he e' he' => ?_⟩, (Except.ok.inj h).symm⟩
      · obtain ⟨moment, -, heq⟩ := hdate e he
        rw [heq]
        rfl
      · obtain ⟨moment, hmem, heq⟩ := hdate e he
        obtain ⟨moment', hmem', heq'⟩ := hdate e' he'
        rw [heq, heq']
        by_contra hne
        apply hmixed
        simp only [Bool.and_eq_true, List.any_eq_true, Bool.not_eq_true']
        cases ha : moment.isAware with
        | true => exact ⟨⟨moment, hmem, ha⟩, moment', hmem', by simpa [ha] using hne⟩
        | false => exact ⟨⟨moment', hmem', by simpa [ha] using hne⟩, moment, hmem, ha⟩
  · rintro ⟨hcompare, rfl⟩
    refine ⟨(eligible m entries category unresolved).filterMap (momentOf m),
      ?_, ?_⟩
    · rw [mapM_entryOrder]
      have hsome : ∀ selected : List ParsedEntry,
          (∀ e ∈ selected, (momentOf m e).isSome) →
          selected.map (momentOf m) =
            (selected.filterMap (momentOf m)).map some := by
        intro selected hselected
        induction selected with
        | nil => rfl
        | cons e selected ih =>
            obtain ⟨moment, hmoment⟩ := Option.isSome_iff_exists.1 (hselected e List.mem_cons_self)
            rw [List.map_cons, List.filterMap_cons_some hmoment, List.map_cons, hmoment,
              ih fun d hd => hselected d (List.mem_cons_of_mem _ hd)]
      exact hsome _ hcompare.date
    · rw [if_neg]
      · rfl
      · simp only [Bool.and_eq_true, List.any_eq_true, List.mem_filterMap, Bool.not_eq_true']
        rintro ⟨⟨moment, ⟨e, he, heq⟩, haware⟩, moment', ⟨e', he', heq'⟩, hnaive⟩
        have hzone := hcompare.zone e he e' he'
        rw [heq, heq', Option.map_some, Option.map_some, haware, hnaive] at hzone
        cases hzone

variable (m) (entries)

/-- The sections with the entries selected for them. -/
def selectedAreas : List Area :=
  [⟨txt "### Decisions", latest m 3 (eligible m entries (txt "decision") false), true⟩,
    ⟨txt "### Deviations", latest m 2 (eligible m entries (txt "deviation") true), false⟩,
    ⟨txt "### Open Questions", latest m 3 (eligible m entries (txt "open-question") true), false⟩,
    ⟨txt "### Validation", latest m 2 (eligible m entries (txt "validation") false), false⟩]

/-- The timestamps of each section compare. -/
structure Dated : Prop where
  decisions : Comparable m entries (txt "decision") false
  deviations : Comparable m entries (txt "deviation") true
  questions : Comparable m entries (txt "open-question") true
  validations : Comparable m entries (txt "validation") false

variable {m} {entries}

theorem sectionsOf_eq_ok {areas : List Area} :
    sectionsOf m entries = .ok areas ↔ Dated m entries ∧ areas = selectedAreas m entries := by
  simp only [sectionsOf, bind_eq_ok, entriesFor_eq_ok]
  constructor
  · rintro ⟨_, ⟨hdecisions, rfl⟩, _, ⟨hdeviations, rfl⟩, _, ⟨hquestions, rfl⟩, _,
      ⟨hvalidations, rfl⟩, h⟩
    exact ⟨⟨hdecisions, hdeviations, hquestions, hvalidations⟩, (Except.ok.inj h).symm⟩
  · rintro ⟨hdated, rfl⟩
    exact ⟨_, ⟨hdated.decisions, rfl⟩, _, ⟨hdated.deviations, rfl⟩, _, ⟨hdated.questions, rfl⟩, _,
      ⟨hdated.validations, rfl⟩, rfl⟩

theorem selectedEntryHashes_eq_ok {sel : Selection} {hashes : List Text} :
    selectedEntryHashes m sel = .ok hashes ↔ ∃ entries, notesEntries m sel = .ok entries ∧
      Dated m entries ∧
      hashes = ((selectedAreas m entries).flatMap Area.entries).map (entryHash m) := by
  simp only [selectedEntryHashes, bind_eq_ok, entriesFor_eq_ok]
  constructor
  · rintro ⟨entries, hnotes, _, ⟨hdecisions, rfl⟩, _, ⟨hdeviations, rfl⟩, _, ⟨hquestions, rfl⟩, _,
      ⟨hvalidations, rfl⟩, h⟩
    refine ⟨entries, hnotes, ⟨hdecisions, hdeviations, hquestions, hvalidations⟩, ?_⟩
    rw [← Except.ok.inj h]
    simp [selectedAreas]
  · rintro ⟨entries, hnotes, hdated, rfl⟩
    refine ⟨entries, hnotes, _, ⟨hdated.decisions, rfl⟩, _, ⟨hdated.deviations, rfl⟩, _,
      ⟨hdated.questions, rfl⟩, _, ⟨hdated.validations, rfl⟩, ?_⟩
    simp [selectedAreas, pure, Except.pure]

end Order

/-! ## What the text shows -/

section Context

variable (m : Machine) (sel : Selection) (b : Budget)

/-- The text has the lines of some of the entries selected, and the hashes are theirs. -/
def Traces (areas : List Area) (text : Text) (hashes : List Text) : Prop :=
  ∃ shown : List Shown, List.Forall₂ ShownOf areas shown ∧
    text = renderContextLines (header m sel) areas (shown.map Shown.lines) (source sel) ∧
    hashes = (shown.flatMap Shown.entries).map (entryHash m)

/-- The text is rendered within the budget, and the trace names the entries it shows. -/
def Shows : Prop :=
  ∃ entries areas text hashes, notesEntries m sel = .ok entries ∧
    sectionsOf m entries = .ok areas ∧
    renderImplementationContext m sel b = .ok text ∧ withinBudget b text = true ∧
    selectedEntryHashes m sel = .ok hashes ∧ Traces m sel areas text hashes

variable {m} {sel} {b}

/-- Texts that differ in the entries shown only show equally many. -/
theorem total_eq_of_text {areas : List Area} {shown shown' : List Shown}
    (h : List.Forall₂ ShownOf areas shown) (h' : List.Forall₂ ShownOf areas shown')
    (htext : renderContextLines (header m sel) areas (shown.map Shown.lines) (source sel) =
      renderContextLines (header m sel) areas (shown'.map Shown.lines) (source sel)) :
    total shown = total shown' := by
  have hcount := congrArg (fun t => t.count '\n' + 1) htext
  have hne : ∀ selected, contextLines (header m sel) areas selected (source sel) ≠ [] := by
    intro selected
    simp [contextLines]
  simp only [renderContextLines] at hcount
  rw [count_joinLines (hne _), count_joinLines (hne _)] at hcount
  change newlines _ = newlines _ at hcount
  simp only [contextLines, newlines_append, newlines_areas h, newlines_areas h'] at hcount
  omega

/-- If as many entries are shown as are selected, it is all of them. -/
theorem entries_of_total {areas : List Area} {shown : List Shown}
    (h : List.Forall₂ ShownOf areas shown)
    (htotal : total shown = (areas.map fun a => a.entries.length).sum) :
    shown.flatMap Shown.entries = areas.flatMap Area.entries := by
  induction h with
  | nil => rfl
  | @cons a l areas shown hhere hrest ih =>
      have hle := length_le_of_shownOf hhere
      have hbehind := total_le hrest
      simp only [total, List.map_cons, List.sum_cons] at htotal hbehind ih
      have heq : l.entries = a.entries :=
        hhere.1.eq_of_length (by simpa [Shown.entries] using show l.length = _ by omega)
      rw [List.flatMap_cons, List.flatMap_cons, heq, ih (by omega)]

theorem renderImplementationContext_eq_ok {entries : List ParsedEntry} {text : Text}
    (hnotes : notesEntries m sel = .ok entries) (hdated : Dated m entries) :
    renderImplementationContext m sel b = .ok text ↔
      text = renderContextLines (header m sel) (selectedAreas m entries)
        (placeAreas (fits m sel b (selectedAreas m entries)) [] (selectedAreas m entries))
        (source sel) := by
  have hareas : sectionsOf m entries = .ok (selectedAreas m entries) :=
    sectionsOf_eq_ok.2 ⟨hdated, rfl⟩
  rw [renderImplementationContext, hnotes]
  show (do
    let areas ← sectionsOf m entries
    return renderContextLines (header m sel) areas
      (placeAreas (fits m sel b areas) [] areas) (source sel)) = .ok text ↔ _
  rw [hareas]
  exact ⟨fun h => (Except.ok.inj h).symm, fun h => by rw [h]; rfl⟩

/-- **The context is within its budget and its trace exact** when the
timestamps compare, the text has room without the entries, and every entry
selected fits in one of its forms. -/
theorem renderImplementationContext_shows_iff (m : Machine) (sel : Selection) (b : Budget) :
    Shows m sel b ↔ ∃ entries, notesEntries m sel = .ok entries ∧ Dated m entries ∧
      fits m sel b (selectedAreas m entries) ((selectedAreas m entries).map fun _ => []) = true ∧
      FillsAll (fits m sel b (selectedAreas m entries)) [] (selectedAreas m entries) := by
  have hflat : ∀ shown : List Shown, (shown.flatMap Shown.entries).length = total shown := by
    intro shown
    simp [total, Shown.entries, List.length_flatMap]
  constructor
  · rintro ⟨entries, areas, text, hashes, hnotes, hareas, hrender, hbudget, hhashes, shown', hshown',
      htext, htrace⟩
    obtain ⟨hdated, rfl⟩ := sectionsOf_eq_ok.1 hareas
    obtain ⟨_, hnotes', -, hselected⟩ := selectedEntryHashes_eq_ok.1 hhashes
    obtain rfl := Except.ok.inj (hnotes.symm.trans hnotes')
    have hrun := (renderImplementationContext_eq_ok hnotes hdated).1 hrender
    obtain ⟨shown, hplace, hshown, -, hfills⟩ :=
      placeAreas_spec (fits m sel b (selectedAreas m entries)) [] (selectedAreas m entries)
    rw [hplace, List.nil_append] at hrun
    refine ⟨entries, hnotes, hdated, ?_, hfills.2 ?_⟩
    · rw [hrun] at hbudget
      exact withinBudget_of_sublist (sublist_contextLines _ _ hshown) (by simp [contextLines]) hbudget
    · have hsame := total_eq_of_text hshown hshown' (hrun.symm.trans htext)
      have hlen := congrArg List.length (hselected.symm.trans htrace)
      rw [List.length_map, List.length_map, hflat, List.length_flatMap] at hlen
      rw [hsame, ← hlen]
  · rintro ⟨entries, hnotes, hdated, hroom, hall⟩
    obtain ⟨shown, hplace, hshown, hfits, hfills⟩ :=
      placeAreas_spec (fits m sel b (selectedAreas m entries)) [] (selectedAreas m entries)
    rw [List.nil_append] at hplace hfits
    have hrender := (renderImplementationContext_eq_ok (b := b) hnotes hdated).2 rfl
    rw [hplace] at hrender
    refine ⟨entries, _, _, _, hnotes, sectionsOf_eq_ok.2 ⟨hdated, rfl⟩, hrender, ?_,
      selectedEntryHashes_eq_ok.2 ⟨entries, hnotes, hdated, rfl⟩, shown, hshown, rfl, ?_⟩
    · by_cases hzero : total shown = 0
      · rw [lines_of_total_eq_zero hshown hzero]
        exact hroom
      · exact hfits hzero
    · rw [entries_of_total hshown (hfills.1 hall)]

end Context

/-! ## A decision of an unknown time -/

/-- A tag of a document, with the call it becomes. -/
def tagged (tag : Text) (attrs : List (Text × Text)) : Text × Call :=
  (['<'] ++ tag ++ (attrs.flatMap fun a => [' '] ++ a.1 ++ ['=', '"'] ++ a.2 ++ ['"']) ++ ['>'],
    .startTag tag (attrs.map fun a => (a.1, some a.2)))

def closing (tag : Text) : Text × Call := (['<', '/'] ++ tag ++ ['>'], .endTag tag)

def anchored (name : Text) : Text × Call :=
  let comment := [' '] ++ anchorHead ++ name ++ anchorTail ++ [' ']
  (txt "<!--" ++ comment ++ txt "-->", .comment comment)

def rowOf (name value : Text) : List (Text × Call) :=
  [tagged (txt "dt") [], (name, .data name), closing (txt "dt"), tagged (txt "dd") [],
    (value, .data value), closing (txt "dd")]

def areaOf (category anchor : Text) (body : List (Text × Call)) : List (Text × Call) :=
  [tagged (txt "section") [(txt "data-entry-section", category)]] ++ body ++
    [anchored anchor, closing (txt "section")]

/-- A document with one decision, made `now`. -/
def undatedDocument : List (Text × Call) :=
  [tagged (txt "meta") [(txt "http-equiv", txt "content-security-policy"),
      (txt "content", txt "default-src 'none'; style-src 'unsafe-inline'")],
    tagged (txt "main") [(txt "data-implementation-notes", txt "true")]] ++
  areaOf (txt "decision") (txt "DECISION")
    ([tagged (txt "article") [(txt "class", txt "entry"), (txt "data-entry-kind", txt "decision")]] ++
      rowOf (txt "Timestamp") (txt "now") ++ rowOf (txt "Category") (txt "decision") ++
      rowOf (txt "Decision") (txt "ship") ++ rowOf (txt "Reason") (txt "ready") ++
      rowOf (txt "Impact") (txt "none") ++ rowOf (txt "Related files") (txt "none") ++
      rowOf (txt "Status") (txt "active") ++ [closing (txt "article")]) ++
  areaOf (txt "deviation") (txt "DEVIATION") [] ++ areaOf (txt "tradeoff") (txt "TRADEOFF") [] ++
  areaOf (txt "open-question") (txt "OPEN_QUESTION") [] ++
  areaOf (txt "validation") (txt "VALIDATION") [] ++ areaOf (txt "summary") (txt "SUMMARY") [] ++
  [closing (txt "main")]

def undatedMachine : Machine where
  env := .host ⟨[], rfl⟩
  lower := (Memory.Host.ascii id).lower
  tokenize _ := undatedDocument.map Prod.snd
  fromisoformat _ := none

def undatedSelection : Selection where
  planStem := txt "plan"
  plan := txt "# Plan"
  notesPath := txt "/r/.ralph/plans/plan-implementation-notes.html"
  notes := undatedDocument.flatMap Prod.fst

def undatedEntry : ParsedEntry where
  category := txt "decision"
  area := txt "decision"
  fields := [(txt "Timestamp", txt "now"), (txt "Category", txt "decision"),
    (txt "Decision", txt "ship"), (txt "Reason", txt "ready"), (txt "Impact", txt "none"),
    (txt "Related files", txt "none"), (txt "Status", txt "active")]

theorem undated_accepted : notesEntries undatedMachine undatedSelection = .ok [undatedEntry] := by
  have hred : undatedMachine.env.red undatedSelection.notes = false := by decide +kernel
  have hpass : Consolidated.ensureNotRed undatedMachine.env (txt "implementation notes file")
      undatedSelection.notes = .ok () := by
    rw [Consolidated.ensureNotRed, hred]
    rfl
  have hfeed : (feed undatedMachine.lower (undatedMachine.tokenize undatedSelection.notes)) =
      { NotesParser.empty with
        hasMain := true
        hasCsp := true
        sectionsOpened := categoryOrder.reverse
        anchorSections := (categoryOrder.map fun c => (c, c)).reverse
        entries := [undatedEntry] } := by
    decide +kernel
  rw [notesEntries, validNonInitialEntries, hpass]
  show Except.mapError _ (do
    let parser := feed undatedMachine.lower (undatedMachine.tokenize undatedSelection.notes)
    _) = _
  rw [hfeed]
  rfl

/-- A decision of an unknown time makes the rendering raise. -/
theorem renderImplementationContext_not_shows :
    renderImplementationContext undatedMachine undatedSelection .standard =
        .error .attributeError ∧
      ¬ ∀ m sel b, (∃ entries, notesEntries m sel = .ok entries) → Shows m sel b := by
  have hrender : renderImplementationContext undatedMachine undatedSelection .standard =
      .error .attributeError := by
    rw [renderImplementationContext, undated_accepted]
    decide +kernel
  refine ⟨hrender, fun h => ?_⟩
  obtain ⟨_, _, _, _, -, -, hok, -⟩ := h _ _ .standard ⟨_, undated_accepted⟩
  rw [hrender] at hok
  cases hok

end RalphVault.Plans.Notes
