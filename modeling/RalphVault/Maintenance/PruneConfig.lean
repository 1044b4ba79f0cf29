import RalphVault.AutoResearch.Scope
import RalphVault.Memory.RecallRoundTrip
import RalphVault.Security.Quiet
import RalphVault.Toml

/-!
# Maintenance — the project tables of `config.toml`

`prune_config` of `keep_codex_fast.py`: the tables of temporary and of missing
projects are dropped line by line.

The file is the text that `read_text` gives: without a byte order mark, its line
ends line feeds.
-/

namespace RalphVault.Maintenance

open Toml
open SessionStart (splitlines)

/-! ## The lines -/

/-- The alternatives of `TEMP_PROJECT_RE`, in lower case. -/
def tempFragments : List Text :=
  [txt "\\appdata\\local\\temp\\", txt "/appdata/local/temp/", txt "\\temp\\codex-",
    txt "/temp/codex-", txt "\\temp\\spark-", txt "/temp/spark-"]

/-- `TEMP_PROJECT_RE.search`. -/
def isTemporary (path : Text) : Bool := Security.withFragment tempFragments (path.map foldCase)

/-- `PROJECT_HEADER_RE.match`: the second group. The greedy `.+` ends at the last
quote, behind which stand a bracket and white space only. -/
def projectPath (line : Text) : Option Text :=
  match afterPrefix (txt "[projects.") (rstrip line) with
  | some (q :: t) =>
      if (q = '"' ∨ q = '\'') ∧ [q, ']'] <:+ t ∧ 2 < t.length then some (t.take (t.length - 2))
      else none
  | _ => none

def bracketed (line : Text) : Bool := startsWith ['['] line

section Prune

variable (present : Text → Bool)

/-- `should_remove`, where `present` is `Path(path).exists()`. -/
def shouldRemove (path : Text) : Bool := isTemporary path || !present path

/-- The loop over the lines: what is kept, and the paths that are removed.
`removing` says that the lines belong to the block of a project to remove. -/
def pruneLines (removing : Bool) : List Text → List Text × List Text
  | [] => ([], [])
  | line :: rest =>
      match projectPath line with
      | some path =>
          let (out, removed) := pruneLines (shouldRemove present path) rest
          if shouldRemove present path then (out, path :: removed) else (line :: out, removed)
      | none =>
          -- a block ends in front of the next bracket
          if removing && !bracketed line then pruneLines true rest
          else
            let (out, removed) := pruneLines false rest
            (line :: out, removed)

/-- What a run leaves: the file, the list of the projects among the backups, and
the report. -/
structure PruneResult where
  config : Option Text
  prunedProjects : Option Text
  report : List Text

/-- `"\n".join(texts) + "\n"` -/
def textOf (texts : List Text) : Text := joinWith ['\n'] texts ++ ['\n']

def candidatesReport (n : Nat) : Text := txt "config_prune_candidates " ++ decimalText n

/-- `prune_config`. -/
def pruneConfig (config : Option Text) (apply writeArtifacts : Bool) : PruneResult :=
  match config with
  | none => ⟨none, none, [candidatesReport 0]⟩
  | some text =>
      let (out, removed) := pruneLines present false (splitlines text)
      let pruned := apply && !removed.isEmpty
      { config := some (if pruned then textOf out else text)
        prunedProjects :=
          if writeArtifacts then some (if removed.isEmpty then [] else textOf removed) else none
        report := [candidatesReport removed.length] ++
          if pruned then [txt "config_pruned applied"] else [] }

/-! ## What is removed -/

/-- The line is removed, if `removing` says so of the one before. -/
def removes (removing : Bool) (line : Text) : Bool :=
  match projectPath line with
  | some path => shouldRemove present path
  | none => removing && !bracketed line

/-- A place below the table of a temporary or missing project. -/
def isStale : Path → Bool
  | .key k :: .key path :: _ => k == txt "projects" && shouldRemove present path
  | _ => false

/-- What the run makes of the lines of a statement, and what it defines. -/
structure Reading where
  removed : List Bool
  entry : Option Entry

/-- The lines of a group: whether each is removed. -/
def marks (removing : Bool) : List Text → List Bool
  | [] => []
  | line :: rest => removes present removing line :: marks (removes present removing line) rest

/-- The readings of the groups of lines with their statements. -/
def readings (removing : Bool) (c : Context) : List (List Text × Statement) → List Reading
  | [] => []
  | (g, s) :: rest =>
      ⟨marks present removing g, (c.read s).2⟩ ::
        readings (g.foldl (removes present) removing) (c.read s).1 rest

/-- The run takes the lines of a statement for what they are: all of them are
removed and it defines something of a stale project, or none is and it does not. -/
def Reading.Right (r : Reading) : Prop :=
  ((∀ b ∈ r.removed, b = true) ∧ ∀ e ∈ r.entry, isStale present e.path = true) ∨
    ((∀ b ∈ r.removed, b = false) ∧ ∀ e ∈ r.entry, isStale present e.path = false ∧
      ∀ place ∈ e.places, isStale present place.1 = false)

instance (r : Reading) : Decidable (r.Right present) := inferInstanceAs (Decidable (_ ∨ _))

/-- The table of the projects. -/
def projectsTable : Path × Leaf := ([.key (txt "projects")], .table)

/-- There is nothing to remove, in the lines and in the document. -/
structure Untouched (scalar : Scalar) (text : Text) : Prop where
  clean : ∀ line ∈ splitlines text, ∀ path ∈ projectPath line, shouldRemove present path = false
  places : ∀ es ∈ parse scalar (lines text), ∀ e ∈ es, ∀ place ∈ e.places,
    isStale present place.1 = false

/-- The lines of the stale projects are those that are removed. -/
structure Separable (scalar : Scalar) (text : Text) : Prop where
  /-- Lines end with line feeds only. -/
  feeds : ∀ c ∈ text, isLineBoundary c = true → c = '\n'
  /-- Each statement is removed as a whole, and if it is of a stale project. -/
  right : ∀ ss ∈ (groups (lines text)).mapM (readGroup scalar),
    ∀ r ∈ readings present false .top ((groups (lines text)).zip ss), r.Right present
  /-- Something else stays in the table of the projects, if something is removed. -/
  anchored : ∀ es ∈ parse scalar (lines text), (∃ e ∈ es, isStale present e.path = true) →
    projectsTable ∈ tree (es.filter fun e => !isStale present e.path)

/-- The file behind a run with `apply`. -/
def pruned (text : Text) : Text := ((pruneConfig present (some text) true true).config).getD []

/-- A run changes the document to the one without the stale projects, and the
next one removes nothing. -/
structure Exact (scalar : Scalar) (text : Text) (es : List Entry) : Prop where
  parsed : ∃ es', parse scalar (lines (pruned present text)) = some es' ∧
    ∀ node, node ∈ tree es' ↔ node ∈ tree es ∧ isStale present node.1 = false
  again : (pruneLines present false (splitlines (pruned present text))).2 = []

variable {present}

/-! ## The loop -/

/-- A line of a list that marks leave. -/
def unmarked (ls : List Text) (bs : List Bool) : List Text :=
  ((ls.zip bs).filter fun l => !l.2).map Prod.fst

theorem unmarked_cons (l : Text) (ls : List Text) (b : Bool) (bs : List Bool) :
    unmarked (l :: ls) (b :: bs) = (if b then [] else [l]) ++ unmarked ls bs := by
  cases b <;> simp [unmarked]

theorem removes_of_header {removing : Bool} {line path : Text} (h : projectPath line = some path) :
    removes present removing line = shouldRemove present path := by
  rw [removes, h]

theorem removes_of_other {removing : Bool} {line : Text} (h : projectPath line = none) :
    removes present removing line = (removing && !bracketed line) := by
  rw [removes, h]

/-- The loop keeps the lines that are not marked. -/
theorem pruneLines_kept (removing : Bool) (ls : List Text) :
    (pruneLines present removing ls).1 = unmarked ls (marks present removing ls) := by
  induction ls generalizing removing with
  | nil => rfl
  | cons line ls ih =>
      rw [pruneLines, marks, unmarked_cons]
      cases hpath : projectPath line with
      | some path =>
          rw [removes_of_header hpath]
          dsimp only
          rw [← ih]
          split <;> rfl
      | none =>
          rw [removes_of_other hpath]
          dsimp only
          rw [← ih]
          cases hbranch : removing && !bracketed line <;> rfl

/-- The loop removes what a header names that it should remove. -/
theorem pruneLines_removed (removing : Bool) (ls : List Text) :
    (pruneLines present removing ls).2 = [] ↔
      ∀ line ∈ ls, ∀ path ∈ projectPath line, shouldRemove present path = false := by
  induction ls generalizing removing with
  | nil => simp [pruneLines]
  | cons line ls ih =>
      rw [pruneLines, List.forall_mem_cons]
      cases hpath : projectPath line with
      | some path =>
          dsimp only
          split
          · rename_i hremove
            simp [hremove]
          · rename_i hkeep
            rw [ih]
            simp [hkeep]
      | none =>
          dsimp only
          split
          · rw [ih]
            simp
          · rw [ih]
            simp

/-- What is kept has no header of a project to remove. -/
theorem pruneLines_clean (removing : Bool) (ls : List Text) :
    ∀ line ∈ (pruneLines present removing ls).1, ∀ path ∈ projectPath line,
      shouldRemove present path = false := by
  induction ls generalizing removing with
  | nil => simp [pruneLines]
  | cons line ls ih =>
      rw [pruneLines]
      cases hpath : projectPath line with
      | some path =>
          dsimp only
          split
          · exact ih _
          · rename_i hkeep
            refine List.forall_mem_cons.2 ⟨?_, ih _⟩
            intro path' hpath'
            obtain rfl : path = path' := Option.some.inj (hpath.symm.trans hpath')
            simpa using hkeep
      | none =>
          dsimp only
          split
          · exact ih _
          · refine List.forall_mem_cons.2 ⟨?_, ih _⟩
            intro path hpath'
            rw [hpath] at hpath'
            cases hpath'

/-! ## The groups of the lines -/

theorem marks_append (removing : Bool) (ls ls' : List Text) :
    marks present removing (ls ++ ls') =
      marks present removing ls ++ marks present (ls.foldl (removes present) removing) ls' := by
  induction ls generalizing removing with
  | nil => rfl
  | cons l ls ih => rw [List.cons_append, marks, ih, marks, List.foldl_cons, List.cons_append]

theorem length_marks (removing : Bool) (ls : List Text) :
    (marks present removing ls).length = ls.length := by
  induction ls generalizing removing with
  | nil => rfl
  | cons l ls ih => rw [marks, List.length_cons, ih, List.length_cons]

/-- The state behind lines of one mark. -/
theorem foldl_removes {d : Bool} {removing : Bool} {ls : List Text} (hne : ls ≠ [])
    (h : ∀ b ∈ marks present removing ls, b = d) :
    ls.foldl (removes present) removing = d := by
  induction ls generalizing removing with
  | nil => exact absurd rfl hne
  | cons l ls ih =>
      rw [marks, List.forall_mem_cons] at h
      rw [List.foldl_cons]
      by_cases hnil : ls = []
      · rw [hnil]
        exact h.1
      · exact ih hnil h.2

variable (present) in
/-- The groups, and whether they are removed. -/
def labelled (removing : Bool) : List (List Text) → List (List Text × Bool)
  | [] => []
  | g :: gs =>
      (g, (marks present removing g).all id) ::
        labelled (g.foldl (removes present) removing) gs

variable (present) in
/-- Each group is removed or kept. -/
def Uncut (removing : Bool) : List (List Text) → Prop
  | [] => True
  | g :: gs => (∃ d, ∀ b ∈ marks present removing g, b = d) ∧
      Uncut (g.foldl (removes present) removing) gs

theorem unmarked_all {ls : List Text} {bs : List Bool} {d : Bool} (hlen : bs.length = ls.length)
    (h : ∀ b ∈ bs, b = d) : unmarked ls bs = if d then [] else ls := by
  induction ls generalizing bs with
  | nil =>
      cases d <;> simp [unmarked]
  | cons l ls ih =>
      cases bs with
      | nil => cases hlen
      | cons b bs =>
          obtain ⟨rfl, hrest⟩ := List.forall_mem_cons.1 h
          rw [unmarked_cons, ih (by simpa using hlen) hrest]
          cases b <;> rfl

theorem unmarked_append {ls ls' : List Text} {bs bs' : List Bool} (h : bs.length = ls.length) :
    unmarked (ls ++ ls') (bs ++ bs') = unmarked ls bs ++ unmarked ls' bs' := by
  rw [unmarked, List.zip_append h.symm, List.filter_append, List.map_append]
  rfl

theorem labelled_groups (removing : Bool) (gs : List (List Text)) :
    (labelled present removing gs).map Prod.fst = gs := by
  induction gs generalizing removing with
  | nil => rfl
  | cons g gs ih => rw [labelled, List.map_cons, ih]

theorem all_of_marks {g : List Text} {removing d : Bool} (hne : g ≠ [])
    (h : ∀ b ∈ marks present removing g, b = d) : (marks present removing g).all id = d := by
  obtain ⟨l, g, rfl⟩ := List.exists_cons_of_ne_nil hne
  rw [marks] at h ⊢
  cases d with
  | true =>
      rw [List.all_eq_true]
      exact fun b hb => h b hb
  | false =>
      rw [List.all_eq_false]
      exact ⟨_, List.mem_cons_self, by simp [h _ List.mem_cons_self]⟩

/-- The lines kept are those of the groups kept. -/
theorem unmarked_flatten {removing : Bool} {gs : List (List Text)} (hne : ∀ g ∈ gs, g ≠ [])
    (h : Uncut present removing gs) : unmarked gs.flatten (marks present removing gs.flatten) =
      (((labelled present removing gs).filter fun g => !g.2).map Prod.fst).flatten := by
  induction gs generalizing removing with
  | nil => rfl
  | cons g gs ih =>
      obtain ⟨⟨d, hd⟩, hrest⟩ := h
      obtain ⟨hg, hgs⟩ := List.forall_mem_cons.1 hne
      rw [List.flatten_cons, marks_append, unmarked_append (length_marks _ _), labelled,
        all_of_marks hg hd, unmarked_all (length_marks _ _) hd, ih hgs hrest]
      cases d with
      | true => rfl
      | false => rfl

/-- Behind a block that is removed the file goes on with a bracket. -/
theorem bracketed_of_kept {line : Text} (h : removes present true line = false) :
    bracketed line = true := by
  cases hpath : projectPath line with
  | some path =>
      rw [projectPath] at hpath
      split at hpath
      · rename_i q t hafter
        rw [afterPrefix] at hafter
        split at hafter
        · rename_i hstart
          obtain ⟨u, hu⟩ := List.isPrefixOf_iff_prefix.1 hstart
          obtain ⟨v, hv⟩ := rstrip_isPrefix line
          rw [← hv, ← hu]
          rfl
        · cases hafter
      · cases hpath
  | none =>
      rw [removes_of_other hpath] at h
      simpa using h

theorem isHeader_of_bracket {scalar : Scalar} {t : Text} {s : Statement}
    (h : readStatement scalar ('[' :: t) = some s) : s.isHeader = true := by
  rw [readStatement.eq_def] at h
  split at h
  · rename_i u heq
    obtain ⟨⟨ks, v⟩, -, h⟩ := Option.bind_eq_some_iff.1 h
    dsimp only at h
    split at h
    · split at h
      · cases h
        rfl
      · cases h
    · cases h
  · obtain ⟨⟨ks, v⟩, -, h⟩ := Option.bind_eq_some_iff.1 h
    dsimp only at h
    split at h
    · split at h
      · cases h
        rfl
      · cases h
    · cases h
  · rename_i hno
    exact absurd rfl (hno t)

theorem isHeader_of_kept {scalar : Scalar} {line : Text} {g : List Text} {s : Statement}
    (hkept : removes present true line = false) (h : readGroup scalar (line :: g) = some s) :
    s.isHeader = true := by
  obtain ⟨t, ht⟩ := List.isPrefixOf_iff_prefix.1 (bracketed_of_kept hkept)
  rw [readGroup] at h
  have hstart : ∃ u, skipWs (joinWith ['\n'] (line :: g)) = '[' :: u := by
    rw [← ht]
    cases g with
    | nil => exact ⟨t, rfl⟩
    | cons next g => exact ⟨_, rfl⟩
  obtain ⟨u, hu⟩ := hstart
  rw [hu] at h
  exact isHeader_of_bracket h

theorem isStale_hiding : Hiding (isStale present) where
  below := by
    intro p q h
    match p, h with
    | .key k :: .key path :: rest, h => exact h
  item := by
    intro p n h
    match p, h with
    | .key k :: .key path :: rest, h => exact h

/-- The statements of the groups, with what the run makes of them. -/
theorem drops_of_right {scalar : Scalar} {gs : List (List Text)} {ss : List Statement}
    {removing : Bool} {c : Context} (hne : ∀ g ∈ gs, g ≠ [])
    (hread : gs.mapM (readGroup scalar) = some ss)
    (h : ∀ r ∈ readings present removing c (gs.zip ss), r.Right present) :
    Drops (isStale present) removing c
        (ss.zip ((labelled present removing gs).map Prod.snd)) ∧
      Uncut present removing gs := by
  induction gs generalizing ss removing c with
  | nil =>
      cases hread
      exact ⟨trivial, trivial⟩
  | cons g gs ih =>
      rw [List.mapM_cons] at hread
      obtain ⟨s, hs, hread⟩ := Option.bind_eq_some_iff.1 hread
      obtain ⟨rest, hrest, heq⟩ := Option.bind_eq_some_iff.1 hread
      cases heq
      rw [List.zip_cons_cons, readings, List.forall_mem_cons] at h
      obtain ⟨hg, hgs⟩ := List.forall_mem_cons.1 hne
      obtain ⟨hdrops, huncut⟩ := ih hgs hrest h.2
      obtain ⟨line, lines, rfl⟩ := List.exists_cons_of_ne_nil hg
      rcases h.1 with ⟨hmarks, hentry⟩ | ⟨hmarks, hentry⟩
      · refine ⟨⟨fun _ => hentry, fun hno => ?_, ?_⟩, ⟨true, hmarks⟩, huncut⟩
        · rw [all_of_marks hg hmarks] at hno
          cases hno
        · rw [all_of_marks hg hmarks]
          rw [foldl_removes hg hmarks] at hdrops
          rw [foldl_removes hg hmarks]
          exact hdrops
      · refine ⟨⟨fun hyes => ?_, fun _ => ⟨fun e he => (hentry e he).1, ?_⟩, ?_⟩, ⟨false, hmarks⟩,
          huncut⟩
        · rw [all_of_marks hg hmarks] at hyes
          cases hyes
        · rintro rfl
          rw [marks, List.forall_mem_cons] at hmarks
          exact isHeader_of_kept hmarks.1 hs
        · rw [all_of_marks hg hmarks]
          rw [foldl_removes hg hmarks] at hdrops
          rw [foldl_removes hg hmarks]
          exact hdrops

/-! ## The file -/

theorem splitlines_eq_lines {t : Text} (h : ∀ c ∈ t, isLineBoundary c = true → c = '\n') :
    splitlines t = lines t := by
  induction t with
  | nil => rfl
  | cons c t ih =>
      obtain ⟨hc, ht⟩ := List.forall_mem_cons.1 h
      by_cases hfeed : c = '\n'
      · rw [hfeed, AutoResearch.splitlines_feed_nil, lines, if_pos rfl, ih ht]
      · have hplain : isLineBoundary c = false := by
          by_contra hboundary
          exact hfeed (hc (by simpa using hboundary))
        rw [lines, if_neg hfeed, ← ih ht]
        exact AutoResearch.splitlines_cons hplain t

theorem lines_line {l : Text} (h : '\n' ∉ l) (t : Text) : lines (l ++ '\n' :: t) = l :: lines t := by
  induction l with
  | nil => rw [List.nil_append, lines, if_pos rfl]
  | cons c l ih =>
      obtain ⟨hc, hl⟩ := List.ne_and_not_mem_of_not_mem_cons h
      rw [List.cons_append, lines, if_neg (Ne.symm hc), ih hl]

theorem textOf_cons (l l' : Text) (ls : List Text) :
    textOf (l :: l' :: ls) = l ++ '\n' :: textOf (l' :: ls) := by
  simp [textOf, joinWith]

/-- The lines written are read again; without lines there is an empty one. -/
theorem lines_textOf {ls : List Text} (h : ∀ l ∈ ls, RecallText.Unbroken l) :
    splitlines (textOf ls) = (if ls = [] then [[]] else ls) ∧
      lines (textOf ls) = if ls = [] then [[]] else ls := by
  induction ls with
  | nil => exact ⟨rfl, rfl⟩
  | cons l ls ih =>
      obtain ⟨hl, hls⟩ := List.forall_mem_cons.1 h
      have hfeed : '\n' ∉ l := fun hmem => by
        have hboundary := hl _ hmem
        exact absurd hboundary (by decide)
      rw [if_neg (List.cons_ne_nil l ls)]
      cases ls with
      | nil =>
          have htext : textOf [l] = l ++ ['\n'] := by simp [textOf, joinWith]
          rw [htext, AutoResearch.splitlines_line hl, lines_line hfeed]
          exact ⟨rfl, rfl⟩
      | cons l' ls =>
          obtain ⟨hsplit, hlines⟩ := ih hls
          rw [if_neg (List.cons_ne_nil l' ls)] at hsplit hlines
          rw [textOf_cons, AutoResearch.splitlines_line hl, lines_line hfeed, hsplit, hlines]
          exact ⟨rfl, rfl⟩

theorem parse_blank (scalar : Scalar) : parse scalar [[]] = parse scalar [] := rfl

theorem unbroken_kept (text : Text) :
    ∀ l ∈ (pruneLines present false (splitlines text)).1, RecallText.Unbroken l := by
  intro l hl
  rw [pruneLines_kept] at hl
  obtain ⟨pair, hpair, rfl⟩ := List.mem_map.1 hl
  exact RecallText.unbroken_of_mem_splitlines (List.of_mem_zip (List.mem_filter.1 hpair).1).1

/-- The file behind a run. -/
theorem pruned_eq (text : Text) : pruned present text =
    if (pruneLines present false (splitlines text)).2 = [] then text
      else textOf (pruneLines present false (splitlines text)).1 := by
  rw [pruned, pruneConfig]
  obtain ⟨out, removed⟩ := pruneLines present false (splitlines text)
  cases removed <;> rfl

/-- **Another run removes nothing.** -/
theorem pruneLines_pruned (text : Text) :
    (pruneLines present false (splitlines (pruned present text))).2 = [] := by
  rw [pruned_eq]
  split
  · assumption
  · rw [pruneLines_removed, (lines_textOf (unbroken_kept text)).1]
    split
    · intro line hline path hpath
      obtain rfl := List.mem_singleton.1 hline
      cases hpath
    · exact pruneLines_clean false (splitlines text)

theorem marks_of_clean {removing : Bool} {ls : List Text}
    (h : ∀ line ∈ ls, ∀ path ∈ projectPath line, shouldRemove present path = false)
    (hremoving : removing = false) : ∀ b ∈ marks present removing ls, b = false := by
  subst hremoving
  induction ls with
  | nil => simp [marks]
  | cons line ls ih =>
      obtain ⟨hline, hls⟩ := List.forall_mem_cons.1 h
      have hkept : removes present false line = false := by
        cases hpath : projectPath line with
        | some path => rw [removes_of_header hpath, hline path hpath]
        | none => rw [removes_of_other hpath, Bool.false_and]
      rw [marks, hkept]
      exact List.forall_mem_cons.2 ⟨rfl, ih hls⟩

/-- The document written is that of the lines kept. -/
theorem parse_pruned {scalar : Scalar} {text : Text} (h : splitlines text = lines text) :
    parse scalar (lines (pruned present text)) =
      parse scalar (pruneLines present false (splitlines text)).1 := by
  rw [pruned_eq]
  split
  · rename_i hnone
    rw [pruneLines_kept, unmarked_all (length_marks _ _)
      (marks_of_clean ((pruneLines_removed false _).1 hnone) rfl), h]
    rfl
  · rw [(lines_textOf (unbroken_kept text)).2]
    split
    · rename_i hnil
      rw [hnil, parse_blank]
    · rfl

/-! ## Exact runs -/

theorem Untouched.exact {scalar : Scalar} {text : Text} {es : List Entry}
    (h : Untouched present scalar text) (hes : parse scalar (lines text) = some es) :
    Exact present scalar text es := by
  refine ⟨⟨es, ?_, fun node => ?_⟩, pruneLines_pruned text⟩
  · rw [pruned_eq, if_pos ((pruneLines_removed false _).2 h.clean), hes]
  · refine ⟨fun hnode => ⟨hnode, ?_⟩, fun hnode => hnode.1⟩
    obtain ⟨e, he, hnode⟩ := List.mem_flatMap.1 hnode
    obtain ⟨place, hplace, hnode⟩ := List.mem_flatMap.1 hnode
    exact isStale_hiding.of_prefix (around_extends hnode) (h.places es hes e he place hplace)

/-- Around the places of a stale project is the table of the projects only. -/
theorem eq_projectsTable {e : Entry} (h : isStale present e.path = true) {place node : Path × Leaf}
    (hplace : place ∈ e.places) (hnode : node ∈ around [] place.1 place.2)
    (hshown : isStale present node.1 = false) : node = projectsTable := by
  obtain ⟨rel, -, rfl⟩ := List.mem_map.1 hplace
  match hpath : e.path, h with
  | .key k :: .key path :: rest, h =>
      rw [hpath] at hnode
      have hkey : k = txt "projects" := by
        have := (Bool.and_eq_true_iff.1 h).1
        simpa using this
      rcases List.mem_cons.1 hnode with rfl | hdeep
      · rw [hkey]
        rfl
      · obtain ⟨more, hmore⟩ := around_start hdeep
        have hstale : isStale present ([] ++ [.key k] ++ .key path :: more) = true := h
        rw [hmore, hstale] at hshown
        cases hshown

/-- An entry is of a stale project, or no place of it is. -/
theorem entry_of_right {scalar : Scalar} {gs : List (List Text)} {ss : List Statement}
    {removing : Bool} {c : Context} (hread : gs.mapM (readGroup scalar) = some ss)
    (h : ∀ r ∈ readings present removing c (gs.zip ss), r.Right present) {e : Entry}
    (he : e ∈ entriesFrom c ss) :
    isStale present e.path = true ∨ ∀ place ∈ e.places, isStale present place.1 = false := by
  induction gs generalizing ss removing c with
  | nil =>
      cases hread
      cases he
  | cons g gs ih =>
      rw [List.mapM_cons] at hread
      obtain ⟨s, -, hread⟩ := Option.bind_eq_some_iff.1 hread
      obtain ⟨rest, hrest, heq⟩ := Option.bind_eq_some_iff.1 hread
      cases heq
      rw [List.zip_cons_cons, readings, List.forall_mem_cons] at h
      rw [entriesFrom, List.mem_append, Option.mem_toList] at he
      rcases he with he | he
      · rcases h.1 with ⟨-, hstale⟩ | ⟨-, hshown⟩
        · exact .inl (hstale e he)
        · exact .inr (hshown e he).2
      · exact ih hrest h.2 he

theorem Separable.exact {scalar : Scalar} {text : Text} {es : List Entry}
    (h : Separable present scalar text) (hes : parse scalar (lines text) = some es) :
    Exact present scalar text es := by
  have hsame := splitlines_eq_lines h.feeds
  obtain ⟨ss, hss, hparse⟩ := Option.bind_eq_some_iff.1 hes
  obtain ⟨hconsistent, rfl⟩ : Consistent (entriesFrom .top ss) ∧ entriesFrom .top ss = es := by
    dsimp only at hparse
    split at hparse
    · rename_i hconsistent
      exact ⟨hconsistent, Option.some.inj hparse⟩
    · cases hparse
  have hright := h.right ss hss
  have hne : ∀ g ∈ groups (lines text), g ≠ [] := (groups_grouped _).ne_nil
  obtain ⟨hdrops, huncut⟩ := drops_of_right hne hss hright
  have hkept : (pruneLines present false (splitlines text)).1 =
      (((labelled present false (groups (lines text))).filter fun g => !g.2).map
        Prod.fst).flatten := by
    rw [pruneLines_kept, hsame, ← unmarked_flatten hne huncut, flatten_groups]
  refine ⟨⟨(entriesFrom .top ss).filter fun e => !isStale present e.path, ?_, ?_⟩,
    pruneLines_pruned text⟩
  · rw [parse_pruned hsame, hkept]
    exact parse_drops isStale_hiding (labelled_groups _ _) hss hdrops hconsistent
  · intro node
    refine tree_filter isStale_hiding ?_ ?_ node
    · exact fun e he hshown => (entry_of_right hss hright he).resolve_left
        (by simp [hshown])
    · intro e he hstale place hplace node hnode hshown
      rw [eq_projectsTable hstale hplace hnode hshown]
      exact h.anchored _ hes ⟨e, he, hstale⟩

end Prune

/-- Reads the booleans. -/
def booleans : Scalar := fun t =>
  if startsWith (txt "true") t then some (txt "true", t.drop 4)
  else if startsWith (txt "false") t then some (txt "false", t.drop 5)
  else none

def onlyHere (path : Text) : Bool := path == txt "/here"

def twoProjects : Text :=
  txt "# kept\n[projects.\"/gone\"]\ntrust_level = \"trusted\"\n\n[projects.\"/here\"]\ntrust_level = \"trusted\"\n"

/-- A table inside of a stale project. -/
def nestedTable : Text :=
  txt "[projects.\"/gone\"]\ntrust_level = \"trusted\"\n[projects.\"/gone\".env]\nshell = \"sh\"\n[projects.\"/here\"]\n"

end RalphVault.Maintenance
