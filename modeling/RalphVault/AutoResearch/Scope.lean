import RalphVault.AutoResearch.Packets
import RalphVault.Utf8Cut
import RalphVault.Advisor.Payload

/-!
# AutoResearch — scope

Whether a kept change stays below the commit paths. The gate reads two name
listings of git, so a path that neither prints is not seen (an untracked file,
the old name of a rename), and it strips dots and slashes from the names it
compares, so a hidden directory or a parent reference can pass for a plain one.
-/

namespace RalphVault.AutoResearch

open Memory
open SessionStart (splitlines)

/-! ## Lines of a stripped output -/

/-- The stripped lines of a text that are not blank. -/
def items (t : Text) : List Text := ((splitlines t).map strip).filter (!·.isEmpty)

theorem isSpace_of_lineBoundary {c : Char} (h : isLineBoundary c = true) : isSpace c = true := by
  unfold isLineBoundary at h
  unfold isSpace
  simp only [Bool.or_eq_true, Bool.and_eq_true, decide_eq_true_eq, beq_iff_eq] at h ⊢
  omega

theorem splitlines_cons {c : Char} (h : isLineBoundary c = false) (t : Text) :
    splitlines (c :: t) = match splitlines t with
      | [] => [[c]]
      | line :: lines => (c :: line) :: lines := by
  have hc : c ≠ '\r' := by
    rintro rfl
    revert h
    decide
  refine ((SessionStart.splitlines.eq_3 c t fun u hr => absurd hr hc).trans (if_neg (by simp [h]))).trans ?_
  cases splitlines t <;> rfl

theorem strip_cons_space {c : Char} (h : isSpace c = true) (t : Text) : strip (c :: t) = strip t := by
  simp [strip, lstrip, h]

theorem strip_of_blank {b : Text} (h : ∀ c ∈ b, isSpace c = true) : strip b = [] := by
  have hnil : lstrip b = [] := List.dropWhile_eq_nil_iff.mpr h
  rw [strip, hnil]
  rfl

theorem strip_append_space {t b : Text} (h : ∀ c ∈ b, isSpace c = true) : strip (t ++ b) = strip t := by
  unfold strip lstrip
  rw [List.dropWhile_append]
  split
  · rename_i hempty
    have hb : b.dropWhile isSpace = [] := List.dropWhile_eq_nil_iff.mpr h
    rw [hb, List.isEmpty_iff.mp hempty]
  · exact rstrip_append_blank h

/-- Space in front of a text makes no item. -/
theorem items_cons_space {c : Char} (h : isSpace c = true) (t : Text) : items (c :: t) = items t := by
  unfold items
  by_cases hboundary : isLineBoundary c = true
  · by_cases hfeed : c = '\r' ∧ ∃ u, t = '\n' :: u
    · obtain ⟨rfl, u, rfl⟩ := hfeed
      have hn : splitlines ('\n' :: u) = [] :: splitlines u := by
        rw [splitlines, if_pos (by decide)]
        rintro t ⟨⟩
      rw [hn]
      rfl
    · rw [splitlines, if_pos hboundary]
      · rfl
      · rintro u rfl rfl
        exact hfeed ⟨rfl, u, rfl⟩
  · rw [splitlines_cons (by simpa using hboundary)]
    cases splitlines t with
    | nil => simp [strip_cons_space h, strip_of_blank]
    | cons line lines => simp [strip_cons_space h]

theorem items_lstrip (t : Text) : items (lstrip t) = items t := by
  induction t with
  | nil => rfl
  | cons c t ih =>
      by_cases h : isSpace c = true
      · rw [items_cons_space h, ← ih]
        simp [lstrip, h]
      · simp [lstrip, h]

/-- The lines of a text with space added behind it: the last line is longer,
or there is a further blank one. -/
inductive Trailing : List Text → List Text → Prop where
  | refl (ls : List Text) : Trailing ls ls
  | added {b : Text} (h : ∀ c ∈ b, isSpace c = true) : Trailing [] [b]
  | longer {l b : Text} (h : ∀ c ∈ b, isSpace c = true) : Trailing [l] [l ++ b]
  | cons {l : Text} {ls ms : List Text} (h : Trailing ls ms) : Trailing (l :: ls) (l :: ms)

theorem Trailing.items {ls ms : List Text} (h : Trailing ls ms) :
    (ms.map strip).filter (!·.isEmpty) = (ls.map strip).filter (!·.isEmpty) := by
  induction h with
  | refl ls => rfl
  | added h => simp [strip_of_blank h]
  | longer h => simp [strip_append_space h]
  | cons h ih => simp only [List.map_cons, List.filter_cons, ih]

theorem trailing_splitlines {c : Char} (h : isSpace c = true) (t : Text) :
    Trailing (splitlines t) (splitlines (t ++ [c])) := by
  have hc : ∀ d ∈ [c], isSpace d = true := by
    intro d hd
    obtain rfl := List.mem_singleton.mp hd
    exact h
  induction t using SessionStart.splitlines.induct with
  | case1 =>
      rw [List.nil_append]
      by_cases hboundary : isLineBoundary c = true
      · have hline : splitlines [c] = [[]] := by
          rw [splitlines, if_pos hboundary]
          · rfl
          · rintro u - ⟨⟩
        rw [hline]
        exact .added (by simp)
      · rw [splitlines_cons (by simpa using hboundary)]
        exact .added hc
  | case2 t ih => exact .cons ih
  | case3 a t hnot hboundary ih =>
      by_cases hfeed : a = '\r' ∧ t = [] ∧ c = '\n'
      · obtain ⟨rfl, rfl, rfl⟩ := hfeed
        exact .refl [[]]
      · rw [splitlines, if_pos hboundary, List.cons_append, splitlines, if_pos hboundary]
        · exact .cons ih
        · rintro u rfl hu
          cases t with
          | nil =>
              rw [List.nil_append, List.cons.injEq] at hu
              exact hfeed ⟨rfl, rfl, hu.1⟩
          | cons b t =>
              rw [List.cons_append, List.cons.injEq] at hu
              exact hnot t rfl (by rw [hu.1])
        · exact hnot
  | case4 a t hnot hboundary hnil ih =>
      have ha : isLineBoundary a = false := by simpa using hboundary
      rw [List.cons_append, splitlines_cons ha, splitlines_cons ha, hnil]
      rw [hnil] at ih
      generalize splitlines (t ++ [c]) = after at ih
      cases ih with
      | refl => exact .refl _
      | added hb => exact Trailing.longer hb
  | case5 a t hnot hboundary line lines hlines ih =>
      have ha : isLineBoundary a = false := by simpa using hboundary
      rw [List.cons_append, splitlines_cons ha, splitlines_cons ha, hlines]
      rw [hlines] at ih
      generalize splitlines (t ++ [c]) = after at ih
      cases ih with
      | refl => exact .refl _
      | longer hb => exact Trailing.longer hb
      | cons hrest => exact .cons hrest

theorem items_append_space {c : Char} (h : isSpace c = true) (t : Text) :
    items (t ++ [c]) = items t :=
  (trailing_splitlines h t).items

theorem items_append_blank {t b : Text} (h : ∀ c ∈ b, isSpace c = true) :
    items (t ++ b) = items t := by
  induction b generalizing t with
  | nil => rw [List.append_nil]
  | cons c b ih =>
      rw [← List.singleton_append, ← List.append_assoc, ih fun d hd => h d (List.mem_cons_of_mem c hd)]
      exact items_append_space (h c List.mem_cons_self) t

/-- Stripping an output keeps its items. -/
theorem items_strip (t : Text) : items (strip t) = items t := by
  obtain ⟨b, hb, hblank⟩ := exists_rstrip (lstrip t)
  rw [strip, ← items_lstrip t]
  conv_rhs => rw [hb]
  exact (items_append_blank hblank).symm

theorem splitlines_line {l : Text} (h : ∀ c ∈ l, isLineBoundary c = false) (t : Text) :
    splitlines (l ++ '\n' :: t) = l :: splitlines t := by
  induction l with
  | nil =>
      rw [List.nil_append, splitlines, if_pos (by decide)]
      rintro u ⟨⟩
  | cons c l ih =>
      rw [List.cons_append, splitlines_cons (h c List.mem_cons_self),
        ih fun d hd => h d (List.mem_cons_of_mem c hd)]

theorem splitlines_feed_nil (u : Text) : splitlines ('\n' :: u) = [] :: splitlines u := by
  rw [splitlines, if_pos (by decide)]
  rintro v ⟨⟩

theorem eq_nil_of_splitlines {t : Text} (h : splitlines t = []) : t = [] := by
  cases t with
  | nil => rfl
  | cons c t =>
      unfold splitlines at h
      split at h
      · assumption
      · exact absurd h (List.cons_ne_nil _ _)
      · split at h
        · exact absurd h (List.cons_ne_nil _ _)
        · split at h <;> exact absurd h (List.cons_ne_nil _ _)

/-- A line feed between two texts ends the lines of the first. -/
theorem splitlines_feed (t u : Text) : ∃ extra : List Text, (extra = [] ∨ extra = [[]]) ∧
    splitlines (t ++ '\n' :: u) = splitlines t ++ (extra ++ splitlines u) := by
  induction t using SessionStart.splitlines.induct with
  | case1 =>
      refine ⟨[[]], .inr rfl, ?_⟩
      rw [List.nil_append, splitlines_feed_nil]
      rfl
  | case2 t ih =>
      obtain ⟨extra, hextra, h⟩ := ih
      exact ⟨extra, hextra, by
        rw [List.cons_append, List.cons_append, splitlines, h, splitlines]
        rfl⟩
  | case3 a t hnot hboundary ih =>
      by_cases hfeed : a = '\r' ∧ t = []
      · obtain ⟨rfl, rfl⟩ := hfeed
        exact ⟨[], .inl rfl, rfl⟩
      · obtain ⟨extra, hextra, h⟩ := ih
        refine ⟨extra, hextra, ?_⟩
        rw [List.cons_append, splitlines, if_pos hboundary, h, splitlines, if_pos hboundary]
        · rfl
        · exact hnot
        · rintro v rfl hv
          cases t with
          | nil => exact hfeed ⟨rfl, rfl⟩
          | cons b t =>
              rw [List.cons_append, List.cons.injEq] at hv
              exact hnot t rfl (by rw [hv.1])
  | case4 a t hnot hboundary hnil ih =>
      obtain rfl := eq_nil_of_splitlines hnil
      refine ⟨[], .inl rfl, ?_⟩
      have ha : ∀ c ∈ [a], isLineBoundary c = false := by simpa using hboundary
      have hline : splitlines [a] = [[a]] := by
        rw [splitlines_cons (by simpa using hboundary)]
        rfl
      rw [splitlines_line ha, hline]
      rfl
  | case5 a t hnot hboundary line lines hlines ih =>
      obtain ⟨extra, hextra, h⟩ := ih
      have ha : isLineBoundary a = false := by simpa using hboundary
      refine ⟨extra, hextra, ?_⟩
      rw [List.cons_append, splitlines_cons ha, splitlines_cons ha, h, hlines]
      rfl

theorem items_feed (t u : Text) : items (t ++ '\n' :: u) = items t ++ items u := by
  obtain ⟨extra, hextra, h⟩ := splitlines_feed t u
  have hblank : (extra.map strip).filter (!·.isEmpty) = [] := by
    rcases hextra with rfl | rfl <;> rfl
  simp only [items, h, List.map_append, List.filter_append, hblank, List.nil_append]

/-- A name as the gate reads it. -/
def Git.shown (git : Git) (path : Text) : Text := strip (git.quote path)

theorem items_output (git : Git) (names : List Text) :
    items (git.output names) = (names.map git.shown).filter (!·.isEmpty) := by
  induction names with
  | nil => rfl
  | cons path names ih =>
      have hcons : git.output (path :: names) = git.quote path ++ '\n' :: git.output names := by
        simp [Git.output]
      have hitems : items (git.output (path :: names)) =
          ([strip (git.quote path)] ++ (splitlines (git.output names)).map strip).filter
            (!·.isEmpty) := by
        rw [items, hcons, splitlines_line (git.quote_line path)]
        rfl
      rw [hitems, List.filter_append, List.map_cons, List.filter_cons]
      have hrest : ((splitlines (git.output names)).map strip).filter (!·.isEmpty) =
          (names.map git.shown).filter (!·.isEmpty) := ih
      rw [hrest]
      cases h : (git.shown path).isEmpty <;>
        simp [show strip (git.quote path) = git.shown path from rfl, h]

/-! ## The changed paths -/

section Gate

variable {git : Git} {s : Session} {scopes : List Text}

/-- The names that the two listings print. -/
def Git.listed (git : Git) (t : WorkingTree) (path : Text) : Prop :=
  path ∈ Git.unstaged t ∨ path ∈ git.staged t

theorem items_listings (git : Git) (unstaged staged : List Text) :
    items (strip (git.output unstaged) ++ ['\n'] ++ strip (git.output staged)) =
      ((unstaged ++ staged).map git.shown).filter (!·.isEmpty) := by
  rw [List.append_assoc, List.singleton_append, items_feed, items_strip, items_strip, items_output,
    items_output, List.map_append, List.filter_append]

theorem mem_scopedDiffPaths {shown : Text} :
    shown ∈ scopedDiffPaths git s ↔
      shown ≠ [] ∧ ∃ path, git.listed s.tree path ∧ git.shown path = shown := by
  have hitems := items_listings git (Git.unstaged s.tree) (git.staged s.tree)
  unfold items at hitems
  unfold scopedDiffPaths
  rw [List.mem_insertionSort, List.mem_eraseDups, hitems, List.mem_filter, List.mem_map]
  simp only [Bool.not_eq_true', List.isEmpty_eq_false_iff, List.mem_append]
  exact and_comm

/-- A listed path that the gate finds outside every scope. -/
def Rejects (git : Git) (s : Session) (scopes : List Text) (path : Text) : Prop :=
  git.listed s.tree path ∧ git.shown path ≠ [] ∧ pathInScope (git.shown path) scopes = false

theorem scopeGate_iff :
    scopeGate git s scopes = true ↔ (s.inside = true → ∀ path, ¬Rejects git s scopes path) := by
  unfold scopeGate Rejects
  cases s.inside with
  | false => simp
  | true =>
      simp only [Bool.not_true, Bool.false_eq_true, if_false, List.isEmpty_iff,
        List.filter_eq_nil_iff, Bool.not_eq_true', Bool.not_eq_false, true_imp_iff]
      constructor
      · rintro h path ⟨hlisted, hne, hout⟩
        rw [h _ (mem_scopedDiffPaths.mpr ⟨hne, path, hlisted, rfl⟩)] at hout
        cases hout
      · intro h shown hshown
        obtain ⟨hne, path, hlisted, rfl⟩ := mem_scopedDiffPaths.mp hshown
        by_contra hout
        exact h path ⟨hlisted, hne, by simpa using hout⟩

end Gate

/-! ## What the gate does not see -/

/-- The components of a path, as `pathlib` has them. -/
def pathParts (t : Text) : List Text :=
  let parts := (splitOn '/' t).filter fun part => !part.isEmpty && part != ['.']
  if startsWith ['/'] t then ['/'] :: parts else parts

/-- A path that is one of the commit paths or below it. -/
def Inside (scopes : List Text) (path : Text) : Prop :=
  ∃ scope ∈ scopes, isBlank scope = false ∧ pathParts (strip scope) <+: pathParts path

/-- A path that the gate cannot reject. -/
inductive Blind (git : Git) (s : Session) (scopes : List Text) (path : Text) : Prop where
  | untracked (hhead : s.tree.headAt path = none) (hindex : s.tree.indexAt path = none)
  | renamed (h : git.renamedAway s.tree path = true)
  | unprinted (h : git.shown path = [])
  | misread (h : pathInScope (git.shown path) scopes = true)

section Blindness

variable {git : Git} {s : Session} {scopes : List Text} {path : Text}

theorem mem_paths {t : WorkingTree} (h : (t.headAt path).isSome = true ∨ (t.indexAt path).isSome = true) :
    path ∈ t.paths := by
  rw [WorkingTree.paths, List.mem_eraseDups, List.mem_append, List.mem_append]
  obtain h | h := h
  · obtain ⟨content, h⟩ := Option.isSome_iff_exists.mp h
    exact .inl (.inl (List.mem_map_of_mem (SortedMap.mem_of_get? h)))
  · obtain ⟨content, h⟩ := Option.isSome_iff_exists.mp h
    exact .inl (.inr (List.mem_map_of_mem (SortedMap.mem_of_get? h)))

/-- A path that differs from HEAD is rejected unless the gate is blind to it. -/
theorem blind_or_rejects (h : s.tree.Differs path) :
    Blind git s scopes path ∨ Rejects git s scopes path := by
  by_cases hrenamed : git.renamedAway s.tree path = true
  · exact .inl (.renamed hrenamed)
  by_cases hnew : s.tree.headAt path = none ∧ s.tree.indexAt path = none
  · exact .inl (.untracked hnew.1 hnew.2)
  by_cases hshown : git.shown path = []
  · exact .inl (.unprinted hshown)
  cases hscope : pathInScope (git.shown path) scopes with
  | true => exact .inl (.misread hscope)
  | false =>
      refine .inr ⟨?_, hshown, hscope⟩
      by_cases hstaged : s.tree.headAt path = s.tree.indexAt path
      · -- as in HEAD, so it is tracked and differs from what is staged
        have hsome : (s.tree.indexAt path).isSome = true := by
          cases hindex : s.tree.indexAt path with
          | none => exact absurd ⟨hstaged.trans hindex, hindex⟩ hnew
          | some content => rfl
        left
        rw [Git.unstaged, List.mem_filter, Bool.and_eq_true, bne_iff_ne]
        refine ⟨mem_paths (.inr hsome), hsome, ?_⟩
        obtain hdiffers | hdiffers := h
        · exact absurd hstaged hdiffers
        · exact fun hwork => hdiffers (hstaged.trans hwork.symm)
      · right
        rw [Git.staged, List.mem_filter, Bool.and_eq_true, bne_iff_ne, Bool.not_eq_true']
        refine ⟨mem_paths ?_, hstaged, by simpa using hrenamed⟩
        cases hhead : s.tree.headAt path with
        | some content => exact .inl rfl
        | none =>
            right
            cases hindex : s.tree.indexAt path with
            | some content => rfl
            | none => exact absurd ⟨hhead, hindex⟩ hnew

end Blindness

/-! ## A kept packet -/

section Keep

variable (p : Platform) (git : Git) (s : Session) (m : Measurement) (asi : Fields)
  (description : Text)

/-- A packet is measured on a session and logged as kept. -/
def keepRun : Option Session :=
  (runNext p git s m).bind fun packet => (logPacket p git s packet .keep asi description).toOption

/-- What a keep needs beside its scope. -/
structure OtherGates (config : Fields) : Prop where
  tests : m.testsPass = true
  quiet : Security.isRed p.unicode m.output = false
  metric : (SortedMap.get? (metricName config) m.metrics).isSome = true
  asi : validateAsi p asi .keep = []

/-- Whenever a keep is accepted, what differs from HEAD is below the commit
paths. -/
def KeepInScope : Prop :=
  ∀ after, keepRun p git s m asi description = some after → s.inside = true →
    ∀ config, latestConfig s.ledger = some config → ∀ path, s.tree.Differs path →
      Inside (commitPaths config) path

variable {p git s m asi description}

theorem gateFailures_eq_nil {config : Fields} :
    gateFailures (hardGatesForPacket p git s config m (metricName config)) = [] ↔
      m.testsPass = true ∧ Security.isRed p.unicode m.output = false ∧
        scopeGate git s (commitPaths config) = true ∧
          (SortedMap.get? (metricName config) m.metrics).isSome = true := by
  unfold hardGatesForPacket
  cases m.testsPass <;> cases Security.isRed p.unicode m.output <;>
    cases scopeGate git s (commitPaths config) <;>
      cases (SortedMap.get? (metricName config) m.metrics).isSome <;> decide

theorem keepRun_isSome :
    (∃ after, keepRun p git s m asi description = some after) ↔
      ∃ config, latestConfig s.ledger = some config ∧ OtherGates p m asi config ∧
        scopeGate git s (commitPaths config) = true := by
  cases hconfig : latestConfig s.ledger with
  | none => simp [keepRun, runNext, hconfig]
  | some config =>
      have hnext : runNext p git s m = some
          ⟨m.metrics, hardGatesForPacket p git s config m (metricName config),
            fingerprintOf p git s config⟩ := by
        rw [runNext, hconfig]
        rfl
      constructor
      · rintro ⟨after, h⟩
        rw [keepRun, hnext, Option.bind_some, logPacket, hconfig] at h
        simp only [ne_eq, not_true_eq_false, if_false, true_or, true_and] at h
        split_ifs at h with hmetric hgates hasi
        · cases h
        · have hgates' := gateFailures_eq_nil.mp hgates
          exact ⟨config, rfl, ⟨hgates'.1, hgates'.2.1, hgates'.2.2.2, hasi⟩, hgates'.2.2.1⟩
        · cases h
        · cases h
      · rintro ⟨config', hsame, hother, hscope⟩
        cases hsame
        have hgates : gateFailures (hardGatesForPacket p git s config m (metricName config)) = [] :=
          gateFailures_eq_nil.mpr ⟨hother.tests, hother.quiet, hscope, hother.metric⟩
        have hmetric : (SortedMap.get? (metricName config) m.metrics).isNone = false := by
          simpa using hother.metric
        rw [keepRun, hnext, Option.bind_some, logPacket, hconfig]
        simp only [ne_eq, not_true_eq_false, if_false, true_or, true_and, hmetric, hgates,
          hother.asi, Bool.false_eq_true]
        exact ⟨_, rfl⟩

end Keep

theorem splitOn_slash (t : Text) : splitOn '/' ('/' :: t) = [] :: splitOn '/' t := by
  rw [splitOn, if_pos rfl]

/-! A tree with an untracked file and a changed hidden one. -/

def Platform.ascii : Platform where
  toHost := Host.ascii Advisor.shortDigest
  sortedJson d := Json.asciiDumps (toJson (.obj d))

/-- A session with `github` as its only commit path. -/
def hiddenSession : Session where
  cwd := txt "/repo"
  inside := true
  commit := txt "0f3c"
  tree :=
    { head := [(txt ".github/ci.yml", txt "on: push")]
      index := [(txt ".github/ci.yml", txt "on: push")]
      walk := [(txt ".github", none), (txt ".github/ci.yml", some (txt "on: never")),
        (txt "notes.txt", some (txt "draft"))] }
  ledger := [[(txt "entry_type", .str (txt "config")), (txt "segment_id", .str (txt "speed-1")),
    (txt "metric", .str (txt "seconds")), (txt "direction", .str (txt "lower")),
    (txt "benchmark_command", .str (txt "make bench")),
    (txt "commit_paths", .arr [.str (txt "github")])]]

def goodMeasurement : Measurement where
  testsPass := true
  output := txt "METRIC seconds=1"
  metrics := [(txt "seconds", 1)]

def goodAsi : Fields :=
  [(txt "hypothesis", .str (txt "faster")), (txt "evidence", .str (txt "seconds=1")),
   (txt "next_action_hint", .str (txt "commit"))]

end RalphVault.AutoResearch
