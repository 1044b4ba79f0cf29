import RalphVault.Handoff.Lines
import RalphVault.Memory.RecallText
import RalphVault.SpacedJson

/-!
# Vault — learning events

`save_learning_with_result` of `vault_io.py`, call after call on one project. A
learning becomes a note, and the call that writes the note then appends one
event to `learning-events.jsonl`; a call that finds the note appends none. The
values of the front matter stand between quotes as they are, and are read line
by line (`frontmatter` of `ralph-recall.py`). The result that counts the
writes is left out.
-/

namespace RalphVault.Learning

open Memory
open RecallText (Metadata frontmatter beforeMark stripChar keyOf valueOf addEntry)
open SessionStart (splitlines joinLines)

abbrev OneLine := { t : Text // ∀ c ∈ t, isLineBoundary c = false }

structure Host where
  unicode : Unicode
  sha256 : Text → OneLine
  /-- `str(runtime_root(context))` of the project. -/
  runtimeRoot : Text

structure ActiveContext where
  projectId : Text
  projectSlug : Text
  branch : Text
  sha : Text
  sessionId : Text
  workspaceInstanceId : Text

/-- How a call ends: it returns, or it raises or is killed, with or without the
note in its place. -/
inductive Fate where
  | returns
  | beforeNote
  | afterNote
deriving DecidableEq

/-- A call, with the times it takes from `now_iso`. -/
structure Call where
  text : Text
  source : Text
  classification : Text
  context : Option ActiveContext
  candidateOnly : Bool
  createdAt : OneLine
  updatedAt : OneLine
  eventAt : OneLine
  fate : Fate

/-! ## Notes and events -/

def maxVaultFileBytes : Nat := 256 * 1024
def maxLearningTextBytes : Nat := 128 * 1024
def maxAppendRecordBytes : Nat := 256 * 1024
def maxAppendFileBytes : Nat := 8 * 1024 * 1024

def Call.value (c : Call) (f : ActiveContext → Text) : Text := (c.context.map f).getD []

/-- `trust_status`; the other status is `provisional`. -/
def Call.trusted (c : Call) : Bool :=
  !c.candidateOnly && c.context.any fun x =>
    !x.projectSlug.isEmpty && !x.branch.isEmpty && !x.sha.isEmpty && !x.sessionId.isEmpty

def Call.trustStatus (c : Call) : Text := if c.trusted then txt "trusted" else txt "provisional"
def Call.confidence (c : Call) : Text := if c.trusted then txt "0.80" else txt "0.40"

/-- The values that are passed in, by their keys. -/
def Call.contextValues (c : Call) : List (Text × Text) :=
  [(txt "source", c.source), (txt "project_id", c.value ActiveContext.projectId),
    (txt "project", c.value ActiveContext.projectSlug),
    (txt "repo", c.value ActiveContext.projectSlug), (txt "branch", c.value ActiveContext.branch),
    (txt "commit", c.value ActiveContext.sha), (txt "session_id", c.value ActiveContext.sessionId),
    (txt "workspace_instance_id", c.value ActiveContext.workspaceInstanceId)]

/-- A line of the front matter. -/
def line (e : Text × Text) : Text := e.1 ++ txt ": \"" ++ e.2 ++ ['"']

structure Event where
  source : Text
  path : Text
  createdAt : Text
  trustStatus : Text
  confidence : Text
  candidateOnly : Bool
  projectId : Text
  project : Text
  branch : Text
  commit : Text
  sessionId : Text

def Event.payload (e : Event) : Json :=
  .obj [(txt "source", .str e.source), (txt "path", .str e.path),
    (txt "created_at", .str e.createdAt), (txt "trust_status", .str e.trustStatus),
    (txt "confidence", .str e.confidence), (txt "candidate_only", .bool e.candidateOnly),
    (txt "project_id", .str e.projectId), (txt "project", .str e.project),
    (txt "repo", .str e.project), (txt "branch", .str e.branch), (txt "commit", .str e.commit),
    (txt "session_id", .str e.sessionId)]

/-- The bytes of the line that is appended. -/
def Event.size (e : Event) : Nat := utf8Len (Json.asciiText (Json.spaced e.payload)) + 1

section Note

variable (host : Host) (c : Call)

/-- `clean`: the redacted text, cut at the byte limit. -/
def clean : Text :=
  let clean := (Security.redactText host.unicode (strip c.text)).1
  if maxLearningTextBytes < utf8Len clean then
    trimUtf8 clean maxLearningTextBytes ++ txt "\n[truncated]"
  else clean

/-- `digest(clean)`. -/
def digest : OneLine := host.sha256 (strip (clean host c))

def entries : List (Text × Text) :=
  [(txt "created_at", c.createdAt.1), (txt "updated_at", c.updatedAt.1),
    (txt "classification", c.classification),
    (txt "memory_kind",
      if c.candidateOnly then txt "learning_candidate" else txt "validated_learning"),
    (txt "trust_status", c.trustStatus),
    (txt "provisional", if c.trusted then txt "false" else txt "true"),
    (txt "deprecated", txt "false"), (txt "stale", txt "false"),
    (txt "confidence", c.confidence)] ++ c.contextValues ++
    [(txt "hash", (digest host c).1)]

def content : Text :=
  joinLines (txt "---" :: (entries host c).map line ++ [txt "---", [], clean host c, []])

def path : Text :=
  host.runtimeRoot ++ txt "/ledgers/" ++ (if c.candidateOnly then txt "candidates/" else []) ++
    txt "learning-" ++ (digest host c).1.take 12 ++ txt ".md"

def event : Event where
  source := c.source
  path := path host c
  createdAt := c.eventAt.1
  trustStatus := c.trustStatus
  confidence := c.confidence
  candidateOnly := c.candidateOnly
  projectId := c.value ActiveContext.projectId
  project := c.value ActiveContext.projectSlug
  branch := c.value ActiveContext.branch
  commit := c.value ActiveContext.sha
  sessionId := c.value ActiveContext.sessionId

end Note

/-! ## Calls -/

/-- The notes by their paths, and the lines of `learning-events.jsonl`. -/
structure Ledger where
  notes : List (Text × Text)
  events : List Event

/-- `append_jsonl` takes the event. -/
def Ledger.Accepts (ledger : Ledger) (e : Event) : Prop :=
  e.size ≤ maxAppendRecordBytes ∧ (ledger.events.map Event.size).sum + e.size ≤ maxAppendFileBytes

instance (ledger : Ledger) (e : Event) : Decidable (ledger.Accepts e) :=
  inferInstanceAs (Decidable (_ ∧ _))

section Calls

variable (host : Host)

/-- The note that a call writes. -/
def Ledger.stored (ledger : Ledger) (c : Call) : Option (Text × Text) :=
  if strip c.text = [] ∨ c.classification = txt "RED" ∨ Security.isRed host.unicode c.text = true then
    none
  else if c.fate = .beforeNote ∨ path host c ∈ ledger.notes.map Prod.fst then none
  -- a larger note is an `OSError`
  else if maxVaultFileBytes < utf8Len (content host c) then none
  else some (path host c, content host c)

/-- `save_learning_with_result`. -/
def Ledger.save (ledger : Ledger) (c : Call) : Ledger :=
  match ledger.stored host c with
  | none => ledger
  | some note => {
      notes := ledger.notes ++ [note]
      events :=
        if c.fate = .afterNote ∨ ¬ledger.Accepts (event host c) then ledger.events
        else ledger.events ++ [event host c] }

/-- The ledger after some calls, which is empty before the first. -/
def reached (calls : List Call) : Ledger := calls.foldl (Ledger.save host) ⟨[], []⟩

/-- A note holds the text of a call behind its front matter, and the front
matter gives back the values that were passed in. -/
structure Holds (c : Call) (note : Text) : Prop where
  text : note.drop (beforeMark (txt "\n---") note).length =
    '\n' :: txt "---" ++ ('\n' :: '\n' :: clean host c ++ ['\n'])
  context : ∀ e ∈ c.contextValues, (frontmatter note).get? e.1 = some e.2

/-- Every note has one event, and holds what the call that wrote it was given. -/
structure Matched (calls : List Call) : Prop where
  events : ∀ note ∈ (reached host calls).notes,
    ((reached host calls).events.map Event.path).count note.1 = 1
  notes : ∀ note ∈ (reached host calls).notes, ∃ c ∈ calls,
    note.1 = path host c ∧ Holds host c note.2

/-- A value that is read back from between its quotes. -/
structure Plain (v : Text) : Prop where
  oneLine : ∀ c ∈ v, isLineBoundary c = false
  front : v.head? ≠ some '"'
  back : v.getLast? ≠ some '"'

/-- A call that writes a note appends its event too, and what stands in the front
matter is plain. -/
structure Clear (ledger : Ledger) (c : Call) : Prop where
  whole : c.fate ≠ .afterNote
  fits : ledger.Accepts (event host c)
  classification : ∀ x ∈ c.classification, isLineBoundary x = false
  plain : ∀ e ∈ c.contextValues, Plain e.2

/-- All calls that write a note are clear where they are made. -/
def AllClear : Ledger → List Call → Prop
  | _, [] => True
  | ledger, c :: calls =>
      ((ledger.stored host c).isSome → Clear host ledger c) ∧ AllClear (ledger.save host c) calls

end Calls

/-! ## Reading the front matter -/

section Read

/-- A line with a value in quotes sets the value. -/
theorem stripChar_quoted {v : Text} (hfront : v.head? ≠ some '"') (hback : v.getLast? ≠ some '"') :
    stripChar '"' ('"' :: (v ++ ['"'])) = v := by
  have hdrop : ('"' :: (v ++ ['"'])).dropWhile (· == '"') = (v ++ ['"']).dropWhile (· == '"') := rfl
  unfold stripChar
  rw [hdrop]
  cases v with
  | nil => rfl
  | cons c v =>
      have hc : (c == '"') = false := by
        rw [beq_eq_false_iff_ne]
        intro heq
        exact hfront (by rw [heq]; rfl)
      have hlast : (c :: v).reverse.dropWhile (· == '"') = (c :: v).reverse := by
        cases hreverse : (c :: v).reverse with
        | nil => rfl
        | cons d w =>
            rw [List.dropWhile_cons_of_neg]
            intro heq
            apply hback
            rw [← List.head?_reverse, hreverse, beq_iff_eq.mp heq]
            rfl
      rw [List.cons_append, List.dropWhile_cons_of_neg (by rw [hc]; decide), ← List.cons_append,
        List.reverse_append]
      show ((c :: v).reverse.dropWhile (· == '"')).reverse = c :: v
      rw [hlast, List.reverse_reverse]

/-- What a value in quotes is read as. -/
def unquoted (v : Text) : Text := stripChar '"' ('"' :: (v ++ ['"']))

/-- The key of a line: no colon, no blank at an end, no dash in front. -/
def isKey (k : Text) : Bool :=
  !k.contains ':' && strip k == k && k.all (!isLineBoundary ·) && k.head?.any (· != '-')

theorem addEntry_line {k : Text} (hk : isKey k = true) (metadata : Metadata) (v : Text) :
    addEntry metadata (line (k, v)) = metadata.set k (unquoted v) := by
  unfold isKey at hk
  simp only [Bool.and_eq_true, Bool.not_eq_true', beq_iff_eq, List.contains_eq_mem,
    decide_eq_false_iff_not] at hk
  obtain ⟨⟨⟨hcolon, hstrip⟩, -⟩, -⟩ := hk
  have hline : line (k, v) = k ++ ':' :: ' ' :: '"' :: (v ++ ['"']) := by
    show k ++ txt ": \"" ++ v ++ ['"'] = _
    rw [List.append_assoc, List.append_assoc]
    rfl
  have hpass : ∀ c ∈ k, (c != ':') = true := by
    intro c hc
    rw [bne_iff_ne]
    rintro rfl
    exact hcolon hc
  have hkey : keyOf (line (k, v)) = k := by
    rw [keyOf, hline, List.takeWhile_append_of_pos hpass, List.takeWhile_cons_of_neg (by decide),
      List.append_nil]
  have hvalue : valueOf (line (k, v)) = ' ' :: '"' :: (v ++ ['"']) := by
    rw [valueOf, hline, List.dropWhile_append_of_pos hpass, List.dropWhile_cons_of_neg (by decide)]
    rfl
  have hquoted : strip (' ' :: '"' :: (v ++ ['"'])) = '"' :: (v ++ ['"']) := by
    rw [AutoResearch.strip_cons_space (by decide)]
    apply strip_of_visible
    · intro c hc
      rw [Option.mem_def, List.head?_cons, Option.some.injEq] at hc
      rw [← hc]
      decide
    · intro c hc
      rw [Option.mem_def, ← List.cons_append, List.getLast?_concat, Option.some.injEq] at hc
      rw [← hc]
      decide
  have hmem : (line (k, v)).contains ':' = true := by
    rw [hline]
    simp
  rw [addEntry, if_pos hmem, hkey, hvalue, hstrip, hquoted]
  rfl

theorem set_new {d : Metadata} {k : Text} (h : k ∉ d.map Prod.fst) (v : Text) :
    d.set k v = d ++ [(k, v)] := by
  induction d with
  | nil => rfl
  | cons e d ih =>
      obtain ⟨a, w⟩ := e
      rw [List.map_cons, List.mem_cons, not_or] at h
      rw [Metadata.set, if_neg (Ne.symm h.1), ih h.2, List.cons_append]

/-- Lines with different keys are read as they are. -/
theorem foldl_lines {es : List (Text × Text)} (hkeys : ∀ e ∈ es, isKey e.1 = true)
    {d : Metadata} (hnodup : (d.map Prod.fst ++ es.map Prod.fst).Nodup) :
    (es.map line).foldl addEntry d = d ++ es.map fun e => (e.1, unquoted e.2) := by
  induction es generalizing d with
  | nil => exact (List.append_nil d).symm
  | cons e es ih =>
      obtain ⟨he, hes⟩ := List.forall_mem_cons.mp hkeys
      have hnew : e.1 ∉ d.map Prod.fst := by
        intro hmem
        exact (List.nodup_append.mp hnodup).2.2 _ hmem _ List.mem_cons_self rfl
      have hset : addEntry d (line e) = d ++ [(e.1, unquoted e.2)] := by
        rw [← set_new hnew]
        exact addEntry_line he d e.2
      rw [List.map_cons, List.foldl_cons, hset, ih hes]
      · rw [List.append_assoc]
        rfl
      · rwa [List.map_append, List.append_assoc]

theorem joinLines_cons (first : Text) (rest : List Text) :
    joinLines (first :: rest) = first ++ rest.flatMap ('\n' :: ·) := by
  induction rest generalizing first with
  | nil => exact (List.append_nil first).symm
  | cons next rest ih => rw [Handoff.joinLines_cons_cons, ih, List.flatMap_cons, List.cons_append]

theorem joinLines_note (first : Text) (rest : List Text) (mark text : Text) :
    joinLines (first :: rest ++ [mark, [], text, []]) = first ++
      (rest.flatMap ('\n' :: ·) ++ ('\n' :: mark ++ ('\n' :: '\n' :: text ++ ['\n']))) := by
  rw [List.cons_append, joinLines_cons, List.flatMap_append]
  simp [List.flatMap_cons]

theorem beforeMark_line {l : Text} (h : '\n' ∉ l) (t : Text) :
    beforeMark (txt "\n---") (l ++ t) = l ++ beforeMark (txt "\n---") t := by
  induction l with
  | nil => rfl
  | cons c l ih =>
      obtain ⟨hc, hl⟩ := List.ne_and_not_mem_of_not_mem_cons h
      have hno : startsWith (txt "\n---") (c :: l ++ t) = false := by
        show ('\n' == c && _) = false
        rw [beq_eq_false_iff_ne.mpr hc, Bool.false_and]
      rw [List.cons_append, beforeMark, ← List.cons_append, hno, if_neg (by decide), ih hl]
      rfl

/-- Lines that do not begin with a dash are in front of the mark. -/
theorem beforeMark_lines {rest : List Text}
    (h : ∀ l ∈ rest, '\n' ∉ l ∧ ∃ c u, l = c :: u ∧ c ≠ '-') (t : Text) :
    beforeMark (txt "\n---") (rest.flatMap ('\n' :: ·) ++ ('\n' :: txt "---" ++ t)) =
      rest.flatMap ('\n' :: ·) := by
  induction rest with
  | nil =>
      show beforeMark (txt "\n---") ('\n' :: (txt "---" ++ t)) = []
      rw [beforeMark]
      exact if_pos rfl
  | cons l rest ih =>
      obtain ⟨⟨hbreak, c, u, rfl, hc⟩, hrest⟩ := List.forall_mem_cons.mp h
      rw [List.flatMap_cons, List.append_assoc]
      show beforeMark (txt "\n---") ('\n' :: (c :: u ++ _)) = _
      have hno : startsWith (txt "\n---") ('\n' :: (c :: u ++
          (rest.flatMap ('\n' :: ·) ++ ('\n' :: txt "---" ++ t)))) = false := by
        show ('\n' == '\n' && ('-' == c && _)) = false
        rw [beq_eq_false_iff_ne.mpr (Ne.symm hc), Bool.false_and, Bool.and_false]
      rw [beforeMark, hno, if_neg (by decide), beforeMark_line hbreak, ih hrest]
      rfl

end Read

/-! ## Runs of calls -/

section Runs

variable {host : Host} {c : Call} {ledger : Ledger} {calls : List Call}

/-- The keys of the front matter. -/
def keys : List Text :=
  [txt "created_at", txt "updated_at", txt "classification", txt "memory_kind",
    txt "trust_status", txt "provisional", txt "deprecated", txt "stale", txt "confidence",
    txt "source", txt "project_id", txt "project", txt "repo", txt "branch", txt "commit",
    txt "session_id", txt "workspace_instance_id", txt "hash"]

theorem entries_keys : (entries host c).map Prod.fst = keys := rfl

theorem isKey_of_entries : ∀ e ∈ entries host c, isKey e.1 = true := by
  have hkeys : ∀ k ∈ keys, isKey k = true := by decide
  intro e he
  apply hkeys
  rw [← entries_keys]
  exact List.mem_map_of_mem he

/-- The values of the front matter are on one line each. -/
theorem entries_oneLine (h : Clear host ledger c) :
    ∀ e ∈ entries host c, ∀ x ∈ e.2, isLineBoundary x = false := by
  have hwords : ∀ t ∈ [txt "learning_candidate", txt "validated_learning", txt "trusted",
      txt "provisional", txt "false", txt "true", txt "0.80", txt "0.40"],
      ∀ x ∈ t, isLineBoundary x = false := by decide
  have hchoice : ∀ (b : Bool) (s t : Text), (∀ x ∈ s, isLineBoundary x = false) →
      (∀ x ∈ t, isLineBoundary x = false) → ∀ x ∈ if b then s else t, isLineBoundary x = false := by
    intro b s t hs ht
    cases b with
    | true => exact hs
    | false => exact ht
  intro e he
  rcases List.mem_append.mp he with he | he
  · rcases List.mem_append.mp he with he | he
    · simp only [List.mem_cons, List.not_mem_nil, or_false] at he
      rcases he with rfl | rfl | rfl | rfl | rfl | rfl | rfl | rfl | rfl
      · exact c.createdAt.2
      · exact c.updatedAt.2
      · exact h.classification
      · exact hchoice _ _ _ (hwords _ (by simp)) (hwords _ (by simp))
      · exact hchoice _ _ _ (hwords _ (by simp)) (hwords _ (by simp))
      · exact hchoice _ _ _ (hwords _ (by simp)) (hwords _ (by simp))
      · exact hwords _ (by simp)
      · exact hwords _ (by simp)
      · exact hchoice _ _ _ (hwords _ (by simp)) (hwords _ (by simp))
    · exact (h.plain e he).oneLine
  · rw [List.mem_singleton.mp he]
    exact (digest host c).2

theorem line_unbroken {e : Text × Text} (hkey : isKey e.1 = true)
    (hvalue : ∀ x ∈ e.2, isLineBoundary x = false) : ∀ x ∈ line e, isLineBoundary x = false := by
  unfold isKey at hkey
  simp only [Bool.and_eq_true, List.all_eq_true, Bool.not_eq_true'] at hkey
  have hquote : ∀ x ∈ txt ": \"", isLineBoundary x = false := by decide
  intro x hx
  rcases List.mem_append.mp hx with hx | hx
  · rcases List.mem_append.mp hx with hx | hx
    · rcases List.mem_append.mp hx with hx | hx
      · exact hkey.1.2 x hx
      · exact hquote x hx
    · exact hvalue x hx
  · rw [List.mem_singleton.mp hx]
    decide

/-- **A clear call writes a note that holds what it was given.** -/
theorem Clear.holds (h : Clear host ledger c) : Holds host c (content host c) := by
  have hunbroken : ∀ l ∈ (entries host c).map line, ∀ x ∈ l, isLineBoundary x = false := by
    intro l hl
    obtain ⟨e, he, rfl⟩ := List.mem_map.mp hl
    exact line_unbroken (isKey_of_entries e he) (entries_oneLine h e he)
  have hcontent : content host c = txt "---" ++ (((entries host c).map line).flatMap ('\n' :: ·) ++
      ('\n' :: txt "---" ++ ('\n' :: '\n' :: clean host c ++ ['\n']))) := by
    rw [content, joinLines_note]
  have hlines : ∀ l ∈ (entries host c).map line, '\n' ∉ l ∧ ∃ x u, l = x :: u ∧ x ≠ '-' := by
    intro l hl
    refine ⟨fun hmem => absurd (hunbroken l hl _ hmem) (by decide), ?_⟩
    obtain ⟨e, he, rfl⟩ := List.mem_map.mp hl
    have hkey := isKey_of_entries e he
    unfold isKey at hkey
    rw [Bool.and_eq_true] at hkey
    cases hk : e.1 with
    | nil =>
        rw [hk] at hkey
        cases hkey.2
    | cons x u =>
        rw [hk] at hkey
        refine ⟨x, u ++ txt ": \"" ++ e.2 ++ ['"'], ?_, bne_iff_ne.mp hkey.2⟩
        rw [line, hk]
        rfl
  have hmark : beforeMark (txt "\n---") (content host c) =
      joinLines (txt "---" :: (entries host c).map line) := by
    rw [hcontent, beforeMark_line (by decide), beforeMark_lines hlines, joinLines_cons]
  constructor
  · rw [hmark, hcontent, joinLines_cons, ← List.append_assoc, List.drop_left]
  · intro e he
    have hsplit : splitlines (joinLines (txt "---" :: (entries host c).map line)) =
        txt "---" :: (entries host c).map line := by
      apply Handoff.Lines.splitlines
      refine ⟨List.forall_mem_cons.mpr ⟨by decide, hunbroken⟩,
        txt "---" :: ((entries host c).map line).dropLast, line (txt "hash", (digest host c).1),
        rfl, ?_, hunbroken _ (List.mem_map_of_mem (List.mem_append_right _ List.mem_cons_self)), ?_⟩
      · exact List.append_ne_nil_of_right_ne_nil _ (List.cons_ne_nil _ _)
      · intro x hx
        rw [Option.mem_def, line, List.getLast?_concat, Option.some.injEq] at hx
        rw [← hx]
        decide
    have hstart : startsWith (txt "---") (content host c) = true := by
      rw [hcontent]
      rfl
    have hnodup : ((entries host c).map Prod.fst).Nodup := by
      rw [entries_keys]
      decide
    have hread : frontmatter (content host c) =
        (entries host c).map fun e => (e.1, unquoted e.2) := by
      rw [frontmatter, if_pos hstart, hmark, hsplit]
      exact foldl_lines isKey_of_entries hnodup
    have hplain := h.plain e he
    have hvalue : unquoted e.2 = e.2 := stripChar_quoted hplain.front hplain.back
    have hmem : (e.1, unquoted e.2) ∈ (entries host c).map fun e => (e.1, unquoted e.2) :=
      List.mem_map_of_mem (List.mem_append_left _ (List.mem_append_right _ he))
    rw [hread, ← hvalue]
    refine SortedMap.get?_of_mem ?_ (by rwa [hvalue] at hmem ⊢)
    rw [List.map_map]
    exact hnodup

/-- The events are those of the notes, and each note holds what its call was
given. -/
structure Inv (host : Host) (calls : List Call) (ledger : Ledger) : Prop where
  events : ledger.events.map Event.path = ledger.notes.map Prod.fst
  paths : (ledger.notes.map Prod.fst).Nodup
  notes : ∀ note ∈ ledger.notes, ∃ c ∈ calls, note.1 = path host c ∧ Holds host c note.2

theorem stored_eq_some {note : Text × Text} (h : ledger.stored host c = some note) :
    note = (path host c, content host c) ∧ path host c ∉ ledger.notes.map Prod.fst := by
  unfold Ledger.stored at h
  split at h
  · cases h
  · split at h
    · cases h
    · rename_i hnew
      split at h
      · cases h
      · exact ⟨(Option.some.inj h).symm, fun hmem => hnew (.inr hmem)⟩

/-- One call keeps the invariant. -/
theorem Inv.save (h : Inv host calls ledger)
    (hclear : (ledger.stored host c).isSome → Clear host ledger c) :
    Inv host (calls ++ [c]) (ledger.save host c) := by
  have hearlier : ∀ note ∈ ledger.notes, ∃ c' ∈ calls ++ [c],
      note.1 = path host c' ∧ Holds host c' note.2 := by
    intro note hnote
    obtain ⟨c', hc', hholds⟩ := h.notes note hnote
    exact ⟨c', List.mem_append_left _ hc', hholds⟩
  unfold Ledger.save
  split
  · exact ⟨h.events, h.paths, hearlier⟩
  · rename_i note hstored
    obtain ⟨rfl, hnew⟩ := stored_eq_some hstored
    have hclear := hclear (by rw [hstored]; rfl)
    have hevent : (if c.fate = .afterNote ∨ ¬ledger.Accepts (event host c) then ledger.events
        else ledger.events ++ [event host c]) = ledger.events ++ [event host c] := by
      refine if_neg fun hlost => ?_
      exact hlost.elim hclear.whole (fun hno => hno hclear.fits)
    refine ⟨?_, ?_, ?_⟩
    · show (if _ then _ else _ : List Event).map Event.path = _
      rw [hevent, List.map_append, h.events, List.map_append]
      rfl
    · rw [List.map_append]
      exact List.nodup_append.mpr ⟨h.paths, List.nodup_singleton _, by
        intro p hp p' hp' heq
        rw [heq, List.mem_singleton.mp hp'] at hp
        exact hnew hp⟩
    · intro note hnote
      rcases List.mem_append.mp hnote with hnote | hnote
      · exact hearlier note hnote
      · rw [List.mem_singleton.mp hnote]
        exact ⟨c, List.mem_append_right _ List.mem_cons_self, rfl, hclear.holds⟩

theorem Inv.run {before : List Call} (h : Inv host before ledger)
    (hclear : AllClear host ledger calls) :
    Inv host (before ++ calls) (calls.foldl (Ledger.save host) ledger) := by
  induction calls generalizing before ledger with
  | nil =>
      rw [List.append_nil]
      exact h
  | cons c calls ih =>
      have hrest := ih (h.save hclear.1) hclear.2
      rwa [List.append_assoc] at hrest

/-- **In every sequence of clear calls the events match the notes.** -/
theorem AllClear.events_matched (h : AllClear host ⟨[], []⟩ calls) : Matched host calls := by
  have hempty : Inv host [] ⟨[], []⟩ :=
    ⟨rfl, List.nodup_nil, fun note hnote => absurd hnote List.not_mem_nil⟩
  have hinv : Inv host calls (reached host calls) := hempty.run h
  refine ⟨?_, hinv.notes⟩
  intro note hnote
  rw [hinv.events]
  exact List.count_eq_one_of_mem hinv.paths (List.mem_map_of_mem hnote)

end Runs

/-! ## A call that ends between its two writes -/

def stamp : OneLine := ⟨txt "2026-01-01T00:00:00+00:00", by decide⟩

/-- A host with the digest of the one text below. -/
def asciiHost : Host where
  unicode := Unicode.ascii
  sha256 _ := ⟨txt "00ecd8c6e2426efd5f4493e47a58811e32a30c403b158c1ad8ce083de7ca69c7",
    by decide⟩
  runtimeRoot := txt "/ralph"

def testCall (fate : Fate) : Call where
  text := txt "Run the tests."
  source := txt "PostToolUse"
  classification := txt "YELLOW"
  context := none
  candidateOnly := false
  createdAt := stamp
  updatedAt := stamp
  eventAt := stamp
  fate := fate

theorem matched_twice : Matched asciiHost [testCall .returns, testCall .returns] := by
  refine AllClear.events_matched ⟨fun _ => ⟨by decide, by decide +kernel, by decide, ?_⟩, ?_, trivial⟩
  · have hvalues : ∀ e ∈ (testCall .returns).contextValues,
        (∀ c ∈ e.2, isLineBoundary c = false) ∧ e.2.head? ≠ some '"' ∧ e.2.getLast? ≠ some '"' := by
      decide
    intro e he
    obtain ⟨hline, hfront, hback⟩ := hvalues e he
    exact ⟨hline, hfront, hback⟩
  · intro hstored
    have hnone : ((Ledger.save asciiHost ⟨[], []⟩ (testCall .returns)).stored asciiHost
        (testCall .returns)).isSome = false := by
      decide +kernel
    rw [hnone] at hstored
    cases hstored

/-- The second call finds the note, and the event is never written. -/
theorem event_lost : ¬Matched asciiHost [testCall .afterNote, testCall .returns] := by
  intro h
  have hlost : ∃ note ∈ (reached asciiHost [testCall .afterNote, testCall .returns]).notes,
      ((reached asciiHost [testCall .afterNote, testCall .returns]).events.map Event.path).count
        note.1 = 0 := by
    decide +kernel
  obtain ⟨note, hnote, hcount⟩ := hlost
  rw [h.events note hnote] at hcount
  cases hcount

end RalphVault.Learning
