import RalphVault.IndentedJson
import RalphVault.Plans.IndexEvents
import RalphVault.Store.Records

/-!
# Plans — the legacy views

The texts `rebuild_legacy_views` of `legacy_migration.py` writes: a page of
notes for each plan, the index and its Markdown, and the consolidated pages.
-/

namespace RalphVault.Plans

open Store

/-! ## Texts -/

/-- `MAX_TEXT`. -/
def maxText : Nat := 400

/-- `_bounded`. -/
def boundedTo (limit : Nat) (value : Text) : Text :=
  let text := joinWith [' '] (words value)
  if text.length ≤ limit then text else rstrip (text.take (limit - 3)) ++ txt "..."

def bounded (value : Text) : Text := boundedTo maxText value

def escapeChar : Char → Text
  | '&' => txt "&amp;"
  | '<' => txt "&lt;"
  | '>' => txt "&gt;"
  | '"' => txt "&quot;"
  | '\'' => txt "&#x27;"
  | c => [c]

/-- `html.escape`. -/
def htmlEscape (t : Text) : Text := t.flatMap escapeChar

/-- `<dt>…</dt><dd>…</dd>`. -/
def field (label value : Text) : Text :=
  txt "<dt>" ++ label ++ txt "</dt><dd>" ++ value ++ txt "</dd>"

/-! ## Categories -/

/-- `ALLOWED_CATEGORIES`. -/
inductive Category where
  | decision | deviation | tradeoff | openQuestion | validation | summary
deriving DecidableEq

instance : Named Category where
  members := [.decision, .deviation, .tradeoff, .openQuestion, .validation, .summary]
  name
    | .decision => txt "decision" | .deviation => txt "deviation" | .tradeoff => txt "tradeoff"
    | .openQuestion => txt "open-question" | .validation => txt "validation"
    | .summary => txt "summary"
  complete b := by cases b <;> simp
  distinct a b := by cases a <;> cases b <;> decide

/-- `CATEGORY_LABELS`. -/
def Category.label : Category → Text
  | .decision => txt "Design Decisions"
  | .deviation => txt "Deviations From Spec"
  | .tradeoff => txt "Tradeoffs Considered"
  | .openQuestion => txt "Open Questions"
  | .validation => txt "Validation Notes"
  | .summary => txt "Final Implementation Summary"

/-- The comment new entries of a category go in front of. -/
def Category.anchor : Category → Text
  | .decision => txt "<!-- IMPLEMENTATION_NOTES_DECISION_ANCHOR -->"
  | .deviation => txt "<!-- IMPLEMENTATION_NOTES_DEVIATION_ANCHOR -->"
  | .tradeoff => txt "<!-- IMPLEMENTATION_NOTES_TRADEOFF_ANCHOR -->"
  | .openQuestion => txt "<!-- IMPLEMENTATION_NOTES_OPEN_QUESTION_ANCHOR -->"
  | .validation => txt "<!-- IMPLEMENTATION_NOTES_VALIDATION_ANCHOR -->"
  | .summary => txt "<!-- IMPLEMENTATION_NOTES_SUMMARY_ANCHOR -->"

/-- `CATEGORY_ORDER`. -/
def categoryOrder : List Category :=
  [.decision, .deviation, .tradeoff, .openQuestion, .validation, .summary]

/-- The category an evidence code names. -/
def codeCategory (code : Text) : Option Category :=
  (afterPrefix (txt "legacy-category-") code).bind fun value =>
    categoryOrder.find? fun c => name c == value

/-- `_legacy_category`. -/
def legacyCategory (kind : EventKind) (evidenceCodes : List Text) : Category :=
  match evidenceCodes.findSome? codeCategory with
  | some c => c
  | none => match kind with
      | .decision => .decision
      | .deviation => .deviation
      | .questionOpened | .questionResolved => .openQuestion
      | .validationChanged => .validation
      | .completed => .summary
      | .reopened => .decision
      | .migrationImported => .summary
      | .started => .summary
      | _ => .decision

/-! ## Notes -/

/-- The references of an event, escaped. -/
def shownReferences (e : Event) : Text :=
  orText (joinWith (txt ", ") (e.references.map htmlEscape)) (txt "n/a")

/-- The article of an event under its category. -/
def entryArticle (e : Event) : Text :=
  let category := htmlEscape (name (legacyCategory e.kind e.evidenceCodes))
  txt "    <article class=\"entry\" data-entry-kind=\"" ++ category ++ txt "\"><dl>" ++
    field (txt "Timestamp") (htmlEscape e.timestamp) ++
    field (txt "Category") category ++
    field (txt "Decision") (orText (htmlEscape (bounded e.summary)) (txt "(none)")) ++
    field (txt "Reason") (orText (htmlEscape (bounded e.reason)) (txt "(none)")) ++
    field (txt "Impact") (orText (htmlEscape (bounded e.nextAction)) (txt "(none)")) ++
    field (txt "Related files") (shownReferences e) ++
    field (txt "Status") (htmlEscape (name e.status)) ++
    field (txt "Operation ID") (htmlEscape e.operationId) ++
    txt "</dl></article>\n"

/-- The timeline with the first event of a plan. -/
def timeline (started : Event) : Text :=
  txt "    <dl class=\"meta-grid\">" ++
    field (txt "Git branch") (htmlEscape started.git.branch) ++
    field (txt "Git SHA") (htmlEscape started.git.commit) ++
    field (txt "Session id") (htmlEscape started.writerSessionId) ++
    field (txt "Workspace instance id") (htmlEscape started.git.workspaceInstanceId) ++
    txt "</dl><section aria-labelledby=\"timeline-heading\">" ++
    txt "<h2 id=\"timeline-heading\">Timeline</h2>" ++
    txt "<article class=\"entry\" data-entry-kind=\"initial\">" ++
    txt "<h3>Implementation Started</h3><dl>" ++
    field (txt "Timestamp") (htmlEscape started.timestamp) ++
    field (txt "Category") (txt "summary") ++
    field (txt "Decision") (htmlEscape (bounded started.summary)) ++
    field (txt "Reason") (htmlEscape (bounded started.reason)) ++
    field (txt "Impact") (htmlEscape (bounded started.nextAction)) ++
    field (txt "Related files") (shownReferences started) ++
    field (txt "Status") (htmlEscape (name started.status)) ++
    field (txt "Operation ID") (htmlEscape started.operationId) ++
    txt "</dl></article></section>\n"

def isStarted (e : Event) : Bool := e.kind == .started

/-- The section of a category with its entries. -/
def sectionHtml (events : List Event) (c : Category) : Text :=
  let entries := events.filter fun e =>
    !isStarted e && legacyCategory e.kind e.evidenceCodes == c
  txt "    <section class=\"entry-section\" data-entry-section=\"" ++ name c ++ txt "\"><h2>" ++
    c.label ++ txt "</h2>\n" ++ (entries.map entryArticle).flatten ++ txt "      " ++ c.anchor ++
    txt "\n    </section>"

/-- `_render_legacy_html`. -/
def renderLegacyHtml (planId : Text) (state : State) (events : List Event) : Text :=
  txt "<!doctype html>\n<html lang=\"en\"><head><meta charset=\"utf-8\">" ++
    txt "<meta http-equiv=\"Content-Security-Policy\" content=\"" ++
    txt "default-src 'none'; style-src 'unsafe-inline'\">" ++
    txt "<title>Implementation Notes - " ++ htmlEscape planId ++ txt "</title></head><body>\n" ++
    txt "<main data-implementation-notes=\"true\"><h1>Implementation Notes - " ++
    htmlEscape planId ++ txt "</h1>\n" ++
    txt "<p>Status: " ++ htmlEscape (name state.status) ++ txt "; phase: " ++
    htmlEscape state.phase ++ txt "</p>\n" ++
    ((events.find? isStarted).map timeline).getD [] ++
    (categoryOrder.map (sectionHtml events)).flatten ++ txt "\n</main></body></html>\n"

/-! ## The index -/

/-- A plan of the canonical store, as `_all_new_plans` reads it. -/
structure CanonicalPlan where
  planId : Text
  state : State
  events : List Event

/-- What `rebuild_legacy_views` reads of the store. -/
structure CanonicalStore where
  primaryRoot : Text
  plans : List CanonicalPlan
  unplanned : List Event

def plansDirectory : Text := txt ".ralph/plans/"

/-- `.ralph/plans/{plan_id}.md`. -/
def planPathOf (planId : Text) : Text := plansDirectory ++ planId ++ txt ".md"

/-- `.ralph/plans/{plan_id}-implementation-notes.html`. -/
def notesPathOf (planId : Text) : Text :=
  plansDirectory ++ planId ++ txt "-implementation-notes.html"

/-- The row of a plan. -/
def planRow (plan : CanonicalPlan) : Dict :=
  let git := plan.state.git
  [(txt "type", .str (txt "plan")),
    (txt "plan", .str (planPathOf plan.planId)),
    (txt "notes", .str (notesPathOf plan.planId)),
    (txt "status", .str
      (if plan.state.status = .completed then txt "implemented" else name plan.state.status)),
    (txt "branch", .str git.branch),
    (txt "commits", textsJson (if git.commit.isEmpty then [] else [git.commit])),
    (txt "pr", .str []),
    (txt "session_id", .str plan.state.writerSessionId),
    (txt "workspace_instance_id", .str git.workspaceInstanceId),
    (txt "created_at", .str plan.state.createdAt),
    (txt "updated_at", .str plan.state.updatedAt)]

/-- The members of an event row without its identifier and its time. -/
def eventMaterial (planId : Text) (e : Event) : List (Text × Text) :=
  [(txt "event", if isStarted e then txt "notes_created" else txt "note_appended"),
    (txt "plan", planPathOf planId),
    (txt "notes", notesPathOf planId),
    (txt "status", name e.status),
    (txt "branch", e.git.branch),
    (txt "commit", e.git.commit),
    (txt "session_id", e.writerSessionId),
    (txt "workspace_instance_id", e.git.workspaceInstanceId),
    (txt "operation_id", e.operationId),
    (txt "kind", name e.kind),
    (txt "summary", bounded e.summary)]

def looseMaterial (e : Event) : List (Text × Text) :=
  [(txt "event", txt "loose_commit_recorded"),
    (txt "plan", []),
    (txt "notes", []),
    (txt "status", txt "loose_commit"),
    (txt "branch", e.git.branch),
    (txt "commit", e.git.commit),
    (txt "session_id", e.writerSessionId),
    (txt "workspace_instance_id", e.git.workspaceInstanceId),
    (txt "operation_id", e.operationId),
    (txt "kind", name e.kind),
    (txt "reason", e.reason),
    (txt "notes_detail", e.summary),
    (txt "summary", bounded e.summary)]

/-- A row with the identifier of its material. -/
def eventRow (t : Toolbox) (timestamp : Text) (material : List (Text × Text)) : Dict :=
  textDict (material ++ [(txt "timestamp", timestamp),
    (txt "event_id", t.sha256 (Json.obj (textDict material)).canonical)])

def looseRow (e : Event) : Dict :=
  [(txt "type", .str (txt "loose_commit")),
    (txt "commit", .str e.git.commit),
    (txt "branch", .str e.git.branch),
    (txt "reason", .str e.reason),
    (txt "notes", .str e.summary),
    (txt "linked_plan", .null),
    (txt "created_at", .str e.timestamp),
    (txt "updated_at", .str e.timestamp)]

/-- The rows of the events of a plan. -/
def planEventRows (t : Toolbox) (plan : CanonicalPlan) : List Dict :=
  plan.events.map fun e => eventRow t e.timestamp (eventMaterial plan.planId e)

def looseEventRow (t : Toolbox) (e : Event) : Dict := eventRow t e.timestamp (looseMaterial e)

/-- `_legacy_index_all`. -/
def legacyIndexAll (t : Toolbox) (store : CanonicalStore) : Dict :=
  [(txt "version", .num 2),
    (txt "canonical_repo_root", .str store.primaryRoot),
    (txt "plans", .arr (store.plans.map fun plan => .obj (planRow plan))),
    (txt "loose_commits", .arr (store.unplanned.map fun e => .obj (looseRow e))),
    (txt "events", .arr ((store.plans.flatMap (planEventRows t) ++
      store.unplanned.map (looseEventRow t)).map .obj))]

/-! ## Markdown and consolidated pages -/

/-- The line of a plan in the Markdown of the index. -/
def planLine (plan : CanonicalPlan) : Text :=
  let status :=
    if plan.state.status = .completed then txt "implemented" else name plan.state.status
  txt "| " ++ planPathOf plan.planId ++ txt " | " ++ status ++ txt " | " ++
    plan.state.git.branch ++ txt " | " ++ orText plan.state.git.commit (txt "-") ++ txt " |"

def eventLine (e : Event) : Text :=
  txt "- [" ++ e.timestamp ++ txt "] " ++ name e.kind ++ txt ": " ++
    bounded (bounded e.summary) ++ txt " (operation " ++ e.operationId ++ txt ")"

/-- `_render_index_markdown`, of the rows of the index. -/
def renderIndexMarkdown (store : CanonicalStore) : Text :=
  joinWith ['\n']
    ([txt "# Implementation Index", [], txt "Version: 2", [], txt "## Plans", [],
      txt "| Plan | Status | Branch | Commits |", txt "| --- | --- | --- | --- |"] ++
    store.plans.map planLine ++ [[], txt "## Implementation Events", []] ++
    (store.plans.flatMap CanonicalPlan.events ++ store.unplanned).map eventLine) ++ ['\n']

/-- The article of an event in the consolidated page. -/
def consolidatedArticle (planId : Text) (e : Event) : Text :=
  txt "    <article class=\"entry\" data-plan-id=\"" ++ htmlEscape planId ++ txt "\"><h2>" ++
    htmlEscape planId ++ txt "</h2><dl>" ++
    field (txt "Timestamp") (htmlEscape e.timestamp) ++
    field (txt "Category") (htmlEscape (name (legacyCategory e.kind e.evidenceCodes))) ++
    field (txt "Decision") (htmlEscape (bounded e.summary)) ++
    field (txt "Status") (htmlEscape (name e.status)) ++
    field (txt "Operation ID") (htmlEscape e.operationId) ++ txt "</dl></article>"

def consolidatedArticles (plan : CanonicalPlan) : List Text :=
  plan.events.map (consolidatedArticle plan.planId)

/-- `_render_consolidated_html`. -/
def renderConsolidatedHtml (plans : List CanonicalPlan) : Text :=
  txt "<!doctype html>\n<html lang=\"en\"><head><meta charset=\"utf-8\">" ++
    txt "<meta http-equiv=\"Content-Security-Policy\" content=\"" ++
    txt "default-src 'none'; style-src 'unsafe-inline'\">" ++
    txt "<title>Consolidated Implementation Notes</title></head><body>" ++
    txt "<main data-consolidated-implementation-notes=\"true\">\n" ++
    joinWith ['\n'] (plans.flatMap consolidatedArticles) ++ txt "\n</main></body></html>\n"

/-- The lines of a plan in the consolidated Markdown. -/
def consolidatedLine (e : Event) : Text :=
  let tick := ['\u0060']
  txt "- " ++ tick ++ e.timestamp ++ tick ++ txt " " ++ tick ++
    name (legacyCategory e.kind e.evidenceCodes) ++ tick ++ txt ": " ++ bounded e.summary ++
    txt " (operation " ++ tick ++ e.operationId ++ tick ++ txt ")"

def consolidatedLines (plan : CanonicalPlan) : List Text :=
  let tick := ['\u0060']
  [txt "## " ++ plan.planId, [], txt "- Status: " ++ tick ++ name plan.state.status ++ tick, []] ++
    plan.events.map consolidatedLine ++ [[]]

/-- `_render_consolidated_markdown`. -/
def renderConsolidatedMarkdown (plans : List CanonicalPlan) : Text :=
  joinWith ['\n']
    ([txt "# Consolidated Implementation Notes", [],
      txt "This deterministic view is rebuilt from the canonical journal and state.", []] ++
    plans.flatMap consolidatedLines)

/-! ## Nothing is left out -/

theorem isInfix_joinWith (sep : Text) {t : Text} {ts : List Text} (h : t ∈ ts) :
    t <:+: joinWith sep ts := by
  induction ts with
  | nil => exact absurd h List.not_mem_nil
  | cons t' ts ih =>
      cases ts with
      | nil =>
          rw [List.mem_singleton.mp h]
          exact List.infix_refl _
      | cons t'' ts =>
          rw [joinWith]
          · rcases List.mem_cons.mp h with rfl | h
            · rw [List.append_assoc]
              exact (List.prefix_append _ _).isInfix
            · exact (ih h).trans (List.suffix_append _ _).isInfix
          · exact fun heq => (nomatch heq)

/-- A dictionary with every row of a store. -/
structure HasRows (t : Toolbox) (store : CanonicalStore) (plans loose events : List Json) : Prop where
  plan : ∀ plan ∈ store.plans, Json.norm (.obj (planRow plan)) ∈ plans
  event : ∀ plan ∈ store.plans, ∀ row ∈ planEventRows t plan, Json.norm (.obj row) ∈ events
  loose : ∀ e ∈ store.unplanned, Json.norm (.obj (looseRow e)) ∈ loose
  looseEvent : ∀ e ∈ store.unplanned, Json.norm (.obj (looseEventRow t e)) ∈ events

/-- **The index has a row for every plan and every event of the store.** -/
theorem index_rows (t : Toolbox) (store : CanonicalStore) :
    ∃ data plans loose events, Json.loads (indexText (legacyIndexAll t store)) = some (.obj data) ∧
      SortedMap.get? (txt "plans") data = some (.arr plans) ∧
      SortedMap.get? (txt "loose_commits") data = some (.arr loose) ∧
      SortedMap.get? (txt "events") data = some (.arr events) ∧
      HasRows t store plans loose events := by
  have hkeys : ((Json.normFields (legacyIndexAll t store)).map Prod.fst).Nodup := by
    rw [Json.normFields_eq, List.map_map]
    show [txt "version", txt "canonical_repo_root", txt "plans", txt "loose_commits",
      txt "events"].Nodup
    decide
  have hread : ∀ k items, SortedMap.get? k (legacyIndexAll t store) = some (.arr items) →
      SortedMap.get? k (Json.sortMembers (Json.normFields (legacyIndexAll t store))) =
        some (.arr (items.map Json.norm)) := by
    intro k items hk
    rw [Json.sortMembers, SortedMap.get?_ofList hkeys, Json.normFields_eq, SortedMap.get?_map, hk,
      Option.map_some, Json.norm, Json.normItems_eq]
  refine ⟨_, _, _, _, ?_, hread _ _ rfl, hread _ _ rfl, hread _ _ rfl, ?_⟩
  · rw [indexText, Json.loads_indented, Json.norm]
  · have hevent : ∀ row, row ∈ store.plans.flatMap (planEventRows t) ++
        store.unplanned.map (looseEventRow t) → Json.norm (.obj row) ∈
          ((store.plans.flatMap (planEventRows t) ++
            store.unplanned.map (looseEventRow t)).map Json.obj).map Json.norm :=
      fun row hrow => List.mem_map_of_mem (List.mem_map_of_mem hrow)
    exact {
      plan := fun plan hplan => List.mem_map_of_mem (List.mem_map_of_mem hplan)
      event := fun plan hplan row hrow =>
        hevent row (List.mem_append_left _ (List.mem_flatMap.mpr ⟨plan, hplan, hrow⟩))
      loose := fun e he => List.mem_map_of_mem (List.mem_map_of_mem he)
      looseEvent := fun e he =>
        hevent _ (List.mem_append_right _ (List.mem_map_of_mem he)) }

theorem indexMarkdown_plan (store : CanonicalStore) {plan : CanonicalPlan}
    (h : plan ∈ store.plans) : planLine plan <:+: renderIndexMarkdown store := by
  rw [renderIndexMarkdown]
  refine (isInfix_joinWith _ ?_).trans (List.prefix_append _ _).isInfix
  simp only [List.mem_append, List.mem_map]
  exact .inl (.inl (.inr ⟨plan, h, rfl⟩))

theorem indexMarkdown_event (store : CanonicalStore) {e : Event}
    (h : e ∈ store.plans.flatMap CanonicalPlan.events ++ store.unplanned) :
    eventLine e <:+: renderIndexMarkdown store := by
  rw [renderIndexMarkdown]
  exact (isInfix_joinWith _ (List.mem_append_right _ (List.mem_map_of_mem h))).trans
    (List.prefix_append _ _).isInfix

theorem consolidatedHtml_article {plans : List CanonicalPlan} {plan : CanonicalPlan}
    (hplan : plan ∈ plans) {article : Text} (h : article ∈ consolidatedArticles plan) :
    article <:+: renderConsolidatedHtml plans := by
  have hjoined := isInfix_joinWith ['\n'] (List.mem_flatMap.mpr ⟨plan, hplan, h⟩)
  rw [renderConsolidatedHtml]
  exact (hjoined.trans (List.suffix_append _ _).isInfix).trans (List.prefix_append _ _).isInfix

theorem consolidatedMarkdown_line {plans : List CanonicalPlan} {plan : CanonicalPlan}
    (hplan : plan ∈ plans) {line : Text} (h : line ∈ consolidatedLines plan) :
    line <:+: renderConsolidatedMarkdown plans := by
  rw [renderConsolidatedMarkdown]
  exact isInfix_joinWith _ (List.mem_append_right _ (List.mem_flatMap.mpr ⟨plan, hplan, h⟩))

end RalphVault.Plans
