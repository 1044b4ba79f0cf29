import RalphVault.Batch
import RalphVault.Plans.LegacyViews

/-!
# Plans — rebuilding the legacy views

`rebuild_legacy_views` of `legacy_migration.py`: the views are rendered and
staged, then published one after the other, and put back when one of them
cannot be published.

Left out: the directories, the temporary files and the file descriptors.
-/

namespace RalphVault.Plans

open Store

/-! ## Files -/

abbrev Bytes := List UInt8

/-- `text.encode("utf-8")`. -/
def utf8 (t : Text) : Bytes := t.flatMap String.utf8EncodeChar

structure ViewFile where
  bytes : Bytes
  mode : Nat
deriving DecidableEq

/-- The files below the root of the repository. -/
abbrev ViewFiles := Files Text ViewFile

/-- `MAX_DERIVED_VIEW_BYTES`. -/
def maxDerivedViewBytes : Nat := 256 * 1024

/-- How a replacement of a file ends. -/
inductive Ending where
  | done
  /-- An error before the file is replaced. -/
  | failed
  /-- An error after the file is replaced. -/
  | cut
deriving DecidableEq

inductive Staging where
  | kept
  | failed
  | changed
deriving DecidableEq

/-- What happens to the files while the views are rebuilt. -/
structure RebuildHost where
  /-- `.ralph/plans` is a directory without symbolic links. -/
  directorySafe : Bool
  staging : Text → Staging
  /-- The manifest lock is taken. -/
  locked : Bool
  /-- The target is an alias, or cannot be read. -/
  aliased : Text → Bool
  publishing : Text → Ending
  restoring : Text → Ending

inductive RebuildError where
  /-- A `MigrationError` with its code and its message. -/
  | migration (code message : Text)
  /-- An error of the operating system or of the lock. -/
  | os

/-- `_private_mode`. -/
def privateMode (mode : Nat) : Nat := if mode &&& 0o600 = 0 then 0o600 else mode &&& 0o600

/-- `publish_compatibility_view`. -/
def publishView (h : RebuildHost) (view : Text × Text) (files : ViewFiles) :
    ViewFiles × Option RebuildError :=
  let encoded := utf8 view.2
  if h.publishing view.1 = .failed ∨ maxDerivedViewBytes < encoded.length then (files, some .os)
  else match files view.1 with
    | some file =>
        if maxDerivedViewBytes < file.bytes.length then (files, some .os)
        else if file.bytes = encoded then (files, none)
        else (Batch.set view.1 (some ⟨encoded, privateMode file.mode⟩) files,
          if h.publishing view.1 = .cut then some .os else none)
    | none => (Batch.set view.1 (some ⟨encoded, 0o600⟩) files,
        if h.publishing view.1 = .cut then some .os else none)

/-- `_snapshot_rollback_target`. -/
def snapshotTarget (h : RebuildHost) (files : ViewFiles) (target : Text) :
    Except RebuildError (Option ViewFile) :=
  match files target with
  | none =>
      if h.aliased target then
        .error (.migration (txt "rollback_target_alias")
          (txt "legacy rollback target cannot be inspected"))
      else .ok none
  | some file =>
      if h.aliased target then
        .error (.migration (txt "rollback_target_alias")
          (txt "legacy rollback target is an unsafe alias"))
      else if maxDerivedViewBytes < file.bytes.length then
        .error (.migration (txt "rollback_target_alias")
          (txt "legacy rollback target cannot be snapshotted"))
      else .ok (some file)

/-- `_restore_rollback_target`, with the snapshot of the target. -/
def restoreTarget (h : RebuildHost) (snapshot : ViewFiles) (target : Text) (files : ViewFiles) :
    ViewFiles × Option RebuildError :=
  match h.restoring target with
  | .done => (Batch.set target (snapshot target) files, none)
  | .failed => (files, some .os)
  -- the bytes are back, their mode is not
  | .cut => (Batch.set target ((snapshot target).map fun file =>
      ⟨file.bytes, privateMode file.mode⟩) files, some .os)

/-! ## The views -/

def indexJsonPath : Text := plansDirectory ++ txt "implementation-index.json"
def indexMdPath : Text := plansDirectory ++ txt "implementation-index.md"
def consolidatedHtmlPath : Text :=
  plansDirectory ++ txt "implementation-notes-consolidated.html"
def consolidatedMdPath : Text := plansDirectory ++ txt "implementation-notes-consolidated.md"

/-- `str(Path(value))` of a relative path. -/
def pathText (value : Text) : Text :=
  let parts := (splitOn '/' value).filter fun part => part != [] && part != ['.']
  let root := if startsWith ['/'] value then ['/'] else []
  if parts = [] ∧ root = [] then ['.'] else root ++ joinWith ['/'] parts

/-- `str(Path(value).with_suffix(""))` of a value that ends in `suffix`. -/
def withoutSuffix (suffix value : Text) : Text :=
  let path := pathText value
  if path = suffix ∨ (['/'] ++ suffix) <:+ path then path
  else path.take (path.length - suffix.length)

/-- The plan identifier an argument selects. -/
def selectedId (planId : Text) : Text :=
  let stem := (afterPrefix plansDirectory planId).getD planId
  if txt ".md" <:+ stem then withoutSuffix (txt ".md") stem
  else if txt ".markdown" <:+ stem then withoutSuffix (txt ".markdown") stem
  else stem

/-- The plans whose notes are rebuilt. -/
def selectedPlans (store : CanonicalStore) (planId : Text) : List CanonicalPlan :=
  if planId.isEmpty then store.plans
  else store.plans.filter fun plan => plan.planId == selectedId planId

def notesView (plan : CanonicalPlan) : Text × Text :=
  (notesPathOf plan.planId, renderLegacyHtml plan.planId plan.state plan.events)

/-- The views that describe the whole store. -/
def globalViews (t : Toolbox) (store : CanonicalStore) : List (Text × Text) :=
  [(indexJsonPath, indexText (legacyIndexAll t store)),
    (indexMdPath, renderIndexMarkdown store),
    (consolidatedHtmlPath, renderConsolidatedHtml store.plans),
    (consolidatedMdPath, renderConsolidatedMarkdown store.plans)]

def rebuiltViews (t : Toolbox) (store : CanonicalStore) (planId : Text) : List (Text × Text) :=
  (selectedPlans store planId).map notesView ++ globalViews t store

/-- The sources a view must not replace. -/
def canonicalSources (store : CanonicalStore) : List Text :=
  store.plans.map (fun plan => planPathOf plan.planId) ++
    (store.plans.filter fun plan => !isBlank plan.state.planPath).map fun plan =>
      plan.state.planPath

/-! ## The command -/

def digestJson (t : Toolbox) (j : Json) : Text := txt "sha256:" ++ t.sha256 j.canonical

/-- `_digest_bytes` of the bytes of a text. -/
def digestText (t : Toolbox) (content : Text) : Text := txt "sha256:" ++ t.sha256 content

structure RebuildReport where
  applied : Bool
  plans : List Text
  outputs : List Text
  sourceDigest : Text
  outputDigest : Text
  viewDigests : List (Text × Text)

def sourceDigest (t : Toolbox) (store : CanonicalStore) : Text :=
  let plans := store.plans.map fun plan => Json.obj
    [(txt "plan_id", .str plan.planId), (txt "state", .obj plan.state.toDict),
      (txt "events", .arr (plan.events.map fun e => .obj e.toDict))]
  digestJson t (.obj [(txt "plans", .arr plans),
    (txt "unplanned", .arr (store.unplanned.map fun e => .obj e.toDict))])

def viewDigests (t : Toolbox) (views : List (Text × Text)) : List (Text × Text) :=
  views.map fun view => (view.1, digestText t view.2)

/-- The report of a rebuild. -/
def rebuildReport (t : Toolbox) (store : CanonicalStore) (apply : Bool) (planId : Text) :
    RebuildReport where
  applied := apply
  plans := (selectedPlans store planId).map CanonicalPlan.planId
  outputs := (rebuiltViews t store planId).map Prod.fst
  sourceDigest := sourceDigest t store
  outputDigest := digestJson t (.obj (textDict (viewDigests t (rebuiltViews t store planId))))
  viewDigests := viewDigests t (rebuiltViews t store planId)

/-- The checks before the lock: no file of the repository is replaced. -/
def checkViews (t : Toolbox) (h : RebuildHost) (store : CanonicalStore) (planId : Text) :
    Except RebuildError Unit :=
  let views := rebuiltViews t store planId
  if selectedPlans store planId = [] then
    .error (.migration (txt "plan_not_registered")
      (txt "canonical implementation store has no plans"))
  else if views.any fun view => (canonicalSources store).contains view.1 then
    .error (.migration (txt "rollback_source_overlap")
      (txt "legacy rollback output overlaps a registered canonical plan source"))
  else if views.any fun view => decide (maxDerivedViewBytes < (utf8 view.2).length) then
    .error (.migration (txt "rollback_limit")
      (txt "legacy rollback view exceeds the bounded publication limit"))
  else if !h.directorySafe then
    .error (.migration (txt "rollback_target_alias")
      (txt "legacy rollback plans directory is unsafe"))
  -- a staged file must not exist
  else if ¬(views.map Prod.fst).Nodup ∨ (views.any fun view => h.staging view.1 == .failed) then
    .error .os
  else if views.any fun view => h.staging view.1 == .changed then
    .error (.migration (txt "rollback_validation_failed")
      (txt "staged legacy view digest changed"))
  else .ok ()

/-- The publication under the lock. -/
def publishViews (h : RebuildHost) (views : List (Text × Text)) (files : ViewFiles) :
    ViewFiles × Except RebuildError Unit :=
  match views.mapM fun view => snapshotTarget h files view.1 with
  | .error e => (files, .error e)
  | .ok _ =>
      match Batch.publishAll (publishView h) views [] files with
      | (published, _, none) => (published, .ok ())
      | (partly, applied, some _) =>
          match Batch.restoreAll (restoreTarget h files) applied partly with
          | (restored, none) => (restored, .error (.migration (txt "rollback_publish_failed")
              (txt "legacy rollback publication failed; prior views were restored")))
          | (restored, some _) => (restored, .error (.migration (txt "rollback_restore_failed")
              (txt "legacy rollback failed and could not restore all prior views")))

/-- `rebuild_legacy_views`. -/
def rebuildLegacyViews (t : Toolbox) (h : RebuildHost) (store : CanonicalStore) (apply : Bool)
    (planId : Text) (files : ViewFiles) : ViewFiles × Except RebuildError RebuildReport :=
  match checkViews t h store planId with
  | .error e => (files, .error e)
  | .ok () =>
      if !apply then (files, .ok (rebuildReport t store apply planId))
      else if !h.locked then (files, .error .os)
      else match publishViews h (rebuiltViews t store planId) files with
        | (files', .ok ()) => (files', .ok (rebuildReport t store apply planId))
        | (files', .error e) => (files', .error e)

/-! ## Publication -/

theorem publishView_local (h : RebuildHost) : Batch.Local (publishView h) := by
  intro view files k hk
  rw [publishView]
  split
  · rfl
  · split
    · split
      · rfl
      · split
        · rfl
        · exact Batch.set_other hk _ _
    · exact Batch.set_other hk _ _

/-- The file of a target holds a text. -/
def Holds (files : ViewFiles) (target content : Text) : Prop :=
  ∃ file, files target = some file ∧ file.bytes = utf8 content

theorem publishView_holds {h : RebuildHost} {view : Text × Text} {files : ViewFiles}
    (hdone : (publishView h view files).2 = none) :
    Holds (publishView h view files).1 view.1 view.2 := by
  rw [publishView] at hdone ⊢
  split at hdone
  · cases hdone
  · rename_i hbefore
    rw [if_neg hbefore]
    split at hdone
    · rename_i file hfile
      split at hdone
      · cases hdone
      · rename_i hlarge
        rw [if_neg hlarge]
        split at hdone
        · rename_i hsame
          rw [if_pos hsame]
          exact ⟨file, hfile, hsame⟩
        · rename_i hother
          rw [if_neg hother]
          exact ⟨_, Batch.set_self _ _ _, rfl⟩
    · exact ⟨_, Batch.set_self _ _ _, rfl⟩

theorem publishView_failed {h : RebuildHost} {view : Text × Text} (files : ViewFiles)
    (hfailed : h.publishing view.1 = .failed) : (publishView h view files).2 = some .os := by
  rw [publishView, if_pos (.inl hfailed)]

/-- The restores of a host succeed. -/
def RebuildHost.Restores (h : RebuildHost) : Prop := ∀ target, h.restoring target = .done

theorem restoreTarget_done {h : RebuildHost} (hrestores : h.Restores) (snapshot : ViewFiles)
    (target : Text) (files : ViewFiles) :
    restoreTarget h snapshot target files = (Batch.set target (snapshot target) files, none) := by
  rw [restoreTarget, hrestores target]

/-- **A publication that fails puts everything back.** -/
theorem publishViews_error {h : RebuildHost} (hrestores : h.Restores)
    {views : List (Text × Text)} {files : ViewFiles} {e : RebuildError}
    (herror : (publishViews h views files).2 = .error e) :
    (publishViews h views files).1 = files := by
  have hback : Batch.restoreAll (restoreTarget h files)
      (Batch.publishAll (publishView h) views [] files).2.1
      (Batch.publishAll (publishView h) views [] files).1 = (files, none) :=
    Batch.rollback (publishView_local h) fun k _ g => restoreTarget_done hrestores files k g
  rw [publishViews] at herror ⊢
  split at herror
  · rfl
  · split at herror
    · cases herror
    · rename_i partly applied e' hpublish
      rw [hpublish] at hback
      simp only at hback
      rw [hback]

/-- **A publication that succeeds has published every view**, and nothing
else. -/
theorem publishViews_ok {h : RebuildHost} {views : List (Text × Text)} {files : ViewFiles}
    (hkeys : (views.map Prod.fst).Nodup) (hok : (publishViews h views files).2 = .ok ()) :
    (∀ view ∈ views, Holds (publishViews h views files).1 view.1 view.2) ∧
      ∀ k, k ∉ views.map Prod.fst → (publishViews h views files).1 k = files k := by
  have hpublished : ∀ {applied : List Text},
      (Batch.publishAll (publishView h) views applied files).2.2 = none → _ :=
    Batch.publishAll_published (publishView_local h)
      (P := fun view file => ∃ f, file = some f ∧ f.bytes = utf8 view.2)
      (fun view f hdone => publishView_holds hdone) hkeys
  rw [publishViews] at hok ⊢
  split at hok
  · cases hok
  · split at hok
    · rename_i published applied hpublish
      have hviews := hpublished (by rw [hpublish])
      rw [hpublish] at hviews
      exact hviews
    · split at hok <;> cases hok

theorem publishViews_failed {h : RebuildHost} {views : List (Text × Text)} (files : ViewFiles)
    {view : Text × Text} (hview : view ∈ views) (hfailed : h.publishing view.1 = .failed) :
    (publishViews h views files).2 ≠ .ok () := by
  intro hok
  rw [publishViews] at hok
  split at hok
  · cases hok
  · split at hok
    · rename_i published applied hpublish
      have hnone : (Batch.publishAll (publishView h) views [] files).2.2 = none := by rw [hpublish]
      obtain ⟨f', hf'⟩ := Batch.publishAll_none hnone hview
      rw [publishView_failed f' hfailed] at hf'
      cases hf'
    · split at hok <;> cases hok

/-! ## The command as a whole -/

theorem checkViews_nodup {t : Toolbox} {h : RebuildHost} {store : CanonicalStore} {planId : Text}
    (hok : checkViews t h store planId = .ok ()) :
    ((rebuiltViews t store planId).map Prod.fst).Nodup := by
  by_contra hdup
  rw [checkViews] at hok
  simp only [hdup, not_false_eq_true, true_or, if_true] at hok
  repeat' split at hok
  all_goals cases hok

/-- The files describe a store: no plan and no event of it is left out. -/
structure Describes (t : Toolbox) (store : CanonicalStore) (files : ViewFiles) : Prop where
  index : ∃ content data plans loose events, Holds files indexJsonPath content ∧
    Json.loads content = some (.obj data) ∧
    SortedMap.get? (txt "plans") data = some (.arr plans) ∧
    SortedMap.get? (txt "loose_commits") data = some (.arr loose) ∧
    SortedMap.get? (txt "events") data = some (.arr events) ∧ HasRows t store plans loose events
  markdown : ∃ content, Holds files indexMdPath content ∧
    (∀ plan ∈ store.plans, planLine plan <:+: content ∧
      ∀ e ∈ plan.events, eventLine e <:+: content) ∧
    ∀ e ∈ store.unplanned, eventLine e <:+: content
  consolidatedHtml : ∃ content, Holds files consolidatedHtmlPath content ∧
    ∀ plan ∈ store.plans, ∀ article ∈ consolidatedArticles plan, article <:+: content
  consolidatedMarkdown : ∃ content, Holds files consolidatedMdPath content ∧
    ∀ plan ∈ store.plans, ∀ line ∈ consolidatedLines plan, line <:+: content

/-- **The global views describe the whole store.** -/
theorem describes_of_holds {t : Toolbox} {store : CanonicalStore} {files : ViewFiles}
    (h : ∀ view ∈ globalViews t store, Holds files view.1 view.2) : Describes t store files where
  index := by
    obtain ⟨data, plans, loose, events, hloads, hplans, hloose, hevents, hrows⟩ :=
      index_rows t store
    exact ⟨_, data, plans, loose, events, h _ List.mem_cons_self, hloads, hplans, hloose, hevents,
      hrows⟩
  markdown := by
    refine ⟨renderIndexMarkdown store, h _ (.tail _ (.head _)),
      fun plan hplan => ⟨indexMarkdown_plan store hplan, fun e he => ?_⟩, fun e he => ?_⟩
    · exact indexMarkdown_event store
        (List.mem_append_left _ (List.mem_flatMap.mpr ⟨plan, hplan, he⟩))
    · exact indexMarkdown_event store (List.mem_append_right _ he)
  consolidatedHtml :=
    ⟨renderConsolidatedHtml store.plans, h _ (.tail _ (.tail _ (.head _))),
      fun _ hplan _ => consolidatedHtml_article hplan⟩
  consolidatedMarkdown :=
    ⟨renderConsolidatedMarkdown store.plans, h _ (.tail _ (.tail _ (.tail _ (.head _)))),
      fun _ hplan _ => consolidatedMarkdown_line hplan⟩

/-- What is left of a rebuild after its checks. -/
theorem rebuild_eq {t : Toolbox} {h : RebuildHost} {store : CanonicalStore} {planId : Text}
    (hcheck : checkViews t h store planId = .ok ()) (hlocked : h.locked = true)
    (files : ViewFiles) :
    rebuildLegacyViews t h store true planId files =
      ((publishViews h (rebuiltViews t store planId) files).1,
        (publishViews h (rebuiltViews t store planId) files).2.map
          fun _ => rebuildReport t store true planId) := by
  rw [rebuildLegacyViews, hcheck, hlocked]
  simp only [Bool.not_true, Bool.false_eq_true, if_false]
  split <;> rename_i hpublish <;> rw [hpublish] <;> rfl

/-- **A rebuild is all or nothing.** With restores that succeed, an error
leaves every file as it was; a view that cannot be published is an error;
and a rebuild that succeeds has written every view and no other file, and
describes the whole store whichever plan was selected. -/
theorem rebuild_all_or_nothing (t : Toolbox) (h : RebuildHost) (hrestores : h.Restores)
    (store : CanonicalStore) (planId : Text) (files : ViewFiles) :
    (∀ e, (rebuildLegacyViews t h store true planId files).2 = .error e →
      (rebuildLegacyViews t h store true planId files).1 = files) ∧
    (∀ view ∈ rebuiltViews t store planId, h.publishing view.1 = .failed →
      ∃ e, (rebuildLegacyViews t h store true planId files).2 = .error e) ∧
    ∀ report, (rebuildLegacyViews t h store true planId files).2 = .ok report →
      (∀ view ∈ rebuiltViews t store planId,
        Holds (rebuildLegacyViews t h store true planId files).1 view.1 view.2) ∧
      (∀ k, k ∉ (rebuiltViews t store planId).map Prod.fst →
        (rebuildLegacyViews t h store true planId files).1 k = files k) ∧
      Describes t store (rebuildLegacyViews t h store true planId files).1 := by
  cases hcheck : checkViews t h store planId with
  | error e =>
      have hresult : rebuildLegacyViews t h store true planId files = (files, .error e) := by
        rw [rebuildLegacyViews, hcheck]
      rw [hresult]
      exact ⟨fun _ _ => rfl, fun _ _ _ => ⟨e, rfl⟩, fun report hok => (nomatch hok)⟩
  | ok _ =>
      cases hlocked : h.locked with
      | false =>
          have hresult : rebuildLegacyViews t h store true planId files = (files, .error .os) := by
            rw [rebuildLegacyViews, hcheck, hlocked]
            rfl
          rw [hresult]
          exact ⟨fun _ _ => rfl, fun _ _ _ => ⟨.os, rfl⟩, fun report hok => (nomatch hok)⟩
      | true =>
          rw [rebuild_eq hcheck hlocked]
          cases houtcome : (publishViews h (rebuiltViews t store planId) files).2 with
          | error e =>
              exact ⟨fun _ _ => publishViews_error hrestores houtcome,
                fun _ _ _ => ⟨e, rfl⟩, fun report hok => (nomatch hok)⟩
          | ok _ =>
              obtain ⟨hviews, hother⟩ := publishViews_ok (checkViews_nodup hcheck) houtcome
              refine ⟨fun e herror => (nomatch herror), fun view hview hfailed => ?_,
                fun report _ => ⟨hviews, hother, ?_⟩⟩
              · exact absurd houtcome (publishViews_failed files hview hfailed)
              · exact describes_of_holds fun view hview =>
                  hviews view (List.mem_append_right _ hview)

/-! ## A publication that fails halfway -/

def sampleGit : Git := ⟨txt "main", txt "abc1234", txt "w", txt "r"⟩

def sampleState : State where
  planId := txt "p"
  planPath := txt ".ralph/plans/p.md"
  generation := 1
  semanticHash := []
  status := .active
  classification := .green
  phase := []
  objective := txt "p"
  latestDecision := none
  nextAction := []
  openBlockers := []
  openQuestions := []
  validation := []
  activeFiles := []
  lastOperationId := txt "op-1"
  lastEventSequence := 1
  lastEventHash := []
  git := sampleGit
  writerSessionId := []
  modelFamily := .unknown
  modelSource := .unknown
  modelVerified := false
  origin := txt "implementation-progress"
  intent := txt "progress-maintenance"
  createdAt := txt "2026-01-01T00:00:00+00:00"
  updatedAt := txt "2026-01-01T00:00:00+00:00"

def sampleStore : CanonicalStore := ⟨txt "/r", [⟨txt "p", sampleState, []⟩], []⟩

/-- The Markdown of the index is replaced, and its directory cannot be
synchronised; the consolidated pages cannot be replaced at all. -/
def halfwayHost : RebuildHost where
  directorySafe := true
  staging _ := .kept
  locked := true
  aliased _ := false
  publishing target :=
    if target = indexMdPath then .cut else if target = consolidatedHtmlPath then .failed else .done
  restoring _ := .done

/-- Notes that are there before the rebuild. -/
def sampleFiles : ViewFiles :=
  Batch.set (notesPathOf (txt "p")) (some ⟨utf8 (txt "<main>old</main>"), 0o644⟩) fun _ => none

theorem rebuild_halfway :
    (rebuildLegacyViews indexToolbox halfwayHost sampleStore true [] sampleFiles).1 =
      sampleFiles := by
  have hall := rebuild_all_or_nothing indexToolbox halfwayHost (fun _ => rfl) sampleStore []
    sampleFiles
  have hview : (consolidatedHtmlPath, renderConsolidatedHtml sampleStore.plans) ∈
      rebuiltViews indexToolbox sampleStore [] :=
    List.mem_append_right _ (.tail _ (.tail _ (.head _)))
  obtain ⟨e, herror⟩ := hall.2.1 _ hview (by decide)
  exact hall.1 e herror

end RalphVault.Plans
