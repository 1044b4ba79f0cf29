import RalphVault.Archive.Runs

/-!
# Recovering archived sessions

When every session file can be got back: after a step that raised, from its
row or through the manifest and the restore script, and after a completed
archive by the restore script alone. A run that stops after its first move
leaves no restore script, also when it stops because two rows name one file.
-/

namespace RalphVault.Archive

open Relocation

/-! ## The property -/

/-- After a stop: every file a row names is still where the row says, or it is
in the manifest and the restore script puts it back. -/
def Recoverable (home : CodexHome) (before after : Disk) : Prop :=
  ∀ row ∈ after.threads.rows, ∀ path content, row.rolloutPath = some path →
    before.files (home.locate path) = some content →
      after.files (home.locate path) = some content ∨
        (after.script = true ∧
          (∃ text, after.manifest = some text ∧
            ∃ u ∈ (readManifest text).1, home.locate u.source = home.locate path) ∧
          (restoreSessions home after).files (home.locate path) = some content)

/-- A row as it was, not archived if it was a candidate's. -/
def unarchived (items : List SessionCandidate) (row : ThreadRow) : ThreadRow :=
  if row.id ∈ items.map SessionCandidate.threadId then
    { row with archived := false, archivedAt := none }
  else row

/-- After a completed archive: the restore script puts every file and every row back. -/
def Restorable (home : CodexHome) (before after : Disk) (items : List SessionCandidate) : Prop :=
  (restoreSessions home after).files = before.files ∧
    (restoreSessions home after).threads.rows = before.threads.rows.map (unarchived items)

/-- Archiving is recoverable. -/
def ArchivingRecoverable (home : CodexHome) (disk : Disk) (cutoff now : Int) (fault : Option Fault) :
    Prop :=
  match archiveSessions home disk cutoff now fault with
  | (.nothing, after) => after = disk
  | (.raised, after) => Recoverable home disk after
  | (.completed, after) =>
      Restorable home disk after (activeSessionCandidates home disk cutoff)

/-! ## The condition -/

/-- The restore script and the records of some candidates read as they were written. -/
structure ScriptReads (home : CodexHome) (items : List SessionCandidate) : Prop where
  manifest : rawLiteral home.manifest.text = true
  stateDb : rawLiteral home.stateDb.text = true
  whole : ∀ c ∈ items, (c.record home).whole = true

/-- A candidate that its record restores: it has an identifier, its row has the
path as `pathlib` writes it, and nothing is where it goes. -/
structure Restores (home : CodexHome) (disk : Disk) (c : SessionCandidate) : Prop where
  threadId : c.threadId ≠ []
  path : ∃ row ∈ disk.threads.rows, row.id = c.threadId ∧ row.rolloutPath = some c.source.text
  free : disk.files (home.resolve (c.dest home)) = none

/-- No file that a row names is overwritten by another content. -/
def Collides (home : CodexHome) (disk : Disk) (c : SessionCandidate) : Prop :=
  ∃ row ∈ disk.threads.rows, ∃ path, row.rolloutPath = some path ∧
    home.locate path = home.resolve (c.dest home) ∧
      disk.files (home.locate path) ≠ none ∧ disk.files (home.locate path) ≠ disk.files (c.place home)

/-- When archiving is recoverable: it stops before its first move; or in a
backup folder that has the restore script already, each move recorded; or it
does not stop, and every record restores its candidate. -/
def Safe (home : CodexHome) (disk : Disk) (items : List SessionCandidate) (fault : Option Fault) :
    Prop :=
  match stopAt home [] items fault with
  | some s =>
      s.moved = 0 ∨
        (disk.script = true ∧ s.recorded = true ∧ ScriptReads home (items.take s.moved) ∧
          ∀ c ∈ items.take s.moved, ¬Collides home disk c)
  | none => items ≠ [] → ScriptReads home items ∧ ∀ c ∈ items, Restores home disk c

/-! ## After a stop -/

section Stop

variable {home : CodexHome} {disk after : Disk} {cutoff now : Int} {items : List SessionCandidate}
  {s : Stop} {item : SessionCandidate}

/-- What the script reads of a manifest that the loop left: records of moved
candidates, all of them when they are whole. -/
theorem exists_back {text : Text} {p p' : Progress} (hp : p.manifest = [])
    (h : Stopped home items p s p') (htext : text = p'.manifest) :
    ∃ back, (readManifest text).1 = back.map (SessionCandidate.undo home) ∧
      back <+: items.take s.moved ∧
      (s.recorded = true →
        back = (items.take s.moved).takeWhile fun c => (c.record home).whole) ∧
      (s.recorded = false → back <+: items.take (s.moved - 1)) := by
  subst htext
  cases hs : s.recorded with
  | true =>
      rw [h.recorded hs, hp, List.nil_append, readManifest_text]
      refine ⟨(items.take s.moved).takeWhile fun c => (c.record home).whole, ?_,
        List.takeWhile_prefix _, fun _ => rfl, nofun⟩
      rw [List.takeWhile_map, List.map_map]
      rfl
  | false =>
      obtain ⟨-, hcut⟩ := h.cut hs
      rw [hp, List.nil_append] at hcut
      have hbegin := readManifest_cut hcut
      rw [List.map_map] at hbegin
      obtain ⟨back, hback, hmap⟩ := List.prefix_map_iff.mp hbegin
      have hshort : items.take (s.moved - 1) <+: items.take s.moved :=
        List.take_prefix_take_left (Nat.sub_le _ _)
      exact ⟨back, hmap, hback.trans hshort, nofun, fun _ => hback⟩

theorem stopped_away (happart : Apart ((items.take s.moved).map (SessionCandidate.move home)))
    {p' : Progress} (h : Stopped home items ⟨disk.files, [], disk.threads⟩ s p')
    (hitem : item ∈ items.take s.moved) :
    p'.files (item.place home) = none ∧
      p'.files (home.resolve (item.dest home)) = disk.files (item.place home) := by
  have hmem : item.move home ∈ (items.take s.moved).map (SessionCandidate.move home) :=
    List.mem_map_of_mem hitem
  rw [h.files]
  exact ⟨shiftAll_source happart hmem, shiftAll_target happart hmem⟩

/-- **After a stop past the first move, every file can be got back exactly when
an older restore script reads the records of all that was moved**, and nothing
was overwritten. -/
theorem recoverable_stopped_iff {p' : Progress}
    (hitems : ∀ c ∈ items, ∃ row ∈ disk.threads.rows, IsCandidate home disk row c)
    (hplaces : ((items.take s.moved).map (SessionCandidate.place home)).Nodup)
    (h : Stopped home items ⟨disk.files, [], disk.threads⟩ s p')
    (hlength : s.moved ≤ items.length) (hmoved : s.moved ≠ 0) :
    Recoverable home disk { disk with files := p'.files, manifest := some p'.manifest } ↔
      disk.script = true ∧ s.recorded = true ∧ ScriptReads home (items.take s.moved) ∧
        ∀ c ∈ items.take s.moved, ¬Collides home disk c := by
  have hrows : ∀ c ∈ items.take s.moved, ∃ row ∈ disk.threads.rows, IsCandidate home disk row c :=
    fun c hc => hitems c (List.mem_of_mem_take hc)
  have happart := apart_moves hrows hplaces
  have hthere : ∀ m ∈ (items.take s.moved).map (SessionCandidate.move home),
      (disk.files m.1).isSome = true := by
    intro m hm
    obtain ⟨c, hc, rfl⟩ := List.mem_map.mp hm
    obtain ⟨row, -, hrow⟩ := hrows c hc
    exact hrow.file
  obtain ⟨back, hread, hback, hrecorded, hcut⟩ := exists_back rfl h rfl
  have hsub : (back.map (SessionCandidate.move home)).Sublist
      ((items.take s.moved).map (SessionCandidate.move home)) := hback.sublist.map _
  -- the files after the script, when it runs
  have hfiles : Runs home { disk with files := p'.files, manifest := some p'.manifest } →
      (restoreSessions home { disk with files := p'.files, manifest := some p'.manifest }).files =
        Relocation.undo (back.map (SessionCandidate.move home))
          (shiftAll ((items.take s.moved).map (SessionCandidate.move home)) disk.files) := by
    intro hruns
    rw [(restoreSessions_runs hruns rfl).1, hread, foldl_restoreOne_files, h.files]
  constructor
  · intro hrecover
    -- every moved file is only there after the script
    have hscript : ∀ c ∈ items.take s.moved,
        Runs home { disk with files := p'.files, manifest := some p'.manifest } ∧ c ∈ back := by
      intro c hc
      obtain ⟨row, hrow, hcandidate⟩ := hrows c hc
      obtain ⟨rollout, hrollout, hsource⟩ := hcandidate.path
      obtain ⟨content, hcontent⟩ := Option.isSome_iff_exists.mp hcandidate.file
      have hlocate : home.locate rollout = c.place home := by
        rw [CodexHome.locate, ← hsource]
        rfl
      have haway := (stopped_away happart h hc).1
      obtain hstill | ⟨hruns, -, hrestored⟩ :=
        hrecover row hrow rollout content hrollout (by rw [hlocate]; exact hcontent)
      · rw [hlocate] at hstill
        exact absurd (haway.symm.trans hstill) nofun
      · rw [hlocate] at hrestored
        by_cases hrun : Runs home { disk with files := p'.files, manifest := some p'.manifest }
        · refine ⟨hrun, by_contra fun hnot => ?_⟩
          have hmissing := undo_missing happart hsub hthere
            (List.mem_map_of_mem hc) (fun hmem => by
              obtain ⟨c', hc', heq⟩ := List.mem_map.mp hmem
              have hplace : c'.place home = c.place home := congrArg Prod.fst heq
              have hsame := List.inj_on_of_nodup_map hplaces (hback.subset hc') hc hplace
              exact hnot (hsame ▸ hc'))
          rw [hfiles hrun] at hrestored
          exact absurd (hmissing.symm.trans hrestored) nofun
        · rw [restoreSessions_idle hrun] at hrestored
          exact absurd (haway.symm.trans hrestored) nofun
    obtain ⟨last, hlast⟩ : ∃ last, items.take s.moved = items.take (s.moved - 1) ++ [last] := by
      obtain ⟨k, hk⟩ : ∃ k, s.moved = k + 1 := ⟨s.moved - 1, by omega⟩
      refine ⟨items[k], ?_⟩
      rw [hk, Nat.add_sub_cancel, List.take_succ_eq_append_getElem]
    have hmem : last ∈ items.take s.moved := by
      rw [hlast]
      exact List.mem_append_right _ List.mem_cons_self
    obtain ⟨hruns, hlastback⟩ := hscript last hmem
    have hrec : s.recorded = true := by
      by_contra hnot
      have hshort := (hcut (by simpa using hnot)).subset hlastback
      rw [hlast, List.map_append] at hplaces
      refine (List.nodup_append.mp hplaces).2.2 _ (List.mem_map_of_mem hshort) _ ?_ rfl
      exact List.mem_cons_self
    refine ⟨hruns.script, hrec, ⟨hruns.manifest, hruns.stateDb, ?_⟩, ?_⟩
    · intro c hc
      have hcback := (hscript c hc).2
      rw [hrecorded hrec] at hcback
      have hwhole := List.mem_takeWhile_imp hcback
      exact hwhole
    · rintro c hc ⟨row, hrow, path, hpath, hlocate, hthere', hother⟩
      obtain ⟨content, hcontent⟩ := Option.ne_none_iff_exists'.mp hthere'
      have hmove := List.mem_map_of_mem (f := SessionCandidate.move home) (hscript c hc).2
      have hvacated := undo_target happart hsub hthere hmove
      obtain hstill | ⟨-, -, hrestored⟩ := hrecover row hrow path content hpath hcontent
      · rw [hlocate] at hstill hother hcontent
        refine hother ?_
        rw [hcontent, ← (stopped_away happart h hc).2]
        exact hstill.symm
      · rw [hlocate, hfiles hruns] at hrestored
        exact absurd (hvacated.symm.trans hrestored) nofun
  · rintro ⟨hscript, hrec, hreads, hcollides⟩ row hrow path content hpath hcontent
    have hruns : Runs home { disk with files := p'.files, manifest := some p'.manifest } :=
      ⟨hscript, hreads.manifest, hreads.stateDb⟩
    have hall : back = items.take s.moved := by
      rw [hrecorded hrec]
      exact List.takeWhile_eq_self_iff.mpr hreads.whole
    by_cases hplace : ∃ c ∈ items.take s.moved, c.place home = home.locate path
    · -- the file of a candidate: the script puts it back
      obtain ⟨c, hc, hlocate⟩ := hplace
      have hcback : c ∈ back := by
        rw [hall]
        exact hc
      refine .inr ⟨hscript, ⟨p'.manifest, rfl, c.undo home, ?_, ?_⟩, ?_⟩
      · rw [hread]
        exact List.mem_map_of_mem hcback
      · show home.resolve (PurePath.parse c.source.text) = home.locate path
        rw [PurePath.parse_text]
        exact hlocate
      · have hrestored := undo_source happart hsub hthere (List.mem_map_of_mem hcback)
        rw [hfiles hruns, ← hlocate]
        rw [← hlocate] at hcontent
        exact hrestored.trans hcontent
    · by_cases hdest : ∃ c ∈ items.take s.moved, home.resolve (c.dest home) = home.locate path
      · -- a file that was overwritten, by one of its content
        obtain ⟨c, hc, hlocate⟩ := hdest
        left
        show p'.files (home.locate path) = some content
        rw [← hlocate, (stopped_away happart h hc).2]
        by_contra hother
        refine hcollides c hc ⟨row, hrow, path, hpath, hlocate.symm, ?_, ?_⟩
        · rw [hcontent]
          exact nofun
        · rw [hcontent]
          exact fun heq => hother heq.symm
      · left
        show p'.files (home.locate path) = some content
        rw [h.files, shiftAll_other]
        · exact hcontent
        · intro m hm heq
          obtain ⟨c, hc, rfl⟩ := List.mem_map.mp hm
          exact hplace ⟨c, hc, heq⟩
        · intro m hm heq
          obtain ⟨c, hc, rfl⟩ := List.mem_map.mp hm
          exact hdest ⟨c, hc, heq⟩

end Stop

/-! ## After a completed archive -/

section Completed

variable {home : CodexHome} {disk : Disk} {cutoff now : Int} {items : List SessionCandidate}
  {item : SessionCandidate}

/-- The row of a candidate after the archive. -/
def archivedRow (home : CodexHome) (now : Int) (c : SessionCandidate) : ThreadRow → ThreadRow :=
  setArchived (c.dest home).text now

/-- The row of a candidate after the restore script. -/
def restoredRow (c : SessionCandidate) (row : ThreadRow) : ThreadRow :=
  if c.threadId.isEmpty then row else setRestored c.source.text row

theorem advance_rows (items : List SessionCandidate) (p : Progress) :
    (advance home now items p).threads.rows = p.threads.rows.map fun row =>
      items.foldl (fun row c => if row.id = c.threadId then archivedRow home now c row else row)
        row := by
  induction items generalizing p with
  | nil => exact (List.map_id' _).symm
  | cons item items ih =>
      have hrest := ih (archiveOne home now p item)
      rw [archiveOne, Threads.archive, Threads.update] at hrest
      rw [advance, List.foldl_cons]
      refine hrest.trans ?_
      rw [List.map_map]
      rfl

theorem restore_rows (back : List SessionCandidate) (s : Files × Threads) :
    ((back.map (SessionCandidate.undo home)).foldl (restoreOne home) s).2.rows =
      s.2.rows.map fun row =>
        back.foldl (fun row c => if row.id = c.threadId then restoredRow c row else row) row := by
  induction back generalizing s with
  | nil => exact (List.map_id' _).symm
  | cons c back ih =>
      have hone : (restoreOne home s (c.undo home)).2.rows =
          s.2.rows.map fun row => if row.id = c.threadId then restoredRow c row else row := by
        show (if c.threadId.isEmpty then s.2 else s.2.update c.threadId
          (setRestored (PurePath.parse c.source.text).text) (setRestored_id _)).rows = _
        rw [PurePath.parse_text]
        unfold restoredRow
        split
        · exact ((List.map_congr_left fun row _ => ite_self row).trans (List.map_id' _)).symm
        · rfl
      rw [List.map_cons, List.foldl_cons, ih, hone, List.map_map]
      rfl

/-- Every row after the archive, and after the script that read every record. -/
def archivedRows (home : CodexHome) (now : Int) (items : List SessionCandidate) (row : ThreadRow) :
    ThreadRow :=
  items.foldl (fun row c => if row.id = c.threadId then archivedRow home now c row else row) row

def restoredRows (items : List SessionCandidate) (row : ThreadRow) : ThreadRow :=
  items.foldl (fun row c => if row.id = c.threadId then restoredRow c row else row) row

section Row

variable {row : ThreadRow}

theorem restoredRow_id (c : SessionCandidate) (row : ThreadRow) : (restoredRow c row).id = row.id := by
  unfold restoredRow
  split <;> rfl

theorem archivedRows_candidate (hids : (items.map SessionCandidate.threadId).Nodup)
    (hitem : item ∈ items) (h : row.id = item.threadId) :
    archivedRows home now items row = archivedRow home now item row :=
  foldl_row_candidate (fun _ _ => rfl) hids hitem h

theorem unarchived_candidate (hitem : item ∈ items) (h : row.id = item.threadId) :
    unarchived items row = { row with archived := false, archivedAt := none } := by
  refine if_pos ?_
  rw [h]
  exact List.mem_map_of_mem hitem

/-- The row of a candidate comes back exactly when it has an identifier and
its path is spelled as the record has it. -/
theorem restoredRows_candidate (hids : (items.map SessionCandidate.threadId).Nodup)
    (hitem : item ∈ items) (h : row.id = item.threadId) :
    restoredRows items (archivedRows home now items row) = unarchived items row ↔
      item.threadId ≠ [] ∧ row.rolloutPath = some item.source.text := by
  have hrestored : restoredRows items (archivedRows home now items row) =
      restoredRow item (archivedRow home now item row) := by
    rw [archivedRows_candidate hids hitem h]
    exact foldl_row_candidate restoredRow_id hids hitem h
  rw [hrestored, unarchived_candidate hitem h, restoredRow]
  split
  · rename_i hempty
    refine iff_of_false (fun heq => ?_) fun hne => hne.1 (List.isEmpty_iff.mp hempty)
    exact absurd (congrArg ThreadRow.archived heq) nofun
  · rename_i hempty
    constructor
    · intro heq
      have hpath := congrArg ThreadRow.rolloutPath heq
      exact ⟨fun hnil => hempty (List.isEmpty_iff.mpr hnil), hpath.symm⟩
    · rintro ⟨-, hpath⟩
      obtain ⟨id, title, rolloutPath, updatedAt, archived, archivedAt⟩ := row
      obtain rfl : rolloutPath = some item.source.text := hpath
      rfl

theorem rows_other (h : ∀ c ∈ items, row.id ≠ c.threadId) :
    restoredRows items (archivedRows home now items row) = unarchived items row := by
  have harchived : archivedRows home now items row = row := foldl_row_other h
  rw [harchived, restoredRows, foldl_row_other h, unarchived, if_neg]
  intro hmem
  obtain ⟨c, hc, hid⟩ := List.mem_map.mp hmem
  exact h c hc hid.symm

end Row

/-- The rows come back exactly when every candidate's row does. -/
theorem rows_iff (hitems : ∀ c ∈ items, ∃ row ∈ disk.threads.rows, IsCandidate home disk row c)
    (hids : (items.map SessionCandidate.threadId).Nodup) :
    disk.threads.rows.map (fun row => restoredRows items (archivedRows home now items row)) =
        disk.threads.rows.map (unarchived items) ↔
      ∀ c ∈ items, c.threadId ≠ [] ∧
        ∃ row ∈ disk.threads.rows, row.id = c.threadId ∧ row.rolloutPath = some c.source.text := by
  rw [List.map_inj_left]
  constructor
  · intro h c hc
    obtain ⟨row, hrow, hcandidate⟩ := hitems c hc
    obtain ⟨hne, hpath⟩ :=
      (restoredRows_candidate hids hc hcandidate.threadId.symm).mp (h row hrow)
    exact ⟨hne, row, hrow, hcandidate.threadId.symm, hpath⟩
  · intro h row hrow
    by_cases hc : ∃ c ∈ items, row.id = c.threadId
    · obtain ⟨c, hc, hid⟩ := hc
      obtain ⟨hne, row', hrow', hid', hpath⟩ := h c hc
      have hsame : row' = row :=
        List.inj_on_of_nodup_map disk.threads.nodup hrow' hrow (hid'.trans hid.symm)
      subst hsame
      exact (restoredRows_candidate hids hc hid).mpr ⟨hne, hpath⟩
    · exact rows_other fun c hcmem hid => hc ⟨c, hcmem, hid⟩

/-- The archive leaves the row of a candidate archived. -/
theorem archived_ne_unarchived
    (hitems : ∀ c ∈ items, ∃ row ∈ disk.threads.rows, IsCandidate home disk row c)
    (hids : (items.map SessionCandidate.threadId).Nodup) (hne : items ≠ []) :
    disk.threads.rows.map (archivedRows home now items) ≠
      disk.threads.rows.map (unarchived items) := by
  intro heq
  obtain ⟨c, rest, rfl⟩ := List.exists_cons_of_ne_nil hne
  obtain ⟨row, hrow, hcandidate⟩ := hitems c List.mem_cons_self
  have hone := List.map_inj_left.mp heq row hrow
  rw [archivedRows_candidate hids List.mem_cons_self hcandidate.threadId.symm,
    unarchived_candidate List.mem_cons_self hcandidate.threadId.symm] at hone
  exact absurd (congrArg ThreadRow.archived hone) nofun

/-- The disk after an archive that came to its end. -/
def archivedDisk (home : CodexHome) (disk : Disk) (now : Int) (items : List SessionCandidate) : Disk :=
  let p := advance home now items ⟨disk.files, [], disk.threads⟩
  { disk with files := p.files, manifest := some p.manifest, script := true, threads := p.threads }

/-- **After a completed archive, the restore script puts everything back
exactly when it reads every record and every record restores its candidate.** -/
theorem restorable_completed_iff
    (hitems : ∀ c ∈ items, ∃ row ∈ disk.threads.rows, IsCandidate home disk row c)
    (hids : (items.map SessionCandidate.threadId).Nodup)
    (hplaces : (items.map (SessionCandidate.place home)).Nodup) (hne : items ≠ []) :
    Restorable home disk (archivedDisk home disk now items) items ↔
      ScriptReads home items ∧ ∀ c ∈ items, Restores home disk c := by
  have happart := apart_moves hitems hplaces
  have hthere : ∀ m ∈ items.map (SessionCandidate.move home), (disk.files m.1).isSome = true := by
    intro m hm
    obtain ⟨c, hc, rfl⟩ := List.mem_map.mp hm
    obtain ⟨row, -, hrow⟩ := hitems c hc
    exact hrow.file
  have hrows : (archivedDisk home disk now items).threads.rows =
      disk.threads.rows.map (archivedRows home now items) := advance_rows items _
  have htext : (archivedDisk home disk now items).manifest =
      some (manifestText (items.map (SessionCandidate.record home))) :=
    congrArg some (advance_manifest items _)
  have hread := readManifest_text (items.map (SessionCandidate.record home))
  by_cases hruns : Runs home (archivedDisk home disk now items)
  · obtain ⟨hfiles, hthreads⟩ := restoreSessions_runs hruns htext
    rw [hread] at hfiles hthreads
    by_cases hwhole : ∀ c ∈ items, (c.record home).whole = true
    · -- every record is read
      have hall : (items.map (SessionCandidate.record home)).all Moved.whole = true := by
        rw [List.all_map, List.all_eq_true]
        exact hwhole
      have hback : ((items.map (SessionCandidate.record home)).takeWhile Moved.whole).map
          Moved.undo = items.map (SessionCandidate.undo home) := by
        rw [List.takeWhile_eq_self_iff.mpr (List.all_eq_true.mp hall), List.map_map]
        rfl
      have hundone : (archivedDisk home disk now items).files =
          shiftAll (items.map (SessionCandidate.move home)) disk.files := advance_files items _
      rw [hback] at hfiles hthreads
      rw [if_pos hall] at hthreads
      rw [foldl_restoreOne_files, hundone] at hfiles
      have hrestored := @restore_rows home items
        ((archivedDisk home disk now items).files, (archivedDisk home disk now items).threads)
      rw [hrows, List.map_map] at hrestored
      rw [Restorable, hfiles, hthreads, hrestored, undo_all_iff happart hthere]
      refine Iff.trans (and_congr Iff.rfl (rows_iff hitems hids)) ?_
      constructor
      · rintro ⟨hfree, hback'⟩
        refine ⟨⟨hruns.manifest, hruns.stateDb, hwhole⟩, fun c hc => ?_⟩
        exact ⟨(hback' c hc).1, (hback' c hc).2, hfree _ (List.mem_map_of_mem hc)⟩
      · rintro ⟨-, hrestores⟩
        refine ⟨fun m hm => ?_, fun c hc => ⟨(hrestores c hc).threadId, (hrestores c hc).path⟩⟩
        obtain ⟨c, hc, rfl⟩ := List.mem_map.mp hm
        exact (hrestores c hc).free
    · -- the script raises at a broken record, and the rows stay archived
      have hall : (items.map (SessionCandidate.record home)).all Moved.whole ≠ true := by
        rw [List.all_map]
        exact fun h => hwhole (List.all_eq_true.mp h)
      rw [if_neg hall] at hthreads
      refine iff_of_false (fun h => ?_) fun h => hwhole h.1.whole
      have hsame := h.2
      rw [hthreads, hrows] at hsame
      exact archived_ne_unarchived hitems hids hne hsame
  · -- the script does nothing
    refine iff_of_false (fun h => ?_) fun h => hruns ⟨rfl, h.1.manifest, h.1.stateDb⟩
    have hsame := h.2
    rw [restoreSessions_idle hruns, hrows] at hsame
    exact archived_ne_unarchived hitems hids hne hsame

/-! ## Every run -/

end Completed
/-! ## A home without links -/

/-- The places of a file system without links, in its root. -/
def plainResolve (p : PurePath) : Place :=
  p.parts.foldl (fun place n => if n = parent then place.dropLast else place ++ [n]) []

theorem foldl_parent (parts : List Name) {place : Place} (h : parent ∉ place) :
    parent ∉ parts.foldl (fun place n => if n = parent then place.dropLast else place ++ [n])
      place := by
  induction parts generalizing place with
  | nil => exact h
  | cons n parts ih =>
      refine ih ?_
      dsimp only
      split
      · exact fun hmem => h (List.dropLast_subset _ hmem)
      · rename_i hn
        intro hmem
        rcases List.mem_append.mp hmem with hmem | hmem
        · exact h hmem
        · exact hn (List.mem_singleton.mp hmem).symm

theorem foldl_names {parts : List Name} (h : parent ∉ parts) (place : Place) :
    parts.foldl (fun place n => if n = parent then place.dropLast else place ++ [n]) place =
      place ++ parts := by
  induction parts generalizing place with
  | nil => exact (List.append_nil _).symm
  | cons n parts ih =>
      obtain ⟨hn, hparts⟩ := List.ne_and_not_mem_of_not_mem_cons h
      rw [List.foldl_cons, if_neg (Ne.symm hn), ih hparts, List.append_assoc]
      rfl

def codex : Name := ⟨txt ".codex", by decide⟩
def sessions : Name := ⟨txt "sessions", by decide⟩
def archivedSessions : Name := ⟨txt "archived_sessions", by decide⟩
def stampFolder : Name := ⟨txt "keep-codex-fast-20260102-030405", by decide⟩
def backups : Name := ⟨txt "backups", by decide⟩

def plainHome : CodexHome where
  resolve := plainResolve
  sessionsRoot := [codex, sessions]
  archiveRoot := ⟨.slash, [codex, archivedSessions, stampFolder]⟩
  manifest := ⟨.slash, [codex, backups, ⟨txt "moved-sessions.jsonl", by decide⟩]⟩
  stateDb := ⟨.slash, [codex, ⟨txt "state_5.sqlite", by decide⟩]⟩
  resolve_parent := fun p => foldl_parent p.parts List.not_mem_nil
  resolve_archived := by
    intro relative h
    rw [plainResolve, PurePath.join, List.foldl_append]
    exact foldl_names h _
  apart := by
    intro r r' h
    have hsecond := (List.cons.inj (List.cons.inj h).2).1
    exact absurd hsecond (by decide)

/-! ## Two rows of one file -/

def sharedText : Text := txt "/.codex/sessions/a.jsonl"

def sharedRow (threadId : Text) : ThreadRow where
  id := threadId
  title := none
  rolloutPath := some sharedText
  updatedAt := some 0
  archived := false
  archivedAt := none

/-- Two threads that name one rollout file. -/
def sharedDisk : Disk where
  files := fun place =>
    if place = [codex, sessions, ⟨txt "a.jsonl", by decide⟩] then some [1] else none
  threads := ⟨[sharedRow (txt "t1"), sharedRow (txt "t2")], by decide⟩
  pinned := []
  manifest := none
  script := false

def sharedCandidate (threadId : Text) : SessionCandidate where
  size := 1
  threadId := threadId
  title := []
  source := PurePath.parse sharedText
  relative := [⟨txt "a.jsonl", by decide⟩]
  updatedAt := some 0

theorem shared_candidates : activeSessionCandidates plainHome sharedDisk 10 =
    [sharedCandidate (txt "t1"), sharedCandidate (txt "t2")] := by
  have hrows : sharedDisk.threads.rows.filterMap (candidateOf plainHome sharedDisk 10) =
      [sharedCandidate (txt "t1"), sharedCandidate (txt "t2")] := by
    decide +kernel
  rw [activeSessionCandidates, hrows]
  exact List.mergeSort_of_pairwise (by decide +kernel)

end RalphVault.Archive
