import RalphVault.Relocation
import RalphVault.PurePath
import RalphVault.Archive.Manifest

/-!
# Archiving sessions

`keep_codex_fast.py`: the sessions that are old enough, the move of each into
the archive folder with its record in the manifest and its row in the
database, and the restore script. The rows are committed after the last move
and the restore script is written after it, so a step that raises leaves the
files moved so far, their records, and neither of the two.
-/

namespace RalphVault.Archive

open Relocation

/-! ## Files and rows -/

/-- Where a path leads when its links are followed, below the root. -/
abbrev Place := List Name

abbrev Content := List UInt8

/-- The regular files. -/
abbrev Files := Place → Option Content

/-- What the code reads and writes of a row of `threads`. -/
structure ThreadRow where
  id : Text
  title : Option Text
  rolloutPath : Option Text
  updatedAt : Option Int
  archived : Bool
  archivedAt : Option Int
deriving DecidableEq

/-- The rows of `threads`, whose primary key is the identifier. -/
structure Threads where
  rows : List ThreadRow
  nodup : (rows.map ThreadRow.id).Nodup

/-- One row changed, but for its identifier. -/
def Threads.update (t : Threads) (threadId : Text) (change : ThreadRow → ThreadRow)
    (h : ∀ row, (change row).id = row.id) : Threads where
  rows := t.rows.map fun row => if row.id = threadId then change row else row
  nodup := by
    have hids : (t.rows.map fun row => if row.id = threadId then change row else row).map
        ThreadRow.id = t.rows.map ThreadRow.id := by
      rw [List.map_map]
      refine List.map_congr_left fun row _ => ?_
      show (if row.id = threadId then change row else row).id = row.id
      split
      · exact h row
      · rfl
    rw [hids]
    exact t.nodup

/-- The component `..`. -/
def parent : Name := ⟨['.', '.'], rfl⟩

/-- A Codex home in a file system: where its paths lead. No component of a
place is `..`; the archive folder holds no links, and it is not in the
sessions folder, nor the sessions folder in it. -/
structure CodexHome where
  resolve : PurePath → Place
  sessionsRoot : Place
  archiveRoot : PurePath
  manifest : PurePath
  stateDb : PurePath
  resolve_parent : ∀ p, parent ∉ resolve p
  resolve_archived : ∀ relative, parent ∉ relative →
    resolve (archiveRoot.join relative) = resolve archiveRoot ++ relative
  apart : ∀ r r', sessionsRoot ++ r ≠ resolve archiveRoot ++ r'

/-- Where the text of a path leads. -/
def CodexHome.locate (home : CodexHome) (path : Text) : Place := home.resolve (PurePath.parse path)

/-- The files, the committed rows, the pinned threads, and the two files of
the backup folder: the manifest, and whether the restore script is there. -/
structure Disk where
  files : Files
  threads : Threads
  pinned : List Text
  manifest : Option Text
  script : Bool

/-! ## Candidates -/

structure SessionCandidate where
  size : Nat
  threadId : Text
  title : Text
  source : PurePath
  relative : List Name
  updatedAt : Option Int
deriving DecidableEq

section Run

variable (home : CodexHome)

/-- `canonical_path(source).relative_to(sessions_root_canonical)`. -/
def relativeTo (root place : Place) : Option (List Name) :=
  if root <+: place then some (place.drop root.length) else none

/-- The candidate of a row. -/
def candidateOf (disk : Disk) (cutoff : Int) (row : ThreadRow) : Option SessionCandidate :=
  match row.archivedAt, row.rolloutPath with
  | none, some rollout =>
      if disk.pinned.contains row.id || rollout.isEmpty then none
      else if row.updatedAt.any fun updated => cutoff ≤ updated then none
      else
        let source := PurePath.parse rollout
        match disk.files (home.resolve source) with
        | none => none
        | some content =>
            (relativeTo home.sessionsRoot (home.resolve source)).map fun relative =>
              { size := content.length, threadId := row.id, title := row.title.getD [],
                source := source, relative := relative, updatedAt := row.updatedAt }
  | _, _ => none

/-- `active_session_candidates`, the largest first. -/
def activeSessionCandidates (disk : Disk) (cutoff : Int) : List SessionCandidate :=
  (disk.threads.rows.filterMap (candidateOf home disk cutoff)).mergeSort
    fun a b => b.size ≤ a.size

/-! ## The archive -/

/-- `archive_root / item.relative`. -/
def SessionCandidate.dest (item : SessionCandidate) : PurePath := home.archiveRoot.join item.relative

def SessionCandidate.record (item : SessionCandidate) : Moved :=
  ⟨item.threadId, item.size, item.source.text, (item.dest home).text⟩

/-- The steps of one candidate that can raise. -/
inductive Step where
  | directory
  | move
  | record
  | update
deriving DecidableEq

/-- A step that raises: of which candidate, and how many characters of the
manifest reach the disk when it is the write of a record. -/
structure Fault where
  item : Nat
  step : Step
  kept : Nat

/-- Whether a step of the first candidate raises. -/
def raises (fault : Option Fault) (step : Step) : Bool :=
  fault.any fun f => f.item = 0 && f.step = step

def nextFault (fault : Option Fault) : Option Fault :=
  fault.map fun f => { f with item := f.item - 1 }

/-- The files, the text of the manifest and the rows of the open transaction. -/
structure Progress where
  files : Files
  manifest : Text
  threads : Threads

/-- `update threads set rollout_path=?, archived=1, archived_at=?`. -/
def setArchived (path : Text) (now : Int) (row : ThreadRow) : ThreadRow :=
  { row with rolloutPath := some path, archived := true, archivedAt := some now }

theorem setArchived_id (path : Text) (now : Int) (row : ThreadRow) :
    (setArchived path now row).id = row.id := rfl

/-- `update threads set rollout_path=?, archived=0, archived_at=NULL`. -/
def setRestored (path : Text) (row : ThreadRow) : ThreadRow :=
  { row with rolloutPath := some path, archived := false, archivedAt := none }

theorem setRestored_id (path : Text) (row : ThreadRow) : (setRestored path row).id = row.id := rfl

/-- The row of one candidate, updated. -/
def Threads.archive (now : Int) (item : SessionCandidate) (t : Threads) : Threads :=
  t.update item.threadId (setArchived (item.dest home).text now) (setArchived_id _ now)

/-- The loop of `archive_sessions`, and whether it came to its end. The
manifest is closed, and so written, also when a step raises. -/
def archiveItems (now : Int) : List SessionCandidate → Option Fault → Progress → Progress × Bool
  | [], _, p => (p, true)
  | item :: items, fault, p =>
      if raises fault .directory || raises fault .move then (p, false)
      else match move p.files (home.resolve item.source) (home.resolve (item.dest home)) with
        -- there is no file at the source any more
        | none => (p, false)
        | some files =>
            if raises fault .record then
              ({ p with files := files, manifest := p.manifest.take ((fault.map Fault.kept).getD 0) },
                false)
            else
              let manifest := p.manifest ++ ((item.record home).line ++ ['\n'])
              if raises fault .update then ({ p with files := files, manifest := manifest }, false)
              else archiveItems now items (nextFault fault)
                { files := files, manifest := manifest,
                  threads := p.threads.archive home now item }

inductive Outcome where
  | nothing
  | completed
  | raised
deriving DecidableEq

/-- `archive_sessions` with `--apply`, and the commit of `run` after it. -/
def archiveSessions (disk : Disk) (cutoff now : Int) (fault : Option Fault) : Outcome × Disk :=
  let items := activeSessionCandidates home disk cutoff
  if items.isEmpty then (.nothing, disk)
  else
    match archiveItems home now items fault ⟨disk.files, [], disk.threads⟩ with
    -- the restore script is written, and the rows are committed
    | (p, true) =>
        (.completed,
          { disk with
            files := p.files, manifest := some p.manifest, script := true, threads := p.threads })
    -- the transaction is rolled back
    | (p, false) => (.raised, { disk with files := p.files, manifest := some p.manifest })

/-! ## The restore script -/

/-- One record: its file back when it is in the archive, then its row. -/
def restoreOne (s : Files × Threads) (u : Undo) : Files × Threads :=
  let src := PurePath.parse u.dest
  let dest := PurePath.parse u.source
  (moveIfThere s.1 (home.resolve src) (home.resolve dest),
    if u.threadId.isEmpty then s.2
    else s.2.update u.threadId (setRestored dest.text) (setRestored_id dest.text))

/-- The loop over the lines, and whether it came to its end. -/
def restoreLines : List Text → Files × Threads → (Files × Threads) × Bool
  | [], s => (s, true)
  | line :: lines, s =>
      match readLine line with
      | none => (s, false)
      | some u => restoreLines lines (restoreOne home s u)

/-- A run of `restore-sessions.py`: the rows are committed when every line was
read. A script that is not there, or in whose source a path is not the one it
was given, restores nothing. -/
def restoreSessions (disk : Disk) : Disk :=
  if disk.script && rawLiteral home.manifest.text && rawLiteral home.stateDb.text then
    match disk.manifest with
    | none => disk
    | some text =>
        match restoreLines home (SessionStart.splitlines text) (disk.files, disk.threads) with
        | ((files, threads), true) => { disk with files := files, threads := threads }
        | ((files, _), false) => { disk with files := files }
  else disk

end Run
end RalphVault.Archive
