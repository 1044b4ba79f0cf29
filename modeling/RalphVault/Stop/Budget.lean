import Mathlib
import RalphVault.StateFile

/-!
# Stop — the continuation budget

The budget of a Stop hook, `continuation_budget.py`: a file a project
with one entry a scope, read and replaced under a lock, and a second
such file under `CODEX_HOOK_STATE_ROOT` for when the first cannot be
used. Timestamps are rationals. What the disk and the clock do during
one pass over a file is a value (`Storage`).

Left out: the write metadata of a reservation, the constant fields of an
entry, and entries no call of this module has written.
-/

namespace RalphVault.Stop

open StateFile

/-! ## Scopes and entries -/

/-- The fields of a `StopScope` the budget uses. -/
structure Scope where
  scopeKey : Text
  projectId : Text
  sessionId : Text
  taskSignature : Text
  branch : Text
  sha : Text
deriving DecidableEq

/-- The entry of a scope. -/
structure Entry where
  evidenceFingerprint : Text
  count : Nat
  timestamp : ℚ
  projectId : Text
  sessionId : Text
  taskSignature : Text
  branch : Text
  sha : Text
deriving DecidableEq

/-- A `continuation.json`. -/
abbrev File := Option (Records Entry)

/-- The arguments of `reserve`. -/
structure Request where
  scope : Scope
  evidenceFingerprint : Text
  critical : Bool
deriving DecidableEq

structure Reservation where
  allowed : Bool
  count : Nat
  exhausted : Bool
  evidenceFingerprint : Text
  stateCorrupt : Bool
  storageError : Bool
  changed : Bool
deriving DecidableEq

/-- One pass of the host over a state file. -/
structure Storage where
  /-- What `int` makes of `RALPH_STOP_STATE_TTL_SECONDS`. -/
  ttl : Option Int
  /-- What `int` makes of `RALPH_STOP_MAX_BUDGET_ENTRIES`. -/
  entryLimit : Option Int
  runtimeSafe : Bool
  locked : Bool
  reading : Reading
  now : ℚ
  publication : Publication

namespace Storage

/-- `state_ttl_seconds`. -/
def stateTtlSeconds (h : Storage) : Int :=
  match h.ttl with
  | some value => max 60 (min value (7 * 24 * 60 * 60))
  | none => 24 * 60 * 60

/-- `_max_entries`. -/
def maxEntries (h : Storage) : Nat :=
  match h.entryLimit with
  | some value => (max 8 (min value 2048)).toNat
  | none => 256

/-- An entry `_trim` carries over, if there is room. -/
def active (h : Storage) (e : Entry) : Bool :=
  0 ≤ h.now - e.timestamp && h.now - e.timestamp ≤ h.stateTtlSeconds

/-- `_trim`. -/
def trim (h : Storage) (entries : Records Entry) : Records Entry :=
  entries.recent h.active (·.timestamp) h.maxEntries

/-- Whether `_load` found the file corrupt. -/
def corrupt (h : Storage) (file : File) : Bool :=
  file.isSome && (h.reading == .quarantined || h.reading == .stuck)

end Storage

/-! ## `_reserve_at` -/

/-- Whether a continuation is allowed, given the entry of the scope. -/
def allows (current : Option Entry) (q : Request) : Bool :=
  match current with
  | none => true
  | some e =>
      e.count == 0 ||
        (e.count == 1 && q.critical && !q.evidenceFingerprint.isEmpty &&
          q.evidenceFingerprint != e.evidenceFingerprint)

/-- The continuations a scope has used. -/
def used (current : Option Entry) : Nat := (current.map (·.count)).getD 0

def nextCount (current : Option Entry) (q : Request) : Nat :=
  if allows current q then used current + 1 else used current

/-- `desired_entry`. -/
def desiredEntry (now : ℚ) (current : Option Entry) (q : Request) : Entry where
  -- also where the continuation is not allowed
  evidenceFingerprint := q.evidenceFingerprint
  count := nextCount current q
  timestamp := now
  projectId := q.scope.projectId
  sessionId := q.scope.sessionId
  taskSignature := q.scope.taskSignature
  branch := q.scope.branch
  sha := q.scope.sha

/-- The reservation that is returned when nothing fails. -/
def reservationOf (current : Option Entry) (q : Request) (corrupt changed : Bool) :
    Reservation where
  allowed := allows current q
  count := nextCount current q
  exhausted := !allows current q
  evidenceFingerprint := q.evidenceFingerprint
  stateCorrupt := corrupt
  storageError := false
  changed := changed

/-- `_reserve_at`. -/
def reserveAt (h : Storage) (q : Request) (file : File) : File × Option Reservation :=
  if !h.runtimeSafe || !h.locked then (file, none)
  else match load .empty h.reading file with
    | none => (file, none)
    | some (left, stored) =>
        let entries := h.trim stored
        let current := entries.get? q.scope.scopeKey
        let desired := desiredEntry h.now current q
        let changed := h.corrupt file || decide (entries ≠ stored) ||
          decide (current.map ({ · with timestamp := h.now }) ≠ some desired)
        let reservation := reservationOf current q (h.corrupt file) changed
        if changed then
          let (left, returned) :=
            publish h.publication left (entries.assign q.scope.scopeKey desired)
          (left, if returned then some reservation else none)
        else (left, some reservation)

/-! ## `reserve` -/

/-- Where a state file lies. -/
inductive Place where
  | project (projectId : Text)
  | fallback (root : Text) (project : Text)
deriving DecidableEq

/-- `budget_path`. -/
def budgetPath (scope : Scope) : Place := .project scope.projectId

/-- `fallback_budget_path`, where `CODEX_HOOK_STATE_ROOT` names a usable
`root`. -/
def fallbackBudgetPath (u : Unicode) (root : Option Text) (scope : Scope) : Option Place :=
  root.map fun root =>
    let project := (scope.projectId.filter fun c =>
      u.alnum c || (txt "._-").contains c).take 80
    .fallback root (if project.isEmpty then txt "unknown" else project)

/-- What is returned where neither file can be used. -/
def storageFailure (q : Request) : Reservation where
  allowed := false
  count := 0
  exhausted := false
  evidenceFingerprint := q.evidenceFingerprint
  stateCorrupt := false
  storageError := true
  changed := false

/-- The state files. -/
abbrev Files := Place → File

def Files.set (files : Files) (place : Place) (file : File) : Files :=
  fun place' => if place' = place then file else files place'

/-- `reserve`; `primary` and `secondary` are the passes over the two files. -/
def reserve (u : Unicode) (primary secondary : Storage) (root : Option Text) (q : Request)
    (files : Files) : Files × Reservation :=
  let (file, reservation) := reserveAt primary q (files (budgetPath q.scope))
  let files := files.set (budgetPath q.scope) file
  match reservation with
  | some reservation => (files, reservation)
  | none =>
      match fallbackBudgetPath u root q.scope with
      | none => (files, storageFailure q)
      | some place =>
          let (file, reservation) := reserveAt secondary q (files place)
          (files.set place file, reservation.getD (storageFailure q))

/-! ## Concurrent calls -/

/-- The state files, and the callers that have found the file of their
project unusable and have yet to try the other one. -/
structure World where
  files : Files
  falling : Nat → Option Request

def World.initial : World := ⟨fun _ => none, fun _ => none⟩

def World.setFalling (w : World) (caller : Nat) (q : Option Request) : World :=
  { w with falling := fun caller' => if caller' = caller then q else w.falling caller' }

/-- A pass over one file; between the two passes of a call the others take
theirs. -/
inductive Label where
  | enter (caller : Nat) (q : Request) (h : Storage)
  | fallBack (caller : Nat) (root : Option Text) (h : Storage)

structure Answer where
  request : Request
  reservation : Reservation
deriving DecidableEq

/-- One step, where it can be taken, and the answer it gives. -/
def World.step (u : Unicode) (w : World) : Label → Option (World × Option Answer)
  | .enter caller q h =>
      match w.falling caller with
      | some _ => none
      | none =>
          let (file, reservation) := reserveAt h q (w.files (budgetPath q.scope))
          let w : World := { w with files := w.files.set (budgetPath q.scope) file }
          match reservation with
          | some reservation => some (w, some ⟨q, reservation⟩)
          | none => some (w.setFalling caller (some q), none)
  | .fallBack caller root h =>
      match w.falling caller with
      | none => none
      | some q =>
          let w := w.setFalling caller none
          match fallbackBudgetPath u root q.scope with
          | none => some (w, some ⟨q, storageFailure q⟩)
          | some place =>
              let (file, reservation) := reserveAt h q (w.files place)
              some ({ w with files := w.files.set place file },
                some ⟨q, reservation.getD (storageFailure q)⟩)

/-- A run, the last step first: the world after it, and the answers in the
order they were given. -/
def World.run (u : Unicode) (w : World) : List Label → Option (World × List Answer)
  | [] => some (w, [])
  | l :: past =>
      (w.run u past).bind fun (w', answers) =>
        (w'.step u l).map fun (w'', answer) => (w'', answers ++ answer.toList)

end RalphVault.Stop
