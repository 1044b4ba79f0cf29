import Mathlib
import RalphVault.AsciiJson
import RalphVault.SpacedJson
import RalphVault.StateFile

/-!
# SessionStart — the session cache

`session_context_cache.py` and what `session_start_dispatch.py` does with it:
one file for all sessions of a project. A clear event leaves an entry that
keeps the recovery surface of its session silent. Every write keeps the
entries that are young enough, and of those the most recent ones.

A state is kept as the value that is dumped: reading gives it back, in the
order of its keys, if its text is no longer than the reader takes. The
reducer reads the file twice, first without the lock. Left out: values that
the hooks do not write.
-/

namespace RalphVault.SessionStart.Cache

open Json StateFile Recency

/-! ## Configuration -/

/-- The settings of the environment. -/
structure Config where
  ttlSetting : Option Int
  maxSessionsSetting : Option Int

/-- `_env_int`. -/
def envInt (default : Int) : Option Int → Int
  | some n => max 1 n
  | none => default

def Config.ttl (cfg : Config) : Int := envInt (24 * 60 * 60) cfg.ttlSetting
def Config.maxSessions (cfg : Config) : Nat := (envInt 32 cfg.maxSessionsSetting).toNat

/-- A reading of the clock, in seconds, and what `now_iso` makes of it; `parse`
is `datetime.fromisoformat`. -/
structure Instant (parse : Text → Option Rat) where
  now : Rat
  iso : Text
  parsed : parse iso = some (⌊now⌋ : Rat)

/-! ## Entries -/

abbrev Sessions := List (Text × Json)

/-- `bool(value)`. -/
def truthy : Json → Bool
  | .null => false
  | .bool b => b
  | .num n => n != 0
  | .str t => !t.isEmpty
  | .arr items => !items.isEmpty
  | .obj fields => !fields.isEmpty

def isText (t : Text) : Option Json → Bool
  | some (.str t') => t == t'
  | _ => false

/-- The entry marks its session as cleared. -/
def isCleared (session : Text) : Json → Bool
  | .obj fields =>
      (SortedMap.get? (txt "cleared") fields).any truthy &&
        isText session (SortedMap.get? (txt "cleared_session_id") fields)
  | _ => false

/-- `updated_at` of an entry. -/
def updatedText : Json → Option Text
  | .obj fields =>
      match SortedMap.get? (txt "updated_at") fields with
      | some (.str t) => some t
      | _ => none
  | _ => none

/-- The entry of a clear event. -/
def clearEntry (session profile : Text) (ids : List Text) (iso : Text) : Json :=
  .obj [(txt "schema_version", .num 1), (txt "source", .str (txt "clear")),
    (txt "cleared", .bool true), (txt "cleared_session_id", .str session),
    (txt "profile", .str profile), (txt "selected_memory_ids", .arr (ids.map .str)),
    (txt "updated_at", .str iso)]

/-- What the reducer puts in an entry. -/
structure Reduced where
  source : Text
  fingerprint : Text
  components : Json
  emittedFingerprint : Text

/-- The entry of the reducer. -/
def reducedEntry (session : Text) (reduced : Reduced) (cleared : Bool) (iso : Text) : Json :=
  .obj ([(txt "schema_version", .num 1), (txt "source", .str reduced.source),
    (txt "fingerprint", .str reduced.fingerprint), (txt "components", reduced.components),
    (txt "updated_at", .str iso), (txt "cleared", .bool cleared)] ++
    (if cleared then [(txt "cleared_session_id", .str session)] else []) ++
    [(txt "emitted_fingerprint", .str reduced.emittedFingerprint)])

/-! ## The file -/

structure Document where
  sessions : Sessions
  updatedAt : Text

def Document.json (d : Document) : Json :=
  .obj [(txt "schema_version", .num 1), (txt "updated_at", .str d.updatedAt),
    (txt "sessions", .obj d.sessions)]

/-- What `write_state` writes. -/
def Document.text (d : Document) : Text := asciiDumps d.json ++ ['\n']

def maxStateBytes : Nat := 64 * 1024

def Document.accepted (d : Document) : Bool := utf8Len d.text ≤ maxStateBytes

/-- What becomes of reading the file. -/
inductive CacheRead where
  | sound
  /-- The reading raises, or the file is replaced under it: the file that is
  there is moved aside. -/
  | quarantined
  /-- The file cannot be used, nor moved. -/
  | unusable
deriving DecidableEq

/-- `read_state`: the file that is left, and the sessions. -/
def readState (reading : CacheRead) : Option Document → Option Document × Sessions
  | none => (none, [])
  | some d =>
      match reading with
      | .sound => if d.accepted then (some d, sortMembers d.sessions) else (none, [])
      | .quarantined => (none, [])
      | .unusable => (some d, [])

section Write

variable (parse : Text → Option Rat) (cfg : Config)

/-- When an entry was updated, as `_prune` reads it. -/
def updatedAt (entry : Json) : Option Rat := (updatedText entry).bind parse

/-- The entry is not older than the lifetime of the cache. -/
def isLive (now : Rat) (e : Text × Json) : Bool :=
  match updatedAt parse e.2 with
  | some t => now - cfg.ttl ≤ t
  | none => false

/-- The place of an entry in the order of `_prune`. -/
def recency (e : Text × Json) : Text := (updatedText e.2).getD []

/-- `_prune`. -/
def prune (now : Rat) (sessions : Sessions) : Sessions :=
  mostRecent recency cfg.maxSessions (sessions.filter (isLive parse cfg now))

end Write

/-! ## Steps -/

/-- A reducer that has read the file for the first time. -/
structure Pending (parse : Text → Option Rat) where
  session : Text
  cleared : Bool
  began : Instant parse

structure World (parse : Text → Option Rat) where
  file : Option Document
  pending : List (Pending parse)

def World.initial (parse : Text → Option Rat) : World parse := ⟨none, []⟩

inductive Label (parse : Text → Option Rat) where
  /-- `_record_clear`, under the lock. -/
  | clear (session profile : Text) (ids : List Text) (reading : CacheRead)
      (began ended : Instant parse) (publication : Publication)
  /-- A reducer reads the file without the lock. -/
  | observe (session : Text) (reading : CacheRead) (began : Instant parse)
  /-- The `n`th reducer writes its entry, under the lock. -/
  | reduce (n : Nat) (reduced : Reduced) (reading : CacheRead) (ended : Instant parse)
      (publication : Publication)
  /-- A SessionStart that a progress store answers, with what it would emit. -/
  | progress (session capsule : Text) (reading : CacheRead) (now : Rat)

/-- What is seen of the steps. -/
inductive Event where
  /-- A clear event has been recorded. -/
  | cleared (session : Text) (updated : Rat)
  | answered (session : Text) (now : Rat) (output : Text)

section Steps

variable {parse : Text → Option Rat} (cfg : Config)

/-- The document that is written for some sessions. -/
def written (sessions : Sessions) (ended : Instant parse) : Document :=
  ⟨prune parse cfg ended.now sessions, ended.iso⟩

/-- One step, where it can be taken, and what is seen of it. -/
def World.step (w : World parse) : Label parse → Option (World parse × List Event)
  | .clear session profile ids reading began ended publication =>
      let (file, sessions) := readState reading w.file
      let sessions := putMember (session, clearEntry session profile ids began.iso) sessions
      some (⟨(publish publication file (written cfg sessions ended)).1, w.pending⟩,
        if publication = .refused then [] else [.cleared session ⌊began.now⌋])
  | .observe session reading began =>
      let (file, sessions) := readState reading w.file
      let cleared := (SortedMap.get? session sessions).any (isCleared session)
      some (⟨file, ⟨session, cleared, began⟩ :: w.pending⟩, [])
  | .reduce n reduced reading ended publication =>
      w.pending[n]?.map fun p =>
        let (file, sessions) := readState reading w.file
        let entry := reducedEntry p.session reduced p.cleared p.began.iso
        let sessions := putMember (p.session, entry) sessions
        (⟨(publish publication file (written cfg sessions ended)).1, w.pending.eraseIdx n⟩, [])
  | .progress session capsule reading now =>
      let (file, sessions) := readState reading w.file
      let cleared := (SortedMap.get? session sessions).any (isCleared session)
      some (⟨file, w.pending⟩, [.answered session now (if cleared then [] else capsule)])

/-- When a step ends. -/
def Label.time : Label parse → Rat
  | .clear _ _ _ _ _ ended _ => ended.now
  | .observe _ _ began => began.now
  | .reduce _ _ _ ended _ => ended.now
  | .progress _ _ _ now => now

/-! ## Runs -/

/-- The state after a run, what was seen of it, the last event first, and when
its last step ended. -/
structure Run (parse : Text → Option Rat) where
  world : World parse
  trace : List Event
  clock : Option Rat

/-- A run, the last step first. -/
def run : List (Label parse) → Option (Run parse)
  | [] => some ⟨.initial parse, [], none⟩
  | l :: past =>
      (run past).bind fun r =>
        (r.world.step cfg l).map fun (w, events) => ⟨w, events ++ r.trace, some l.time⟩

end Steps

end RalphVault.SessionStart.Cache
