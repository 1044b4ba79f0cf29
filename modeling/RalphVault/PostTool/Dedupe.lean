import Mathlib
import RalphVault.StateFile
import RalphVault.Stop.Terminal

/-!
# PostToolUse — claims

`dedupe_claim` of `post_tool_state.py`: the work on one tool use is done
under a claim of its key. The claim holds the lock of the state from the
loading of its entries to the end of the work, and the key is recorded when
the work has returned.

A state is kept as the document that is dumped: loading gives it back if its
text is no longer than the reader takes. Left out: entries that the hook does
not write, the metrics, and errors of the lock after it is taken.
-/

namespace RalphVault.PostTool

open StateFile Recency
open Stop.Terminal (Digest)

/-! ## Configuration -/

/-- `max(low, min(int(setting), high))`, or the default where the setting is no
number. -/
def clamped (low high default : Nat) : Option Int → Nat
  | some n => (max (low : Int) (min n high)).toNat
  | none => default

/-- The settings of the environment. -/
structure Config where
  ttlSetting : Option Int
  maxEntriesSetting : Option Int

/-- `_ttl_seconds`. -/
def Config.ttlSeconds (cfg : Config) : Nat := clamped 1 86400 3600 cfg.ttlSetting

/-- `_max_entries`. -/
def Config.maxEntries (cfg : Config) : Nat := clamped 16 10000 2048 cfg.maxEntriesSetting

/-! ## The state -/

/-- A key and when its work was begun. -/
abbrev Entry := Text × Rat

structure Document where
  entries : List Entry
  updatedAt : Text
deriving DecidableEq

/-- `floatText` is `repr` of a float. -/
def Entry.text (floatText : Rat → Text) (e : Entry) : Text :=
  txt "\x7b\"key\": \"" ++ e.1 ++ txt "\", \"seen_at\": " ++ floatText e.2 ++ txt "\x7d"

/-- `json.dumps(data, sort_keys=True)` and its line feed. -/
def Document.text (floatText : Rat → Text) (d : Document) : Text :=
  txt "\x7b\"entries\": [" ++ joinWith (txt ", ") (d.entries.map (Entry.text floatText)) ++
    txt "], \"schema_version\": 1, \"updated_at\": \"" ++ d.updatedAt ++ txt "\"\x7d\n"

def maxStateBytes : Nat := 256 * 1024

/-- The text is no longer than `_read_bounded` takes. -/
def Document.accepted (floatText : Rat → Text) (d : Document) : Bool :=
  utf8Len (d.text floatText) ≤ maxStateBytes

/-- `entries[key] = seen_at`. -/
def setEntry (e : Entry) : List Entry → List Entry
  | [] => [e]
  | e' :: es => if e'.1 = e.1 then e :: es else e' :: setEntry e es

def isLive (cfg : Config) (now : Rat) (e : Entry) : Bool := now - e.2 ≤ cfg.ttlSeconds

/-- The entries of a state that still count. -/
def liveEntries (cfg : Config) (now : Rat) (entries : List Entry) : List Entry :=
  entries.foldl
    (fun acc e => if e.1.length = 64 && isLive cfg now e then setEntry e acc else acc) []

/-! ## Claims -/

/-- What is raised, by its kind. -/
inductive Raised where
  | os
  | value
  | type
  /-- The `RuntimeError` of a generator that did not stop. -/
  | didNotStop
  | other (name : Text)
deriving DecidableEq

/-- What the caller of a claim sees of what its body has raised. Inside the
`try` of `dedupe_claim`, three kinds are caught there and answered with another
`yield`, which `contextmanager` does not allow. -/
def reaches (tried : Bool) (e : Raised) : Raised :=
  if tried && [Raised.os, .value, .type].contains e then .didNotStop else e

/-- What the host does with the state of a claim that has the lock. -/
structure ClaimHost where
  readable : Bool
  /-- A state that is not accepted can be moved aside. -/
  movable : Bool

/-- The claim that holds the lock. -/
structure Holder where
  key : Digest 64
  now : Rat
  duplicate : Bool
  entries : List Entry

structure World where
  file : Option Document
  holder : Option Holder

def World.initial : World := ⟨none, none⟩

inductive Label where
  /-- A claim takes the lock. -/
  | enter (key : Digest 64) (now : Rat) (host : ClaimHost)
  /-- The claim that holds the lock ends. -/
  | leave (body : Except Raised Unit) (updatedAt : Text) (publication : Publication)
  /-- A claim without the lock, from its start to its end: it is yielded
  inside the `try` where the lock is no regular file. -/
  | pass (key : Digest 64) (now : Rat) (tried : Bool) (body : Except Raised Unit)

/-- What is seen of the claims. -/
inductive Event where
  | claimed (key : Text) (now : Rat) (duplicate : Bool)
  /-- The work of a claim that is no duplicate has returned. -/
  | completed (key : Text) (now : Rat)
  /-- A claim of a duplicate has returned. -/
  | skipped (key : Text)
  /-- The work of a claim has raised, and what its caller sees. -/
  | failed (key : Text) (duplicate : Bool) (e reached : Raised)
deriving DecidableEq

/-- `_load_state`: the file that is left, and the entries. -/
def loadState (floatText : Rat → Text) (host : ClaimHost) :
    Option Document → Option Document × List Entry
  | none => (none, [])
  | some d =>
      if host.readable && d.accepted floatText then (some d, d.entries)
      else (if host.movable then none else some d, [])

/-- The state that a claim writes. -/
def Holder.document (cfg : Config) (h : Holder) (updatedAt : Text) : Document :=
  ⟨mostRecent (·.2) cfg.maxEntries (setEntry (h.key.text, h.now) h.entries), updatedAt⟩

/-- One step, where it can be taken, and what is seen of it. A claim whose
lock is held by another one waits. -/
def World.step (floatText : Rat → Text) (cfg : Config) (w : World) :
    Label → Option (World × List Event)
  | .enter key now host =>
      match w.holder with
      | some _ => none
      | none =>
          let (file, stored) := loadState floatText host w.file
          let entries := liveEntries cfg now stored
          let duplicate := decide (key.text ∈ entries.map Prod.fst)
          some (⟨file, some ⟨key, now, duplicate, entries⟩⟩, [.claimed key.text now duplicate])
  | .leave body updatedAt publication =>
      w.holder.map fun h =>
        match body with
        | .error e => (⟨w.file, none⟩, [.failed h.key.text h.duplicate e (reaches true e)])
        | .ok () =>
            if h.duplicate then (⟨w.file, none⟩, [.skipped h.key.text])
            else (⟨(publish publication w.file (h.document cfg updatedAt)).1, none⟩,
              [.completed h.key.text h.now])
  | .pass key now tried body =>
      some (w, match body with
        | .error e => [.failed key.text false e (reaches tried e), .claimed key.text now false]
        | .ok () => [.completed key.text now, .claimed key.text now false])

/-! ## Runs -/

/-- The state after a run, and what was seen of it, the last event first. -/
structure Run where
  world : World
  trace : List Event

/-- A run, the last step first. -/
def run (floatText : Rat → Text) (cfg : Config) : List Label → Option Run
  | [] => some ⟨.initial, []⟩
  | l :: past =>
      (run floatText cfg past).bind fun r =>
        (r.world.step floatText cfg l).map fun (w, events) => ⟨w, events ++ r.trace⟩

end RalphVault.PostTool
