import Mathlib
import RalphVault.IndentedJson
import RalphVault.Lru
import RalphVault.StateFile

/-!
# Stop — terminal business

`terminal_business_claim` of `stop_persistence.py`: the marker of a project
has the fingerprint of the last Stop committed for each of its scopes. A
claim holds the lock of the marker until it is committed or given up.

Left out: the write metadata of a claim.
-/

namespace RalphVault.Stop.Terminal

open Json StateFile Recency

/-! ## Fingerprints -/

def isLowerHex (c : Char) : Bool := isAsciiDigit c || (97 ≤ c.toNat && c.toNat ≤ 102)

/-- The first `n` digits of a `hexdigest`. -/
structure Digest (n : Nat) where
  text : Text
  length : text.length = n
  hex : ∀ c ∈ text, isLowerHex c = true

/-- A terminal Stop: the scope it is for and its business fingerprint. -/
structure TerminalStop where
  scopeKey : Digest 32
  fingerprint : Digest 64

/-! ## The marker -/

structure BusinessEntry where
  fingerprint : Text
  sequence : Nat
deriving DecidableEq

abbrev Entries := Records BusinessEntry

/-- `TERMINAL_BUSINESS_MAX_ENTRIES`. -/
def maxBusinessEntries : Nat := 256

def maxMarkerBytes : Nat := 128 * 1024

def isSchemaOne : Option Json → Bool
  | some (.num n) => n == 1
  | some (.bool b) => b
  | _ => false

/-- One entry of a marker: the sequence an entry without one would have,
and the entries so far. -/
def readEntry (acc : Nat × Entries) (m : Text × Json) : Nat × Entries :=
  match m.2 with
  | .obj entry =>
      match SortedMap.get? (txt "fingerprint") entry with
      | some (.str fingerprint) =>
          if fingerprint.length = 64 then
            let sequence := match SortedMap.get? (txt "sequence") entry with
              | some (.num n) => if n < 0 then acc.1 else n.toNat
              | _ => acc.1
            (max (acc.1 + 1) (sequence + 1), acc.2.assign (m.1.take 128) ⟨fingerprint, sequence⟩)
          else acc
      | _ => acc
  | _ => acc

/-- `_load_business`, of the text of the marker: nothing if it raises. -/
def readBusiness (t : Text) : Option Entries :=
  if maxMarkerBytes < utf8Len t then none
  else match loads t with
    | some (.obj value) =>
        if !isSchemaOne (SortedMap.get? (txt "schema_version") value) then none
        else match SortedMap.get? (txt "entries") value with
          | some (.obj entries) =>
              if maxBusinessEntries * 2 < entries.length then none
              else some (entries.foldl readEntry (0, .empty)).2
          | _ => none
    | _ => none

/-- `_load_business`. -/
def loadBusiness : Option Text → Option Entries
  | none => some .empty
  | some t => readBusiness t

def BusinessEntry.json (e : BusinessEntry) : Json :=
  .obj [(txt "fingerprint", .str e.fingerprint), (txt "sequence", .num e.sequence)]

def businessPayload (es : List (Text × BusinessEntry)) : Json :=
  .obj [(txt "schema_version", .num 1), (txt "entries", .obj (es.map fun e => (e.1, e.2.json)))]

/-- The place of an entry in the order of `_write_business`. -/
def recency (e : Text × BusinessEntry) : ℕ ×ₗ Text := toLex (e.2.sequence, e.1)

/-- `_write_business`: the text of the marker. -/
def writeBusiness (entries : Entries) : Text :=
  indented (businessPayload (mostRecent recency maxBusinessEntries entries.entries))

/-- `next_sequence`. -/
def nextSequence (entries : Entries) : Nat :=
  (entries.entries.map fun e => e.2.sequence + 1).foldr max 0

/-! ## Claims -/

structure TerminalBusinessClaim where
  duplicate : Bool
  available : Bool
deriving DecidableEq

/-- What the host does at the start of a claim. -/
structure ClaimHost where
  /-- The marker and the lock are no aliases. -/
  safe : Bool
  /-- The lock file can be opened. -/
  lockable : Bool
  /-- The marker, if there is one, is a private file and can be read. -/
  readable : Bool

/-- The claim that holds the lock, and the entries it has read. -/
structure Holder where
  stop : TerminalStop
  duplicate : Bool
  entries : Entries

structure World where
  marker : Option Text
  holder : Option Holder

def World.initial : World := ⟨none, none⟩

inductive Label where
  /-- A Stop enters its claim. -/
  | enter (stop : TerminalStop) (host : ClaimHost)
  /-- The claim that holds the lock ends; `requested` where its body called
  `commit` and did not raise. -/
  | leave (requested : Bool) (publication : Publication)

/-- The entries with that of a Stop. -/
def Holder.committed (h : Holder) : Entries :=
  h.entries.assign h.stop.scopeKey.text ⟨h.stop.fingerprint.text, nextSequence h.entries⟩

/-- Whether the end of a claim replaces the marker. -/
def Holder.commits (h : Holder) (requested : Bool) (publication : Publication) : Bool :=
  requested && !h.duplicate && publication != .refused

/-- One step, where it can be taken, and the claim it begins with. A claim
whose lock is held by another one waits. -/
def World.step (w : World) : Label → Option (World × Option TerminalBusinessClaim)
  | .enter stop host =>
      if !host.safe || !host.lockable then some (w, some ⟨false, false⟩)
      else match w.holder with
        | some _ => none
        | none =>
            match if host.readable then loadBusiness w.marker else none with
            | none => some (w, some ⟨false, false⟩)
            | some entries =>
                let current := (entries.get? stop.scopeKey.text).map (·.fingerprint)
                let duplicate := decide (current = some stop.fingerprint.text)
                some ({ w with holder := some ⟨stop, duplicate, entries⟩ }, some ⟨duplicate, true⟩)
  | .leave requested publication =>
      w.holder.map fun h =>
        (⟨if requested && !h.duplicate then
            (publish publication w.marker (writeBusiness h.committed)).1
          else w.marker, none⟩, none)

def ClaimHost.works (host : ClaimHost) : Prop :=
  host.safe = true ∧ host.lockable = true ∧ host.readable = true

/-! ## Runs -/

/-- The state after a run, and the fingerprints it has committed, the last
one first. -/
structure Run where
  world : World
  history : List (Text × Text)

/-- What a step commits. -/
def World.committed (w : World) : Label → List (Text × Text)
  | .enter _ _ => []
  | .leave requested publication =>
      match w.holder with
      | some h =>
          if h.commits requested publication then [(h.stop.scopeKey.text, h.stop.fingerprint.text)]
          else []
      | none => []

/-- A run, the last step first. -/
def run : List Label → Option Run
  | [] => some ⟨.initial, []⟩
  | l :: past =>
      (run past).bind fun r =>
        (r.world.step l).map fun (w, _) => ⟨w, r.world.committed l ++ r.history⟩

end RalphVault.Stop.Terminal
