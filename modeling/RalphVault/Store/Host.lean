import RalphVault.Security.Quiet
import RalphVault.Store.Calls

/-!
# Implementation store — a host to evaluate calls on

An environment on which the calls of the store can be run: the quick
scan, an ASCII Unicode database, and a hash function that looks the
digests of the texts at hand up in a table. The examples of the modules
that follow bring their own tables.
-/

namespace RalphVault.Store

/-- The key of a text in a table of digests. -/
def tableKey (t : Text) : Nat := t.foldl (fun h c => (31 * h + c.toNat) % 1000003) 7

/-- The shape of a hexadecimal digest. -/
def isDigest (t : Text) : Bool :=
  t.length == 64 && t.all fun c => isAsciiDigit c || (97 ≤ c.toNat && c.toNat ≤ 102)

/-- The digest of a text no table knows. -/
def noDigest : Text := List.replicate 64 '0'

/-- Rows of keys and digests. -/
structure DigestTable where
  rows : List (Nat × Text)
  digests : (rows.all fun row => isDigest row.2) = true

def DigestTable.lookup (table : DigestTable) (t : Text) : Text :=
  let key := tableKey t
  ((table.rows.find? fun row => row.1 == key).map Prod.snd).getD noDigest

theorem DigestTable.lookup_isDigest (table : DigestTable) (t : Text) :
    isDigest (table.lookup t) = true := by
  simp only [lookup]
  cases hrow : table.rows.find? fun row => row.1 == tableKey t with
  | none =>
      show isDigest noDigest = true
      decide
  | some row => exact List.all_eq_true.mp table.digests row (List.mem_of_find?_eq_some hrow)

theorem DigestTable.lookup_length (table : DigestTable) (t : Text) :
    (table.lookup t).length = 64 := by
  have h := table.lookup_isDigest t
  rw [isDigest, Bool.and_eq_true, beq_iff_eq] at h
  exact h.1

/-- The host with a table of digests. -/
def Env.host (table : DigestTable) : Env where
  sha256 := table.lookup
  sha256_length := table.lookup_length
  sha256_hex t c hc := by
    have h := table.lookup_isDigest t
    rw [isDigest, Bool.and_eq_true, List.all_eq_true] at h
    simpa only [Bool.or_eq_true, Bool.and_eq_true, decide_eq_true_eq] using h.2 c hc
  unicode := .ascii
  red := Security.quickRed .ascii
  red_eq := Security.quickRed_eq .ascii
  primaryRoot := txt "/r"

/-! ## Calls with most arguments left out -/

def Narrative.empty : Narrative := ⟨[], [], [], [], []⟩

/-- A registration at a fixed time. -/
def RegisterCall.of (planId planPath operation : Text) (phase nextAction : Text) : RegisterCall where
  planId := planId
  planPath := planPath
  operation := some operation
  timestamp := txt "2026-01-01T00:00:00+00:00"
  provenance := none
  objective := []
  phase := phase
  status := txt "planned"
  narrative := { Narrative.empty with nextAction := nextAction }
  fresh := []

/-- A material event at a fixed time. -/
def RecordCall.of (planId kind operation : Text) (stateUpdate : Dict) : RecordCall where
  planId := planId
  kind := kind
  operation := some operation
  narrative := Narrative.empty
  stateUpdate := stateUpdate
  timestamp := txt "2026-01-01T00:00:00+00:00"
  provenance := none
  fresh := []

/-- A snapshot of a plan `p` before its first event. -/
def firstState : State where
  planId := txt "p"
  planPath := []
  generation := 0
  semanticHash := []
  status := .planned
  classification := .green
  phase := []
  objective := []
  latestDecision := none
  nextAction := []
  openBlockers := []
  openQuestions := []
  validation := []
  activeFiles := []
  lastOperationId := []
  lastEventSequence := 0
  lastEventHash := []
  git := ⟨[], [], [], []⟩
  writerSessionId := []
  modelFamily := .unknown
  modelSource := .unknown
  modelVerified := false
  origin := txt "implementation-progress"
  intent := txt "progress-maintenance"
  createdAt := []
  updatedAt := []

/-- Whether a call succeeded and changed the plan. -/
def changes : StoreFiles × Check StoreResult → Bool
  | (_, .ok res) => res.changed
  | _ => false

/-- Whether a call failed because of RED content. -/
def refusesRed : StoreFiles × Check StoreResult → Bool
  | (_, .error (.redContentError _)) => true
  | _ => false

theorem exists_of_changes {r : StoreFiles × Check StoreResult} (h : changes r = true) :
    ∃ res, r = (r.1, .ok res) ∧ res.changed = true := by
  obtain ⟨st, x⟩ := r
  cases x with
  | error err => cases h
  | ok res => exact ⟨res, rfl, h⟩

theorem exists_of_refusesRed {r : StoreFiles × Check StoreResult} (h : refusesRed r = true) :
    ∃ m, r = (r.1, .error (.redContentError m)) := by
  obtain ⟨st, x⟩ := r
  cases x with
  | ok res => cases h
  | error err =>
      cases err with
      | redContentError m => exact ⟨m, rfl⟩
      | _ => cases h

end RalphVault.Store
