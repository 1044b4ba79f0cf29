import Mathlib
import RalphVault.PromptCache.Signature
import RalphVault.StateFile

/-!
# Prompt cache — the calls

The cache of `context_delta.py`: a file a project, with an entry for each
session and task that is `inflight` while its context is composed and
`ready` afterwards. Each call reads the file, prunes it, and replaces it
under a lock; what the disk and the clock do meanwhile is a value
(`CacheHost`). Times are rationals.

Left out: the write metadata of a result, and the fields of an entry
nothing reads: the parts of the signature and the timestamps in words.
-/

namespace RalphVault.PromptCache

open StateFile Hooks

/-- What `finalize` adds to an entry; the inputs are those that were safe. -/
structure Finalised where
  selectedMemoryIds : List Text
  inputs : Inputs
  fingerprint : Text
deriving DecidableEq

/-- An entry: `inflight` until it is finalised. -/
structure CacheEntry where
  updatedEpoch : ℚ
  finalised : Option Finalised
deriving DecidableEq

/-- A `cache.json`. -/
abbrev CacheFile := Option (Records CacheEntry)

/-- The host during one call. -/
structure CacheHost where
  /-- What `int` makes of `RALPH_CONTEXT_CACHE_TTL_SECONDS`. -/
  ttl : Option Int
  /-- What `int` makes of `RALPH_CONTEXT_CACHE_MAX_ENTRIES`. -/
  entryLimit : Option Int
  locked : Bool
  reading : Reading
  now : ℚ
  publication : Publication

namespace CacheHost

/-- `ttl_seconds`. -/
def ttlSeconds (h : CacheHost) : Int := max 1 (min (h.ttl.getD 300) (24 * 60 * 60))

/-- `max_entries`. -/
def maxEntries (h : CacheHost) : Nat := (max 1 (min (h.entryLimit.getD 128) 2048)).toNat

/-- An entry `_prune` keeps, if there is room. -/
def live (h : CacheHost) (e : CacheEntry) : Bool :=
  e.updatedEpoch ≠ 0 && 0 ≤ h.now - e.updatedEpoch && h.now - e.updatedEpoch ≤ h.ttlSeconds

/-- `_prune`. -/
def prune (h : CacheHost) (entries : Records CacheEntry) : Records CacheEntry :=
  entries.recent h.live (·.updatedEpoch) h.maxEntries

end CacheHost

/-- The key of a session and a task. -/
def cacheKey (p : Platform) (context : ActiveContext) (signature : Text) : Text :=
  digest p 24 context.sessionId ++ txt ":" ++ signature

/-! ## `claim` -/

/-- `CacheClaim`. -/
inductive CacheClaim where
  | hit (selectedMemoryIds : List Text) (fingerprint : Text)
  | inflight
  | miss (invalidationReason : Text)
  | unavailable (invalidationReason : Text)
deriving DecidableEq

/-- `DEFAULT_INFLIGHT_SECONDS`. -/
def inflightSeconds : ℚ := 15

/-- The clarification state a claim is compared with: none of its own means
that of the entry. -/
def effectiveClarification (clarificationState : Text) (f : Finalised) : Text :=
  if clarificationState = [] ∨ clarificationState = txt "unknown" then
    if f.inputs.clarificationState = [] then txt "unknown" else f.inputs.clarificationState
  else clarificationState

/-- The fingerprint a claim expects of an entry. -/
def expectedFingerprint (p : Platform) (signature : Text) (i : Inputs) (f : Finalised) : Text :=
  contextFingerprint p signature (safeIds p.unicode f.selectedMemoryIds)
    { i with clarificationState := effectiveClarification i.clarificationState f }

/-- What a claim decides on the entry it finds. -/
inductive Verdict where
  | hit (f : Finalised)
  | inflight
  | enter (reason : Text)

def verdict (p : Platform) (h : CacheHost) (signature : Text) (i : Inputs) :
    Option CacheEntry → Verdict
  | none => .enter (txt "new_task_signature")
  | some ⟨_, some f⟩ =>
      if f.fingerprint = expectedFingerprint p signature i f then .hit f
      else .enter (txt "context_fingerprint_changed")
  | some ⟨updatedEpoch, none⟩ =>
      if h.now - updatedEpoch ≤ inflightSeconds then .inflight
      else .enter (txt "context_fingerprint_changed")

/-- `claim`; `none` where the reading raises. -/
def claim (p : Platform) (h : CacheHost) (context : ActiveContext) (signature : Text) (i : Inputs)
    (file : CacheFile) : CacheFile × Option CacheClaim :=
  if !h.locked then (file, some (.unavailable (txt "cache_unavailable")))
  else match load .empty h.reading file with
    | none => (file, none)
    | some (left, stored) =>
        let key := cacheKey p context signature
        let entries := h.prune stored
        match verdict p h signature i (entries.get? key) with
        | .hit f =>
            -- a hit writes only what it has pruned
            let left := if entries ≠ stored then (publish h.publication left entries).1 else left
            (left, some (.hit (safeIds p.unicode f.selectedMemoryIds) f.fingerprint))
        | .inflight => (left, some .inflight)
        | .enter reason =>
            let (left, written) := publish h.publication left (entries.assign key ⟨h.now, none⟩)
            (left, some (if written then .miss reason
              else .unavailable (txt "cache_write_failed")))

/-! ## `finalize` and `discard` -/

/-- The ids an entry is finalised with. -/
def finalIds (u : Unicode) (selected : List Text) : List Text :=
  ((safeIds u selected).dedup.insertionSort TextLe).take 8

/-- What `finalize` writes. -/
def finalisedOf (p : Platform) (signature : Text) (selected : List Text) (i : Inputs) :
    Finalised where
  selectedMemoryIds := finalIds p.unicode selected
  inputs :=
    { memoryGeneration := safeId p.unicode i.memoryGeneration
      route := safeId p.unicode i.route
      profile := safeId p.unicode i.profile
      clarificationState := safeId p.unicode i.clarificationState
      checkpointHash := safeId p.unicode i.checkpointHash }
  fingerprint := contextFingerprint p signature (finalIds p.unicode selected) i

/-- `finalize`: whether it has changed the cache; `none` where the reading
raises. -/
def finalize (p : Platform) (h : CacheHost) (context : ActiveContext) (signature : Text)
    (selected : List Text) (i : Inputs) (file : CacheFile) : CacheFile × Option Bool :=
  if !h.locked then (file, some false)
  else match load .empty h.reading file with
    | none => (file, none)
    | some (left, stored) =>
        let key := cacheKey p context signature
        let entries := h.prune stored
        match entries.get? key with
        | some ⟨_, none⟩ =>
            let entry : CacheEntry := ⟨h.now, some (finalisedOf p signature selected i)⟩
            let (left, written) := publish h.publication left (entries.assign key entry)
            (left, some written)
        | _ => (left, some false)

/-- `discard`. -/
def discard (p : Platform) (h : CacheHost) (context : ActiveContext) (signature : Text)
    (file : CacheFile) : CacheFile × Option Bool :=
  if !h.locked then (file, some false)
  else match load .empty h.reading file with
    | none => (file, none)
    | some (left, stored) =>
        let entries := stored.erase (cacheKey p context signature)
        let (left, written) := publish h.publication left (h.prune entries)
        (left, some written)

/-! ## Calls -/

inductive CacheOperation where
  | claim (i : Inputs)
  | finalize (selected : List Text) (i : Inputs)
  | discard

/-- A call of any process, under the lock of the cache. -/
structure CacheCall where
  host : CacheHost
  context : ActiveContext
  task : Task
  operation : CacheOperation

inductive CacheAnswer where
  | claimed (claim : CacheClaim)
  | written (changed : Bool)
  | raised
deriving DecidableEq

/-- One call, from the file it finds to the file it leaves. -/
def CacheCall.perform (p : Platform) (c : CacheCall) (file : CacheFile) :
    CacheFile × CacheAnswer :=
  let signature := c.task.value p
  match c.operation with
  | .claim i =>
      let (file, answer) := claim p c.host c.context signature i file
      (file, (answer.map CacheAnswer.claimed).getD .raised)
  | .finalize selected i =>
      let (file, answer) := finalize p c.host c.context signature selected i file
      (file, (answer.map CacheAnswer.written).getD .raised)
  | .discard =>
      let (file, answer) := discard p c.host c.context signature file
      (file, (answer.map CacheAnswer.written).getD .raised)

/-- The caches of the projects. -/
abbrev Caches := Text → CacheFile

/-- One call, on the cache of its project. -/
def Caches.after (p : Platform) (caches : Caches) (c : CacheCall) : Caches :=
  fun project => if project = c.context.projectId then (c.perform p (caches project)).1
    else caches project

/-- The caches after a run, the last call first. -/
def Caches.run (p : Platform) (caches : Caches) : List CacheCall → Caches
  | [] => caches
  | c :: past => (caches.run p past).after p c

/-- What a call answers. -/
def Caches.answer (p : Platform) (caches : Caches) (c : CacheCall) : CacheAnswer :=
  (c.perform p (caches c.context.projectId)).2

end RalphVault.PromptCache
