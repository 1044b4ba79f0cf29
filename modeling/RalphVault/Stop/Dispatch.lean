import RalphVault.Stop.Duplicates

/-!
# Stop — the terminal branch of the dispatcher

`stop_dispatch.py`: a Stop that is no duplicate runs its business writers,
handoff, promotion and events, and is committed when they have returned. A
writer answers most errors with an unknown result of its own, so that it has
returned is not that it has written.

Left out: the byte counts of the results, and the contents of what is
written.
-/

namespace RalphVault.Stop.Dispatch

open StateFile Stop.Terminal

/-! ## Writers -/

/-- The exceptions the handlers tell apart. -/
inductive PyError where
  | os
  | value
  | type
  | runtime
  | other
deriving DecidableEq

/-- The fields of a `WriteResult` that are read. -/
structure WriteResult where
  changed : Bool
  known : Bool
deriving DecidableEq

def WriteResult.unchanged : WriteResult := ⟨false, true⟩
def WriteResult.written : WriteResult := ⟨true, true⟩
def WriteResult.unknown : WriteResult := ⟨false, false⟩

/-- How a writer ends: what it returns or raises, and whether all that it is
for is on the disk. -/
structure Ended where
  result : Except PyError WriteResult
  durable : Bool

/-- A handler that answers some errors with an unknown result. -/
def handled (errors : List PyError) (e : PyError) (durable : Bool) : Ended :=
  ⟨if errors.contains e then .ok .unknown else .error e, durable⟩

/-- What `_safe_runtime` finds. -/
inductive Runtime where
  | safe
  | unsafeRuntime
  | raised (e : PyError)
deriving DecidableEq

/-- A writer that asks for the runtime first. -/
def withRuntime (runtime : Runtime) (writer : Ended) (needed : Bool) : Ended :=
  match runtime with
  | .safe => writer
  | .unsafeRuntime => ⟨.ok .unknown, !needed⟩
  | .raised e => ⟨.error e, !needed⟩

/-! ## Events -/

/-- The host during `append_event`. -/
structure AppendHost where
  safe : Bool
  /-- What is raised under the lock. -/
  failure : Option PyError
  /-- The record and the file are within their limits, and all of it is written. -/
  fits : Bool

/-- `append_event`. -/
def appendEvent (host : AppendHost) : Ended :=
  if !host.safe then ⟨.ok .unknown, false⟩
  else match host.failure with
    | some e => handled [.os, .type, .value] e false
    | none => if host.fits then ⟨.ok .written, true⟩ else ⟨.ok .unknown, false⟩

/-- `persist_event`. -/
def persistEvent (runtime : Runtime) (host : AppendHost) : Ended :=
  withRuntime runtime (appendEvent host) true

/-- `_record_reports`. -/
def recordReports (codes : List Text) (runtime : Runtime) (host : AppendHost) : Ended :=
  if codes.isEmpty then ⟨.ok .unchanged, true⟩ else persistEvent runtime host

/-! ## Promotion -/

/-- What becomes of the job of `enqueue_maintenance`. -/
inductive QueueHost where
  | enqueued
  /-- There is such a job already, or one was queued a moment ago. -/
  | present
  /-- The queue or its lock cannot be used. -/
  | refused
  | failed (e : PyError)
  /-- Raised before the queue is tried. -/
  | raised (e : PyError)

def enqueueMaintenance : QueueHost → Ended
  | .enqueued => ⟨.ok .written, true⟩
  | .present => ⟨.ok .unchanged, true⟩
  | .refused => ⟨.ok .unchanged, false⟩
  | .failed e => handled [.os, .type, .value] e false
  | .raised e => ⟨.error e, false⟩

/-- `mark_promotion_pending`; `required` is `promotion_required`. -/
def markPromotionPending (runtime : Runtime) (queue : QueueHost) (required : Bool)
    (host : AppendHost) : Ended :=
  let queued := enqueueMaintenance queue
  withRuntime runtime
    (match queued.result with
      | .error e => ⟨.error e, false⟩
      | .ok result =>
          if !required then ⟨.ok result, queued.durable⟩
          else
            let appended := appendEvent host
            ⟨appended.result, queued.durable && appended.durable⟩)
    true

/-! ## Handoff -/

inductive HandoffLock where
  | held
  | refused
  | raised (e : PyError)

/-- The host during `persist_handoff`. -/
structure HandoffHost where
  runtime : Runtime
  /-- What is raised before the lock is taken. -/
  preparation : Option PyError
  lock : HandoffLock
  /-- The dedupe marker has the fingerprint of this handoff. -/
  known : Bool
  /-- There is something to hand off: a message that is not RED. -/
  message : Bool
  /-- `write_handoff_with_result` returns. -/
  handoff : Bool
  /-- A learning to save, and whether saving it returns. -/
  learning : Option Bool
  /-- What is raised by the write of the dedupe marker. -/
  marker : Option PyError

/-- `run` of `stop_persist_memory.py`; it never raises. -/
def persistStopHandoff (host : HandoffHost) : WriteResult × Bool :=
  if !host.message then (.unchanged, true)
  else if !host.handoff then (.unknown, false)
  else if host.learning = some false then (.unknown, false)
  else (.written, true)

/-- `persist_handoff`. -/
def persistHandoff (host : HandoffHost) : Ended :=
  let caught (e : PyError) (durable : Bool) := handled [.os, .value, .runtime] e durable
  withRuntime host.runtime
    (match host.preparation with
      | some e => caught e !host.message
      | none =>
          match host.lock with
          | .refused => ⟨.ok .unknown, !host.message⟩
          | .raised e => caught e !host.message
          | .held =>
              if host.known then ⟨.ok .unchanged, true⟩
              else
                let (result, durable) := persistStopHandoff host
                if !result.changed then ⟨.ok result, durable⟩
                else match host.marker with
                  | some e => caught e durable
                  | none => ⟨.ok .written, durable⟩)
    host.message

/-! ## The dispatcher -/

/-- The host and the payload during the business writers of one Stop. -/
structure Business where
  handoff : HandoffHost
  queue : QueueHost
  promotionRequired : Bool
  promotion : Runtime × AppendHost
  reportCodes : List Text
  reports : Runtime × AppendHost
  event : Runtime × AppendHost

/-- The writers of a Stop, in their order. -/
def Business.writers (b : Business) : List Ended :=
  [persistHandoff b.handoff,
   markPromotionPending b.promotion.1 b.queue b.promotionRequired b.promotion.2,
   recordReports b.reportCodes b.reports.1 b.reports.2,
   persistEvent b.event.1 b.event.2]

/-- No writer has raised. -/
def Business.returns (b : Business) : Bool :=
  b.writers.all fun ended => match ended.result with
    | .ok _ => true
    | .error _ => false

/-- All that the Stop is for is on the disk: no writer was kept from running by
one that raised, and each has done its part. -/
def Business.durable (b : Business) : Bool := b.returns && b.writers.all (·.durable)

/-- A Stop as it reaches the terminal branch. -/
structure StopEvent where
  stop : TerminalStop
  host : ClaimHost
  business : Business
  publication : Publication

def StopEvent.effect (e : StopEvent) : Text × Text :=
  (e.stop.scopeKey.text, e.stop.fingerprint.text)

/-- The state of the claims, and the Stops whose business is on the disk. -/
structure State where
  claims : Run
  settled : List (Text × Text)

def State.initial : State := ⟨⟨.initial, []⟩, []⟩

/-- The claims after one of their steps. -/
def advance (r : Run) (l : Terminal.Label) : Option (Run × Option TerminalBusinessClaim) :=
  (r.world.step l).map fun (w, claim) => (⟨w, r.world.committed l ++ r.history⟩, claim)

/-- The terminal branch of `main`: the claim, the writers, and the commit if
none of them has raised. -/
def State.serve (s : State) (e : StopEvent) : Option State :=
  (advance s.claims (.enter e.stop e.host)).bind fun (claims, claim) =>
    let claim := claim.getD ⟨false, false⟩
    let settled :=
      if !claim.duplicate && e.business.durable then e.effect :: s.settled else s.settled
    if claim.available then
      (advance claims (.leave (!claim.duplicate && e.business.returns) e.publication)).map
        fun (claims, _) => ⟨claims, settled⟩
    else some ⟨claims, settled⟩

/-- A run, the last Stop first. -/
def run : List StopEvent → Option State
  | [] => some .initial
  | e :: past => (run past).bind fun s => s.serve e

end RalphVault.Stop.Dispatch
