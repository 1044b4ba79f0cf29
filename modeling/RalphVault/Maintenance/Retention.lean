import RalphVault.Maintenance.Attempts

/-!
# Maintenance — retention

What an enqueue drops. The queue is cut by recency alone: whether a job
is live or settled makes no difference, and the job just enqueued is
compared like any other, by the time its descriptor was made.
-/

namespace RalphVault.Maintenance

open Store Recency StateFile
open Hooks (Platform ActiveContext)

variable {p : Platform}

theorem mem_trimJobs {v : Environ} {jobs : List Job} {now : Epoch} {k : Job}
    (h : k ∈ trimJobs v jobs now) :
    k.unexpired v.queueTtlSeconds now = true ∧ k.normalized now = k := by
  obtain ⟨j, -, hunexpired, rfl⟩ := mem_surviving.mp (mem_of_mem_mostRecent h)
  exact ⟨by rw [Job.unexpired_normalized, hunexpired], Job.normalized_normalized now j⟩

/-- Trimming a trimmed queue again with one more job only cuts it. -/
theorem surviving_append {v : Environ} {jobs : List Job} {now : Epoch} {job : Job}
    (hpending : job.status ≠ .leased) :
    surviving v (trimJobs v jobs now ++ [job]) now =
      trimJobs v jobs now ++ [job].filter (·.unexpired v.queueTtlSeconds now) := by
  have hlimit := v.one_le_entryLimit
  have hlen : (trimJobs v jobs now ++ [job]).length ≤ 2 * v.entryLimit := by
    have htrimmed : (trimJobs v jobs now).length ≤ v.entryLimit := length_mostRecent_le _ _
    rw [List.length_append, List.length_singleton]
    omega
  rw [surviving, List.take_of_length_le hlen, List.filter_append,
    List.filter_eq_self.mpr fun k hk => (mem_trimJobs hk).1]
  refine (List.map_congr_left fun k hk => ?_).trans (List.map_id _)
  rcases List.mem_append.mp hk with hk | hk
  · exact (mem_trimJobs hk).2
  · obtain rfl := List.mem_singleton.mp (List.mem_filter.mp hk).1
    exact Job.normalized_of_ne hpending

/-- What an accepted enqueue writes. -/
theorem enqueue_written {h : Host} {context : ActiveContext} {reasonCode : Text} {payload : Dict}
    {file left : File} {loaded written : List Job} {result : EnqueueResult}
    (hload : load h.reading file = some (left, loaded))
    (hcall : enqueueMaintenance p h context reasonCode payload file = (some written, result))
    (haccepted : result.accepted = true) :
    (∀ k ∈ trimJobs h.environ loaded h.now,
      k.jobId ≠ (descriptor p h context reasonCode payload).jobId) ∧
    written = trimJobs h.environ (trimJobs h.environ loaded h.now ++
      [descriptor p h context reasonCode payload]) h.now := by
  simp only [enqueueMaintenance, hload] at hcall
  split at hcall
  · cases hcall
    cases haccepted
  split at hcall
  · cases hcall
    cases haccepted
  split at hcall
  · rename_i found hfound
    -- a job that is known is never accepted
    have hknown : found.accepted = false := by
      simp only [deduplication] at hfound
      split at hfound
      · cases hfound
        rfl
      · split at hfound
        · cases hfound
          rfl
        · cases hfound
    cases hcall
    rw [hknown] at haccepted
    cases haccepted
  · rename_i hnone
    refine ⟨ne_of_deduplication hnone, ?_⟩
    cases hpublication : h.publication <;> simp only [hpublication, publish] at hcall
    · cases hcall
      rfl
    · cases hcall
      cases haccepted
    · cases hcall
      cases haccepted

def firstHost : Host := .at 100 (some 1) none

def firstReason : Text := txt "stop"

def firstPayload : Dict := generationPayload (txt "one")

/-- The job an empty queue takes. -/
def firstJob : Job := descriptor queuePlatform firstHost queueContext firstReason firstPayload

def firstResult : EnqueueResult := ⟨true, false, firstJob.jobId, txt "enqueued"⟩

/-- The identifier of the job for generation `two`. -/
def jobTwo : Text := txt "fba75056e61df443ae5f5ddd245d0161"

/-- Two jobs, the second one claimed and completed. -/
def oneSettled : List Call :=
  [⟨.at 115 (some 2) none, .complete jobTwo true [] true⟩, ⟨.at 110 (some 2) none, .claim 1 none⟩,
    ⟨.at 105 (some 2) none, observation (txt "two")⟩,
    ⟨.at 100 (some 2) none, observation (txt "one")⟩]

end RalphVault.Maintenance
