import RalphVault.Maintenance.Queue
import RalphVault.Store.Host

/-!
# Maintenance — attempts

What a call makes of each job of the queue (`Evolution`), and from it the
invariants of every run: identifiers stay unique, no job is attempted
more often than its budget allows, and a job that is written once is
handed out at most that often.

A run is the list of its calls, the last one first. The calls are those
of any number of processes; the lock of the queue puts them in a row.
-/

namespace RalphVault.Maintenance

open Store Recency StateFile
open Hooks (Platform ActiveContext)

variable {p : Platform}

/-- The jobs of a queue file. -/
def jobsOf (file : File) : List Job := file.getD []

@[simp] theorem jobsOf_some (jobs : List Job) : jobsOf (some jobs) = jobs := rfl

/-! ## Retention -/

/-- Giving up a lease touches nothing but the state of the job. -/
theorem Job.normalized_eq (now : Epoch) (j : Job) : ∃ status nextAttemptAt leaseUntil errorCode,
    j.normalized now = { j with
      status := status
      nextAttemptAt := nextAttemptAt
      leaseUntil := leaseUntil
      lastErrorCode := errorCode } := by
  simp only [normalized]
  split
  · split <;> exact ⟨_, _, _, _, rfl⟩
  · exact ⟨_, _, _, _, rfl⟩

theorem Job.normalized_jobId (now : Epoch) (j : Job) : (j.normalized now).jobId = j.jobId := by
  obtain ⟨_, _, _, _, h⟩ := j.normalized_eq now
  rw [h]

theorem Job.normalized_attempts (now : Epoch) (j : Job) :
    (j.normalized now).attempts = j.attempts := by
  obtain ⟨_, _, _, _, h⟩ := j.normalized_eq now
  rw [h]

theorem Job.normalized_maxAttempts (now : Epoch) (j : Job) :
    (j.normalized now).maxAttempts = j.maxAttempts := by
  obtain ⟨_, _, _, _, h⟩ := j.normalized_eq now
  rw [h]

theorem Job.unexpired_normalized (ttl : Int) (now : Epoch) (j : Job) :
    (j.normalized now).unexpired ttl now = j.unexpired ttl now := by
  obtain ⟨_, _, _, _, h⟩ := j.normalized_eq now
  rw [h]
  rfl

theorem Job.normalized_of_held {now : Epoch} {j : Job}
    (h : ¬(j.status = .leased ∧ j.leaseUntil ≤ now)) : j.normalized now = j := if_neg h

theorem Job.normalized_of_ne {now : Epoch} {j : Job} (h : j.status ≠ .leased) :
    j.normalized now = j := normalized_of_held fun hl => h hl.1

theorem Job.normalized_normalized (now : Epoch) (j : Job) :
    (j.normalized now).normalized now = j.normalized now := by
  by_cases h : j.status = .leased ∧ j.leaseUntil ≤ now
  · apply normalized_of_ne
    rw [normalized, if_pos h]
    split <;> exact fun heq => by cases heq
  · rw [normalized_of_held h, normalized_of_held h]

theorem mem_surviving {v : Environ} {jobs : List Job} {now : Epoch} {k : Job} :
    k ∈ surviving v jobs now ↔ ∃ j ∈ jobs.take (2 * v.entryLimit),
      j.unexpired v.queueTtlSeconds now = true ∧ k = j.normalized now := by
  simp only [surviving, List.mem_map, List.mem_filter]
  constructor
  · rintro ⟨j, ⟨hj, hunexpired⟩, rfl⟩
    exact ⟨j, hj, hunexpired, rfl⟩
  · rintro ⟨j, hj, hunexpired, rfl⟩
    exact ⟨j, ⟨hj, hunexpired⟩, rfl⟩

theorem exists_of_mem_trimJobs {v : Environ} {jobs : List Job} {now : Epoch} {k : Job}
    (h : k ∈ trimJobs v jobs now) : ∃ j ∈ jobs, k = j.normalized now := by
  obtain ⟨j, hj, -, rfl⟩ := mem_surviving.mp (mem_of_mem_mostRecent h)
  exact ⟨j, List.mem_of_mem_take hj, rfl⟩

theorem nodup_trimJobs {v : Environ} {jobs : List Job} {now : Epoch}
    (h : (jobs.map (·.jobId)).Nodup) : ((trimJobs v jobs now).map (·.jobId)).Nodup := by
  apply nodup_map_mostRecent
  have hids : (surviving v jobs now).map (·.jobId) =
      ((jobs.take (2 * v.entryLimit)).filter (·.unexpired v.queueTtlSeconds now)).map
        (·.jobId) := by
    rw [surviving, List.map_map]
    exact List.map_congr_left fun j _ => Job.normalized_jobId now j
  rw [hids]
  exact h.sublist ((List.filter_sublist.trans (List.take_sublist _ _)).map _)

/-! ## The loops -/

theorem claimLoop_ids (h : Host) (lease : Option Int) (room : Nat) (jobs : List Job) :
    (claimLoop p h lease room jobs).1.map (·.jobId) = jobs.map (·.jobId) := by
  induction jobs generalizing room with
  | nil => cases room <;> rfl
  | cons raw rest ih =>
      cases room with
      | zero => rfl
      | succ room =>
          simp only [claimLoop]
          split
          · simp only [List.map_cons, ih room, Job.leasedBy]
          · simp only [List.map_cons, ih (room + 1)]

theorem claimLoop_left {h : Host} {lease : Option Int} {room : Nat} {jobs : List Job} {k : Job}
    (hk : k ∈ (claimLoop p h lease room jobs).1) :
    k ∈ jobs ∨ ∃ j ∈ jobs, j.claimable h.now = true ∧ k = j.leasedBy h lease := by
  induction jobs generalizing room with
  | nil => cases room <;> exact .inl hk
  | cons raw rest ih =>
      cases room with
      | zero => exact .inl hk
      | succ room =>
          simp only [claimLoop] at hk
          split at hk
          · rename_i hclaimable
            rcases List.mem_cons.mp hk with rfl | hk
            · exact .inr ⟨raw, List.mem_cons_self, hclaimable, rfl⟩
            · rcases ih hk with hk | ⟨j, hj, hc, rfl⟩
              · exact .inl (List.mem_cons_of_mem _ hk)
              · exact .inr ⟨j, List.mem_cons_of_mem _ hj, hc, rfl⟩
          · rcases List.mem_cons.mp hk with rfl | hk
            · exact .inl List.mem_cons_self
            · rcases ih hk with hk | ⟨j, hj, hc, rfl⟩
              · exact .inl (List.mem_cons_of_mem _ hk)
              · exact .inr ⟨j, List.mem_cons_of_mem _ hj, hc, rfl⟩

theorem claimLoop_claimed {h : Host} {lease : Option Int} {room : Nat} {jobs : List Job}
    {m : MaintenanceJob} (hm : m ∈ (claimLoop p h lease room jobs).2) :
    ∃ j ∈ jobs, j.claimable h.now = true ∧ m = (j.leasedBy h lease).handedOut p ∧
      j.leasedBy h lease ∈ (claimLoop p h lease room jobs).1 := by
  induction jobs generalizing room with
  | nil => cases room <;> cases hm
  | cons raw rest ih =>
      cases room with
      | zero => cases hm
      | succ room =>
          simp only [claimLoop] at hm ⊢
          split at hm
          · rename_i hclaimable
            rw [if_pos hclaimable]
            rcases List.mem_cons.mp hm with rfl | hm
            · exact ⟨raw, List.mem_cons_self, hclaimable, rfl, List.mem_cons_self⟩
            · obtain ⟨j, hj, hc, hmj, hleft⟩ := ih hm
              exact ⟨j, List.mem_cons_of_mem _ hj, hc, hmj, List.mem_cons_of_mem _ hleft⟩
          · rename_i hclaimable
            rw [if_neg hclaimable]
            obtain ⟨j, hj, hc, hmj, hleft⟩ := ih hm
            exact ⟨j, List.mem_cons_of_mem _ hj, hc, hmj, List.mem_cons_of_mem _ hleft⟩

theorem claimLoop_claimed_ids (h : Host) (lease : Option Int) (room : Nat) (jobs : List Job) :
    ((claimLoop p h lease room jobs).2.map (·.jobId)).Sublist (jobs.map (·.jobId)) := by
  induction jobs generalizing room with
  | nil => cases room <;> exact List.Sublist.slnil
  | cons raw rest ih =>
      cases room with
      | zero => exact List.nil_sublist _
      | succ room =>
          simp only [claimLoop]
          split
          · exact (ih room).cons_cons _
          · exact (ih (room + 1)).cons _

theorem settleLoop_some {jobId : Text} {settle : Job → Job} {jobs left : List Job}
    (hsettle : ∀ j, (settle j).jobId = j.jobId) (h : settleLoop jobId settle jobs = some left) :
    left.map (·.jobId) = jobs.map (·.jobId) ∧
      ∀ k ∈ left, k ∈ jobs ∨ ∃ j ∈ jobs, j.jobId = jobId ∧ k = settle j := by
  induction jobs generalizing left with
  | nil => cases h
  | cons raw rest ih =>
      simp only [settleLoop] at h
      split at h
      · rename_i hid
        cases h
        refine ⟨by simp only [List.map_cons, hsettle], fun k hk => ?_⟩
        rcases List.mem_cons.mp hk with rfl | hk
        · exact .inr ⟨raw, List.mem_cons_self, by simpa using hid, rfl⟩
        · exact .inl (List.mem_cons_of_mem _ hk)
      · obtain ⟨left, hleft, rfl⟩ := Option.map_eq_some_iff.mp h
        obtain ⟨hids, hmem⟩ := ih hleft
        refine ⟨by simp only [List.map_cons, hids], fun k hk => ?_⟩
        rcases List.mem_cons.mp hk with rfl | hk
        · exact .inl List.mem_cons_self
        · rcases hmem k hk with hk | ⟨j, hj, hid, rfl⟩
          · exact .inl (List.mem_cons_of_mem _ hk)
          · exact .inr ⟨j, List.mem_cons_of_mem _ hj, hid, rfl⟩

theorem Job.settledAs_jobId (h : Host) (success : Bool) (errorCode : Text) (retryable : Bool)
    (j : Job) : (j.settledAs p h success errorCode retryable).jobId = j.jobId := by
  simp only [settledAs]
  split
  · rfl
  · split <;> rfl

theorem Job.settledAs_attempts (h : Host) (success : Bool) (errorCode : Text) (retryable : Bool)
    (j : Job) : (j.settledAs p h success errorCode retryable).attempts = j.attempts := by
  simp only [settledAs]
  split
  · rfl
  · split <;> rfl

theorem Job.settledAs_maxAttempts (h : Host) (success : Bool) (errorCode : Text)
    (retryable : Bool) (j : Job) :
    (j.settledAs p h success errorCode retryable).maxAttempts = j.maxAttempts := by
  simp only [settledAs]
  split
  · rfl
  · split <;> rfl

/-! ## What a call does

`Evolution` is what a call makes of a job it keeps, `admitted` the job it
adds. -/

/-- The job a call writes into the queue for the first time. -/
def admitted (p : Platform) (c : Call) (file : File) : Option Job :=
  match c.operation with
  | .enqueue context reasonCode payload =>
      let h := c.host
      let job := descriptor p h context reasonCode payload
      if h.safeRuntime && h.locked && h.publication ≠ .refused then
        match load h.reading file with
        | none => none
        | some (_, loaded) =>
            match deduplication h job (trimJobs h.environ loaded h.now) with
            | some _ => none
            | none => some job
      else none
  | _ => none

/-- What a call makes of one job. -/
inductive Evolution (p : Platform) (c : Call) (j : Job) : Job → Prop where
  | kept : Evolution p c j j
  | normalized : Evolution p c j (j.normalized c.host.now)
  | leased {limit : Int} {lease : Option Int} (hop : c.operation = .claim limit lease)
      (hclaimable : (j.normalized c.host.now).claimable c.host.now = true) :
      Evolution p c j ((j.normalized c.host.now).leasedBy c.host lease)
  | settled {success : Bool} {errorCode : Text} {retryable : Bool}
      (hop : c.operation = .complete j.jobId success errorCode retryable) :
      Evolution p c j
        ((j.normalized c.host.now).settledAs p c.host success errorCode retryable)

theorem Evolution.jobId {c : Call} {j k : Job} (h : Evolution p c j k) : k.jobId = j.jobId := by
  cases h with
  | kept => rfl
  | normalized => exact Job.normalized_jobId _ j
  | leased => exact Job.normalized_jobId _ j
  | settled => rw [Job.settledAs_jobId, Job.normalized_jobId]

theorem Evolution.maxAttempts {c : Call} {j k : Job} (h : Evolution p c j k) :
    k.maxAttempts = j.maxAttempts := by
  cases h with
  | kept => rfl
  | normalized => exact Job.normalized_maxAttempts _ j
  | leased => exact Job.normalized_maxAttempts _ j
  | settled => rw [Job.settledAs_maxAttempts, Job.normalized_maxAttempts]

/-- What a call does to the queue as a whole. -/
structure Turn (p : Platform) (c : Call) (file after : File) (handed : List MaintenanceJob) :
    Prop where
  /-- Every job comes from one of the file, or was just added. -/
  origin : ∀ k ∈ jobsOf after,
    (∃ j ∈ jobsOf file, Evolution p c j k) ∨ admitted p c file = some k
  /-- The job just added has a new identifier. -/
  fresh : ∀ job, admitted p c file = some job → ∀ k ∈ jobsOf after, k = job ∨ k.jobId ≠ job.jobId
  /-- A job handed out is one of the file, leased. -/
  leases : ∀ m ∈ handed, ∃ j ∈ jobsOf file, ∃ k ∈ jobsOf after, ∃ limit lease,
    c.operation = .claim limit lease ∧ (j.normalized c.host.now).claimable c.host.now = true ∧
      k = (j.normalized c.host.now).leasedBy c.host lease ∧ m = k.handedOut p
  /-- Identifiers stay unique. -/
  nodup : ((jobsOf file).map (·.jobId)).Nodup →
    ((jobsOf after).map (·.jobId)).Nodup ∧ (handed.map (·.jobId)).Nodup

theorem Turn.of_kept {c : Call} {file after : File} (hnone : admitted p c file = none)
    (h : jobsOf after = jobsOf file ∨ jobsOf after = []) : Turn p c file after [] where
  fresh job hadmitted := by
    rw [hnone] at hadmitted
    cases hadmitted
  origin k hk := by
    rcases h with h | h
    · exact .inl ⟨k, h ▸ hk, .kept⟩
    · rw [h] at hk
      cases hk
  leases m hm := by cases hm
  nodup hnodup := by
    rcases h with h | h
    · exact ⟨h ▸ hnodup, List.nodup_nil⟩
    · exact ⟨by rw [h]; exact List.nodup_nil, List.nodup_nil⟩

/-- A queue that is loaded holds the jobs of the file, or none. -/
theorem load_jobs {reading : Reading} {file left : File} {loaded : List Job}
    (h : load reading file = some (left, loaded)) :
    (loaded = jobsOf file ∨ loaded = []) ∧ (jobsOf left = jobsOf file ∨ jobsOf left = []) := by
  rcases load_cases h with ⟨hleft, hloaded⟩ | ⟨hloaded, hleft | hleft⟩
  · exact ⟨.inl hloaded, .inl (by rw [hleft])⟩
  · exact ⟨.inr hloaded, .inr (by rw [hleft]; rfl)⟩
  · exact ⟨.inr hloaded, .inl (by rw [hleft])⟩

theorem trimmed_of_load {reading : Reading} {file left : File} {loaded : List Job} (v : Environ)
    (now : Epoch) (h : load reading file = some (left, loaded)) :
    (∀ k ∈ trimJobs v loaded now, ∃ j ∈ jobsOf file, k = j.normalized now) ∧
      (((jobsOf file).map (·.jobId)).Nodup →
        ((trimJobs v loaded now).map (·.jobId)).Nodup) := by
  have hloaded := (load_jobs h).1
  constructor
  · intro k hk
    obtain ⟨j, hj, rfl⟩ := exists_of_mem_trimJobs hk
    rcases hloaded with rfl | rfl
    · exact ⟨j, hj, rfl⟩
    · cases hj
  · intro hnodup
    apply nodup_trimJobs
    rcases hloaded with rfl | rfl
    · exact hnodup
    · exact List.nodup_nil

/-- A job that passes the deduplication has a new identifier. -/
theorem ne_of_deduplication {h : Host} {job : Job} {jobs : List Job}
    (hnone : deduplication h job jobs = none) : ∀ k ∈ jobs, k.jobId ≠ job.jobId := by
  intro k hk hid
  simp only [deduplication] at hnone
  cases hfind : jobs.find? fun item => item.jobId == job.jobId with
  | none => exact absurd (List.find?_eq_none.mp hfind k hk) (by simp [hid])
  | some existing => simp [hfind] at hnone

theorem enqueue_turn (h : Host) (context : ActiveContext) (reasonCode : Text) (payload : Dict)
    (file : File) : Turn p ⟨h, .enqueue context reasonCode payload⟩ file
      (enqueueMaintenance p h context reasonCode payload file).1 [] := by
  simp only [enqueueMaintenance]
  split
  · rename_i hsafe
    exact .of_kept (by simp_all [admitted]) (.inl rfl)
  rename_i hsafe
  split
  · rename_i hlocked
    exact .of_kept (by simp_all [admitted]) (.inl rfl)
  rename_i hlocked
  simp only [Bool.not_eq_true', Bool.not_eq_false] at hsafe hlocked
  split
  · rename_i hload
    exact .of_kept (by simp [admitted, hload]) (.inl rfl)
  rename_i left loaded hload
  have hleft := (load_jobs hload).2
  split
  · rename_i result hknown
    exact .of_kept (by simp [admitted, hload, hknown]) hleft
  rename_i hnone
  obtain ⟨htrimmed, hnodup⟩ := trimmed_of_load h.environ h.now hload
  have hnew := ne_of_deduplication hnone
  -- whether the writing was acknowledged or not, the new list is there
  have hwritten : h.publication ≠ .refused → Turn p ⟨h, .enqueue context reasonCode payload⟩ file
      (some (trimJobs h.environ (trimJobs h.environ loaded h.now ++
        [descriptor p h context reasonCode payload]) h.now)) [] := by
    intro hpublication
    have hadmitted : admitted p ⟨h, .enqueue context reasonCode payload⟩ file =
        some (descriptor p h context reasonCode payload) := by
      simp [admitted, hsafe, hlocked, hload, hnone, hpublication]
    have horigin : ∀ k ∈ trimJobs h.environ (trimJobs h.environ loaded h.now ++
        [descriptor p h context reasonCode payload]) h.now,
        (∃ j ∈ jobsOf file, Evolution p ⟨h, .enqueue context reasonCode payload⟩ j k ∧
          k.jobId ≠ (descriptor p h context reasonCode payload).jobId) ∨
        k = descriptor p h context reasonCode payload := by
      intro k hk
      obtain ⟨j, hj, rfl⟩ := exists_of_mem_trimJobs hk
      rcases List.mem_append.mp hj with hj | hj
      · have hid := hnew j hj
        obtain ⟨i, hi, rfl⟩ := htrimmed j hj
        rw [Job.normalized_normalized]
        exact .inl ⟨i, hi, .normalized, hid⟩
      · obtain rfl := List.mem_singleton.mp hj
        exact .inr (Job.normalized_of_ne (by simp [descriptor]))
    constructor
    · intro k hk
      rcases horigin k hk with ⟨j, hj, hevolution, -⟩ | rfl
      · exact .inl ⟨j, hj, hevolution⟩
      · exact .inr hadmitted
    · intro job hjob k hk
      rw [hadmitted] at hjob
      cases hjob
      rcases horigin k hk with ⟨j, hj, -, hid⟩ | hid
      · exact .inr hid
      · exact .inl hid
    · intro m hm
      cases hm
    · intro hids
      refine ⟨nodup_trimJobs ?_, List.nodup_nil⟩
      rw [List.map_append, List.nodup_append]
      refine ⟨hnodup hids, List.nodup_singleton _, fun a ha b hb => ?_⟩
      obtain ⟨k, hk, rfl⟩ := List.mem_map.mp ha
      obtain rfl := List.mem_singleton.mp hb
      exact hnew k hk
  cases hpublication : h.publication with
  | done => exact hwritten (by simp [hpublication])
  | refused => exact .of_kept (by simp [admitted, hpublication]) hleft
  | unacknowledged => exact hwritten (by simp [hpublication])

theorem claim_turn (h : Host) (limit : Int) (lease : Option Int) (file : File) :
    Turn p ⟨h, .claim limit lease⟩ file (claimJobs p h limit lease file).1
      (claimJobs p h limit lease file).2 := by
  simp only [claimJobs]
  split
  · exact .of_kept rfl (.inl rfl)
  split
  · exact .of_kept rfl (.inl rfl)
  rename_i left loaded hload
  have hleft := (load_jobs hload).2
  obtain ⟨htrimmed, hnodup⟩ := trimmed_of_load h.environ h.now hload
  generalize hroom : (max 1 (min limit 32)).toNat = room
  let result := claimLoop p h lease room (trimJobs h.environ loaded h.now)
  have horigin : ∀ k ∈ result.1, ∃ j ∈ jobsOf file, Evolution p ⟨h, .claim limit lease⟩ j k := by
    intro k hk
    rcases claimLoop_left hk with hk | ⟨i, hi, hclaimable, rfl⟩
    · obtain ⟨j, hj, rfl⟩ := htrimmed k hk
      exact ⟨j, hj, .normalized⟩
    · obtain ⟨j, hj, rfl⟩ := htrimmed i hi
      exact ⟨j, hj, .leased rfl hclaimable⟩
  have hids : ((jobsOf file).map (·.jobId)).Nodup → (result.1.map (·.jobId)).Nodup := by
    intro hfile
    rw [claimLoop_ids]
    exact hnodup hfile
  split
  · have hkept : Turn p ⟨h, .claim limit lease⟩ file (some result.1) [] :=
      ⟨fun k hk => .inl (horigin k hk), fun job hjob => (nomatch hjob), fun m hm => (nomatch hm),
        fun hfile => ⟨hids hfile, List.nodup_nil⟩⟩
    cases h.publication with
    | done =>
        refine ⟨hkept.origin, hkept.fresh, fun m hm => ?_, fun hfile => ⟨hids hfile, ?_⟩⟩
        · obtain ⟨i, hi, hclaimable, rfl, hmem⟩ := claimLoop_claimed hm
          obtain ⟨j, hj, rfl⟩ := htrimmed i hi
          exact ⟨j, hj, _, hmem, limit, lease, rfl, hclaimable, rfl, rfl⟩
        · exact (hnodup hfile).sublist (claimLoop_claimed_ids h lease room _)
    | refused => exact .of_kept rfl hleft
    | unacknowledged => exact hkept
  · rename_i hunchanged
    -- nothing was claimed, or there would be something to write
    have hnone : result.2 = [] := by
      by_contra hsome
      exact hunchanged (.inr hsome)
    change Turn p _ file left result.2
    rw [hnone]
    exact .of_kept rfl hleft

theorem complete_turn (h : Host) (jobId : Text) (success : Bool) (errorCode : Text)
    (retryable : Bool) (file : File) :
    Turn p ⟨h, .complete jobId success errorCode retryable⟩ file
      (completeJob p h jobId success errorCode retryable file).1 [] := by
  simp only [completeJob]
  split
  · exact .of_kept rfl (.inl rfl)
  split
  · exact .of_kept rfl (.inl rfl)
  rename_i left loaded hload
  have hleft := (load_jobs hload).2
  obtain ⟨htrimmed, hnodup⟩ := trimmed_of_load h.environ h.now hload
  split
  · exact .of_kept rfl hleft
  rename_i jobs hsettle
  obtain ⟨hids, hmem⟩ := settleLoop_some (Job.settledAs_jobId h success errorCode retryable) hsettle
  have hwritten : Turn p ⟨h, .complete jobId success errorCode retryable⟩ file (some jobs) [] := by
    refine ⟨fun k hk => ?_, fun job hjob => (nomatch hjob), fun m hm => (nomatch hm), fun hfile => ⟨?_, List.nodup_nil⟩⟩
    · rcases hmem k hk with hk | ⟨i, hi, hid, rfl⟩
      · obtain ⟨j, hj, rfl⟩ := htrimmed k hk
        exact .inl ⟨j, hj, .normalized⟩
      · obtain ⟨j, hj, rfl⟩ := htrimmed i hi
        rw [Job.normalized_jobId] at hid
        exact .inl ⟨j, hj, .settled (by rw [hid])⟩
    · rw [jobsOf_some, hids]
      exact hnodup hfile
  cases h.publication with
  | done => exact hwritten
  | refused => exact .of_kept rfl hleft
  | unacknowledged => exact hwritten

/-- Every call is a turn of the queue. -/
theorem Call.turn (c : Call) (file : File) :
    Turn p c file (c.perform p file).1 (c.perform p file).2.handed := by
  obtain ⟨h, operation⟩ := c
  cases operation with
  | enqueue context reasonCode payload => exact enqueue_turn h context reasonCode payload file
  | claim limit lease => exact claim_turn h limit lease file
  | complete jobId success errorCode retryable =>
      exact complete_turn h jobId success errorCode retryable file

/-! ## Runs -/

/-- The queue file after a run. -/
def fileAfter (p : Platform) : List Call → File
  | [] => none
  | c :: past => (c.perform p (fileAfter p past)).1

/-- How often a call hands a job out. -/
def handings (jobId : Text) (handed : List MaintenanceJob) : Nat :=
  handed.countP fun m => m.jobId == jobId

/-- How often the calls of a run have handed a job out since it was last
added to the queue. -/
def handouts (p : Platform) (jobId : Text) : List Call → Nat
  | [] => 0
  | c :: past =>
      match admitted p c (fileAfter p past) with
      | some job => if job.jobId = jobId then 0 else handouts p jobId past
      | none =>
          handouts p jobId past + handings jobId (c.perform p (fileAfter p past)).2.handed

/-- The attempts a job was given when it was last added. -/
def budget (p : Platform) (jobId : Text) : List Call → Nat
  | [] => 0
  | c :: past =>
      match admitted p c (fileAfter p past) with
      | some job => if job.jobId = jobId then job.maxAttempts else budget p jobId past
      | none => budget p jobId past

/-- A job within its budget. -/
structure Job.Within (j : Job) : Prop where
  attempts_le : j.attempts ≤ j.maxAttempts
  positive : 0 < j.maxAttempts
  claimable_lt : j.status = .pending ∨ j.status = .retryable → j.attempts < j.maxAttempts

theorem Job.Within.maximum {j : Job} (h : j.Within) : j.maximum = j.maxAttempts := by
  have := h.positive
  simp only [Job.maximum]
  split <;> omega

theorem Job.Within.normalized {j : Job} (h : j.Within) (now : Epoch) :
    (j.normalized now).Within := by
  have hmax := h.maximum
  rw [Job.normalized]
  split
  · split
    · exact ⟨h.attempts_le, h.positive, fun hs => by simp at hs⟩
    · refine ⟨h.attempts_le, h.positive, fun _ => ?_⟩
      show j.attempts < j.maxAttempts
      omega
  · exact h

theorem Job.claimable_status {now : Epoch} {j : Job} (h : j.claimable now = true) :
    j.status = .pending ∨ j.status = .retryable := by
  simp only [Job.claimable, Bool.and_eq_true, Bool.or_eq_true, beq_iff_eq] at h
  exact h.1

theorem Job.Within.settledAs {j : Job} (h : j.Within) (host : Host) (success : Bool)
    (errorCode : Text) (retryable : Bool) :
    (j.settledAs p host success errorCode retryable).Within := by
  simp only [Job.settledAs]
  split
  · exact ⟨h.attempts_le, h.positive, fun hs => by simp at hs⟩
  · split
    · exact ⟨h.attempts_le, h.positive, fun hs => by simp at hs⟩
    · rename_i hretry
      simp only [Bool.or_eq_true, decide_eq_true_eq, not_or] at hretry
      exact ⟨h.attempts_le, h.positive, fun _ => Nat.lt_of_not_le hretry.2⟩

theorem Evolution.within {c : Call} {j k : Job} (h : Evolution p c j k) (hj : j.Within) :
    k.Within := by
  cases h with
  | kept => exact hj
  | normalized => exact hj.normalized _
  | leased hop hclaimable =>
      have hn := hj.normalized c.host.now
      have hlt := hn.claimable_lt (Job.claimable_status hclaimable)
      exact ⟨hlt, hn.positive, fun hs => by simp [Job.leasedBy] at hs⟩
  | settled => exact (hj.normalized _).settledAs _ _ _ _

theorem admitted_within {c : Call} {file : File} {job : Job}
    (h : admitted p c file = some job) : job.Within ∧ job.attempts = 0 := by
  obtain ⟨host, operation⟩ := c
  cases operation with
  | claim limit lease => cases h
  | complete jobId success errorCode retryable => cases h
  | enqueue context reasonCode payload =>
      simp only [admitted] at h
      split at h
      · split at h
        · cases h
        · split at h
          · cases h
          · cases h
            have hpos := host.environ.one_le_attemptLimit
            exact ⟨⟨Nat.zero_le _, hpos, fun _ => hpos⟩, rfl⟩
      · cases h

theorem handings_le_one {handed : List MaintenanceJob} (h : (handed.map (·.jobId)).Nodup)
    (jobId : Text) : handings jobId handed ≤ 1 := by
  have hcount : handings jobId handed = (handed.map (·.jobId)).count jobId := by
    rw [handings, List.count, List.countP_map]
    rfl
  rw [hcount]
  exact List.nodup_iff_count_le_one.mp h jobId

theorem exists_of_handings_pos {jobId : Text} {handed : List MaintenanceJob}
    (h : 0 < handings jobId handed) : ∃ m ∈ handed, m.jobId = jobId := by
  obtain ⟨m, hm, hid⟩ := List.countP_pos_iff.mp h
  exact ⟨m, hm, by simpa using hid⟩

theorem eq_of_jobId_eq {jobs : List Job} (h : (jobs.map (·.jobId)).Nodup) {j k : Job}
    (hj : j ∈ jobs) (hk : k ∈ jobs) (hid : j.jobId = k.jobId) : j = k :=
  List.inj_on_of_nodup_map h hj hk hid

/-- The invariant of a run: the queue agrees with what the calls have done
so far. -/
structure Accounted (p : Platform) (past : List Call) : Prop where
  nodup : ((jobsOf (fileAfter p past)).map (·.jobId)).Nodup
  within : ∀ j ∈ jobsOf (fileAfter p past), j.Within
  budget_eq : ∀ j ∈ jobsOf (fileAfter p past), budget p j.jobId past = j.maxAttempts
  handouts_le : ∀ j ∈ jobsOf (fileAfter p past), handouts p j.jobId past ≤ j.attempts
  /-- Also of a job the queue has dropped. -/
  handouts_le_budget : ∀ jobId, handouts p jobId past ≤ budget p jobId past

/-- A job that is handed out becomes the leased record of the queue. -/
theorem Turn.leased_of_handed {c : Call} {file after : File} {handed : List MaintenanceJob}
    (h : Turn p c file after handed) (hfile : ((jobsOf file).map (·.jobId)).Nodup) {j : Job}
    (hj : j ∈ jobsOf file) (hhanded : 0 < handings j.jobId handed) :
    ∃ k ∈ jobsOf after, k.jobId = j.jobId ∧ k.attempts = j.attempts + 1 := by
  obtain ⟨m, hm, hid⟩ := exists_of_handings_pos hhanded
  obtain ⟨i, hi, k, hk, limit, lease, -, -, rfl, rfl⟩ := h.leases m hm
  have hki : ((i.normalized c.host.now).leasedBy c.host lease).jobId = i.jobId :=
    Job.normalized_jobId _ i
  have hij : i = j := eq_of_jobId_eq hfile hi hj (hki.symm.trans hid)
  subst hij
  exact ⟨_, hk, hki, congrArg (· + 1) (Job.normalized_attempts _ i)⟩

theorem Evolution.attempts_le {c : Call} {j k : Job} (h : Evolution p c j k) :
    j.attempts ≤ k.attempts := by
  cases h with
  | kept => exact le_rfl
  | normalized => exact (Job.normalized_attempts _ j).ge
  | leased => exact Nat.le_succ_of_le (Job.normalized_attempts _ j).ge
  | settled => rw [Job.settledAs_attempts, Job.normalized_attempts]

/-- A call that adds a job keeps the accounts. -/
theorem Accounted.admit {past : List Call} (h : Accounted p past) {c : Call} {job : Job}
    (hadmitted : admitted p c (fileAfter p past) = some job) : Accounted p (c :: past) := by
  have hturn := c.turn (p := p) (fileAfter p past)
  obtain ⟨hwithin, hzero⟩ := admitted_within hadmitted
  have hbudget : ∀ jobId, budget p jobId (c :: past) =
      if job.jobId = jobId then job.maxAttempts else budget p jobId past := by
    intro jobId
    simp only [budget, hadmitted]
  have hhandouts : ∀ jobId, handouts p jobId (c :: past) =
      if job.jobId = jobId then 0 else handouts p jobId past := by
    intro jobId
    simp only [handouts, hadmitted]
  -- the jobs that were there before have other identifiers
  have hcases : ∀ k ∈ jobsOf (fileAfter p (c :: past)), k = job ∨
      job.jobId ≠ k.jobId ∧ ∃ j ∈ jobsOf (fileAfter p past), Evolution p c j k := by
    intro k hk
    rcases hturn.fresh job hadmitted k hk with hjob | hid
    · exact .inl hjob
    · rcases hturn.origin k hk with horigin | hself
      · exact .inr ⟨fun heq => hid heq.symm, horigin⟩
      · rw [hadmitted] at hself
        cases hself
        exact absurd rfl hid
  constructor
  · exact (hturn.nodup h.nodup).1
  · intro k hk
    rcases hcases k hk with rfl | ⟨-, j, hj, hevolution⟩
    · exact hwithin
    · exact hevolution.within (h.within j hj)
  · intro k hk
    rw [hbudget]
    rcases hcases k hk with rfl | ⟨hid, j, hj, hevolution⟩
    · rw [if_pos rfl]
    · rw [if_neg hid, hevolution.jobId, h.budget_eq j hj, hevolution.maxAttempts]
  · intro k hk
    rw [hhandouts]
    rcases hcases k hk with rfl | ⟨hid, j, hj, hevolution⟩
    · rw [if_pos rfl]
      exact Nat.zero_le _
    · rw [if_neg hid, hevolution.jobId]
      exact (h.handouts_le j hj).trans hevolution.attempts_le
  · intro jobId
    rw [hhandouts, hbudget]
    split
    · exact Nat.zero_le _
    · exact h.handouts_le_budget jobId

/-- So does a call that adds none. -/
theorem Accounted.turn {past : List Call} (h : Accounted p past) {c : Call}
    (hnone : admitted p c (fileAfter p past) = none) : Accounted p (c :: past) := by
  have hturn := c.turn (p := p) (fileAfter p past)
  generalize hhanded : (c.perform p (fileAfter p past)).2.handed = handed at hturn
  have hnodup := hturn.nodup h.nodup
  have hbudget : ∀ jobId, budget p jobId (c :: past) = budget p jobId past := by
    intro jobId
    simp only [budget, hnone]
  have hhandouts : ∀ jobId, handouts p jobId (c :: past) =
      handouts p jobId past + handings jobId handed := by
    intro jobId
    simp only [handouts, hnone, hhanded]
  have horigin : ∀ k ∈ jobsOf (fileAfter p (c :: past)),
      ∃ j ∈ jobsOf (fileAfter p past), Evolution p c j k := by
    intro k hk
    refine (hturn.origin k hk).resolve_right fun hself => ?_
    rw [hnone] at hself
    cases hself
  constructor
  · exact hnodup.1
  · intro k hk
    obtain ⟨j, hj, hevolution⟩ := horigin k hk
    exact hevolution.within (h.within j hj)
  · intro k hk
    obtain ⟨j, hj, hevolution⟩ := horigin k hk
    rw [hbudget, hevolution.jobId, h.budget_eq j hj, hevolution.maxAttempts]
  · intro k hk
    obtain ⟨j, hj, hevolution⟩ := horigin k hk
    have hbefore := h.handouts_le j hj
    rw [hhandouts, hevolution.jobId]
    rcases Nat.eq_zero_or_pos (handings j.jobId handed) with hzero | hpos
    · have hle := hevolution.attempts_le
      omega
    · -- the record of the queue is the one the call has leased
      obtain ⟨k', hk', hid, hattempts⟩ := hturn.leased_of_handed h.nodup hj hpos
      have hkk : k' = k :=
        eq_of_jobId_eq hnodup.1 hk' hk (hid.trans hevolution.jobId.symm)
      have hone := handings_le_one hnodup.2 j.jobId
      rw [← hkk, hattempts]
      omega
  · intro jobId
    rw [hhandouts, hbudget]
    have hbefore := h.handouts_le_budget jobId
    rcases Nat.eq_zero_or_pos (handings jobId handed) with hzero | hpos
    · omega
    · obtain ⟨m, hm, hid⟩ := exists_of_handings_pos hpos
      obtain ⟨j, hj, k, hk, limit, lease, -, hclaimable, rfl, rfl⟩ := hturn.leases m hm
      have hjid : j.jobId = jobId := (Job.normalized_jobId c.host.now j).symm.trans hid
      subst hjid
      have hlt := ((h.within j hj).normalized c.host.now).claimable_lt
        (Job.claimable_status hclaimable)
      rw [Job.normalized_attempts, Job.normalized_maxAttempts] at hlt
      have hone := handings_le_one hnodup.2 j.jobId
      have hused := h.handouts_le j hj
      have hgiven := h.budget_eq j hj
      omega

theorem accounted (p : Platform) (past : List Call) : Accounted p past := by
  induction past with
  | nil =>
      refine ⟨List.nodup_nil, ?_, ?_, ?_, fun jobId => le_rfl⟩ <;> intro j hj <;> cases hj
  | cons c past ih =>
      cases hadmitted : admitted p c (fileAfter p past) with
      | none => exact ih.turn hadmitted
      | some job => exact ih.admit hadmitted

/-- The attempts of every run. Identifiers are unique and attempts stay
within the budget; between two writings of the same identifier a job is
handed out at most as often as its budget says, also when the queue has
dropped it; and as every call sees the queue, leases that have run out
given up, a job that can be handed out has an attempt left. -/
theorem attempts_bounded (p : Platform) (past : List Call) :
    ((jobsOf (fileAfter p past)).map (·.jobId)).Nodup ∧
    (∀ j ∈ jobsOf (fileAfter p past),
      j.attempts ≤ j.maxAttempts ∧ budget p j.jobId past = j.maxAttempts) ∧
    (∀ jobId, handouts p jobId past ≤ budget p jobId past) ∧
    ∀ v now, ∀ j ∈ trimJobs v (jobsOf (fileAfter p past)) now,
      j.status = .pending ∨ j.status = .retryable → j.attempts < j.maxAttempts := by
  have h := accounted p past
  refine ⟨h.nodup, fun j hj => ⟨(h.within j hj).attempts_le, h.budget_eq j hj⟩,
    h.handouts_le_budget, fun v now k hk hstatus => ?_⟩
  obtain ⟨j, hj, rfl⟩ := exists_of_mem_trimJobs hk
  exact ((h.within j hj).normalized now).claimable_lt hstatus

/-! ## A queue to evaluate calls on -/

def queueTable : DigestTable where
  rows := [
    (318719, txt "7692c3ad3540bb803c020b3aee66cd8887123234ea0c6e7143c0add73ff431ed"),
    (212863, txt "3061d30f55291974c600c2f18c7adfd547cac26af7536e21b7163e67fa802214"),
    (323813, txt "3fc4ccfe745870e2c0d99f71f30ff0656c8dedd41cc1d7d3d376b0dbe685e2f3"),
    (639408, txt "fba75056e61df443ae5f5ddd245d01618640257b38b2c23910f25fbc801a3413"),
    (742613, txt "8b5b9db0c13db24256c829aa364aa90c6d2eba318b9232a4ab9313b954d3555f"),
    (834150, txt "104e56a75b3568a91947c597432e4f0f34fa3b9fbf0876296c578c697a6ce4ff")]
  digests := by decide

def queuePlatform : Platform := ⟨queueTable.lookup, .ascii⟩

/-- A host on which nothing fails, its clock at `now` throughout. -/
def Host.at (now : Epoch) (maxEntries maxAttempts : Option Int) : Host where
  environ := ⟨none, none, maxEntries, maxAttempts, none, none⟩
  handoff := none
  learning := none
  stamp := []
  described := now
  now := now
  settled := now
  safeRuntime := true
  locked := true
  reading := .sound
  publication := .done

def queueContext : ActiveContext where
  projectId := txt "p"
  projectSlug := txt "p"
  workspaceRoot := txt "/w"
  workspaceInstanceId := txt "w"
  sessionId := txt "s"
  branch := txt "main"
  sha := txt "abc123"

/-- A payload that names the generation of the memory. -/
def generationPayload (generation : Text) : Dict := [(txt "memory_generation", .str generation)]

def observation (generation : Text) : Operation :=
  .enqueue queueContext (txt "stop") (generationPayload generation)

/-- The identifier of the job for generation `one`. -/
def jobOne : Text := txt "3061d30f55291974c600c2f18c7adfd5"

/-- How often the calls of a run have handed a job out. -/
def deliveries (p : Platform) (jobId : Text) : List Call → Nat
  | [] => 0
  | c :: past =>
      deliveries p jobId past + handings jobId (c.perform p (fileAfter p past)).2.handed

/-- A job with a single attempt, claimed. -/
def lastAttempt : List Call :=
  [⟨.at 101 none (some 1), .claim 1 none⟩, ⟨.at 100 none (some 1), observation (txt "one")⟩]

/-- The same job again, a week later. -/
def secondLife : List Call :=
  ⟨.at 700002 none (some 1), .claim 1 none⟩ ::
    ⟨.at 700001 none (some 1), observation (txt "one")⟩ :: lastAttempt

/-- The last lease of a job leaves no attempt when it runs out, and a job
the queue has dropped is delivered again. -/
theorem attempts_exceeded :
    (∃ past, ∃ j ∈ jobsOf (fileAfter queuePlatform past),
      j.status = .leased ∧ j.leaseUntil ≤ 200 ∧ ¬j.attempts < j.maxAttempts) ∧
    ∃ past jobId, (∀ c ∈ past, c.host.environ.attemptLimit = 1) ∧
      1 < deliveries queuePlatform jobId past := by
  constructor
  · exact ⟨lastAttempt, by decide +kernel⟩
  · exact ⟨secondLife, jobOne, by decide +kernel, by decide +kernel⟩

end RalphVault.Maintenance
