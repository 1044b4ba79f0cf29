import RalphVault.Maintenance.Attempts

/-!
# Maintenance — runners

Hooks that enqueue jobs and runners that claim and settle them
(`run-pending-maintenance.py`), in any interleaving and with crashes.
A runner does all its work inside `instance_lock`, so at most one of
them holds jobs at any time; what a runner does with a job between
claiming it and reporting on it is its `Verdict`.

A job is found in the queue under its identifier alone. That this is
enough comes from the lock, except where a job is dropped while it is
leased, or where the queue has given its last lease up.
-/

namespace RalphVault.Maintenance

open Store StateFile
open Hooks (Platform ActiveContext)

/-- A run of the loop, inside the lock. -/
structure Session where
  /-- The projects not yet claimed from. -/
  projects : List Text
  maxJobs : Nat
  processed : Nat
  current : Text
  /-- The jobs claimed from the current project and not yet reported on. -/
  outstanding : List MaintenanceJob

/-- What a runner has to report about a job. -/
inductive Verdict where
  /-- `validate_job_descriptor` found it stale. -/
  | rejected (code : Text)
  | ran (ok : Bool) (code : Text)

def Verdict.success : Verdict → Bool
  | .rejected _ => false
  | .ran ok _ => ok

def Verdict.code : Verdict → Text
  | .rejected code => code
  | .ran _ code => code

def Verdict.retryable : Verdict → Bool
  | .rejected _ => false
  | .ran _ _ => true

structure World where
  /-- The queue of each project directory. -/
  files : Text → File
  /-- The runner that holds `instance_lock`. -/
  holder : Option Nat
  runners : Nat → Option Session

def World.initial : World := ⟨fun _ => none, none, fun _ => none⟩

def World.setFile (w : World) (q : Text) (file : File) : World :=
  { w with files := fun q' => if q' = q then file else w.files q' }

def World.setRunner (w : World) (r : Nat) (s : Option Session) : World :=
  { w with runners := fun r' => if r' = r then s else w.runners r' }

/-- The lock is released when its holder leaves or dies. -/
def World.exit (w : World) (r : Nat) : World :=
  { w.setRunner r none with holder := none }

inductive Label where
  | hook (h : Host) (context : ActiveContext) (reasonCode : Text) (payload : Dict)
  | start (r : Nat) (projects : List Text) (maxJobs : Nat)
  | claim (r : Nat) (h : Host)
  | settle (r : Nat) (h : Host) (verdict : Verdict)
  | leave (r : Nat)
  | crash (r : Nat)

/-- One step, where it can be taken. -/
def World.step (p : Platform) (w : World) : Label → Option World
  | .hook h context reasonCode payload =>
      let q := safeIdentifier p context.projectId
      some (w.setFile q (enqueueMaintenance p h context reasonCode payload (w.files q)).1)
  | .start r projects maxJobs =>
      if w.holder = none ∧ (w.runners r).isNone then
        some { w.setRunner r (some ⟨projects, maxJobs, 0, [], []⟩) with holder := some r }
      else none
  | .claim r h =>
      match w.runners r with
      | some ⟨project :: projects, maxJobs, processed, _, []⟩ =>
          if processed < maxJobs then
            let q := safeIdentifier p project
            let (file, jobs) := claimJobs p h ((maxJobs - processed : Nat) : Int) none (w.files q)
            some ((w.setFile q file).setRunner r
              (some ⟨projects, maxJobs, processed, project, jobs⟩))
          else none
      | _ => none
  | .settle r h verdict =>
      match w.runners r with
      | some ⟨projects, maxJobs, processed, current, job :: jobs⟩ =>
          if processed < maxJobs then
            let q := safeIdentifier p current
            let (file, _) := completeJob p h job.jobId verdict.success verdict.code
              verdict.retryable (w.files q)
            some ((w.setFile q file).setRunner r
              (some ⟨projects, maxJobs, processed + 1, current, jobs⟩))
          else none
      | _ => none
  | .leave r =>
      match w.runners r with
      | some s =>
          if s.outstanding.isEmpty ∧ s.projects.isEmpty ∨ s.maxJobs ≤ s.processed then
            some (w.exit r)
          else none
      | none => none
  | .crash r => if (w.runners r).isSome then some (w.exit r) else none

/-- The world after a run, the last step first. -/
def worldAfter (p : Platform) : List Label → Option World
  | [] => some .initial
  | l :: past => (worldAfter p past).bind fun w => w.step p l

/-- The jobs a runner holds. -/
def World.outstanding (w : World) (r : Nat) : List MaintenanceJob :=
  match w.runners r with
  | some s => s.outstanding
  | none => []

/-- The queue a runner works on. -/
def World.queueOf (p : Platform) (w : World) (r : Nat) : Text :=
  match w.runners r with
  | some s => safeIdentifier p s.current
  | none => []

/-- The call a step makes, and on which queue. -/
def Label.call (p : Platform) (w : World) : Label → Option (Text × Call)
  | .hook h context reasonCode payload =>
      some (safeIdentifier p context.projectId, ⟨h, .enqueue context reasonCode payload⟩)
  | .claim r h =>
      match w.runners r with
      | some ⟨project :: _, maxJobs, processed, _, []⟩ =>
          some (safeIdentifier p project, ⟨h, .claim ((maxJobs - processed : Nat) : Int) none⟩)
      | _ => none
  | .settle r h verdict =>
      match w.runners r with
      | some ⟨_, _, _, current, job :: _⟩ => some (safeIdentifier p current,
          ⟨h, .complete job.jobId verdict.success verdict.code verdict.retryable⟩)
      | _ => none
  | _ => none

/-- The runner a step belongs to. -/
def Label.runner : Label → Option Nat
  | .hook .. => none
  | .start r _ _ | .claim r _ | .settle r _ _ | .leave r | .crash r => some r

/-- The jobs a step hands out, and from which queue. -/
def Label.handed (p : Platform) (w : World) (l : Label) (q : Text) : List MaintenanceJob :=
  match l.call p w with
  | some (q', c) => if q' = q then (c.perform p (w.files q')).2.handed else []
  | none => []

/-! ## Steps -/

variable {p : Platform}

/-- What a step does to the queues and to the runners. -/
inductive Move (p : Platform) (w : World) (l : Label) : World → Prop where
  | hook {h : Host} {context : ActiveContext} {reasonCode : Text} {payload : Dict} {q : Text}
      {c : Call} (hl : l = .hook h context reasonCode payload)
      (hcall : l.call p w = some (q, c)) (hop : c.operation = .enqueue context reasonCode payload) :
      Move p w l (w.setFile q (c.perform p (w.files q)).1)
  | start {r : Nat} {projects : List Text} {maxJobs : Nat} (hl : l = .start r projects maxJobs)
      (hfree : w.holder = none) (hcall : l.call p w = none) :
      Move p w l { w.setRunner r (some ⟨projects, maxJobs, 0, [], []⟩) with holder := some r }
  | claim {r : Nat} {h : Host} {s t : Session} {q : Text} {c : Call} {limit : Int}
      (hl : l = .claim r h) (hs : w.runners r = some s) (hnone : s.outstanding = [])
      (hcall : l.call p w = some (q, c)) (hop : c.operation = .claim limit none)
      (hq : safeIdentifier p t.current = q)
      (hjobs : t.outstanding = (c.perform p (w.files q)).2.handed) :
      Move p w l ((w.setFile q (c.perform p (w.files q)).1).setRunner r (some t))
  | settle {r : Nat} {h : Host} {verdict : Verdict} {s t : Session} {q : Text} {c : Call}
      {job : MaintenanceJob} (hl : l = .settle r h verdict) (hs : w.runners r = some s)
      (hjob : s.outstanding = job :: t.outstanding) (hcurrent : t.current = s.current)
      (hq : safeIdentifier p s.current = q) (hcall : l.call p w = some (q, c))
      (hop : c.operation =
        .complete job.jobId verdict.success verdict.code verdict.retryable) :
      Move p w l ((w.setFile q (c.perform p (w.files q)).1).setRunner r (some t))
  | exit {r : Nat} {s : Session} (hl : l = .leave r ∨ l = .crash r) (hs : w.runners r = some s)
      (hcall : l.call p w = none) : Move p w l (w.exit r)

theorem step_move {w w' : World} {l : Label} (h : w.step p l = some w') : Move p w l w' := by
  cases l with
  | hook host context reasonCode payload =>
      cases h
      exact .hook rfl rfl rfl
  | start r projects maxJobs =>
      simp only [World.step] at h
      split at h
      · rename_i hfree
        cases h
        exact .start rfl hfree.1 rfl
      · cases h
  | claim r host =>
      simp only [World.step] at h
      split at h
      · rename_i project projects maxJobs processed current hs
        split at h
        · cases h
          have hcall : (Label.claim r host).call p w = some (safeIdentifier p project,
              ⟨host, .claim ((maxJobs - processed : Nat) : Int) none⟩) := by
            simp only [Label.call, hs]
          exact .claim rfl hs rfl hcall rfl rfl rfl
        · cases h
      · cases h
  | settle r host verdict =>
      simp only [World.step] at h
      split at h
      · rename_i projects maxJobs processed current job jobs hs
        split at h
        · cases h
          have hcall : (Label.settle r host verdict).call p w = some (safeIdentifier p current,
              ⟨host, .complete job.jobId verdict.success verdict.code verdict.retryable⟩) := by
            simp only [Label.call, hs]
          let left : Session := ⟨projects, maxJobs, processed + 1, current, jobs⟩
          exact @Move.settle p w _ r host verdict _ left _ _ job rfl hs rfl rfl rfl hcall rfl
        · cases h
      · cases h
  | leave r =>
      simp only [World.step] at h
      split at h
      · rename_i s hs
        split at h
        · cases h
          exact .exit (.inl rfl) hs rfl
        · cases h
      · cases h
  | crash r =>
      simp only [World.step] at h
      split at h
      · rename_i hsome
        cases h
        obtain ⟨s, hs⟩ := Option.isSome_iff_exists.mp hsome
        exact .exit (.inr rfl) hs rfl
      · cases h

theorem World.setFile_files (w : World) (q q' : Text) (file : File) :
    (w.setFile q file).files q' = if q' = q then file else w.files q' := rfl

theorem World.setRunner_runners (w : World) (r r' : Nat) (s : Option Session) :
    (w.setRunner r s).runners r' = if r' = r then s else w.runners r' := rfl

theorem handed_of_call {w : World} {l : Label} {q : Text} {c : Call}
    (h : l.call p w = some (q, c)) (q' : Text) :
    l.handed p w q' = if q = q' then (c.perform p (w.files q)).2.handed else [] := by
  simp only [Label.handed, h]

theorem Call.handed_of_not_claim {c : Call} (h : ∀ limit lease, c.operation ≠ .claim limit lease)
    (file : File) : (c.perform p file).2.handed = [] := by
  obtain ⟨host, operation⟩ := c
  cases operation with
  | enqueue context reasonCode payload => rfl
  | claim limit lease => exact absurd rfl (h limit lease)
  | complete jobId success errorCode retryable => rfl

/-- The runner that was handed a job last. -/
def claimant (p : Platform) (q jobId : Text) : List Label → Option Nat
  | [] => none
  | l :: past =>
      match worldAfter p past with
      | some w =>
          if (l.handed p w q).any (fun m => m.jobId == jobId) then l.runner
          else claimant p q jobId past
      | none => none

theorem claimant_of_handed_nil {past : List Label} {w : World} (hw : worldAfter p past = some w)
    {l : Label} {q : Text} (hnone : l.handed p w q = []) (jobId : Text) :
    claimant p q jobId (l :: past) = claimant p q jobId past := by
  simp [claimant, hw, hnone]

/-- What the record of an outstanding job may have become, `o` being the
runner that was handed it last. -/
def Owned (o : Option Nat) (r : Nat) (j : MaintenanceJob) (k : Job) : Prop :=
  match k.status with
  | .leased => k.leaseUntil = j.leaseUntil ∧ o = some r
  | .deadLettered => k.lastErrorCode = txt "lease_attempts_exhausted"
  | .completed => False
  | .pending | .retryable => True

theorem Owned.normalized {o : Option Nat} {r : Nat} {j : MaintenanceJob} {k : Job}
    (h : Owned o r j k) (now : Epoch) : Owned o r j (k.normalized now) := by
  by_cases hexpired : k.status = .leased ∧ k.leaseUntil ≤ now
  · rw [Job.normalized, if_pos hexpired]
    split
    · exact rfl
    · exact trivial
  · rwa [Job.normalized_of_held hexpired]

/-- A record that is neither leased nor settled by a call is kept as every
call sees it. -/
theorem Evolution.cases_of_other {c : Call} {j k : Job} (h : Evolution p c j k)
    (hclaim : ∀ limit lease, c.operation ≠ .claim limit lease)
    (hcomplete : ∀ success code retryable, c.operation ≠ .complete j.jobId success code retryable) :
    k = j ∨ k = j.normalized c.host.now := by
  cases h with
  | kept => exact .inl rfl
  | normalized => exact .inr rfl
  | leased hop _ => exact absurd hop (hclaim _ _)
  | settled hop => exact absurd hop (hcomplete _ _ _)

theorem Owned.of_evolution {o : Option Nat} {r : Nat} {m : MaintenanceJob} {c : Call} {j k : Job}
    (h : Owned o r m j) (hevolution : Evolution p c j k)
    (hclaim : ∀ limit lease, c.operation ≠ .claim limit lease)
    (hcomplete : ∀ success code retryable, c.operation ≠ .complete j.jobId success code retryable) :
    Owned o r m k := by
  rcases hevolution.cases_of_other hclaim hcomplete with rfl | rfl
  · exact h
  · exact h.normalized _

theorem status_of_admitted {c : Call} {file : File} {job : Job}
    (h : admitted p c file = some job) : job.status = .pending := by
  obtain ⟨host, operation⟩ := c
  cases operation with
  | claim limit lease => cases h
  | complete jobId success errorCode retryable => cases h
  | enqueue context reasonCode payload =>
      simp only [admitted] at h
      split at h
      · split at h
        · cases h
        · split at h <;> cases h
          rfl
      · cases h

/-! ## The lock -/

/-- The invariant of a run. -/
structure Orderly (p : Platform) (past : List Label) (w : World) : Prop where
  /-- Only the holder of the lock is inside it. -/
  alone : ∀ r s, w.runners r = some s → w.holder = some r
  nodup : ∀ q, ((jobsOf (w.files q)).map (·.jobId)).Nodup
  distinct : ∀ r s, w.runners r = some s → (s.outstanding.map (·.jobId)).Nodup
  owned : ∀ r s, w.runners r = some s → ∀ j ∈ s.outstanding,
    ∀ k ∈ jobsOf (w.files (safeIdentifier p s.current)), k.jobId = j.jobId →
      Owned (claimant p (safeIdentifier p s.current) j.jobId past) r j k

theorem Orderly.initial (p : Platform) : Orderly p [] .initial where
  alone r s hs := by cases hs
  nodup q := List.nodup_nil
  distinct r s hs := by cases hs
  owned r s hs := by cases hs

theorem Orderly.unique {past : List Label} {w : World} (h : Orderly p past w) {r r' : Nat}
    {s s' : Session} (hs : w.runners r = some s) (hs' : w.runners r' = some s') : r' = r := by
  have hr := (h.alone r s hs).symm.trans (h.alone r' s' hs')
  exact (Option.some.inj hr).symm

/-- The runner that moves is the only one there is. -/
theorem Orderly.session_of_setRunner {past : List Label} {w : World} (h : Orderly p past w)
    {r : Nat} {s t : Session} (hs : w.runners r = some s) (q : Text) (file : File) (r' : Nat)
    (s' : Session) (hs' : ((w.setFile q file).setRunner r (some t)).runners r' = some s') :
    r' = r ∧ s' = t := by
  rw [World.setRunner_runners] at hs'
  split at hs'
  · rename_i hr
    exact ⟨hr, (Option.some.inj hs').symm⟩
  · rename_i hr
    exact absurd (h.unique hs hs') hr

theorem Orderly.setFile_nodup {past : List Label} {w : World} (h : Orderly p past w) (q : Text)
    (c : Call) (q' : Text) :
    ((jobsOf ((w.setFile q (c.perform p (w.files q)).1).files q')).map (·.jobId)).Nodup := by
  rw [World.setFile_files]
  split
  · exact ((c.turn (w.files q)).nodup (h.nodup q)).1
  · exact h.nodup q'

/-- What a call other than a claim leaves of the records of a job that is
not the one it settles. -/
theorem Orderly.owned_setFile {past : List Label} {w : World} (h : Orderly p past w) {q : Text}
    {c : Call} (hclaim : ∀ limit lease, c.operation ≠ .claim limit lease) {r : Nat} {s : Session}
    (hs : w.runners r = some s) {j : MaintenanceJob} (hj : j ∈ s.outstanding)
    (hcomplete : ∀ success code retryable, c.operation ≠ .complete j.jobId success code retryable)
    {k : Job}
    (hk : k ∈ jobsOf ((w.setFile q (c.perform p (w.files q)).1).files
      (safeIdentifier p s.current))) (hid : k.jobId = j.jobId) :
    Owned (claimant p (safeIdentifier p s.current) j.jobId past) r j k := by
  rw [World.setFile_files] at hk
  split at hk
  · rename_i hq
    rcases (c.turn (p := p) (w.files q)).origin k hk with ⟨k₀, hk₀, hevolution⟩ | hadmitted
    · rw [← hq] at hk₀
      have hid₀ := hevolution.jobId.symm.trans hid
      have howned := h.owned r s hs j hj k₀ hk₀ hid₀
      exact howned.of_evolution hevolution hclaim (by rw [hid₀]; exact hcomplete)
    · rw [Owned, status_of_admitted hadmitted]
      trivial
  · exact h.owned r s hs j hj k hk hid

theorem Orderly.step {past : List Label} {w w' : World} {l : Label} (h : Orderly p past w)
    (hw : worldAfter p past = some w) (hmove : Move p w l w') : Orderly p (l :: past) w' := by
  cases hmove with
  | @hook host context reasonCode payload q c hl hcall hop =>
      have hclaim : ∀ limit lease, c.operation ≠ .claim limit lease := by simp [hop]
      refine ⟨h.alone, h.setFile_nodup q c, h.distinct, fun r s hs j hj k hk hid => ?_⟩
      have hnone : l.handed p w (safeIdentifier p s.current) = [] := by
        rw [handed_of_call hcall, Call.handed_of_not_claim hclaim, ite_self]
      rw [claimant_of_handed_nil hw hnone]
      exact h.owned_setFile hclaim hs hj (by simp [hop]) hk hid
  | @start r projects maxJobs hl hfree hcall =>
      -- no runner was inside the lock
      have hothers : ∀ r', w.runners r' = none := by
        intro r'
        cases hs : w.runners r' with
        | none => rfl
        | some s => simp [h.alone r' s hs] at hfree
      have hsession : ∀ r' s, (w.setRunner r (some ⟨projects, maxJobs, 0, [], []⟩)).runners r' =
          some s → r' = r ∧ s = ⟨projects, maxJobs, 0, [], []⟩ := by
        intro r' s hs
        rw [World.setRunner_runners] at hs
        split at hs
        · rename_i hr
          exact ⟨hr, (Option.some.inj hs).symm⟩
        · rw [hothers] at hs
          cases hs
      refine ⟨fun r' s hs => ?_, h.nodup, fun r' s hs => ?_, fun r' s hs j hj => ?_⟩
      · obtain ⟨rfl, -⟩ := hsession r' s hs
        rfl
      · obtain ⟨-, rfl⟩ := hsession r' s hs
        exact List.nodup_nil
      · obtain ⟨-, rfl⟩ := hsession r' s hs
        cases hj
  | @claim r host s t q c limit hl hs hnone hcall hop hq hjobs =>
      have hturn := c.turn (p := p) (w.files q)
      have hnodup := hturn.nodup (h.nodup q)
      have hsession := h.session_of_setRunner (t := t) hs q (c.perform p (w.files q)).1
      refine ⟨fun r' s' hs' => ?_, h.setFile_nodup q c, fun r' s' hs' => ?_,
        fun r' s' hs' m hm k hk hid => ?_⟩
      · obtain ⟨rfl, -⟩ := hsession r' s' hs'
        exact h.alone r' s hs
      · obtain ⟨-, rfl⟩ := hsession r' s' hs'
        rw [hjobs]
        exact hnodup.2
      · obtain ⟨rfl, rfl⟩ := hsession r' s' hs'
        rw [hjobs] at hm
        rw [hq] at hk ⊢
        change k ∈ jobsOf ((w.setFile q (c.perform p (w.files q)).1).files q) at hk
        rw [World.setFile_files, if_pos rfl] at hk
        obtain ⟨j₀, -, k₀, hk₀, limit₀, lease₀, -, -, hleased, rfl⟩ := hturn.leases m hm
        have hk' : k = k₀ := eq_of_jobId_eq hnodup.1 hk hk₀ hid
        have hany : (l.handed p w q).any (fun m => m.jobId == (k₀.handedOut p).jobId) = true := by
          rw [handed_of_call hcall, if_pos rfl]
          exact List.any_eq_true.mpr ⟨_, hm, beq_self_eq_true _⟩
        have hlast : claimant p q (k₀.handedOut p).jobId (l :: past) = some r' := by
          simp only [claimant, hw, hany, if_true]
          rw [hl]
          rfl
        rw [hk', hlast, hleased]
        exact ⟨rfl, rfl⟩
  | @settle r host verdict s t q c job hl hs hjob hcurrent hq hcall hop =>
      have hclaim : ∀ limit lease, c.operation ≠ .claim limit lease := by simp [hop]
      have hdistinct := h.distinct r s hs
      rw [hjob, List.map_cons, List.nodup_cons] at hdistinct
      have hsession := h.session_of_setRunner (t := t) hs q (c.perform p (w.files q)).1
      refine ⟨fun r' s' hs' => ?_, h.setFile_nodup q c, fun r' s' hs' => ?_,
        fun r' s' hs' m hm k hk hid => ?_⟩
      · obtain ⟨rfl, -⟩ := hsession r' s' hs'
        exact h.alone r' s hs
      · obtain ⟨-, rfl⟩ := hsession r' s' hs'
        exact hdistinct.2
      · obtain ⟨rfl, rfl⟩ := hsession r' s' hs'
        have hnone : l.handed p w (safeIdentifier p s'.current) = [] := by
          rw [handed_of_call hcall, Call.handed_of_not_claim hclaim, ite_self]
        have hne : job.jobId ≠ m.jobId := fun heq =>
          hdistinct.1 (heq ▸ List.mem_map_of_mem hm)
        rw [claimant_of_handed_nil hw hnone, hcurrent]
        rw [hcurrent] at hk
        exact h.owned_setFile hclaim hs (hjob ▸ List.mem_cons_of_mem _ hm)
          (by simp [hop, hne]) hk hid
  | @exit r s hl hs hcall =>
      have hothers : ∀ r' s', (w.exit r).runners r' = some s' → False := by
        intro r' s' hs'
        change (w.setRunner r none).runners r' = some s' at hs'
        rw [World.setRunner_runners] at hs'
        split at hs'
        · cases hs'
        · rename_i hr
          exact hr (h.unique hs hs')
      exact ⟨fun r' s' hs' => (hothers r' s' hs').elim, h.nodup,
        fun r' s' hs' => (hothers r' s' hs').elim, fun r' s' hs' => (hothers r' s' hs').elim⟩

theorem orderly {past : List Label} {w : World} (hw : worldAfter p past = some w) :
    Orderly p past w := by
  induction past generalizing w with
  | nil =>
      cases hw
      exact .initial p
  | cons l past ih =>
      obtain ⟨w₀, hw₀, hstep⟩ := Option.bind_eq_some_iff.mp hw
      exact (ih hw₀).step hw₀ (step_move hstep)

/-! ## Leases -/

/-- A step after which a lease no longer stands: it finds the lease run
out, adds the job to the queue afresh, or is its runner's report. -/
def Label.ends (p : Platform) (w : World) (q jobId : Text) (r : Nat) (leaseUntil : Epoch)
    (l : Label) : Prop :=
  ∃ c, l.call p w = some (q, c) ∧ (leaseUntil ≤ c.host.now ∨
    (∃ job, admitted p c (w.files q) = some job ∧ job.jobId = jobId) ∨
    (l.runner = some r ∧
      ∃ success code retryable, c.operation = .complete jobId success code retryable))

/-- No step of a run ends a lease. -/
def Undisturbed (p : Platform) (q jobId : Text) (r : Nat) (leaseUntil : Epoch)
    (since : List Label) : List Label → Prop
  | [] => True
  | l :: past => Undisturbed p q jobId r leaseUntil since past ∧
      ∀ w, worldAfter p (past ++ since) = some w → ¬l.ends p w q jobId r leaseUntil

/-- While a lease stands, the record is leased and nobody else holds the
job. -/
structure Held (p : Platform) (q jobId : Text) (r : Nat) (leaseUntil : Epoch) (w : World) :
    Prop where
  leased : ∀ k ∈ jobsOf (w.files q), k.jobId = jobId →
    k.status = .leased ∧ k.leaseUntil = leaseUntil
  others : ∀ r' s, w.runners r' = some s → r' ≠ r → safeIdentifier p s.current = q →
    ∀ m ∈ s.outstanding, m.jobId ≠ jobId

/-- No call hands a job out while the lease stands. -/
theorem Held.handed {q jobId : Text} {r : Nat} {leaseUntil : Epoch} {w : World}
    (h : Held p q jobId r leaseUntil w) {c : Call} (hnow : c.host.now < leaseUntil) :
    ∀ m ∈ (c.perform p (w.files q)).2.handed, m.jobId ≠ jobId := by
  intro m hm hid
  obtain ⟨j, hj, k, -, limit, lease, -, hclaimable, rfl, rfl⟩ :=
    (c.turn (p := p) (w.files q)).leases m hm
  have hjid : j.jobId = jobId := (Job.normalized_jobId c.host.now j).symm.trans hid
  obtain ⟨hleased, huntil⟩ := h.leased j hj hjid
  have hheld : ¬(j.status = .leased ∧ j.leaseUntil ≤ c.host.now) := by
    rintro ⟨-, hle⟩
    rw [huntil] at hle
    exact absurd hnow (not_lt.mpr hle)
  rw [Job.normalized_of_held hheld] at hclaimable
  rcases Job.claimable_status hclaimable with hstatus | hstatus <;>
    · rw [hleased] at hstatus
      cases hstatus

/-- The records a call that does not end the lease leaves. -/
theorem Held.setFile {q jobId : Text} {r : Nat} {leaseUntil : Epoch} {w : World}
    (h : Held p q jobId r leaseUntil w) {q' : Text} {c : Call}
    (hnow : q' = q → c.host.now < leaseUntil)
    (hfresh : q' = q → ∀ job, admitted p c (w.files q) = some job → job.jobId ≠ jobId)
    (hcomplete : q' = q → ∀ success code retryable,
      c.operation ≠ .complete jobId success code retryable) :
    ∀ k ∈ jobsOf ((w.setFile q' (c.perform p (w.files q')).1).files q), k.jobId = jobId →
      k.status = .leased ∧ k.leaseUntil = leaseUntil := by
  intro k hk hid
  rw [World.setFile_files] at hk
  split at hk
  · rename_i hq
    subst hq
    rcases (c.turn (p := p) (w.files q)).origin k hk with ⟨j, hj, hevolution⟩ | hadmitted
    · have hjid : j.jobId = jobId := hevolution.jobId.symm.trans hid
      obtain ⟨hleased, huntil⟩ := h.leased j hj hjid
      have hheld : ¬(j.status = .leased ∧ j.leaseUntil ≤ c.host.now) := by
        rintro ⟨-, hle⟩
        rw [huntil] at hle
        exact absurd (hnow rfl) (not_lt.mpr hle)
      cases hevolution with
      | kept => exact ⟨hleased, huntil⟩
      | normalized =>
          rw [Job.normalized_of_held hheld]
          exact ⟨hleased, huntil⟩
      | leased hop hclaimable =>
          rw [Job.normalized_of_held hheld] at hclaimable
          rcases Job.claimable_status hclaimable with hstatus | hstatus <;>
            · rw [hleased] at hstatus
              cases hstatus
      | settled hop =>
          rw [hjid] at hop
          exact absurd hop (hcomplete rfl _ _ _)
    · exact absurd hid (hfresh rfl k hadmitted)
  · exact h.leased k hk hid

theorem Held.step {past : List Label} {q jobId : Text} {r : Nat} {leaseUntil : Epoch}
    {w w' : World} {l : Label} (h : Held p q jobId r leaseUntil w) (horderly : Orderly p past w)
    (hmove : Move p w l w') (hends : ¬l.ends p w q jobId r leaseUntil) :
    Held p q jobId r leaseUntil w' := by
  -- the call of the step, if it is on this queue, leaves the lease standing
  have hcalls : ∀ q' c, l.call p w = some (q', c) → q' = q →
      c.host.now < leaseUntil ∧
      (∀ job, admitted p c (w.files q) = some job → job.jobId ≠ jobId) ∧
      (l.runner = some r → ∀ success code retryable,
        c.operation ≠ .complete jobId success code retryable) := by
    intro q' c hcall hq
    subst hq
    refine ⟨?_, fun job hjob hid => ?_, fun hr success code retryable hop => ?_⟩
    · by_contra hle
      exact hends ⟨c, hcall, .inl (not_lt.mp hle)⟩
    · exact hends ⟨c, hcall, .inr (.inl ⟨job, hjob, hid⟩)⟩
    · exact hends ⟨c, hcall, .inr (.inr ⟨hr, success, code, retryable, hop⟩)⟩
  cases hmove with
  | @hook host context reasonCode payload q' c hl hcall hop =>
      have hc := hcalls q' c hcall
      exact ⟨h.setFile (fun hq => (hc hq).1) (fun hq => (hc hq).2.1) (by simp [hop]), h.others⟩
  | @start r' projects maxJobs hl hfree hcall =>
      refine ⟨h.leased, fun r'' s hs hr hq m hm => ?_⟩
      change (w.setRunner r' _).runners r'' = some s at hs
      rw [World.setRunner_runners] at hs
      split at hs
      · cases hs
        cases hm
      · exact h.others r'' s hs hr hq m hm
  | @claim r' host s t q' c limit hl hs hnone hcall hop hq hjobs =>
      have hc := hcalls q' c hcall
      refine ⟨h.setFile (fun hq => (hc hq).1) (fun hq => (hc hq).2.1) (by simp [hop]),
        fun r'' s' hs' hr hq' m hm => ?_⟩
      obtain ⟨rfl, rfl⟩ := horderly.session_of_setRunner hs _ _ r'' s' hs'
      rw [hjobs] at hm
      have hqq : q' = q := hq.symm.trans hq'
      subst hqq
      exact h.handed (hc rfl).1 m hm
  | @settle r' host verdict s t q' c job hl hs hjob hcurrent hq hcall hop =>
      have hc := hcalls q' c hcall
      -- another runner does not hold the job, and the runner's own report is excluded
      have hother : q' = q → ∀ success code retryable,
          c.operation ≠ .complete jobId success code retryable := by
        intro hqq success code retryable hsettles
        by_cases hr : r' = r
        · refine (hc hqq).2.2 ?_ success code retryable hsettles
          rw [hl, ← hr]
          rfl
        · rw [hop] at hsettles
          cases hsettles
          exact h.others r' s hs hr (hq.trans hqq) job (hjob ▸ List.mem_cons_self) rfl
      refine ⟨h.setFile (fun hq => (hc hq).1) (fun hq => (hc hq).2.1) hother,
        fun r'' s' hs' hr hq' m hm => ?_⟩
      obtain ⟨rfl, rfl⟩ := horderly.session_of_setRunner hs _ _ r'' s' hs'
      exact h.others r'' s hs hr (hcurrent ▸ hq') m (hjob ▸ List.mem_cons_of_mem _ hm)
  | @exit r' s hl hs hcall =>
      refine ⟨h.leased, fun r'' s' hs' hr hq m hm => ?_⟩
      change (w.setRunner r' none).runners r'' = some s' at hs'
      rw [World.setRunner_runners] at hs'
      split at hs'
      · cases hs'
      · exact h.others r'' s' hs' hr hq m hm

theorem Held.of_claim {before : List Label} {w w' : World} {r : Nat} {h : Host}
    (horderly : Orderly p before w) (hstep : w.step p (.claim r h) = some w')
    {j : MaintenanceJob} (hj : j ∈ w'.outstanding r) :
    Held p (w'.queueOf p r) j.jobId r j.leaseUntil w' := by
  generalize hl : Label.claim r h = l at hstep
  cases step_move hstep with
  | hook hl' => cases hl.trans hl'
  | start hl' => cases hl.trans hl'
  | settle hl' => cases hl.trans hl'
  | exit hl' =>
      rcases hl' with hl' | hl'
      · cases hl.trans hl'
      · cases hl.trans hl'
  | @claim r' host s t q c limit hl' hs hnone hcall hop hq hjobs =>
      cases hl.trans hl'
      have hself : ((w.setFile q (c.perform p (w.files q)).1).setRunner r (some t)).runners r =
          some t := by
        rw [World.setRunner_runners, if_pos rfl]
      have hturn := c.turn (p := p) (w.files q)
      have hnodup := (hturn.nodup (horderly.nodup q)).1
      simp only [World.outstanding, hself, hjobs] at hj
      simp only [World.queueOf, hself, hq]
      obtain ⟨j₀, -, k₀, hk₀, limit₀, lease₀, -, -, hleased, rfl⟩ := hturn.leases j hj
      refine ⟨fun k hk hid => ?_, fun r' s' hs' hr hq' m hm => ?_⟩
      · change k ∈ jobsOf ((w.setFile q (c.perform p (w.files q)).1).files q) at hk
        rw [World.setFile_files, if_pos rfl] at hk
        have hkk : k = k₀ := eq_of_jobId_eq hnodup hk hk₀ hid
        rw [hkk, hleased]
        exact ⟨rfl, rfl⟩
      · exact absurd (horderly.session_of_setRunner hs _ _ r' s' hs').1 hr

theorem Held.run {q jobId : Text} {r : Nat} {leaseUntil : Epoch} {since between : List Label}
    {w₁ w₂ : World} (hw₁ : worldAfter p since = some w₁)
    (hheld : Held p q jobId r leaseUntil w₁)
    (hbetween : Undisturbed p q jobId r leaseUntil since between)
    (hw₂ : worldAfter p (between ++ since) = some w₂) : Held p q jobId r leaseUntil w₂ := by
  induction between generalizing w₂ with
  | nil =>
      obtain rfl := Option.some.inj (hw₁.symm.trans hw₂)
      exact hheld
  | cons l past ih =>
      obtain ⟨w, hw, hstep⟩ := Option.bind_eq_some_iff.mp hw₂
      exact (ih hbetween.1 hw).step (orderly hw) (step_move hstep) (hbetween.2 w hw)

/-- The runners of a project. From the claim that hands a job out until the
lease runs out, its runner reports on it, or the queue, having dropped the
job, takes it in afresh, no claim returns it. And the record a runner
reports on, however late, is never one that has been completed or is
leased to another runner, and is dead-lettered only where its own last
lease has been given up. -/
theorem leases_exclusive (p : Platform) :
    (∀ (before between : List Label) (r r' : Nat) (h h' : Host) (w₁ w₂ : World),
      worldAfter p (.claim r h :: before) = some w₁ →
      worldAfter p (between ++ .claim r h :: before) = some w₂ →
      ∀ j ∈ w₁.outstanding r,
        Undisturbed p (w₁.queueOf p r) j.jobId r j.leaseUntil (.claim r h :: before) between →
        h'.now < j.leaseUntil →
        ∀ m ∈ (Label.claim r' h').handed p w₂ (w₁.queueOf p r), m.jobId ≠ j.jobId) ∧
    ∀ (past : List Label) (r : Nat) (w : World), worldAfter p past = some w →
      ∀ j ∈ w.outstanding r, ∀ k ∈ jobsOf (w.files (w.queueOf p r)), k.jobId = j.jobId →
        k.status ≠ .completed ∧
        (k.status = .leased →
          k.leaseUntil = j.leaseUntil ∧ claimant p (w.queueOf p r) j.jobId past = some r) ∧
        (k.status = .deadLettered → k.lastErrorCode = txt "lease_attempts_exhausted") := by
  constructor
  · intro before between r r' h h' w₁ w₂ hw₁ hw₂ j hj hbetween hnow m hm
    obtain ⟨w, hw, hstep⟩ := Option.bind_eq_some_iff.mp hw₁
    have hheld := (Held.of_claim (orderly hw) hstep hj).run hw₁ hbetween hw₂
    simp only [Label.handed] at hm
    split at hm
    · rename_i q c hcall
      have hhost : c.host = h' := by
        simp only [Label.call] at hcall
        split at hcall
        · cases hcall
          rfl
        · cases hcall
      split at hm
      · rename_i hq
        rw [hq] at hm
        exact hheld.handed (hhost ▸ hnow) m hm
      · cases hm
    · cases hm
  · intro past r w hw j hj k hk hid
    cases hs : w.runners r with
    | none => simp [World.outstanding, hs] at hj
    | some s =>
        simp only [World.outstanding, World.queueOf, hs] at hj hk ⊢
        have howned := (orderly hw).owned r s hs j hj k hk hid
        rw [Owned] at howned
        refine ⟨fun hstatus => ?_, fun hstatus => ?_, fun hstatus => ?_⟩ <;>
          rw [hstatus] at howned
        · exact howned
        · exact howned
        · exact howned

/-! ## Runs on fixed inputs -/

/-- A hook that observes a generation of the memory. -/
def observes (now : Epoch) (maxEntries maxAttempts : Option Int) (generation : Text) : Label :=
  .hook (.at now maxEntries maxAttempts) queueContext (txt "stop") (generationPayload generation)

/-- Runner 1 has claimed the job of generation `one`. -/
def claimedOne (maxEntries maxAttempts : Option Int) : List Label :=
  [.claim 1 (.at 101 maxEntries maxAttempts), .start 1 [txt "p"] 8,
    observes 100 maxEntries maxAttempts (txt "one")]

theorem claimedOne_isSome : (worldAfter queuePlatform (claimedOne none none)).isSome = true := by
  decide

def heldWorld : World := (worldAfter queuePlatform (claimedOne none none)).get claimedOne_isSome

theorem leases_exclusive_held :
    heldWorld.outstanding 1 ≠ [] ∧
    (∀ j ∈ heldWorld.outstanding 1, ∀ m ∈ (Label.claim 2 (.at 120 none none)).handed
      queuePlatform heldWorld (heldWorld.queueOf queuePlatform 1), m.jobId ≠ j.jobId) ∧
    ∀ j ∈ heldWorld.outstanding 1,
      ∀ k ∈ jobsOf (heldWorld.files (heldWorld.queueOf queuePlatform 1)), k.jobId = j.jobId →
        k.status ≠ .completed := by
  have hworld : worldAfter queuePlatform (claimedOne none none) = some heldWorld :=
    (Option.some_get claimedOne_isSome).symm
  have huntil : ∀ j ∈ heldWorld.outstanding 1, 120 < j.leaseUntil := by decide +kernel
  refine ⟨by decide +kernel, fun j hj => ?_, fun j hj k hk hid => ?_⟩
  · exact (leases_exclusive queuePlatform).1 _ [] 1 2 _ _ _ _ hworld hworld j hj trivial
      (huntil j hj)
  · exact ((leases_exclusive queuePlatform).2 _ 1 _ hworld j hj k hk hid).1

/-- The queue has dropped the job while it was leased, and the next runner
claims it again. -/
def claimedTwice : List Label :=
  [.claim 2 (.at 112 (some 1) none), .start 2 [txt "p"] 8,
    observes 111 (some 1) none (txt "one"), observes 110 (some 1) none (txt "two"), .crash 1]

/-- A hook has given the last lease up, and the runner reports success. -/
def settledLate : List Label :=
  [.settle 1 (.at 200 none (some 1)) (.ran true []), observes 150 none (some 1) (txt "two")]

/-- The status of the job of generation `one` after a run. -/
def statusOne (run : List Label) : Option Status :=
  (worldAfter queuePlatform run).bind fun w =>
    ((jobsOf (w.files (txt "p"))).find? fun j => j.jobId == jobOne).map (·.status)

/-- The leases of the job of generation `one` that a runner holds. -/
def leasesOne (run : List Label) (r : Nat) : List Epoch :=
  match worldAfter queuePlatform run with
  | some w => ((w.outstanding r).filter fun m => m.jobId == jobOne).map (·.leaseUntil)
  | none => []

/-- A job is claimed a second time at 112, before its lease runs out at 131
and before its runner has reported on it; and a runner whose last lease
has run out turns a dead-lettered job into a completed one. -/
theorem lease_violated :
    (leasesOne (claimedOne (some 1) none) 1 = [131] ∧
      leasesOne (claimedTwice ++ claimedOne (some 1) none) 2 = [142]) ∧
    statusOne (settledLate.tail ++ claimedOne none (some 1)) = some .deadLettered ∧
    statusOne (settledLate ++ claimedOne none (some 1)) = some .completed := by
  refine ⟨⟨?_, ?_⟩, ?_, ?_⟩ <;> decide +kernel

end RalphVault.Maintenance
