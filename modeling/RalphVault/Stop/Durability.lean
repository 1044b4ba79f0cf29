import RalphVault.Stop.Dispatch

/-!
# Stop — durability

Which Stops are committed with their business on the disk. A commit waits
for the writers to return, not for what they return, so an error that a
writer answers itself does not keep the Stop from being committed.
-/

namespace RalphVault.Stop.Dispatch

open StateFile Stop.Terminal

variable {s s' : State} {e : StopEvent}

/-! ## One Stop -/

/-- The claim a Stop begins with. -/
def State.claim (s : State) (e : StopEvent) : TerminalBusinessClaim :=
  match advance s.claims (.enter e.stop e.host) with
  | some (_, some claim) => claim
  | _ => ⟨false, false⟩

/-- A Stop that is committed: its claim is available and new, no writer has
raised, and the marker is replaced. -/
def State.commits (s : State) (e : StopEvent) : Bool :=
  (s.claim e).available && !(s.claim e).duplicate && e.business.returns &&
    e.publication != .refused

/-- What a claim that begins leaves behind. -/
theorem advance_enter {r : Run} (hfree : r.world.holder = none) (stop : TerminalStop)
    (host : ClaimHost) :
    advance r (.enter stop host) = some (r, some ⟨false, false⟩) ∨
      ∃ duplicate entries, loadBusiness r.world.marker = some entries ∧
        duplicate = decide ((entries.get? stop.scopeKey.text).map (·.fingerprint) =
          some stop.fingerprint.text) ∧
        advance r (.enter stop host) =
          some (⟨⟨r.world.marker, some ⟨stop, duplicate, entries⟩⟩, r.history⟩,
            some ⟨duplicate, true⟩) := by
  by_cases hhost : (!host.safe || !host.lockable) = true
  · left
    simp only [advance, Terminal.World.step, if_pos hhost, Option.map_some,
      Terminal.World.committed, List.nil_append]
  · cases hload : (if host.readable then loadBusiness r.world.marker else none) with
    | none =>
        left
        simp only [advance, Terminal.World.step, if_neg hhost, hfree, hload, Option.map_some,
          Terminal.World.committed, List.nil_append]
    | some entries =>
        have hread : loadBusiness r.world.marker = some entries := by
          split at hload
          · exact hload
          · cases hload
        refine .inr ⟨_, entries, hread, rfl, ?_⟩
        simp only [advance, Terminal.World.step, if_neg hhost, hfree, hload, Option.map_some,
          Terminal.World.committed, List.nil_append]

/-- What a Stop makes of the history and of what is on the disk. -/
structure Served (s : State) (e : StopEvent) (s' : State) : Prop where
  free : s'.claims.world.holder = none
  history : s'.claims.history =
    if s.commits e then e.effect :: s.claims.history else s.claims.history
  settled : s'.settled =
    if !(s.claim e).duplicate && e.business.durable then e.effect :: s.settled else s.settled

theorem exists_serve (hfree : s.claims.world.holder = none) (e : StopEvent) :
    ∃ s', s.serve e = some s' ∧ Served s e s' := by
  rcases advance_enter hfree e.stop e.host with henter | ⟨duplicate, entries, -, -, henter⟩
  · have hclaim : s.claim e = ⟨false, false⟩ := by rw [State.claim, henter]
    refine ⟨⟨s.claims, if e.business.durable then e.effect :: s.settled else s.settled⟩, ?_, ?_⟩
    · simp only [State.serve, henter, Option.bind_some, Option.getD_some, Bool.not_false,
        Bool.true_and, Bool.false_eq_true, if_false]
    · exact ⟨hfree, by simp [State.commits, hclaim], by simp [hclaim]⟩
  · have hclaim : s.claim e = ⟨duplicate, true⟩ := by rw [State.claim, henter]
    let holder : Holder := ⟨e.stop, duplicate, entries⟩
    let requested := !duplicate && e.business.returns
    let held : Terminal.World := ⟨s.claims.world.marker, some holder⟩
    have hserve : s.serve e = some
        ⟨⟨⟨if requested && !duplicate then
              (publish e.publication held.marker (writeBusiness holder.committed)).1
            else held.marker, none⟩,
          held.committed (.leave requested e.publication) ++ s.claims.history⟩,
        if !duplicate && e.business.durable then e.effect :: s.settled else s.settled⟩ := by
      rw [State.serve, henter]
      simp only [Option.bind_some, Option.getD_some, if_true, advance, Terminal.World.step,
        Option.map_some]
      rfl
    refine ⟨_, hserve, rfl, ?_, ?_⟩
    · have hcommits : s.commits e = holder.commits requested e.publication := by
        simp only [State.commits, hclaim, Holder.commits, holder, requested]
        cases duplicate <;> cases e.business.returns <;> rfl
      rw [hcommits]
      simp only [Terminal.World.committed, held]
      cases holder.commits requested e.publication <;> rfl
    · rw [hclaim]

/-! ## Runs -/

/-- Every Stop that has been committed has its business on the disk. -/
def State.Durable (s : State) : Prop := ∀ c ∈ s.claims.history, c ∈ s.settled

/-- A Stop that would be suppressed as a duplicate has its business on the disk. -/
def State.SuppressesSettled (s : State) : Prop :=
  ∀ e, (s.claim e).duplicate = true → e.effect ∈ s.settled

/-- No write that fails is lost with the Stop: the Stop is not committed, since
its claim cannot be had, or it is a duplicate, or the marker is not replaced,
or the error of a writer gets out of it; or all of it is on the disk, from now
or from an earlier Stop. -/
def State.Sound (s : State) (e : StopEvent) : Prop :=
  (s.claim e).available = false ∨ (s.claim e).duplicate = true ∨ e.publication = .refused ∨
    (∃ ended ∈ e.business.writers, ∃ error, ended.result = .error error) ∨
    (∀ ended ∈ e.business.writers, ended.durable = true) ∨ e.effect ∈ s.settled

theorem returns_eq_false_iff {b : Business} :
    b.returns = false ↔ ∃ ended ∈ b.writers, ∃ error, ended.result = .error error := by
  rw [Business.returns, List.all_eq_false]
  refine exists_congr fun ended => and_congr_right fun _ => ?_
  cases ended.result with
  | ok result => simp
  | error e => simp

theorem durable_iff {b : Business} (hreturns : b.returns = true) :
    b.durable = true ↔ ∀ ended ∈ b.writers, ended.durable = true := by
  rw [Business.durable, hreturns, Bool.true_and, List.all_eq_true]

/-- A Stop is sound when it is committed only with its business on the disk. -/
theorem sound_iff : s.Sound e ↔
    (s.commits e = true → e.business.durable = true ∨ e.effect ∈ s.settled) := by
  rw [State.Sound, ← returns_eq_false_iff, State.commits]
  cases havailable : (s.claim e).available with
  | false => simp
  | true =>
      cases hduplicate : (s.claim e).duplicate with
      | true => simp
      | false =>
          cases hreturns : e.business.returns with
          | false => simp
          | true =>
              rw [← durable_iff hreturns]
              by_cases hrefused : e.publication = .refused
              · simp [hrefused]
              · simp [hrefused]

/-- What is known of the claims after a run. -/
structure State.Holds (s : State) : Prop where
  claims : Terminal.Holds s.claims
  free : s.claims.world.holder = none

theorem serve_spec (h : s.Holds) (hserve : s.serve e = some s') : Served s e s' := by
  obtain ⟨s'', hs'', hserved⟩ := exists_serve h.free e
  rw [hs'', Option.some.injEq] at hserve
  exact hserve ▸ hserved

theorem holds_advance {r r' : Run} {l : Terminal.Label} {claim : Option TerminalBusinessClaim}
    (h : Terminal.Holds r) (hstep : advance r l = some (r', claim)) : Terminal.Holds r' := by
  obtain ⟨⟨w, claim'⟩, hw, heq⟩ := Option.map_eq_some_iff.mp hstep
  cases heq
  exact h.step hw

theorem State.Holds.serve (h : s.Holds) (hserve : s.serve e = some s') : s'.Holds := by
  have hserved := serve_spec h hserve
  refine ⟨?_, hserved.free⟩
  obtain ⟨⟨claims, claim⟩, henter, hrest⟩ := Option.bind_eq_some_iff.mp hserve
  have hentered := holds_advance h.claims henter
  dsimp only at hrest
  split at hrest
  · obtain ⟨⟨claims', claim'⟩, hleave, rfl⟩ := Option.map_eq_some_iff.mp hrest
    exact holds_advance hentered hleave
  · cases hrest
    exact hentered

theorem run_holds {events : List StopEvent} (hrun : run events = some s) : s.Holds := by
  induction events generalizing s with
  | nil =>
      cases hrun
      exact ⟨Terminal.Holds.initial, rfl⟩
  | cons e past ih =>
      obtain ⟨s', hs', hserve⟩ := Option.bind_eq_some_iff.mp hrun
      exact (ih hs').serve hserve

/-- Only what has been committed is suppressed. -/
theorem mem_history_of_duplicate (h : s.Holds) (hduplicate : (s.claim e).duplicate = true) :
    e.effect ∈ s.claims.history := by
  rcases advance_enter h.free e.stop e.host with henter | ⟨duplicate, entries, hload, hdup, henter⟩
  · rw [State.claim, henter] at hduplicate
    cases hduplicate
  · rw [State.claim, henter, hdup, decide_eq_true_eq, h.claims.get?_of_load hload] at hduplicate
    split at hduplicate
    · exact SortedMap.mem_of_get? hduplicate
    · cases hduplicate

/-- A Stop leaves every committed Stop with its business on the disk exactly
when it is committed only with its own. -/
theorem durable_serve (h : s.Holds) (hdurable : s.Durable) (hserve : s.serve e = some s') :
    s'.Durable ↔ s.Sound e := by
  have hserved := serve_spec h hserve
  have hkept : ∀ c ∈ s.settled, c ∈ s'.settled := by
    intro c hc
    rw [hserved.settled]
    split
    · exact List.mem_cons_of_mem _ hc
    · exact hc
  rw [sound_iff]
  constructor
  · intro hs' hcommits
    have hnew : (s.claim e).duplicate = false := by
      simp only [State.commits, Bool.and_eq_true, Bool.not_eq_true'] at hcommits
      exact hcommits.1.1.2
    have heffect : e.effect ∈ s'.settled := by
      refine hs' _ ?_
      rw [hserved.history, if_pos hcommits]
      exact List.mem_cons_self
    rw [hserved.settled, hnew, Bool.not_false, Bool.true_and] at heffect
    cases hbusiness : e.business.durable with
    | true => exact .inl rfl
    | false =>
        rw [hbusiness, if_neg Bool.false_ne_true] at heffect
        exact .inr heffect
  · intro hsound c hc
    rw [hserved.history] at hc
    by_cases hcommits : s.commits e = true
    · rw [if_pos hcommits] at hc
      rcases List.mem_cons.mp hc with rfl | hc
      · rcases hsound hcommits with hbusiness | hsettled
        · have hnew : (s.claim e).duplicate = false := by
            simp only [State.commits, Bool.and_eq_true, Bool.not_eq_true'] at hcommits
            exact hcommits.1.1.2
          rw [hserved.settled, hnew, hbusiness]
          exact List.mem_cons_self
        · exact hkept _ hsettled
      · exact hkept c (hdurable c hc)
    · rw [if_neg hcommits] at hc
      exact hkept c (hdurable c hc)

theorem durable_run {events : List StopEvent}
    (h : ∀ e past s, e :: past <:+ events → run past = some s → s.Sound e) {past : List StopEvent}
    (hpast : past <:+ events) (hrun : run past = some s) : s.Durable := by
  induction past generalizing s with
  | nil =>
      cases hrun
      intro c hc
      cases hc
  | cons e past ih =>
      obtain ⟨s', hs', hserve⟩ := Option.bind_eq_some_iff.mp hrun
      have hdurable := ih ((List.suffix_cons e past).trans hpast) hs'
      exact (durable_serve (run_holds hs') hdurable hserve).mpr (h e past s' hpast hs')

/-- The writers of a Stop with nothing to hand off, on a disk that takes all but
its event. -/
def eventFails : Business where
  handoff := ⟨.safe, none, .held, false, false, true, none, none⟩
  queue := .enqueued
  promotionRequired := false
  promotion := (.safe, ⟨true, none, true⟩)
  reportCodes := []
  reports := (.safe, ⟨true, none, true⟩)
  event := (.safe, ⟨true, some .os, true⟩)

def failedStop : StopEvent := ⟨firstStop, working, eventFails, .done⟩

end RalphVault.Stop.Dispatch
