import RalphVault.PromptCache.Cache
import RalphVault.Store.Host

/-!
# Prompt cache — reuse

What a call does to each entry of its cache (`perform_entry`), and from
it three properties of every run: a finalised context is found again, a
hit comes from a finalised context with the same inputs, and a miss is
owned by one caller for a while. All three are about entries that the
calls in between carry over (`Kept`).
-/

namespace RalphVault.PromptCache

open StateFile Hooks

variable {p : Platform} {c : CacheCall} {file : CacheFile} {k : Text}

/-! ## One call -/

/-- The key of the entry a call is about. -/
def CacheCall.key (p : Platform) (c : CacheCall) : Text := cacheKey p c.context (c.task.value p)

/-- What a call carries over of the entries it has read. -/
def CacheCall.carry (p : Platform) (c : CacheCall) (stored : Records CacheEntry) :
    Records CacheEntry :=
  match c.operation with
  | .discard => c.host.prune (stored.erase (c.key p))
  | _ => c.host.prune stored

/-- A call that carries an entry over: it reads the file as it is, and the
entry has neither expired nor been cut off or discarded. -/
def Kept (p : Platform) (c : CacheCall) (key : Text) (file : CacheFile) : Prop :=
  c.host.locked = true → Keeps c.host.reading (c.carry p) key file

theorem CacheHost.get?_prune_empty (h : CacheHost) (key : Text) :
    (h.prune .empty).get? key = none :=
  Records.get?_recent_eq_none (Records.get?_empty key)

theorem CacheCall.get?_carry_empty (c : CacheCall) (key : Text) :
    (c.carry p .empty).get? key = none := by
  unfold carry
  split
  · exact c.host.get?_prune_empty key
  · exact c.host.get?_prune_empty key

/-- The entry a call wants to write, given the one it finds. -/
def CacheCall.wants (p : Platform) (c : CacheCall) (current : Option CacheEntry) :
    Option CacheEntry :=
  match c.operation with
  | .claim i =>
      match verdict p c.host (c.task.value p) i current with
      | .enter _ => some ⟨c.host.now, none⟩
      | _ => none
  | .finalize selected i =>
      match current with
      | some ⟨_, none⟩ => some ⟨c.host.now, some (finalisedOf p (c.task.value p) selected i)⟩
      | _ => none
  | .discard => none

/-- A call leaves the file alone, or reads it and replaces it by what it
carries over, with the entry it wants put in. -/
theorem perform_cases (p : Platform) (c : CacheCall) (file : CacheFile) :
    (c.perform p file).1 = file ∨
      ∃ left stored, load .empty c.host.reading file = some (left, stored) ∧
        c.host.locked = true ∧
        ((c.perform p file).1 = left ∨ (c.perform p file).1 = some (c.carry p stored) ∨
          ∃ e, c.wants p ((c.carry p stored).get? (c.key p)) = some e ∧
            (c.perform p file).1 = some ((c.carry p stored).assign (c.key p) e)) := by
  obtain ⟨host, context, task, operation⟩ := c
  cases hlocked : host.locked with
  | false =>
      refine .inl ?_
      cases operation <;>
        simp only [CacheCall.perform, claim, finalize, discard, hlocked, Bool.not_false, if_true]
  | true =>
      cases hload : load .empty host.reading file with
      | none =>
          refine .inl ?_
          cases operation <;>
            simp [CacheCall.perform, claim, finalize, discard, hlocked, hload]
      | some loaded =>
          obtain ⟨left, stored⟩ := loaded
          refine .inr ⟨left, stored, rfl, rfl, ?_⟩
          cases operation with
          | claim i =>
              simp only [CacheCall.perform, claim, hlocked, hload, Bool.not_true,
                Bool.false_eq_true, if_false, CacheCall.carry, CacheCall.wants, CacheCall.key]
              cases verdict p host (task.value p) i
                  ((host.prune stored).get? (cacheKey p context (task.value p))) with
              | hit f =>
                  dsimp only
                  split
                  · rcases publish_cases host.publication left (host.prune stored) with h | h
                    · exact .inr (.inl h)
                    · exact .inl (by rw [h])
                  · exact .inl rfl
              | inflight => exact .inl rfl
              | enter reason =>
                  rcases publish_cases host.publication left ((host.prune stored).assign
                    (cacheKey p context (task.value p)) ⟨host.now, none⟩) with h | h
                  · exact .inr (.inr ⟨_, rfl, h⟩)
                  · exact .inl (by rw [h])
          | finalize selected i =>
              simp only [CacheCall.perform, finalize, hlocked, hload, Bool.not_true,
                Bool.false_eq_true, if_false, CacheCall.carry, CacheCall.wants, CacheCall.key]
              split
              · rename_i hentry
                rcases publish_cases host.publication left ((host.prune stored).assign
                  (cacheKey p context (task.value p))
                  ⟨host.now, some (finalisedOf p (task.value p) selected i)⟩) with h | h
                · exact .inr (.inr ⟨_, by simp only [hentry], h⟩)
                · exact .inl (by rw [h])
              · exact .inl rfl
          | discard =>
              simp only [CacheCall.perform, discard, hlocked, hload, Bool.not_true,
                Bool.false_eq_true, if_false, CacheCall.carry, CacheCall.key]
              rcases publish_cases host.publication left
                (host.prune (stored.erase (cacheKey p context (task.value p)))) with h | h
              · exact .inr (.inl h)
              · exact .inl (by rw [h])

/-- **An entry that is kept** stays as it is, or becomes the one its call
wants. -/
theorem perform_entry (hkept : Kept p c k file) :
    entryIn (c.perform p file).1 k = entryIn file k ∨
      (k = c.key p ∧ ∃ e, c.wants p (entryIn file k) = some e ∧
        entryIn (c.perform p file).1 k = some e) := by
  rcases perform_cases p c file with hsame | ⟨left, stored, hload, hlocked, hresult⟩
  · exact .inl (by rw [hsame])
  have hcarry := hkept hlocked left stored hload
  rcases hresult with hleft | hleft | ⟨e, hwants, hleft⟩
  · rw [hleft]
    exact .inl (entryIn_left (c.get?_carry_empty k) hload hcarry)
  · rw [hleft]
    exact .inl hcarry
  · rw [hleft, entryIn_some]
    by_cases hown : c.key p = k
    · rw [hown] at hwants ⊢
      rw [hcarry] at hwants
      exact .inr ⟨rfl, e, hwants, Records.get?_assign_self ..⟩
    · rw [Records.get?_assign_of_ne hown]
      exact .inl hcarry

/-- What a call carries over was stored. -/
theorem CacheCall.get?_of_carry {stored : Records CacheEntry} {e : CacheEntry}
    (h : (c.carry p stored).get? k = some e) : stored.get? k = some e := by
  unfold carry at h
  split at h
  · exact Records.get?_of_get?_erase (Records.get?_of_get?_recent h).1
  · exact (Records.get?_of_get?_recent h).1

/-- **An entry after a call** was there before, or is the one its call
wants. -/
theorem perform_origin {e : CacheEntry} (h : entryIn (c.perform p file).1 k = some e) :
    entryIn file k = some e ∨
      (k = c.key p ∧ ∃ current, c.wants p current = some e) := by
  rcases perform_cases p c file with hsame | ⟨left, stored, hload, -, hresult⟩
  · exact .inl (by rwa [hsame] at h)
  rcases hresult with hleft | hleft | ⟨e', hwants, hleft⟩ <;> rw [hleft] at h
  · exact .inl (entryIn_of_left hload h)
  · exact .inl (entryIn_of_stored hload (CacheCall.get?_of_carry h))
  · rw [entryIn_some, Records.get?_assign] at h
    split at h
    · rename_i hown
      cases h
      exact .inr ⟨hown.symm, _, hwants⟩
    · exact .inl (entryIn_of_stored hload (CacheCall.get?_of_carry h))

/-- A host that takes the lock and reads. -/
structure CacheHost.Reads (h : CacheHost) : Prop where
  locked : h.locked = true
  reading : h.reading ≠ .raised

/-- What a claim says of a verdict, if its entry is written. -/
def Verdict.claimed (p : Platform) : Verdict → CacheClaim
  | .hit f => .hit (safeIds p.unicode f.selectedMemoryIds) f.fingerprint
  | .inflight => .inflight
  | .enter reason => .miss reason

/-- A claim on an entry that is kept answers by that entry. -/
theorem claim_answer {i : Inputs} (hop : c.operation = .claim i) (hreads : c.host.Reads)
    (hkept : Kept p c (c.key p) file) :
    (c.perform p file).2 =
        .claimed ((verdict p c.host (c.task.value p) i (entryIn file (c.key p))).claimed p) ∨
      ∃ reason, verdict p c.host (c.task.value p) i (entryIn file (c.key p)) = .enter reason := by
  obtain ⟨host, context, task, operation⟩ := c
  obtain ⟨left, stored, hload⟩ := exists_load hreads.reading file
  have hcarry := hkept hreads.locked left stored hload
  have hlocked := hreads.locked
  dsimp only at hop hload hlocked
  subst hop
  have hentry : (host.prune stored).get? (cacheKey p context (task.value p)) =
      entryIn file (cacheKey p context (task.value p)) := hcarry
  simp only [CacheCall.perform, claim, hlocked, hload, Bool.not_true, Bool.false_eq_true,
    if_false, CacheCall.key, hentry]
  cases verdict p host (task.value p) i (entryIn file (cacheKey p context (task.value p))) with
  | hit f => exact .inl rfl
  | inflight => exact .inl rfl
  | enter reason => exact .inr ⟨reason, rfl⟩

/-- A claim that is a miss has entered itself. -/
theorem entry_of_miss {i : Inputs} {reason : Text} (hop : c.operation = .claim i)
    (hmiss : (c.perform p file).2 = .claimed (.miss reason)) :
    entryIn (c.perform p file).1 (c.key p) = some ⟨c.host.now, none⟩ := by
  obtain ⟨host, context, task, operation⟩ := c
  dsimp only at hop
  subst hop
  simp only [CacheCall.perform, claim] at hmiss ⊢
  split at hmiss
  · cases hmiss
  split at hmiss
  · cases hmiss
  split at hmiss
  · cases hmiss
  · cases hmiss
  · cases hpublication : host.publication <;>
      simp only [hpublication, publish, Bool.false_eq_true, if_false, if_true, Option.map_some,
        Option.getD_some, CacheAnswer.claimed.injEq, reduceCtorEq] at hmiss ⊢
    rename_i hlocked _ _ _ _ _ _ _
    simp only [hlocked, CacheCall.key]
    exact Records.get?_assign_self ..

/-- A finalisation of an entry that is in flight and kept. -/
theorem entry_of_finalize {selected : List Text} {i : Inputs} {t : ℚ}
    (hop : c.operation = .finalize selected i) (hreads : c.host.Reads)
    (hpublication : c.host.publication = .done) (hkept : Kept p c (c.key p) file)
    (hinflight : entryIn file (c.key p) = some ⟨t, none⟩) :
    entryIn (c.perform p file).1 (c.key p) =
      some ⟨c.host.now, some (finalisedOf p (c.task.value p) selected i)⟩ := by
  obtain ⟨host, context, task, operation⟩ := c
  obtain ⟨left, stored, hload⟩ := exists_load hreads.reading file
  have hcarry := hkept hreads.locked left stored hload
  have hlocked := hreads.locked
  rw [hinflight] at hcarry
  dsimp only at hop hload hlocked hpublication
  subst hop
  have hentry : (host.prune stored).get? (cacheKey p context (task.value p)) = some ⟨t, none⟩ :=
    hcarry
  simp only [CacheCall.perform, finalize, hlocked, hload, Bool.not_true, Bool.false_eq_true,
    if_false, CacheCall.key, hentry, hpublication, publish]
  exact Records.get?_assign_self ..

/-- A hit is on a finalised entry with the fingerprint it expects. -/
theorem entry_of_hit {i : Inputs} {ids : List Text} {fingerprint : Text}
    (hop : c.operation = .claim i)
    (hhit : (c.perform p file).2 = .claimed (.hit ids fingerprint)) :
    ∃ t f, entryIn file (c.key p) = some ⟨t, some f⟩ ∧
      f.fingerprint = expectedFingerprint p (c.task.value p) i f ∧
      ids = safeIds p.unicode f.selectedMemoryIds ∧ fingerprint = f.fingerprint := by
  obtain ⟨host, context, task, operation⟩ := c
  dsimp only at hop
  subst hop
  simp only [CacheCall.perform, claim] at hhit
  split at hhit
  · cases hhit
  split at hhit
  · cases hhit
  rename_i left stored hload
  split at hhit
  · rename_i f hverdict
    cases hhit
    unfold verdict at hverdict
    split at hverdict
    · cases hverdict
    · rename_i t f' hentry
      split at hverdict
      · rename_i hfingerprint
        cases hverdict
        exact ⟨t, f, entryIn_of_stored hload (Records.get?_of_get?_recent hentry).1,
          hfingerprint, rfl, rfl⟩
      · cases hverdict
    · split at hverdict <;> cases hverdict
  · cases hhit
  · cases hpublication : host.publication <;>
      simp [hpublication, publish] at hhit

/-! ## Inputs -/

/-- `""` and `"unknown"` stand for any clarification state. -/
def Inputs.anyClarification (i : Inputs) : Prop :=
  i.clarificationState = [] ∨ i.clarificationState = txt "unknown"

/-- A claim that agrees with what an entry was finalised with. -/
structure Inputs.Agrees (u : Unicode) (i claimed : Inputs) : Prop where
  memoryGeneration : safeId u claimed.memoryGeneration = safeId u i.memoryGeneration
  route : safeId u claimed.route = safeId u i.route
  profile : safeId u claimed.profile = safeId u i.profile
  checkpointHash : safeId u claimed.checkpointHash = safeId u i.checkpointHash
  clarificationState : claimed.anyClarification ∨
    safeId u claimed.clarificationState = safeId u i.clarificationState

theorem mem_finalIds {u : Unicode} {selected : List Text} {item : Text}
    (h : item ∈ finalIds u selected) : item ≠ [] ∧ safeId u item = item :=
  mem_safeIds (List.mem_dedup.mp ((List.perm_insertionSort TextLe _).mem_iff.mp
    (List.mem_of_mem_take h)))

/-- The ids of a finalised entry are safe as they are. -/
theorem safeIds_finalIds (u : Unicode) (selected : List Text) :
    safeIds u (finalIds u selected) = finalIds u selected :=
  safeIds_of_safe fun _ hitem => mem_finalIds hitem

/-- A claim that agrees expects the fingerprint of the entry. -/
theorem expectedFingerprint_of_agrees {signature : Text} {selected : List Text} {i i' : Inputs}
    (hstated : safeId p.unicode i.clarificationState ≠ [] ∨ ¬i'.anyClarification)
    (h : Inputs.Agrees p.unicode i i') :
    (finalisedOf p signature selected i).fingerprint =
      expectedFingerprint p signature i' (finalisedOf p signature selected i) := by
  have hclarification : safeId p.unicode
      (effectiveClarification i'.clarificationState (finalisedOf p signature selected i)) =
        safeId p.unicode i.clarificationState := by
    unfold effectiveClarification
    split
    · rename_i hany
      have hsome : (finalisedOf p signature selected i).inputs.clarificationState ≠ [] :=
        hstated.resolve_right fun hno => hno hany
      rw [if_neg hsome]
      exact safeId_safeId p.unicode i.clarificationState
    · rename_i hno
      exact h.clarificationState.resolve_left hno
  rw [expectedFingerprint, show (finalisedOf p signature selected i).selectedMemoryIds =
    finalIds p.unicode selected from rfl, safeIds_finalIds]
  exact contextFingerprint_congr h.memoryGeneration.symm h.route.symm h.profile.symm
    hclarification.symm h.checkpointHash.symm

/-- **A claim with the inputs of the finalisation agrees**, unless they
leave the clarification state empty. -/
theorem Inputs.agrees_self (u : Unicode) (i : Inputs) : Inputs.Agrees u i i :=
  ⟨rfl, rfl, rfl, rfl, .inr rfl⟩

theorem Inputs.stated {u : Unicode} {i : Inputs} (h : i.clarificationState ≠ []) :
    safeId u i.clarificationState ≠ [] ∨ ¬i.anyClarification := by
  by_cases hunknown : i.clarificationState = txt "unknown"
  · left
    rw [hunknown, safeId_unknown]
    decide
  · exact .inr fun hany => hany.elim h hunknown

/-! ## Runs -/

/-- An entry in the cache of a project. -/
def Caches.entry (caches : Caches) (project k : Text) : Option CacheEntry :=
  entryIn (caches project) k

/-- A property of every call of a run, where it is made. -/
def Along (p : Platform) (P : Caches → CacheCall → Prop) (caches : Caches) :
    List CacheCall → Prop
  | [] => True
  | c :: past => Along p P caches past ∧ P (caches.run p past) c

/-- A call about an entry. -/
def CacheCall.About (p : Platform) (c : CacheCall) (project k : Text) : Prop :=
  c.context.projectId = project ∧ c.key p = k

/-- A call that carries an entry over. -/
def Carries (p : Platform) (project k : Text) (caches : Caches) (c : CacheCall) : Prop :=
  c.context.projectId = project → Kept p c k (caches project)

/-- A call that leaves it to another one to finalise an entry. -/
structure Awaits (p : Platform) (project k : Text) (caches : Caches) (c : CacheCall) : Prop where
  carries : Carries p project k caches c
  unfinalised : c.About p project k → ∀ selected i, c.operation ≠ .finalize selected i

/-- And that does so before a claim made at `t` runs out. -/
structure Waits (p : Platform) (project k : Text) (t : ℚ) (caches : Caches) (c : CacheCall) :
    Prop where
  awaits : Awaits p project k caches c
  soon : c.About p project k → ∀ i, c.operation = .claim i → c.host.now - t ≤ inflightSeconds

/-- A call that has no reason to replace an entry finalised with `i`. -/
structure Spares (p : Platform) (project k : Text) (i : Inputs) (caches : Caches)
    (c : CacheCall) : Prop where
  carries : Carries p project k caches c
  agrees : c.About p project k → ∀ i', c.operation = .claim i' →
    Inputs.Agrees p.unicode i i' ∧
      (safeId p.unicode i.clarificationState ≠ [] ∨ ¬i'.anyClarification)

variable {project : Text} {caches : Caches}

theorem Caches.after_self (caches : Caches) (c : CacheCall) :
    (caches.after p c).entry c.context.projectId k =
      entryIn (c.perform p (caches c.context.projectId)).1 k := by
  rw [entry, after, if_pos rfl]

theorem Caches.after_entry (hcarries : Carries p project k caches c) :
    (caches.after p c).entry project k = caches.entry project k ∨
      (c.About p project k ∧ ∃ e, c.wants p (caches.entry project k) = some e ∧
        (caches.after p c).entry project k = some e) := by
  by_cases hproject : c.context.projectId = project
  · have hkept := hcarries hproject
    subst hproject
    rw [after_self]
    rcases perform_entry hkept with hsame | ⟨hown, hwants⟩
    · exact .inl hsame
    · exact .inr ⟨⟨rfl, hown.symm⟩, hwants⟩
  · left
    rw [entry, after, if_neg (Ne.symm hproject)]
    rfl

/-- An entry in flight stays in flight until it is finalised. -/
theorem inflight_run {run : List CacheCall} (hrun : Along p (Awaits p project k) caches run)
    (hentry : ∃ t, caches.entry project k = some ⟨t, none⟩) :
    ∃ t, (caches.run p run).entry project k = some ⟨t, none⟩ := by
  induction run with
  | nil => exact hentry
  | cons c past ih =>
      obtain ⟨t, ht⟩ := ih hrun.1
      rcases Caches.after_entry hrun.2.carries with hsame | ⟨habout, e, hwants, hafter⟩
      · exact ⟨t, hsame.trans ht⟩
      · unfold CacheCall.wants at hwants
        split at hwants
        · split at hwants
          · cases hwants
            exact ⟨_, hafter⟩
          · cases hwants
        · rename_i selected i hop
          exact absurd hop (hrun.2.unfinalised habout selected i)
        · cases hwants

/-- An entry in flight is not entered again while it is young. -/
theorem owned_run {run : List CacheCall} {t : ℚ}
    (hrun : Along p (Waits p project k t) caches run)
    (hentry : caches.entry project k = some ⟨t, none⟩) :
    (caches.run p run).entry project k = some ⟨t, none⟩ := by
  induction run with
  | nil => exact hentry
  | cons c past ih =>
      have ht := ih hrun.1
      rcases Caches.after_entry hrun.2.awaits.carries with hsame | ⟨habout, e, hwants, -⟩
      · exact hsame.trans ht
      · rw [ht] at hwants
        unfold CacheCall.wants at hwants
        split at hwants
        · rename_i i hop
          rw [verdict, if_pos (hrun.2.soon habout i hop)] at hwants
          cases hwants
        · rename_i selected i hop
          exact absurd hop (hrun.2.awaits.unfinalised habout selected i)
        · cases hwants

/-- A finalised entry stays while no claim disagrees with it. -/
theorem ready_run {run : List CacheCall} {t : ℚ} {signature : Text} {selected : List Text}
    {i : Inputs} (hkey : ∀ c : CacheCall, c.About p project k → c.task.value p = signature)
    (hrun : Along p (Spares p project k i) caches run)
    (hentry : caches.entry project k = some ⟨t, some (finalisedOf p signature selected i)⟩) :
    (caches.run p run).entry project k =
      some ⟨t, some (finalisedOf p signature selected i)⟩ := by
  induction run with
  | nil => exact hentry
  | cons c past ih =>
      have ht := ih hrun.1
      rcases Caches.after_entry hrun.2.carries with hsame | ⟨habout, e, hwants, -⟩
      · exact hsame.trans ht
      · rw [ht] at hwants
        unfold CacheCall.wants at hwants
        split at hwants
        · rename_i i' hop
          obtain ⟨hagrees, hstated⟩ := hrun.2.agrees habout i' hop
          rw [verdict, if_pos (by
            rw [hkey c habout]
            exact expectedFingerprint_of_agrees hstated hagrees)] at hwants
          cases hwants
        · cases hwants
        · cases hwants

/-- A finalised entry was finalised in the run. -/
theorem entry_origin {run : List CacheCall} {t : ℚ} {f : Finalised}
    (h : (Caches.run p (fun _ => none) run).entry project k = some ⟨t, some f⟩) :
    ∃ c ∈ run, c.About p project k ∧ ∃ selected i, c.operation = .finalize selected i ∧
      f = finalisedOf p (c.task.value p) selected i := by
  induction run generalizing t with
  | nil => cases h
  | cons c past ih =>
      by_cases hproject : c.context.projectId = project
      · subst hproject
        rw [Caches.run, Caches.after_self] at h
        rcases perform_origin h with hold | ⟨hown, current, hwants⟩
        · obtain ⟨c', hmem, hfinalised⟩ := ih hold
          exact ⟨c', List.mem_cons_of_mem _ hmem, hfinalised⟩
        · unfold CacheCall.wants at hwants
          split at hwants
          · split at hwants <;> cases hwants
          · rename_i selected i hop
            split at hwants
            · cases hwants
              exact ⟨c, List.mem_cons_self, ⟨rfl, hown.symm⟩, selected, i, hop, rfl⟩
            · cases hwants
          · cases hwants
      · rw [Caches.run, Caches.entry, Caches.after, if_neg (Ne.symm hproject)] at h
        obtain ⟨c', hmem, hfinalised⟩ := ih h
        exact ⟨c', List.mem_cons_of_mem _ hmem, hfinalised⟩

/-! ## Three properties of the cache -/

theorem cacheKey_inj (hlen : ∀ t, (p.sha256 t).length = 64) {context context' : ActiveContext}
    {signature signature' : Text}
    (h : cacheKey p context signature = cacheKey p context' signature') :
    digest p 24 context.sessionId = digest p 24 context'.sessionId ∧ signature = signature' := by
  have hdigest : ∀ t, (digest p 24 t).length = 24 := by
    intro t
    rw [digest, List.length_take, hlen]
    rfl
  rw [cacheKey, cacheKey, List.append_assoc, List.append_assoc] at h
  obtain ⟨hsession, hrest⟩ := List.append_inj h ((hdigest _).trans (hdigest _).symm)
  exact ⟨hsession, List.append_cancel_left hrest⟩

/-- A miss, the finalisation with its inputs, and a claim with the same
inputs: the claim is a hit, if the calls in between carry the entry over,
leave its finalisation to the one that missed, and do not claim it with
other inputs afterwards. -/
def FoundAgain (p : Platform) : Prop :=
  ∀ (caches : Caches) (context : ActiveContext) (task : Task) (selected : List Text)
    (i : Inputs) (h₁ h₂ h₃ : CacheHost) (reason : Text) (between later : List CacheCall),
    let project := context.projectId
    let k := cacheKey p context (task.value p)
    let missed : CacheCall := ⟨h₁, context, task, .claim i⟩
    let finalising : CacheCall := ⟨h₂, context, task, .finalize selected i⟩
    let again : CacheCall := ⟨h₃, context, task, .claim i⟩
    let atMiss := caches.after p missed
    let atFinal := (atMiss.run p between).after p finalising
    i.clarificationState ≠ [] →
    caches.answer p missed = .claimed (.miss reason) →
    Along p (Awaits p project k) atMiss between →
    h₂.Reads → h₂.publication = .done → Kept p finalising k (atMiss.run p between project) →
    Along p (Spares p project k i) atFinal later →
    h₃.Reads → Kept p again k (atFinal.run p later project) →
    (atFinal.run p later).answer p again = .claimed (.hit (finalIds p.unicode selected)
      (contextFingerprint p (task.value p) (finalIds p.unicode selected) i))

/-- The digests of a claim and of a finalisation do not collide. -/
structure NoCollision (p : Platform) (c c' : CacheCall) : Prop where
  session : Unambiguous p 24 c.context.sessionId c'.context.sessionId
  task : Task.Unambiguous p c.task c'.task
  fingerprint : ∀ i selected i', c.operation = .claim i →
    c'.operation = .finalize selected i' →
    let f := finalisedOf p (c'.task.value p) selected i'
    Unambiguous p 32
      (fingerprintMaterial p.unicode (c'.task.value p) (finalIds p.unicode selected)
        i').asciiDumps
      (fingerprintMaterial p.unicode (c.task.value p) (safeIds p.unicode f.selectedMemoryIds)
        { i with clarificationState := effectiveClarification i.clarificationState f }).asciiDumps

/-- A hit in a run from empty caches comes from a finalisation in the run,
for the same project, session and task, with inputs that agree. -/
def HitsAgree (p : Platform) : Prop :=
  ∀ (run : List CacheCall) (c : CacheCall) (i : Inputs) (ids : List Text) (fingerprint : Text),
    c.operation = .claim i →
    (Caches.run p (fun _ => none) run).answer p c = .claimed (.hit ids fingerprint) →
    (∀ c' ∈ run, NoCollision p c c') →
    ∃ c' ∈ run, ∃ selected i', c'.operation = .finalize selected i' ∧
      c'.context.projectId = c.context.projectId ∧
      c'.context.sessionId = c.context.sessionId ∧ Task.Same c.task c'.task ∧
      ids = finalIds p.unicode selected ∧ Inputs.Agrees p.unicode i' i

/-- After a miss, a claim of the same session and task is told that the
entry is in flight for as long as the window lasts, the calls in between
carry the entry over, and none of them finalises it. -/
def MissOwned (p : Platform) : Prop :=
  ∀ (caches : Caches) (missed c : CacheCall) (i i' : Inputs) (reason : Text)
    (between : List CacheCall),
    let project := missed.context.projectId
    let k := missed.key p
    let atMiss := caches.after p missed
    missed.operation = .claim i → caches.answer p missed = .claimed (.miss reason) →
    Along p (Waits p project k missed.host.now) atMiss between →
    c.About p project k → c.operation = .claim i' → c.host.Reads →
    Kept p c k (atMiss.run p between project) →
    c.host.now - missed.host.now ≤ inflightSeconds →
    (atMiss.run p between).answer p c = .claimed .inflight

theorem found_again (hlen : ∀ t, (p.sha256 t).length = 64) : FoundAgain p := by
  intro caches context task selected i h₁ h₂ h₃ reason between later project k missed finalising
    again atMiss atFinal hstated hmiss hbetween hreads₂ hdone hkept₂ hlater hreads₃ hkept₃
  have hmissed : atMiss.entry project k = some ⟨h₁.now, none⟩ :=
    (caches.after_self missed).trans (entry_of_miss rfl hmiss)
  obtain ⟨t, hinflight⟩ := inflight_run hbetween ⟨_, hmissed⟩
  have hfinal : atFinal.entry project k =
      some ⟨h₂.now, some (finalisedOf p (task.value p) selected i)⟩ :=
    (Caches.after_self _ finalising).trans
      (entry_of_finalize rfl hreads₂ hdone hkept₂ hinflight)
  have hkey : ∀ c : CacheCall, c.About p project k → c.task.value p = task.value p :=
    fun c habout => (cacheKey_inj hlen habout.2).2
  have hready := ready_run hkey hlater hfinal
  have hverdict : verdict p h₃ (task.value p) i ((atFinal.run p later).entry project k) =
      .hit (finalisedOf p (task.value p) selected i) := by
    rw [hready, verdict, if_pos (expectedFingerprint_of_agrees (Inputs.stated hstated)
      (Inputs.agrees_self p.unicode i))]
  rcases claim_answer (c := again) rfl hreads₃ hkept₃ with hanswer | ⟨reason', henter⟩
  · refine hanswer.trans ?_
    rw [show verdict p again.host (again.task.value p) i (entryIn _ (again.key p)) = _ from hverdict,
      Verdict.claimed, show (finalisedOf p (task.value p) selected i).selectedMemoryIds =
        finalIds p.unicode selected from rfl, safeIds_finalIds]
    rfl
  · exact absurd (hverdict.symm.trans henter) (by simp)

theorem hits_agree (hlen : ∀ t, (p.sha256 t).length = 64) : HitsAgree p := by
  intro run c i ids fingerprint hop hhit hclear
  obtain ⟨t, f, hentry, hfingerprint, hids, -⟩ := entry_of_hit hop hhit
  obtain ⟨c', hmem, habout, selected, i', hop', rfl⟩ := entry_origin hentry
  obtain ⟨hsession, hvalue⟩ := cacheKey_inj hlen habout.2
  have hfree := hclear c' hmem
  obtain ⟨-, hgeneration, hroute, hprofile, hclarification, hcheckpoint⟩ :=
    contextFingerprint_inj (hfree.fingerprint i selected i' hop hop') hfingerprint
  refine ⟨c', hmem, selected, i', hop', habout.1, (hfree.session hsession.symm).symm,
    Task.value_inj hlen hfree.task hvalue.symm, ?_, hgeneration.symm, hroute.symm,
    hprofile.symm, hcheckpoint.symm, ?_⟩
  · rw [hids]
    exact safeIds_finalIds p.unicode selected
  · by_cases hany : i.anyClarification
    · exact .inl hany
    · right
      rw [hclarification]
      exact congrArg (safeId p.unicode) (if_neg hany).symm

theorem miss_owned : MissOwned p := by
  intro caches missed c i i' reason between project k atMiss hop hmiss hbetween habout hop' hreads
    hkept hsoon
  have hmissed : atMiss.entry project k = some ⟨missed.host.now, none⟩ :=
    (caches.after_self missed).trans (entry_of_miss hop hmiss)
  have howned := owned_run hbetween hmissed
  obtain ⟨hproject, hkey⟩ := habout
  have hverdict : verdict p c.host (c.task.value p) i'
      (entryIn (atMiss.run p between c.context.projectId) (c.key p)) = .inflight := by
    rw [hproject, hkey, show entryIn (atMiss.run p between project) k = _ from howned, verdict,
      if_pos hsoon]
  rw [← hproject, ← hkey] at hkept
  rcases claim_answer hop' hreads hkept with hanswer | ⟨reason', henter⟩
  · rw [hverdict] at hanswer
    exact hanswer
  · exact absurd (hverdict.symm.trans henter) (by simp)

/-- **The prompt cache** over every run of its calls. -/
theorem prompt_cache (p : Platform) (hlen : ∀ t, (p.sha256 t).length = 64) :
    FoundAgain p ∧ HitsAgree p ∧ MissOwned p :=
  ⟨found_again hlen, hits_agree hlen, miss_owned⟩

/-! ## A prompt to evaluate calls on -/

def promptTable : Store.DigestTable where
  rows := [
    (49142, txt "b85b79f51dffb3f7b4d79eaf9fe5164550a9e718cddc837f4eff2e407596605a"),
    (332, txt "043a718774c572bd8a25adbeb1bfcd5c0256ae11cecf9f9c3f925d0e52beaf89"),
    (341693, txt "cb05fc0d5805fe1f26a3eeb9eb8752e2ea59db3d6bc4a0c3904d4cd908614e0c"),
    (909782, txt "bb881cb568a2b88a9d033e35c91a1ef2388054f41c48d7d76b91b88d6042300e"),
    (478449, txt "9e2bb152f94cd67dc40a5d49c97a858d2841235ede46b9cd245ace9ea37cbffd")]
  digests := by decide +kernel

def promptPlatform : Platform := ⟨promptTable.lookup, .ascii⟩

/-- A host on which nothing fails. -/
def CacheHost.at (now : ℚ) : CacheHost where
  ttl := none
  entryLimit := none
  locked := true
  reading := .sound
  now := now
  publication := .done

theorem CacheHost.at_reads (now : ℚ) : (CacheHost.at now).Reads :=
  ⟨rfl, fun h => (nomatch h)⟩

def promptContext : ActiveContext where
  projectId := txt "p"
  projectSlug := txt "p"
  workspaceRoot := txt "/w"
  workspaceInstanceId := txt "w"
  sessionId := txt "s"
  branch := txt "main"
  sha := txt "abc123"

def promptTask : Task where
  prompt := txt "fix the parser"
  intent := txt "implementation"
  context := promptContext
  sensitivity := txt "GREEN"
  modelFamily := txt "gpt"
  modelSource := txt "payload"
  modelVerified := true
  checkpointIdentity := []
  progressPlanId := []
  progressGeneration := 0
  contextEpoch := []

def promptInputs (clarificationState : Text) : Inputs where
  memoryGeneration := txt "g1"
  route := txt "local"
  profile := txt "gpt"
  clarificationState := clarificationState
  checkpointHash := []

def promptIds : List Text := [txt "m1"]

def promptFingerprint : Text := txt "bb881cb568a2b88a9d033e35c91a1ef2"

def clear : Text := txt "no"

def newTask : Text := txt "new_task_signature"

def claimAt (now : ℚ) (clarificationState : Text) : CacheCall :=
  ⟨.at now, promptContext, promptTask, .claim (promptInputs clarificationState)⟩

def finalizeAt (now : ℚ) (clarificationState : Text) : CacheCall :=
  ⟨.at now, promptContext, promptTask, .finalize promptIds (promptInputs clarificationState)⟩

def noCaches : Caches := fun _ => none

def answered : List CacheCall := [finalizeAt 2 clear, claimAt 1 clear]

/-- A miss, a second claim, the finalisation and a hit. -/
theorem prompt_cache_answered :
    (noCaches.run promptPlatform answered).answer promptPlatform (claimAt 3 clear) =
        .claimed (.hit promptIds promptFingerprint) ∧
      (∃ c' ∈ answered, c'.context.sessionId = promptContext.sessionId) ∧
      ((noCaches.after promptPlatform (claimAt 1 clear)).run promptPlatform []).answer
        promptPlatform (claimAt 2 clear) = .claimed .inflight := by
  obtain ⟨hfound, hagree, howned⟩ := prompt_cache promptPlatform promptTable.lookup_length
  have hmiss : noCaches.answer promptPlatform (claimAt 1 clear) =
      .claimed (.miss newTask) := by decide +kernel
  have hhit : (noCaches.run promptPlatform answered).answer promptPlatform (claimAt 3 clear) =
      .claimed (.hit promptIds promptFingerprint) :=
    (hfound noCaches promptContext promptTask promptIds (promptInputs clear) (.at 1) (.at 2)
      (.at 3) newTask [] [] (by decide) hmiss trivial (CacheHost.at_reads 2) rfl
      (fun _ => .of_sound (by decide +kernel)) trivial (CacheHost.at_reads 3)
      (fun _ => .of_sound (by decide +kernel))).trans (by decide +kernel)
  refine ⟨hhit, ?_, ?_⟩
  · obtain ⟨c', hmem, _, _, _, _, hsession, _⟩ :=
      hagree answered (claimAt 3 clear) (promptInputs clear) promptIds promptFingerprint rfl hhit
        (by
          intro c' hmem
          have hsame : c'.context = promptContext ∧ c'.task = promptTask := by
            rcases List.mem_cons.mp hmem with rfl | hmem
            · exact ⟨rfl, rfl⟩
            · rw [List.mem_singleton.mp hmem]
              exact ⟨rfl, rfl⟩
          refine ⟨?_, ?_, ?_⟩
          · rw [hsame.1]
            exact fun _ => rfl
          · rw [hsame.2]
            exact ⟨fun _ => rfl, fun _ => rfl, fun _ => rfl⟩
          · intro i selected i' hop hop'
            cases hop
            rcases List.mem_cons.mp hmem with rfl | hmem
            · cases hop'
              exact fun _ => by decide +kernel
            · rw [List.mem_singleton.mp hmem] at hop'
              cases hop')
    exact ⟨c', hmem, hsession⟩
  · have habout : (claimAt 2 clear).About promptPlatform promptContext.projectId
        ((claimAt 1 clear).key promptPlatform) := ⟨rfl, rfl⟩
    have hsoon : (claimAt 2 clear).host.now - (claimAt 1 clear).host.now ≤ inflightSeconds := by
      decide +kernel
    exact howned noCaches (claimAt 1 clear) (claimAt 2 clear) (promptInputs clear)
      (promptInputs clear) newTask [] rfl hmiss trivial habout rfl
      (CacheHost.at_reads 2) (fun _ => .of_sound (by decide +kernel)) hsoon

/-- A claim on another route. -/
def detourAt (now : ℚ) : CacheCall :=
  ⟨.at now, promptContext, promptTask, .claim { promptInputs clear with route := txt "other" }⟩

/-- A claim on a host that keeps entries for a second. -/
def hastyAt (now : ℚ) : CacheCall :=
  ⟨{ CacheHost.at now with ttl := some 1 }, promptContext, promptTask,
    .claim (promptInputs clear)⟩

/-- A claim that states no clarification is a hit whatever the context was
finalised with; a claim on another route takes a finalised entry away; and
an entry that expires within the window is entered a second time. -/
theorem reuse_fails :
    ((noCaches.run promptPlatform [finalizeAt 2 clear, claimAt 1 (txt "unknown")]).answer
        promptPlatform (claimAt 3 (txt "unknown")) =
      .claimed (.hit promptIds promptFingerprint) ∧
      promptInputs (txt "unknown") ≠ promptInputs clear) ∧
    (noCaches.run promptPlatform (detourAt 3 :: answered)).answer promptPlatform
        (claimAt 4 clear) = .claimed .inflight ∧
    noCaches.answer promptPlatform (hastyAt 1) = .claimed (.miss newTask) ∧
    (noCaches.run promptPlatform [hastyAt 1]).answer promptPlatform (hastyAt 3) =
      .claimed (.miss newTask) := by
  refine ⟨⟨?_, ?_⟩, ?_, ?_, ?_⟩
  · decide +kernel
  · decide
  · decide +kernel
  · decide +kernel
  · decide +kernel

end RalphVault.PromptCache
