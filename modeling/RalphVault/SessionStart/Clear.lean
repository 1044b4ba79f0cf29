import Mathlib
import RalphVault.SessionStart.Cache

/-!
# SessionStart — a clear stays silent

The entry of a clear event stays in the file while no write drops it: the
most recent entries are kept, whichever sessions they are of. A state that
is larger than its reader takes is lost as a whole.
-/

namespace RalphVault.SessionStart.Cache

open Json StateFile Recency

variable {parse : Text → Option Rat} {cfg : Config} {session : Text} {sessions : Sessions}

/-! ## Entries -/

theorem isCleared_clearEntry (session profile : Text) (ids : List Text) (iso : Text) :
    isCleared session (clearEntry session profile ids iso) = true := by
  have hself : (session == session) = true := beq_self_eq_true session
  exact hself

theorem updatedAt_clearEntry (session profile : Text) (ids : List Text) (began : Instant parse) :
    updatedAt parse (clearEntry session profile ids began.iso) = some (⌊began.now⌋ : Rat) :=
  began.parsed

theorem isCleared_reducedEntry (session : Text) (reduced : Reduced) (iso : Text) :
    isCleared session (reducedEntry session reduced true iso) = true := by
  have hself : (session == session) = true := beq_self_eq_true session
  exact hself

theorem updatedAt_reducedEntry (session : Text) (reduced : Reduced) (cleared : Bool)
    (began : Instant parse) :
    updatedAt parse (reducedEntry session reduced cleared began.iso) = some (⌊began.now⌋ : Rat) :=
  began.parsed

/-- The session is marked as cleared, not earlier than at a time. -/
def Marked (parse : Text → Option Rat) (session : Text) (t : Rat) (sessions : Sessions) : Prop :=
  ∃ entry u, SortedMap.get? session sessions = some entry ∧ isCleared session entry = true ∧
    updatedAt parse entry = some u ∧ t ≤ u

/-! ## Writing -/

/-- Every entry that is marked as cleared has its place among the most recent
ones. -/
def Roomy (parse : Text → Option Rat) (cfg : Config) (now : Rat) (sessions : Sessions) : Prop :=
  ∀ e ∈ sessions.filter (isLive parse cfg now), isCleared e.1 e.2 = true →
    (sessions.filter (isLive parse cfg now)).countP (fun e' => recency e ≤ recency e') ≤
      cfg.maxSessions

theorem nodup_prune (h : (sessions.map Prod.fst).Nodup) (now : Rat) :
    ((prune parse cfg now sessions).map Prod.fst).Nodup :=
  nodup_map_mostRecent (h.sublist (List.filter_sublist.map _))

/-- A write keeps the mark of a session for the lifetime of the cache. -/
theorem Marked.prune {t now : Rat} (h : Marked parse session t sessions)
    (hkeys : (sessions.map Prod.fst).Nodup) (hroom : Roomy parse cfg now sessions)
    (hlifetime : now - t ≤ cfg.ttl) : Marked parse session t (prune parse cfg now sessions) := by
  obtain ⟨entry, u, hget, hcleared, hupdated, hu⟩ := h
  refine ⟨entry, u, ?_, hcleared, hupdated, hu⟩
  have hlive : isLive parse cfg now (session, entry) = true := by
    simp only [isLive, hupdated, decide_eq_true_eq]
    linarith
  have hmem : (session, entry) ∈ sessions.filter (isLive parse cfg now) :=
    List.mem_filter.mpr ⟨SortedMap.mem_of_get? hget, hlive⟩
  obtain ⟨front, back, hsplit⟩ := List.append_of_mem hmem
  have hrest : (sessions.filter (isLive parse cfg now)).Perm ((session, entry) :: (front ++ back)) :=
    hsplit ▸ List.perm_middle
  have hcount := hroom _ hmem hcleared
  have hself : decide (recency (session, entry) ≤ recency (session, entry)) = true :=
    decide_eq_true le_rfl
  rw [hrest.countP_eq, List.countP_cons, if_pos hself] at hcount
  exact SortedMap.get?_of_mem (nodup_prune hkeys now)
    (mem_mostRecent_of_countP hrest (Nat.lt_of_succ_le hcount))

/-! ## Runs -/

/-- A session that has been cleared is answered with nothing for the lifetime of
the cache. -/
def Silent (cfg : Config) (trace : List Event) : Prop :=
  ∀ (front between past : List Event) (session : Text) (t now : Rat) (output : Text),
    trace = front ++ .answered session now output :: (between ++ .cleared session t :: past) →
      now - t ≤ cfg.ttl → output = []

/-- What a run keeps. -/
structure Run.Sound (cfg : Config) (r : Run parse) : Prop where
  silent : Silent cfg r.trace
  accepted : ∀ d, r.world.file = some d → d.accepted = true

/-- The sessions that a step writes, and when; none where it writes nothing. -/
def World.rewritten (w : World parse) : Label parse → Option (Sessions × Instant parse)
  | .clear session profile ids reading began ended publication =>
      if publication = .refused then none
      else some (putMember (session, clearEntry session profile ids began.iso)
        (readState reading w.file).2, ended)
  | .observe _ _ _ => none
  | .reduce n reduced reading ended publication =>
      if publication = .refused then none
      else w.pending[n]?.map fun p =>
        (putMember (p.session, reducedEntry p.session reduced p.cleared p.began.iso)
          (readState reading w.file).2, ended)
  | .progress _ _ _ _ => none

def Label.reading : Label parse → CacheRead
  | .clear _ _ _ reading _ _ _ => reading
  | .observe _ reading _ => reading
  | .reduce _ _ reading _ _ => reading
  | .progress _ _ reading _ => reading

/-- When a step begins. -/
def Label.begins : Label parse → Rat
  | .clear _ _ _ _ began _ _ => began.now
  | .observe _ _ began => began.now
  | .reduce _ _ _ ended _ => ended.now
  | .progress _ _ _ now => now

/-- What a step is to meet: it is not earlier than the steps before it, and reads
the file as it is; what it writes is accepted and has room for all entries
that are marked as cleared; and a reducer that writes has read the mark of its
session, if there is one, and is not older than it. -/
structure Label.Orderly (cfg : Config) (r : Run parse) (l : Label parse) : Prop where
  reading : l.reading = .sound
  later : ∀ t, r.clock = some t → t ≤ l.begins
  forward : l.begins ≤ l.time
  accepted : ∀ sessions ended, r.world.rewritten l = some (sessions, ended) →
    (written cfg sessions ended).accepted = true
  roomy : ∀ sessions ended, r.world.rewritten l = some (sessions, ended) →
    Roomy parse cfg ended.now sessions
  observed : ∀ n reduced reading ended publication, l = .reduce n reduced reading ended publication →
    ∀ p, r.world.pending[n]? = some p → ∀ d, r.world.file = some d →
      ∀ t, Marked parse p.session t d.sessions → p.cleared = true ∧ t ≤ ⌊p.began.now⌋

/-- What is known after an orderly run. -/
structure Holds (cfg : Config) (r : Run parse) : Prop where
  sound : r.Sound cfg
  keys : ∀ d, r.world.file = some d → (d.sessions.map Prod.fst).Nodup
  clears : ∀ s t, .cleared s t ∈ r.trace → ∃ clock, r.clock = some clock ∧ t ≤ (⌊clock⌋ : Rat)
  kept : ∀ s t clock, .cleared s t ∈ r.trace → r.clock = some clock → clock - t ≤ cfg.ttl →
    ∃ d, r.world.file = some d ∧ Marked parse s t d.sessions

theorem Holds.initial : Holds cfg (⟨.initial parse, [], none⟩ : Run parse) where
  sound := ⟨fun front _ _ _ _ _ _ h => by (cases front <;> cases h), fun _ h => by cases h⟩
  keys _ h := by cases h
  clears _ _ h := by cases h
  kept _ _ _ h := by cases h

theorem Silent.cleared {trace : List Event} (h : Silent cfg trace) (s : Text) (t : Rat) :
    Silent cfg (.cleared s t :: trace) := by
  intro front between past session t' now output heq hlifetime
  cases front with
  | nil => cases heq
  | cons event front =>
      rw [List.cons_append, List.cons.injEq] at heq
      exact h front between past session t' now output heq.2 hlifetime

section Steps

variable {r : Run parse}

/-- What a sound reading finds. -/
theorem Holds.read (h : Holds cfg r) :
    ∃ sessions, readState .sound r.world.file = (r.world.file, sessions) ∧
      (sessions.map Prod.fst).Nodup ∧
      ∀ s t d, r.world.file = some d → Marked parse s t d.sessions → Marked parse s t sessions := by
  cases hfile : r.world.file with
  | none => exact ⟨[], rfl, List.nodup_nil, fun _ _ _ heq => by cases heq⟩
  | some d =>
      refine ⟨sortMembers d.sessions, ?_, keys_sortMembers d.sessions, ?_⟩
      · simp only [readState, h.sound.accepted d hfile, if_true]
      · intro s t d' heq hmarked
        cases heq
        obtain ⟨entry, u, hget, hrest⟩ := hmarked
        refine ⟨entry, u, ?_, hrest⟩
        rw [← hget]
        exact SortedMap.get?_ofList (h.keys d hfile) s

/-- Time passes. -/
theorem Holds.advance (h : Holds cfg r) {now : Rat} (hclock : ∀ t, r.clock = some t → t ≤ now)
    (pending : List (Pending parse)) :
    Holds cfg ⟨⟨r.world.file, pending⟩, r.trace, some now⟩ where
  sound := ⟨h.sound.silent, h.sound.accepted⟩
  keys := h.keys
  clears s t hmem := by
    obtain ⟨clock, hclock', ht⟩ := h.clears s t hmem
    refine ⟨now, rfl, ht.trans ?_⟩
    exact_mod_cast Int.floor_mono (hclock clock hclock')
  kept s t clock hmem heq hlifetime := by
    cases heq
    obtain ⟨clock, hclock', -⟩ := h.clears s t hmem
    have hbefore := hclock clock hclock'
    exact h.kept s t clock hmem hclock' (by linarith)

/-- A step that writes the entry of a session. -/
theorem Holds.rewrite (h : Holds cfg r) (hkeys : (sessions.map Prod.fst).Nodup)
    (hread : ∀ s t d, r.world.file = some d → Marked parse s t d.sessions → Marked parse s t sessions)
    {entry : Json} {ended : Instant parse} {trace : List Event}
    (hclock : ∀ t, r.clock = some t → t ≤ ended.now) (hsilent : Silent cfg trace)
    (htrace : ∀ s t, .cleared s t ∈ trace → .cleared s t ∈ r.trace ∨
      s = session ∧ t ≤ (⌊ended.now⌋ : Rat))
    (hentry : ∀ t, .cleared session t ∈ trace → ended.now - t ≤ cfg.ttl →
      Marked parse session t (putMember (session, entry) sessions))
    (haccepted : (written cfg (putMember (session, entry) sessions) ended).accepted = true)
    (hroomy : Roomy parse cfg ended.now (putMember (session, entry) sessions))
    (pending : List (Pending parse)) :
    Holds cfg ⟨⟨some (written cfg (putMember (session, entry) sessions) ended), pending⟩, trace,
      some ended.now⟩ where
  sound := ⟨hsilent, fun d heq => by cases heq; exact haccepted⟩
  keys d heq := by
    cases heq
    exact nodup_prune (nodup_putMember hkeys) ended.now
  clears s t hmem := by
    refine ⟨ended.now, rfl, ?_⟩
    rcases htrace s t hmem with hold | ⟨-, ht⟩
    · obtain ⟨clock, hclock', ht⟩ := h.clears s t hold
      refine ht.trans ?_
      exact_mod_cast Int.floor_mono (hclock clock hclock')
    · exact ht
  kept s t clock hmem heq hlifetime := by
    cases heq
    refine ⟨_, rfl, ?_⟩
    have hmarked : Marked parse s t (putMember (session, entry) sessions) := by
      by_cases hs : s = session
      · subst hs
        exact hentry t hmem hlifetime
      · have hold := (htrace s t hmem).resolve_right fun hnew => hs hnew.1
        obtain ⟨clock, hclock', -⟩ := h.clears s t hold
        have hbefore := hclock clock hclock'
        obtain ⟨d, hd, hkept⟩ := h.kept s t clock hold hclock' (by linarith)
        obtain ⟨entry', u, hget, hrest⟩ := hread s t d hd hkept
        refine ⟨entry', u, ?_, hrest⟩
        rw [get?_putMember, if_neg (Ne.symm hs)]
        exact hget
    exact hmarked.prune (nodup_putMember hkeys) hroomy hlifetime

theorem marked_putMember {entry : Json} {t u : Rat} (hcleared : isCleared session entry = true)
    (hupdated : updatedAt parse entry = some u) (ht : t ≤ u) :
    Marked parse session t (putMember (session, entry) sessions) :=
  ⟨entry, u, by rw [get?_putMember, if_pos rfl], hcleared, hupdated, ht⟩

/-- What a replacement that is not refused leaves. -/
theorem publish_of_not_refused {publication : Publication} (h : publication ≠ .refused)
    (file : Option Document) (d : Document) : (publish publication file d).1 = some d := by
  cases publication with
  | done => rfl
  | refused => exact absurd rfl h
  | unacknowledged => rfl

/-- An orderly step keeps what is known of a run. -/
theorem Holds.step {l : Label parse} {w : World parse} {events : List Event} (h : Holds cfg r)
    (horderly : l.Orderly cfg r) (hstep : r.world.step cfg l = some (w, events)) :
    Holds cfg ⟨w, events ++ r.trace, some l.time⟩ := by
  obtain ⟨sessions, hread, hkeys, hmarks⟩ := h.read
  have hclock : ∀ t, r.clock = some t → t ≤ l.time := fun t ht =>
    (horderly.later t ht).trans horderly.forward
  have hreading := horderly.reading
  cases l with
  | clear s profile ids reading began ended publication =>
      simp only [Label.reading] at hreading
      subst hreading
      simp only [World.step, hread, Option.some.injEq, Prod.mk.injEq] at hstep
      obtain ⟨rfl, rfl⟩ := hstep
      by_cases hrefused : publication = .refused
      · subst hrefused
        rw [if_pos rfl]
        exact h.advance hclock r.world.pending
      · rw [if_neg hrefused, publish_of_not_refused hrefused]
        have hrewritten : r.world.rewritten (.clear s profile ids .sound began ended publication) =
            some (putMember (s, clearEntry s profile ids began.iso) sessions, ended) := by
          rw [World.rewritten, if_neg hrefused, hread]
        refine h.rewrite hkeys hmarks hclock (h.sound.silent.cleared s _) ?_ ?_
          (horderly.accepted _ _ hrewritten) (horderly.roomy _ _ hrewritten) _
        · intro s' t hmem
          rcases List.mem_cons.mp hmem with heq | hold
          · cases heq
            refine .inr ⟨rfl, ?_⟩
            exact_mod_cast Int.floor_mono horderly.forward
          · exact .inl hold
        · intro t hmem _
          have hlate : t ≤ (⌊began.now⌋ : Rat) := by
            rcases List.mem_cons.mp hmem with heq | hold
            · cases heq
              exact le_rfl
            · obtain ⟨clock, hclock', ht⟩ := h.clears s t hold
              refine ht.trans ?_
              exact_mod_cast Int.floor_mono (horderly.later clock hclock')
          exact marked_putMember (isCleared_clearEntry s profile ids began.iso)
            (updatedAt_clearEntry s profile ids began) hlate
  | observe s reading began =>
      simp only [Label.reading] at hreading
      subst hreading
      simp only [World.step, hread, Option.some.injEq, Prod.mk.injEq] at hstep
      obtain ⟨rfl, rfl⟩ := hstep
      exact h.advance hclock _
  | reduce n reduced reading ended publication =>
      simp only [Label.reading] at hreading
      subst hreading
      obtain ⟨p, hp, hstep⟩ := Option.map_eq_some_iff.mp hstep
      simp only [hread, Prod.mk.injEq] at hstep
      obtain ⟨rfl, rfl⟩ := hstep
      by_cases hrefused : publication = .refused
      · subst hrefused
        exact h.advance hclock _
      · rw [publish_of_not_refused hrefused]
        have hrewritten : r.world.rewritten (.reduce n reduced .sound ended publication) =
            some (putMember (p.session,
              reducedEntry p.session reduced p.cleared p.began.iso) sessions, ended) := by
          rw [World.rewritten, if_neg hrefused, hp, hread]
          rfl
        refine h.rewrite hkeys hmarks hclock h.sound.silent (fun _ _ hmem => .inl hmem) ?_
          (horderly.accepted _ _ hrewritten) (horderly.roomy _ _ hrewritten) _
        intro t hmem hlifetime
        obtain ⟨clock, hclock', -⟩ := h.clears p.session t hmem
        have hbefore : clock ≤ ended.now := hclock clock hclock'
        obtain ⟨d, hd, hmarked⟩ := h.kept p.session t clock hmem hclock' (by linarith)
        obtain ⟨hcleared, ht⟩ := horderly.observed n reduced .sound ended publication rfl p hp d hd t
          hmarked
        rw [hcleared]
        exact marked_putMember (isCleared_reducedEntry p.session reduced p.began.iso)
          (updatedAt_reducedEntry p.session reduced true p.began) ht
  | progress s capsule reading now =>
      simp only [Label.reading] at hreading
      subst hreading
      simp only [World.step, hread, Option.some.injEq, Prod.mk.injEq] at hstep
      obtain ⟨rfl, rfl⟩ := hstep
      have hnext := h.advance hclock r.world.pending
      refine ⟨⟨?_, hnext.sound.accepted⟩, hnext.keys, fun s t hmem =>
        hnext.clears s t ((List.mem_cons.mp hmem).resolve_left (by simp)), fun s t clock hmem =>
        hnext.kept s t clock ((List.mem_cons.mp hmem).resolve_left (by simp))⟩
      intro front between past session t now' output heq hlifetime
      cases front with
      | nil =>
          rw [List.nil_append] at heq
          obtain ⟨⟨rfl, rfl, rfl⟩, hpast⟩ := by simpa using heq
          have hmem : Event.cleared s t ∈ r.trace := by
            rw [hpast]
            exact List.mem_append_right _ List.mem_cons_self
          obtain ⟨clock, hclock', -⟩ := h.clears s t hmem
          have hbefore : clock ≤ now := hclock clock hclock'
          obtain ⟨d, hd, hmarked⟩ := h.kept s t clock hmem hclock' (by linarith)
          obtain ⟨entry, u, hget, hcleared, -⟩ := hmarks s t d hd hmarked
          have hany : (SortedMap.get? s sessions).any (isCleared s) = true := by
            rw [hget]
            exact hcleared
          rw [if_pos hany]
      | cons event front =>
          have hrest : r.trace = front ++ .answered session now' output ::
              (between ++ .cleared session t :: past) := (List.cons.inj heq).2
          exact h.sound.silent front between past session t now' output hrest hlifetime

theorem run_holds {labels : List (Label parse)}
    (horderly : ∀ l past r, l :: past <:+ labels → run cfg past = some r → l.Orderly cfg r)
    {past : List (Label parse)} (hpast : past <:+ labels) (hrun : run cfg past = some r) :
    Holds cfg r := by
  induction past generalizing r with
  | nil =>
      cases hrun
      exact Holds.initial
  | cons l past ih =>
      obtain ⟨r', hr', hstep⟩ := Option.bind_eq_some_iff.mp hrun
      obtain ⟨⟨w, events⟩, hw, rfl⟩ := Option.map_eq_some_iff.mp hstep
      have hholds := ih ((List.suffix_cons l past).trans hpast) hr'
      exact hholds.step (horderly l past r' hpast hr') hw

end Steps

def firstSecond : Text := txt "2026-07-01T00:00:00+00:00"
def nextSecond : Text := txt "2026-07-01T00:00:01+00:00"

/-- `datetime.fromisoformat` on two texts. -/
def parseSeconds (t : Text) : Option Rat :=
  if t = firstSecond then some 1782864000
  else if t = nextSecond then some 1782864001
  else none

def firstInstant : Instant parseSeconds := ⟨1782864000, firstSecond, by decide +kernel⟩
def nextInstant : Instant parseSeconds := ⟨1782864001, nextSecond, by decide +kernel⟩

/-- A clear event that is recorded. -/
def clearing (session : Text) (instant : Instant parseSeconds) : Label parseSeconds :=
  .clear session (txt "luna") [] .sound instant instant .done

def firstSession : Text := txt "first"

/-- A session is cleared and started again. -/
def silenced : List (Label parseSeconds) :=
  [.progress firstSession (txt "capsule") .sound 1782864002, clearing firstSession firstInstant]

/-- In a cache of one session, one is cleared, then another one, and the first one
is started again. -/
def unsilenced : List (Label parseSeconds) :=
  [.progress firstSession (txt "capsule") .sound 1782864002,
   clearing (txt "second") nextInstant, clearing firstSession firstInstant]

/-- What the last SessionStart is answered. -/
def lastAnswer (r : Run parseSeconds) : Option Text :=
  match r.trace with
  | .answered _ _ output :: _ => some output
  | _ => none

end RalphVault.SessionStart.Cache
