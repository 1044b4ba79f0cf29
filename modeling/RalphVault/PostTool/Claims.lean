import Mathlib
import RalphVault.Lru
import RalphVault.PostTool.Dedupe
import RalphVault.Stop.Duplicates

/-!
# PostToolUse — at most one completion

While the clock goes forward and every claim has the lock, the entries a
claim finds are a function of what has been completed: the keys completed
last, cut by age and by number (`view`).
-/

namespace RalphVault.PostTool

open StateFile Recency Lru
open Stop.Terminal (Digest zeroDigest)

variable {floatText : Rat → Text} {cfg : Config} {now : Rat} {history : List Entry} {k : Text}

/-! ## What a claim finds -/

theorem maxEntries_pos (cfg : Config) : 0 < cfg.maxEntries := by
  rw [Config.maxEntries]
  cases cfg.maxEntriesSetting with
  | none => exact Nat.succ_pos _
  | some n =>
      show 0 < (max (16 : Int) (min n 10000)).toNat
      omega

/-- The entries that are found of a history, the last completion first. -/
def view (cfg : Config) (now : Rat) (history : List Entry) : List Entry :=
  ((latest history).filter (isLive cfg now)).take cfg.maxEntries

/-- Each completion is later than the one before it. -/
def Ordered (history : List Entry) : Prop := history.Pairwise fun a b => b.2 < a.2

theorem live_of_later {a b : Entry} (h : b.2 < a.2) (hb : isLive cfg now b = true) :
    isLive cfg now a = true := by
  simp only [isLive, decide_eq_true_eq] at hb ⊢
  linarith

theorem live_of_before {c : Rat} {e : Entry} (hc : c ≤ now) (h : isLive cfg now e = true) :
    isLive cfg c e = true := by
  simp only [isLive, decide_eq_true_eq] at h ⊢
  linarith

theorem live_self (k : Text) : isLive cfg now (k, now) = true := by
  simp [isLive]

theorem Ordered.latest (h : Ordered history) : Ordered (latest history) :=
  List.Pairwise.sublist latest_sublist h

theorem Ordered.live_front {l : List Entry} (h : Ordered l) :
    l.Pairwise fun a b => isLive cfg now b = true → isLive cfg now a = true :=
  h.imp live_of_later

theorem nodup_view : ((view cfg now history).map Prod.fst).Nodup :=
  nodup_latest.sublist (((List.take_sublist _ _).trans List.filter_sublist).map _)

theorem view_sublist : (view cfg now history).Sublist (latest history) :=
  (List.take_sublist _ _).trans List.filter_sublist

/-- What is still live of the entries found earlier is what is found now. -/
theorem filter_view {c : Rat} (h : Ordered history) (hc : c ≤ now) :
    (view cfg c history).filter (isLive cfg now) = view cfg now history := by
  have hfront : Ordered ((latest history).filter (isLive cfg c)) := h.latest.sublist List.filter_sublist
  rw [view, filter_take hfront.live_front, List.filter_filter, view]
  congr 1
  apply List.filter_congr
  intro e _
  cases hlive : isLive cfg now e with
  | false => rfl
  | true => rw [live_of_before hc hlive, Bool.and_self]

/-- A completion puts its key in front of what its claim has found. -/
theorem view_cons (h : k ∉ (view cfg now history).map Prod.fst) :
    ((k, now) :: view cfg now history).take cfg.maxEntries = view cfg now ((k, now) :: history) := by
  obtain ⟨n, hn⟩ := Nat.exists_eq_succ_of_ne_zero (maxEntries_pos cfg).ne'
  have hnodup : (((latest history).filter (isLive cfg now)).map Prod.fst).Nodup :=
    nodup_latest.sublist (List.filter_sublist.map _)
  rw [view, hn] at h ⊢
  rw [view, hn, latest_cons, touch, List.filter_cons_of_pos (live_self k), List.filter_filter,
    List.take_succ_cons, List.take_succ_cons, List.take_take, Nat.min_eq_left (Nat.le_succ n),
    ← take_filter_of_not_mem hnodup h, List.filter_filter]
  simp only [Bool.and_comm]

/-- A key is found while its last completion is live and fewer than `maxEntries`
other keys have been completed since. -/
theorem mem_view_iff {between past : List Entry} {before : Rat}
    (h : Ordered (between ++ (k, before) :: past)) (hk : k ∉ between.map Prod.fst) :
    k ∈ (view cfg now (between ++ (k, before) :: past)).map Prod.fst ↔
      now - before ≤ cfg.ttlSeconds ∧ (between.map Prod.fst).toFinset.card < cfg.maxEntries := by
  have hcut : view cfg now (between ++ (k, before) :: past) =
      ((latest (between ++ (k, before) :: past)).take cfg.maxEntries).filter (isLive cfg now) :=
    (filter_take h.latest.live_front _).symm
  have hlast : SortedMap.get? k (latest (between ++ (k, before) :: past)) = some before := by
    rw [get?_latest, SortedMap.get?_append_of_not_mem hk, SortedMap.get?, if_pos rfl]
  have hfirst : k ∈ ((latest (between ++ (k, before) :: past)).take cfg.maxEntries).map Prod.fst ↔
      (between.map Prod.fst).toFinset.card < cfg.maxEntries := mem_take_latest hk
  rw [hcut, ← hfirst]
  constructor
  · intro hmem
    obtain ⟨⟨k', t⟩, he, rfl⟩ := List.mem_map.mp hmem
    obtain ⟨htake, hlive⟩ := List.mem_filter.mp he
    have ht := SortedMap.get?_of_mem nodup_latest (List.mem_of_mem_take htake)
    rw [hlast, Option.some.injEq] at ht
    subst ht
    exact ⟨decide_eq_true_eq.mp hlive, List.mem_map_of_mem htake⟩
  · rintro ⟨hlive, hmem⟩
    obtain ⟨⟨k', t⟩, htake, rfl⟩ := List.mem_map.mp hmem
    have ht := SortedMap.get?_of_mem nodup_latest (List.mem_of_mem_take htake)
    rw [hlast, Option.some.injEq] at ht
    subst ht
    exact List.mem_map_of_mem (List.mem_filter.mpr ⟨htake, decide_eq_true hlive⟩)

/-! ## Loading and writing -/

theorem setEntry_new {e : Entry} {es : List Entry} (h : e.1 ∉ es.map Prod.fst) :
    setEntry e es = es ++ [e] := by
  induction es with
  | nil => rfl
  | cons e' es ih =>
      rw [List.map_cons, List.mem_cons, not_or] at h
      rw [setEntry, if_neg (Ne.symm h.1), ih h.2, List.cons_append]

/-- Entries of different keys are loaded as far as they are live. -/
theorem liveEntries_eq {es : List Entry} (hnodup : (es.map Prod.fst).Nodup)
    (hkeys : ∀ e ∈ es, e.1.length = 64) : liveEntries cfg now es = es.filter (isLive cfg now) := by
  have hfold : ∀ acc : List Entry, ((acc ++ es).map Prod.fst).Nodup →
      es.foldl (fun acc e =>
        if e.1.length = 64 && isLive cfg now e then setEntry e acc else acc) acc =
        acc ++ es.filter (isLive cfg now) := by
    clear hnodup
    induction es with
    | nil => simp
    | cons e es ih =>
        intro acc hacc
        obtain ⟨hlen, hkeys⟩ := List.forall_mem_cons.mp hkeys
        rw [List.foldl_cons]
        cases hlive : isLive cfg now e with
        | false =>
            have hrest : ((acc ++ es).map Prod.fst).Nodup :=
              hacc.sublist (((List.sublist_cons_self e es).append_left acc).map _)
            rw [if_neg (by simp), ih hkeys acc hrest, List.filter_cons_of_neg (by simp [hlive])]
        | true =>
            have hnew : e.1 ∉ acc.map Prod.fst := by
              rw [List.map_append, List.map_cons] at hacc
              intro hmem
              exact (List.nodup_append.mp hacc).2.2 _ hmem _ List.mem_cons_self rfl
            have hsplit : acc ++ [e] ++ es = acc ++ e :: es := by
              rw [List.append_assoc, List.singleton_append]
            rw [if_pos (by simp [hlen]), setEntry_new hnew, ih hkeys _ (hsplit ▸ hacc),
              List.filter_cons_of_pos hlive, List.append_assoc, List.singleton_append]
  have hall := hfold [] hnodup
  rwa [List.nil_append] at hall

/-- The entries that are written of what a claim has found. -/
theorem mostRecent_setEntry (h : k ∉ (view cfg now history).map Prod.fst)
    (hlater : ∀ e ∈ history, e.2 < now) (hordered : Ordered history) :
    mostRecent (·.2) cfg.maxEntries (setEntry (k, now) (view cfg now history)) =
      view cfg now ((k, now) :: history) := by
  have hperm : (setEntry (k, now) (view cfg now history)).Perm ((k, now) :: view cfg now history) := by
    rw [setEntry_new h]
    exact List.perm_append_comm
  have hsorted : ((k, now) :: view cfg now history).Pairwise fun a b : Entry => b.2 < a.2 := by
    apply List.Pairwise.cons
    · intro e he
      exact hlater e (latest_sublist.subset (view_sublist.subset he))
    · exact hordered.latest.sublist view_sublist
  rw [mostRecent_of_perm hperm hsorted, view_cons h]

/-! ## Runs -/

/-- The work completed in a trace. -/
def completions : List Event → List Entry
  | [] => []
  | .completed key now :: trace => (key, now) :: completions trace
  | .claimed _ _ _ :: trace => completions trace
  | .skipped _ :: trace => completions trace
  | .failed _ _ _ _ :: trace => completions trace

/-- No claim of a key is in a trace. -/
def Unclaimed (key : Text) (trace : List Event) : Prop :=
  ∀ now duplicate, .claimed key now duplicate ∉ trace

/-- What a run keeps of its claims. -/
structure Run.Sound (floatText : Rat → Text) (cfg : Config) (r : Run) : Prop where
  /-- Work on one key is completed twice within its time only if `maxEntries` other
  keys are completed in between. -/
  once : ∀ (front between past : List Entry) (key : Text) (now before : Rat),
    completions r.trace = front ++ (key, now) :: (between ++ (key, before) :: past) →
      now - before ≤ cfg.ttlSeconds → cfg.maxEntries ≤ (between.map Prod.fst).toFinset.card
  /-- What the work raises is what the caller sees. -/
  sameException : ∀ key duplicate e reached,
    .failed key duplicate e reached ∈ r.trace → reached = e
  /-- Work that has raised is claimed again. -/
  retried : ∀ (front between past : List Event) (key : Text) (now : Rat) (duplicate : Bool)
    (e reached : Raised), r.trace =
      front ++ .claimed key now duplicate :: (between ++ .failed key false e reached :: past) → Unclaimed key between → duplicate = false
  /-- Only what has been completed is recorded. -/
  recorded : ∀ d, r.world.file = some d → ∀ e ∈ d.entries, e ∈ completions r.trace
  accepted : ∀ d, r.world.file = some d → d.accepted floatText = true

/-- What a step is to meet: a claim has the lock, reads the state, and is later
than the claims before it; what its work raises is not of a kind that is
caught, and the state it leaves can be written and is accepted. -/
def Label.Orderly (floatText : Rat → Text) (cfg : Config) (r : Run) : Label → Prop
  | .enter _ now host => host.readable = true ∧
      ∀ key before duplicate, .claimed key before duplicate ∈ r.trace → before < now
  | .leave (.error e) _ _ => e ∉ [Raised.os, .value, .type]
  | .leave (.ok ()) updatedAt publication => ∀ h, r.world.holder = some h → h.duplicate = false →
      publication ≠ .refused ∧ (h.document cfg updatedAt).accepted floatText = true
  | .pass _ _ _ _ => False

/-- What the file has of a history. -/
def ledger (cfg : Config) : List Entry → Option (List Entry)
  | [] => none
  | (k, now) :: history => some (view cfg now ((k, now) :: history))

/-- What is known after an orderly run. -/
structure Holds (floatText : Rat → Text) (cfg : Config) (r : Run) : Prop where
  sound : r.Sound floatText cfg
  ordered : Ordered (completions r.trace)
  claimed : ∀ e ∈ completions r.trace, ∃ duplicate, .claimed e.1 e.2 duplicate ∈ r.trace
  keys : ∀ e ∈ completions r.trace, e.1.length = 64
  file : r.world.file.map (·.entries) = ledger cfg (completions r.trace)
  held : ∀ h, r.world.holder = some h →
    h.entries = view cfg h.now (completions r.trace) ∧
      h.duplicate = decide (h.key.text ∈ h.entries.map Prod.fst) ∧
      (∀ e ∈ completions r.trace, e.2 < h.now) ∧
      ∃ past, r.trace = .claimed h.key.text h.now h.duplicate :: past
  /-- A key whose work has raised is not found until it is claimed again. -/
  forgotten : ∀ (between past : List Event) (key : Text) (e reached : Raised), r.trace =
      between ++ .failed key false e reached :: past → Unclaimed key between →
      ∀ now, (∀ key' before duplicate, .claimed key' before duplicate ∈ r.trace → before ≤ now) →
        key ∉ (view cfg now (completions r.trace)).map Prod.fst

/-! ## Steps -/

theorem Holds.initial : Holds floatText cfg ⟨.initial, []⟩ where
  sound :=
    { once := fun front between past key now before h => by
        cases front <;> cases h
      sameException := fun _ _ _ _ h => by cases h
      retried := fun front _ _ _ _ _ _ _ h => by
        cases front <;> cases h
      recorded := fun _ h => by cases h
      accepted := fun _ h => by cases h }
  ordered := List.Pairwise.nil
  claimed _ h := by cases h
  keys _ h := by cases h
  file := rfl
  held _ h := by cases h
  forgotten between _ _ _ _ h := by cases between <;> cases h

section Steps

variable {r : Run}

/-- What a claim loads. -/
theorem Holds.load (h : Holds floatText cfg r) {host : ClaimHost} (hhost : host.readable = true)
    (hlater : ∀ key before duplicate, .claimed key before duplicate ∈ r.trace → before < now) :
    ∃ stored, loadState floatText host r.world.file = (r.world.file, stored) ∧
      liveEntries cfg now stored = view cfg now (completions r.trace) := by
  have hfile := h.file
  cases hd : r.world.file with
  | none =>
      refine ⟨[], rfl, ?_⟩
      rw [hd] at hfile
      cases hcompletions : completions r.trace with
      | nil => simp [liveEntries, view]
      | cons e history =>
          rw [hcompletions] at hfile
          cases hfile
  | some d =>
      refine ⟨d.entries, ?_, ?_⟩
      · simp only [loadState, hhost, h.sound.accepted d hd, Bool.and_self, if_true]
      · cases hcompletions : completions r.trace with
        | nil =>
            rw [hd, hcompletions] at hfile
            cases hfile
        | cons e history =>
            have hentries : d.entries = view cfg e.2 (completions r.trace) := by
              rw [hd, hcompletions] at hfile
              rw [hcompletions]
              exact Option.some.inj hfile
            obtain ⟨duplicate, hclaimed⟩ := h.claimed e (hcompletions ▸ List.mem_cons_self)
            have hlength : ∀ e' ∈ d.entries, e'.1.length = 64 := by
              intro e' he'
              rw [hentries] at he'
              exact h.keys e' (latest_sublist.subset (view_sublist.subset he'))
            rw [liveEntries_eq (hentries ▸ nodup_view) hlength, hentries,
              filter_view h.ordered (hlater _ _ _ hclaimed).le, hcompletions]

theorem Holds.enter (h : Holds floatText cfg r) (hfree : r.world.holder = none) {key : Digest 64}
    {entries : List Entry} (hentries : entries = view cfg now (completions r.trace))
    (hlater : ∀ key before duplicate, .claimed key before duplicate ∈ r.trace → before < now)
    {duplicate : Bool} (hduplicate : duplicate = decide (key.text ∈ entries.map Prod.fst)) :
    Holds floatText cfg ⟨⟨r.world.file, some ⟨key, now, duplicate, entries⟩⟩,
      .claimed key.text now duplicate :: r.trace⟩ where
  sound :=
    { once := h.sound.once
      sameException := fun key duplicate e reached hmem =>
        h.sound.sameException key duplicate e reached ((List.mem_cons.mp hmem).resolve_left (by simp))
      retried := by
        intro front between past key' now' duplicate' e reached heq hbetween
        cases front with
        | nil =>
            obtain ⟨⟨rfl, rfl, rfl⟩, hpast⟩ := by simpa using heq
            rw [hduplicate, hentries, decide_eq_false_iff_not]
            exact h.forgotten between past _ e reached hpast hbetween _
              fun key before duplicate hmem => (hlater key before duplicate hmem).le
        | cons event front =>
            rw [List.cons_append, List.cons.injEq] at heq
            exact h.sound.retried front between past key' now' duplicate' e reached heq.2 hbetween
      recorded := h.sound.recorded
      accepted := h.sound.accepted }
  ordered := h.ordered
  claimed e he := by
    obtain ⟨duplicate, hmem⟩ := h.claimed e he
    exact ⟨duplicate, List.mem_cons_of_mem _ hmem⟩
  keys := h.keys
  file := h.file
  held holder heq := by
    cases heq
    refine ⟨hentries, hduplicate, fun e he => ?_, _, rfl⟩
    obtain ⟨duplicate, hmem⟩ := h.claimed e he
    exact hlater _ _ _ hmem
  forgotten := by
    intro between past key' e reached heq hbetween now' htimes
    cases between with
    | nil => cases heq
    | cons event between =>
        rw [List.cons_append, List.cons.injEq] at heq
        exact h.forgotten between past key' e reached heq.2
          (fun now duplicate hmem => hbetween now duplicate (List.mem_cons_of_mem _ hmem)) now'
          fun key before duplicate hmem => htimes key before duplicate (List.mem_cons_of_mem _ hmem)

/-- A claim that ends without a completion. -/
theorem Holds.close (h : Holds floatText cfg r) {event : Event}
    (hcompletions : completions (event :: r.trace) = completions r.trace)
    (hclaimed : ∀ key now duplicate, event ≠ .claimed key now duplicate)
    (hfailed : ∀ key duplicate e reached, event = .failed key duplicate e reached →
      reached = e ∧ (duplicate = false → ∀ now,
        (∀ key before duplicate, .claimed key before duplicate ∈ r.trace → before ≤ now) →
          key ∉ (view cfg now (completions r.trace)).map Prod.fst)) :
    Holds floatText cfg ⟨⟨r.world.file, none⟩, event :: r.trace⟩ where
  sound :=
    { once := hcompletions ▸ h.sound.once
      sameException := by
        intro key duplicate e reached hmem
        rcases List.mem_cons.mp hmem with heq | hmem
        · exact (hfailed key duplicate e reached heq.symm).1
        · exact h.sound.sameException key duplicate e reached hmem
      retried := by
        intro front between past key now duplicate e reached heq hbetween
        cases front with
        | nil =>
            rw [List.nil_append, List.cons.injEq] at heq
            exact absurd heq.1 (hclaimed key now duplicate)
        | cons event front =>
            rw [List.cons_append, List.cons.injEq] at heq
            exact h.sound.retried front between past key now duplicate e reached heq.2 hbetween
      recorded := hcompletions ▸ h.sound.recorded
      accepted := h.sound.accepted }
  ordered := hcompletions ▸ h.ordered
  claimed e he := by
    obtain ⟨duplicate, hmem⟩ := h.claimed e (hcompletions ▸ he)
    exact ⟨duplicate, List.mem_cons_of_mem _ hmem⟩
  keys := hcompletions ▸ h.keys
  file := hcompletions ▸ h.file
  held _ heq := by cases heq
  forgotten := by
    intro between past key e reached heq hbetween now htimes
    rw [hcompletions]
    have htrace : ∀ key before duplicate, .claimed key before duplicate ∈ r.trace → before ≤ now :=
      fun key before duplicate hmem => htimes key before duplicate (List.mem_cons_of_mem _ hmem)
    cases between with
    | nil =>
        rw [List.nil_append, List.cons.injEq] at heq
        exact (hfailed key false e reached heq.1).2 rfl now htrace
    | cons event between =>
        rw [List.cons_append, List.cons.injEq] at heq
        exact h.forgotten between past key e reached heq.2
          (fun now duplicate hmem => hbetween now duplicate (List.mem_cons_of_mem _ hmem)) now htrace

/-- The last completion of a key that has been completed. -/
theorem exists_last {between past : List Entry} {before : Rat}
    (h : Ordered (between ++ (k, before) :: past)) :
    ∃ front t rest, between ++ (k, before) :: past = front ++ (k, t) :: rest ∧
      k ∉ front.map Prod.fst ∧ before ≤ t ∧ front.map Prod.fst ⊆ between.map Prod.fst := by
  induction between with
  | nil => exact ⟨[], before, past, rfl, List.not_mem_nil, le_rfl, List.Subset.refl _⟩
  | cons e between ih =>
      obtain ⟨hfirst, hrest⟩ := List.pairwise_cons.mp h
      by_cases he : e.1 = k
      · subst he
        refine ⟨[], e.2, between ++ (e.1, before) :: past, rfl, List.not_mem_nil, ?_,
          List.nil_subset _⟩
        exact (hfirst (e.1, before) (List.mem_append_right _ List.mem_cons_self)).le
      · obtain ⟨front, t, rest, hsplit, hnew, ht, hsubset⟩ := ih hrest
        refine ⟨e :: front, t, rest, by rw [List.cons_append, hsplit, List.cons_append], ?_, ht, ?_⟩
        · rw [List.map_cons, List.mem_cons, not_or]
          exact ⟨Ne.symm he, hnew⟩
        · rw [List.map_cons, List.map_cons]
          exact List.cons_subset_cons _ hsubset

/-- A claim is new only where the last completion of its key is too old, or
enough other keys have been completed since. -/
theorem le_card_of_new {between past : List Entry} {before : Rat}
    (h : Ordered (between ++ (k, before) :: past))
    (hnew : k ∉ (view cfg now (between ++ (k, before) :: past)).map Prod.fst)
    (hrecent : now - before ≤ cfg.ttlSeconds) :
    cfg.maxEntries ≤ (between.map Prod.fst).toFinset.card := by
  obtain ⟨front, t, rest, hsplit, hfront, ht, hsubset⟩ := exists_last h
  rw [hsplit] at h hnew
  rw [mem_view_iff h hfront, not_and] at hnew
  have hlive : now - t ≤ cfg.ttlSeconds := by linarith
  have hcard : cfg.maxEntries ≤ (front.map Prod.fst).toFinset.card := Nat.not_lt.mp (hnew hlive)
  refine hcard.trans (Finset.card_le_card fun key hkey => ?_)
  exact List.mem_toFinset.mpr (hsubset (List.mem_toFinset.mp hkey))

theorem Holds.complete (h : Holds floatText cfg r) {holder : Holder}
    (hheld : r.world.holder = some holder) (hnew : holder.duplicate = false) {updatedAt : Text}
    (haccepted : (holder.document cfg updatedAt).accepted floatText = true) :
    Holds floatText cfg ⟨⟨some (holder.document cfg updatedAt), none⟩,
      .completed holder.key.text holder.now :: r.trace⟩ := by
  obtain ⟨hentries, hduplicate, hlater, claimedBefore, htrace⟩ := h.held holder hheld
  have hmissing : holder.key.text ∉ (view cfg holder.now (completions r.trace)).map Prod.fst := by
    rw [← hentries]
    exact of_decide_eq_false (hduplicate.symm.trans hnew)
  have hwritten : (holder.document cfg updatedAt).entries =
      view cfg holder.now ((holder.key.text, holder.now) :: completions r.trace) := by
    rw [← mostRecent_setEntry hmissing hlater h.ordered, Holder.document, hentries]
  refine
    { sound :=
        { once := ?once
          sameException := fun key duplicate e reached hmem =>
            h.sound.sameException key duplicate e reached
              ((List.mem_cons.mp hmem).resolve_left (by simp))
          retried := ?retried
          recorded := ?recorded
          accepted := ?accepted }
      ordered := List.Pairwise.cons (fun e he => hlater e he) h.ordered
      claimed := ?claimed
      keys := List.forall_mem_cons.mpr ⟨holder.key.length, h.keys⟩
      file := congrArg some hwritten
      held := fun _ heq => by cases heq
      forgotten := ?forgotten }
  case once =>
    intro front between past key now before heq hrecent
    cases front with
    | nil =>
        rw [List.nil_append, completions, List.cons.injEq, Prod.mk.injEq] at heq
        obtain ⟨⟨rfl, rfl⟩, hpast⟩ := heq
        rw [hpast] at hmissing
        exact le_card_of_new (hpast ▸ h.ordered) hmissing hrecent
    | cons e front =>
        rw [List.cons_append, completions, List.cons.injEq] at heq
        exact h.sound.once front between past key now before heq.2 hrecent
  case retried =>
    intro front between past key now duplicate e reached heq hbetween
    cases front with
    | nil => cases heq
    | cons event front =>
        rw [List.cons_append, List.cons.injEq] at heq
        exact h.sound.retried front between past key now duplicate e reached heq.2 hbetween
  case recorded =>
    intro d heq e he
    cases heq
    rw [hwritten] at he
    exact latest_sublist.subset (view_sublist.subset he)
  case accepted =>
    intro d heq
    cases heq
    exact haccepted
  case claimed =>
    intro e he
    rcases List.mem_cons.mp he with rfl | he
    · refine ⟨holder.duplicate, List.mem_cons_of_mem _ ?_⟩
      rw [htrace]
      exact List.mem_cons_self
    · obtain ⟨duplicate, hmem⟩ := h.claimed e he
      exact ⟨duplicate, List.mem_cons_of_mem _ hmem⟩
  case forgotten =>
    intro between past key e reached heq hbetween now htimes hmem
    have hclaimed : .claimed holder.key.text holder.now holder.duplicate ∈ r.trace := by
      rw [htrace]
      exact List.mem_cons_self
    have hnow : holder.now ≤ now := htimes _ _ _ (List.mem_cons_of_mem _ hclaimed)
    have hordered : Ordered ((holder.key.text, holder.now) :: completions r.trace) :=
      List.Pairwise.cons (fun e he => hlater e he) h.ordered
    cases between with
    | nil => cases heq
    | cons event between =>
        rw [List.cons_append, List.cons.injEq] at heq
        have hrest : Unclaimed key between := fun now duplicate hmem =>
          hbetween now duplicate (List.mem_cons_of_mem _ hmem)
        -- the claim that is completed comes after the failure, so it is one of another key
        have hother : key ≠ holder.key.text := by
          rintro rfl
          cases between with
          | nil =>
              rw [htrace] at heq
              cases heq.2
          | cons event' between =>
              rw [htrace, List.cons_append, List.cons.injEq] at heq
              refine hrest holder.now holder.duplicate ?_
              rw [heq.2.1]
              exact List.mem_cons_self
        refine h.forgotten between past key e reached heq.2 hrest now
          (fun key before duplicate hmem =>
            htimes key before duplicate (List.mem_cons_of_mem _ hmem)) ?_
        rw [completions, ← filter_view hordered hnow, ← view_cons hmissing] at hmem
        obtain ⟨e', he', rfl⟩ := List.mem_map.mp hmem
        obtain ⟨htake, hlive⟩ := List.mem_filter.mp he'
        rcases List.mem_cons.mp (List.mem_of_mem_take htake) with rfl | hold
        · exact absurd rfl hother
        · rw [← filter_view h.ordered hnow]
          exact List.mem_map_of_mem (List.mem_filter.mpr ⟨hold, hlive⟩)

/-- An orderly step keeps what is known of a run. -/
theorem Holds.step {l : Label} {w : World} {events : List Event} (h : Holds floatText cfg r)
    (horderly : l.Orderly floatText cfg r)
    (hstep : r.world.step floatText cfg l = some (w, events)) :
    Holds floatText cfg ⟨w, events ++ r.trace⟩ := by
  cases l with
  | enter key now host =>
      obtain ⟨hhost, hlater⟩ := horderly
      cases hfree : r.world.holder with
      | some holder => simp [World.step, hfree] at hstep
      | none =>
          obtain ⟨stored, hload, hlive⟩ := h.load hhost hlater
          simp only [World.step, hfree, hload, Option.some.injEq, Prod.mk.injEq] at hstep
          obtain ⟨rfl, rfl⟩ := hstep
          exact h.enter hfree hlive hlater rfl
  | leave body updatedAt publication =>
      obtain ⟨holder, hheld, hstep⟩ := Option.map_eq_some_iff.mp hstep
      obtain ⟨hentries, hduplicate, -, past, htrace⟩ := h.held holder hheld
      cases body with
      | error e =>
          cases hstep
          have hreaches : reaches true e = e := by
            have hcaught : e ∉ [Raised.os, .value, .type] := horderly
            rw [reaches, if_neg]
            simpa using hcaught
          refine h.close rfl (fun _ _ _ => Event.noConfusion) ?_
          intro key duplicate e' reached heq
          cases heq
          refine ⟨hreaches, fun hnew now htimes hmem => ?_⟩
          have hclaimed : .claimed holder.key.text holder.now holder.duplicate ∈ r.trace := by
            rw [htrace]
            exact List.mem_cons_self
          rw [← filter_view h.ordered (htimes _ _ _ hclaimed), ← hentries] at hmem
          have hfound := (List.filter_sublist.map Prod.fst).subset hmem
          exact of_decide_eq_false (hduplicate.symm.trans hnew) hfound
      | ok result =>
          cases hnew : holder.duplicate with
          | true =>
              simp only [hnew, if_true] at hstep
              cases hstep
              refine h.close rfl (fun _ _ _ => Event.noConfusion) ?_
              intro key duplicate e reached heq
              cases heq
          | false =>
              obtain ⟨hpublication, haccepted⟩ := horderly holder hheld hnew
              have hpublished : (publish publication r.world.file (holder.document cfg updatedAt)).1 =
                  some (holder.document cfg updatedAt) := by
                cases publication with
                | done => rfl
                | refused => exact absurd rfl hpublication
                | unacknowledged => rfl
              simp only [hnew, Bool.false_eq_true, if_false, hpublished] at hstep
              cases hstep
              exact h.complete hheld hnew haccepted
  | pass key now tried body => exact absurd horderly id

theorem run_holds {labels : List Label}
    (horderly : ∀ l past r, l :: past <:+ labels → run floatText cfg past = some r →
      l.Orderly floatText cfg r)
    {past : List Label} (hpast : past <:+ labels) (hrun : run floatText cfg past = some r) :
    Holds floatText cfg r := by
  induction past generalizing r with
  | nil =>
      cases hrun
      exact Holds.initial
  | cons l past ih =>
      obtain ⟨r', hr', hstep⟩ := Option.bind_eq_some_iff.mp hrun
      obtain ⟨⟨w, events⟩, hw, rfl⟩ := Option.map_eq_some_iff.mp hstep
      have hholds := ih ((List.suffix_cons l past).trans hpast) hr'
      exact hholds.step (horderly l past r' hpast hr') hw

end Steps

/-- `repr` of a float that is a whole number of seconds. -/
def secondsText (t : Rat) : Text := decimalText t.num.toNat ++ txt ".0"

def working : ClaimHost := ⟨true, true⟩

def stamp : Text := txt "2026-09-21T13:33:20+00:00"

/-- The first claim of a project, and what becomes of its work. -/
def firstClaim (body : Except Raised Unit) : List Label :=
  [.leave body stamp .done, .enter (zeroDigest 64) 1790000000 working]

end RalphVault.PostTool
