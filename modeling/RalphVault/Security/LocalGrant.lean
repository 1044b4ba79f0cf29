import Mathlib
import RalphVault.Text

/-!
# Security — local grants

`marker_allows` of `local_minikube_grant.py` as any number of processes run
it: each call of the file system is a step of its own, and between two steps
anything may happen to the marker and to the directory it is in. What a check
removes is what it is allowed by.
-/

namespace RalphVault.LocalGrant

/-! ## Files -/

/-- What `stat` tells of a file. -/
structure Info where
  mode : Nat
  size : Nat
  mtime : Rat

/-- What is at a path: a link or the thing itself, what `stat` finds behind
it, and the number of its creation. -/
structure Entry where
  link : Bool
  directory : Bool
  info : Option Info
  birth : Nat

structure RootDir where
  link : Bool
  mode : Nat

/-- `MARKER_TTL_SECONDS`. -/
def markerTtlSeconds : Rat := 900

/-- `st_mode & 0o077`. -/
def othersMay (mode : Nat) : Bool := mode &&& 0o077 != 0

/-! ## Checks -/

/-- Where a run of `marker_allows` is: before each of its calls, or returned. -/
inductive Phase where
  | rootLink
  | rootMode
  | markerLink
  | markerMode
  | clock
  | age (now : Rat)
  | size
  | unlink
  | refused
  | allowed (birth : Nat)
deriving DecidableEq

structure Check where
  marker : Text
  phase : Phase
deriving DecidableEq

/-- What the run returned. -/
def Check.result (c : Check) : Option Bool :=
  match c.phase with
  | .allowed _ => some true
  | .refused => some false
  | _ => none

/-- The markers by their names, the checks in the order they began, and the
names of the markers created so far: the place of a name in the list is the
number of that creation. -/
structure World where
  root : Option RootDir
  now : Rat
  markers : Text → Option Entry
  created : List Text
  checks : List Check

namespace World

def entry (w : World) (marker : Text) : Option Entry :=
  if w.root.isSome then w.markers marker else none

/-- `stat`, which follows a link. -/
def stat (w : World) (marker : Text) : Option Info := (w.entry marker).bind Entry.info

/-- One call of `marker_allows`. -/
def next (w : World) (marker : Text) : Phase → Phase
  | .rootLink => if w.root.any RootDir.link then .refused else .rootMode
  | .rootMode =>
      match w.root with
      | some r => if othersMay r.mode then .refused else .markerLink
      | none => .refused
  | .markerLink => if (w.entry marker).any Entry.link then .refused else .markerMode
  | .markerMode =>
      match w.stat marker with
      | some info => if othersMay info.mode then .refused else .clock
      | none => .refused
  | .clock => .age w.now
  | .age now =>
      match w.stat marker with
      | some info =>
          let age := now - info.mtime
          if age < 0 || markerTtlSeconds < age then .refused else .size
      | none => .refused
  | .size =>
      match w.stat marker with
      | some info => if info.size != 0 then .refused else .unlink
      | none => .refused
  | .unlink =>
      match w.entry marker with
      | some e => if e.directory then .refused else .allowed e.birth
      | none => .refused
  | .refused => .refused
  | .allowed birth => .allowed birth

def setMarker (w : World) (marker : Text) (e : Option Entry) : World :=
  { w with markers := fun name => if name = marker then e else w.markers name }

def setPhase (w : World) (i : Nat) (c : Check) (phase : Phase) : World :=
  { w with checks := w.checks.set i { c with phase := phase } }

end World

/-! ## Steps -/

inductive Action where
  /-- A process calls `marker_allows`. -/
  | start (marker : Text)
  /-- A check makes its next call. -/
  | call (i : Nat)
  /-- The next call of a check raises `OSError`. -/
  | fail (i : Nat)
  /-- A file comes to be at the path of a marker, whatever was there. -/
  | create (marker : Text) (link directory : Bool) (info : Option Info)
  /-- What is there is written to or has its attributes changed. -/
  | change (marker : Text) (info : Option Info)
  | remove (marker : Text)
  | changeRoot (root : Option RootDir)
  | tick (now : Rat)

def World.step (w : World) : Action → World
  | .start marker => { w with checks := w.checks ++ [⟨marker, .rootLink⟩] }
  | .call i =>
      match w.checks[i]? with
      | none => w
      | some c =>
          let phase := w.next c.marker c.phase
          -- only the last call touches the marker
          if c.phase = .unlink ∧ phase ≠ .refused then
            (w.setPhase i c phase).setMarker c.marker none
          else w.setPhase i c phase
  | .fail i =>
      match w.checks[i]? with
      | none => w
      | some c => if c.result.isSome then w else w.setPhase i c .refused
  | .create marker link directory info =>
      { w.setMarker marker (some ⟨link, directory, info, w.created.length⟩) with
        created := w.created ++ [marker] }
  | .change marker info =>
      w.setMarker marker ((w.markers marker).map fun e => { e with info := info })
  | .remove marker => w.setMarker marker none
  | .changeRoot root => { w with root := root }
  | .tick now => { w with now := now }

/-- What is reached from a world in which no check has begun and every marker
there is has been created. -/
inductive Reachable : World → Prop where
  | init (w : World) (checks : w.checks = [])
      (created : ∀ marker e, w.markers marker = some e → w.created[e.birth]? = some marker) :
      Reachable w
  | step {w : World} (a : Action) (h : Reachable w) : Reachable (w.step a)

/-! ## What a check is allowed by -/

/-- The check has returned true, allowed by that creation of its marker. -/
def World.Allows (w : World) (i : Nat) (marker : Text) (birth : Nat) : Prop :=
  w.checks[i]? = some ⟨marker, .allowed birth⟩

structure Inv (w : World) : Prop where
  registered : ∀ marker e, w.markers marker = some e → w.created[e.birth]? = some marker
  created : ∀ i marker birth, w.Allows i marker birth → w.created[birth]? = some marker
  consumed : ∀ i marker birth, w.Allows i marker birth →
    ∀ e, w.markers marker = some e → e.birth ≠ birth
  once : ∀ i j marker marker' birth, w.Allows i marker birth → w.Allows j marker' birth → i = j

/-- A step that creates nothing and allows no check keeps the invariant. -/
theorem Inv.frame {w w' : World} (h : Inv w) (hcreated : w'.created = w.created)
    (hmarkers : ∀ marker e', w'.markers marker = some e' →
      ∃ e, w.markers marker = some e ∧ e.birth = e'.birth)
    (hallows : ∀ i marker birth, w'.Allows i marker birth → w.Allows i marker birth) : Inv w' := by
  constructor
  · intro marker e' he'
    obtain ⟨e, he, hbirth⟩ := hmarkers marker e' he'
    rw [hcreated, ← hbirth]
    exact h.registered marker e he
  · intro i marker birth hi
    rw [hcreated]
    exact h.created i marker birth (hallows i marker birth hi)
  · intro i marker birth hi e' he'
    obtain ⟨e, he, hbirth⟩ := hmarkers marker e' he'
    rw [← hbirth]
    exact h.consumed i marker birth (hallows i marker birth hi) e he
  · intro i j marker marker' birth hi hj
    exact h.once i j marker marker' birth (hallows _ _ _ hi) (hallows _ _ _ hj)

/-- The last call is refused, or it is allowed by what it finds. -/
theorem next_unlink (w : World) (marker : Text) : w.next marker .unlink = .refused ∨
    ∃ e, w.markers marker = some e ∧ w.next marker .unlink = .allowed e.birth := by
  simp only [World.next]
  split
  · next e he =>
    split
    · exact .inl rfl
    · rw [World.entry] at he
      split at he
      · exact .inr ⟨e, he, rfl⟩
      · cases he
  · exact .inl rfl

theorem next_allowed {w : World} {marker : Text} {phase : Phase} {birth : Nat}
    (h : w.next marker phase = .allowed birth) :
    phase = .unlink ∨ phase = .allowed birth := by
  cases phase with
  | unlink => exact .inl rfl
  | allowed birth' => exact .inr h
  | refused => cases h
  | clock => cases h
  | rootLink | markerLink =>
      simp only [World.next] at h
      split at h <;> cases h
  | rootMode | markerMode | age now | size =>
      simp only [World.next] at h
      split at h
      · split at h <;> cases h
      · cases h

theorem allows_setPhase {w : World} {i : Nat} {c : Check} (hc : w.checks[i]? = some c)
    {phase : Phase} {j : Nat} {marker : Text} {birth : Nat} :
    (w.setPhase i c phase).Allows j marker birth ↔
      (j = i ∧ c.marker = marker ∧ phase = .allowed birth) ∨ (j ≠ i ∧ w.Allows j marker birth) := by
  have hlt : i < w.checks.length := (List.getElem?_eq_some_iff.mp hc).1
  rw [World.Allows, World.setPhase, List.getElem?_set]
  by_cases hij : i = j
  · subst hij
    simp [hlt]
  · simp [hij, Ne.symm hij, World.Allows]

/-- A check that removes its marker is the only one allowed by that creation. -/
theorem Inv.consume {w : World} (h : Inv w) {i : Nat} {c : Check} (hc : w.checks[i]? = some c)
    {e : Entry} (he : w.markers c.marker = some e) :
    Inv ((w.setPhase i c (.allowed e.birth)).setMarker c.marker none) := by
  have hmarkers {marker : Text} {e' : Entry}
      (h' : ((w.setPhase i c (.allowed e.birth)).setMarker c.marker none).markers marker = some e') :
      marker ≠ c.marker ∧ w.markers marker = some e' := by
    by_cases hname : marker = c.marker
    · simp [World.setMarker, hname] at h'
    · exact ⟨hname, by simpa [World.setMarker, World.setPhase, hname] using h'⟩
  have hallows {j : Nat} {marker : Text} {birth : Nat}
      (hj : ((w.setPhase i c (.allowed e.birth)).setMarker c.marker none).Allows j marker birth) :
      (j = i ∧ c.marker = marker ∧ Phase.allowed e.birth = .allowed birth) ∨
        (j ≠ i ∧ w.Allows j marker birth) := (allows_setPhase hc).mp hj
  constructor
  · intro marker e' he'
    exact h.registered marker e' (hmarkers he').2
  · intro j marker birth hj
    obtain ⟨-, rfl, ⟨⟩⟩ | ⟨-, hj⟩ := hallows hj
    · exact h.registered c.marker e he
    · exact h.created j marker birth hj
  · intro j marker birth hj e' he'
    obtain ⟨hne, he'⟩ := hmarkers he'
    obtain ⟨-, hmarker, -⟩ | ⟨-, hj⟩ := hallows hj
    · exact absurd hmarker.symm hne
    · exact h.consumed j marker birth hj e' he'
  · intro j k marker marker' birth hj hk
    have hfresh {k : Nat} {marker : Text} (hk : w.Allows k marker e.birth) : False := by
      have hname : marker = c.marker :=
        Option.some.inj ((h.created k marker _ hk).symm.trans (h.registered c.marker e he))
      subst hname
      exact h.consumed k c.marker e.birth hk e he rfl
    obtain ⟨hji, -, hbirth⟩ | ⟨-, hj'⟩ := hallows hj <;>
      obtain ⟨hki, -, hbirth'⟩ | ⟨-, hk'⟩ := hallows hk
    · exact hji.trans hki.symm
    · cases hbirth
      exact (hfresh hk').elim
    · cases hbirth'
      exact (hfresh hj').elim
    · exact h.once j k marker marker' birth hj' hk'

theorem Inv.call {w : World} (h : Inv w) (i : Nat) : Inv (w.step (.call i)) := by
  simp only [World.step]
  split
  · exact h
  · next c hc =>
    split
    · next hlast =>
      obtain ⟨hphase, hnext⟩ := hlast
      rw [hphase] at hnext ⊢
      obtain hrefused | ⟨e, he, hallowed⟩ := next_unlink w c.marker
      · exact absurd hrefused hnext
      · rw [hallowed]
        exact h.consume hc he
    · next hlast =>
      refine h.frame rfl (fun marker e he => ⟨e, he, rfl⟩) fun j marker birth hj => ?_
      obtain ⟨rfl, rfl, hallowed⟩ | ⟨-, hj⟩ := (allows_setPhase hc).mp hj
      · obtain hphase | hphase := next_allowed hallowed
        · rw [hallowed] at hlast
          exact absurd ⟨hphase, by simp⟩ hlast
        · rw [World.Allows, hc, ← hphase]
      · exact hj

theorem Inv.create {w : World} (h : Inv w) (marker : Text) (link directory : Bool)
    (info : Option Info) : Inv (w.step (.create marker link directory info)) := by
  have hlast : (w.created ++ [marker])[w.created.length]? = some marker := by simp
  have hkept {birth : Nat} {name : Text} (hb : w.created[birth]? = some name) :
      (w.created ++ [marker])[birth]? = some name := by
    rw [List.getElem?_append_left (List.getElem?_eq_some_iff.mp hb).1]
    exact hb
  constructor
  · intro name e he
    by_cases hname : name = marker
    · subst hname
      have he' : some (⟨link, directory, info, w.created.length⟩ : Entry) = some e := by
        simpa [World.step, World.setMarker] using he
      cases he'
      exact hlast
    · refine hkept (h.registered name e ?_)
      simpa [World.step, World.setMarker, hname] using he
  · intro i name birth hi
    exact hkept (h.created i name birth hi)
  · intro i name birth hi e he hbirth
    by_cases hname : name = marker
    · subst hname
      have he' : some (⟨link, directory, info, w.created.length⟩ : Entry) = some e := by
        simpa [World.step, World.setMarker] using he
      cases he'
      -- what is new has a number that no check was allowed by
      have hlt := (List.getElem?_eq_some_iff.mp (h.created i name birth hi)).1
      exact absurd hbirth (Nat.ne_of_gt hlt)
    · refine h.consumed i name birth hi e ?_ hbirth
      simpa [World.step, World.setMarker, hname] using he
  · exact h.once

/-- Every step keeps the invariant. -/
theorem Inv.step {w : World} (h : Inv w) (a : Action) : Inv (w.step a) := by
  cases a with
  | call i => exact h.call i
  | create marker link directory info => exact h.create marker link directory info
  | start marker =>
      refine h.frame rfl (fun _ e he => ⟨e, he, rfl⟩) fun i name birth hi => ?_
      have hi : (w.checks ++ [⟨marker, .rootLink⟩])[i]? = some ⟨name, .allowed birth⟩ := hi
      rw [List.getElem?_append] at hi
      split at hi
      · exact hi
      · rw [List.getElem?_singleton] at hi
        split at hi <;> cases hi
  | fail i =>
      simp only [World.step]
      split
      · exact h
      · next c hc =>
        split
        · exact h
        · refine h.frame rfl (fun _ e he => ⟨e, he, rfl⟩) fun j name birth hj => ?_
          obtain ⟨-, -, hrefused⟩ | ⟨-, hj⟩ := (allows_setPhase hc).mp hj
          · cases hrefused
          · exact hj
  | change marker info =>
      refine h.frame rfl (fun name e' he' => ?_) fun _ _ _ hi => hi
      by_cases hname : name = marker
      · subst hname
        have he : (w.markers name).map (fun e => { e with info := info }) = some e' := by
          simpa [World.step, World.setMarker] using he'
        obtain ⟨e, hfound, rfl⟩ := Option.map_eq_some_iff.mp he
        exact ⟨e, hfound, rfl⟩
      · exact ⟨e', by simpa [World.step, World.setMarker, hname] using he', rfl⟩
  | remove marker =>
      refine h.frame rfl (fun name e' he' => ?_) fun _ _ _ hi => hi
      by_cases hname : name = marker
      · simp [World.step, World.setMarker, hname] at he'
      · exact ⟨e', by simpa [World.step, World.setMarker, hname] using he', rfl⟩
  | changeRoot root => exact h.frame rfl (fun _ e he => ⟨e, he, rfl⟩) fun _ _ _ hi => hi
  | tick now => exact h.frame rfl (fun _ e he => ⟨e, he, rfl⟩) fun _ _ _ hi => hi

theorem Reachable.inv {w : World} (h : Reachable w) : Inv w := by
  induction h with
  | init w checks created =>
      have hnone {i : Nat} {marker : Text} {birth : Nat} : ¬ w.Allows i marker birth := by
        rw [World.Allows, checks]
        simp
      exact ⟨created, fun _ _ _ hi => absurd hi hnone, fun _ _ _ hi => absurd hi hnone,
        fun _ _ _ _ _ hi => absurd hi hnone⟩
  | step a _ ih => exact ih.step a

/-- In every world that is reached, a check that returned true was allowed by
one creation of its marker, and no other check was allowed by that one. -/
theorem allowed_once {w : World} (h : Reachable w) (i : Nat) (c : Check)
    (hc : w.checks[i]? = some c) (htrue : c.result = some true) : ∃ birth,
      c.phase = .allowed birth ∧ w.created[birth]? = some c.marker ∧
      ∀ j c', w.checks[j]? = some c' → c'.phase = .allowed birth → j = i := by
  obtain ⟨marker, phase⟩ := c
  cases phase with
  | allowed birth =>
      refine ⟨birth, rfl, h.inv.created i marker birth hc, ?_⟩
      rintro j ⟨marker', phase'⟩ hj rfl
      exact h.inv.once j i marker' marker birth hj hc
  | _ => cases htrue

theorem Reachable.run {w : World} (h : Reachable w) (actions : List Action) :
    Reachable (actions.foldl World.step w) := by
  induction actions generalizing w with
  | nil => exact h
  | cons a actions ih => exact ih (h.step a)

def noMarkers : World where
  root := some ⟨false, 0o700⟩
  now := 10
  markers _ := none
  created := []
  checks := []

/-- Two checks of one marker, the second a call behind the first. -/
def twoCalls : List Action :=
  [.create (txt "command-1a") false false (some ⟨0o600, 0, 5⟩), .start (txt "command-1a"),
    .start (txt "command-1a")] ++ (List.replicate 8 [.call 0, .call 1]).flatten

def twoChecks : World := twoCalls.foldl World.step noMarkers

theorem twoChecks_checks : twoChecks.checks =
    [⟨txt "command-1a", .allowed 0⟩, ⟨txt "command-1a", .refused⟩] := by
  decide +kernel

theorem first_check_alone : ∃ birth, Phase.allowed 0 = .allowed birth ∧
    twoChecks.created[birth]? = some (txt "command-1a") ∧
    ∀ j c', twoChecks.checks[j]? = some c' → c'.phase = .allowed birth → j = 0 := by
  have hreached : Reachable twoChecks :=
    Reachable.run (.init noMarkers rfl fun _ _ h => (by cases h)) twoCalls
  exact allowed_once hreached 0 ⟨txt "command-1a", .allowed 0⟩ (by rw [twoChecks_checks]; rfl) rfl

end RalphVault.LocalGrant
