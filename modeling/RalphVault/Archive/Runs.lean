import RalphVault.Archive.Sessions

/-!
# Runs of the archive

Where a run of the archive stops and what it leaves: the files of the first
candidates moved and recorded, or all of them. What a run of the restore
script does with the records it can read.
-/

namespace RalphVault.Archive

open Relocation

variable (home : CodexHome)

/-! ## Candidates -/

def SessionCandidate.place (item : SessionCandidate) : Place := home.resolve item.source

def SessionCandidate.move (item : SessionCandidate) : Place × Place :=
  (item.place home, home.resolve (item.dest home))

variable {home} {disk : Disk} {cutoff now : Int} {item : SessionCandidate}

/-- A candidate and the row it is made of. -/
structure IsCandidate (home : CodexHome) (disk : Disk) (row : ThreadRow) (item : SessionCandidate) :
    Prop where
  threadId : item.threadId = row.id
  path : ∃ rollout, row.rolloutPath = some rollout ∧ item.source = PurePath.parse rollout
  active : row.archivedAt = none
  file : (disk.files (item.place home)).isSome = true
  place : item.place home = home.sessionsRoot ++ item.relative

theorem candidateOf_spec {row : ThreadRow} (h : candidateOf home disk cutoff row = some item) :
    IsCandidate home disk row item := by
  unfold candidateOf at h
  split at h
  · rename_i rollout hactive hrollout
    split at h
    · cases h
    split at h
    · cases h
    dsimp only at h
    split at h
    · cases h
    rename_i content hfile
    obtain ⟨relative, hrelative, rfl⟩ := Option.map_eq_some_iff.mp h
    unfold relativeTo at hrelative
    split at hrelative
    · rename_i hbegin
      obtain ⟨rest, hrest⟩ := hbegin
      refine ⟨rfl, ⟨rollout, hrollout, rfl⟩, hactive, ?_, ?_⟩
      · show (disk.files (home.resolve (PurePath.parse rollout))).isSome = true
        rw [hfile]
        rfl
      · have hrel : relative = rest := by
          rw [← hrest, List.drop_left] at hrelative
          exact (Option.some.inj hrelative).symm
        show home.resolve (PurePath.parse rollout) = home.sessionsRoot ++ relative
        rw [hrel, hrest]
    · cases hrelative
  · cases h

theorem exists_row (h : item ∈ activeSessionCandidates home disk cutoff) :
    ∃ row ∈ disk.threads.rows, IsCandidate home disk row item := by
  have hmem := (List.mergeSort_perm _ _).mem_iff.mp h
  obtain ⟨row, hrow, hcandidate⟩ := List.mem_filterMap.mp hmem
  exact ⟨row, hrow, candidateOf_spec hcandidate⟩

theorem nodup_candidates {rows : List ThreadRow} (h : (rows.map ThreadRow.id).Nodup) :
    ((rows.filterMap (candidateOf home disk cutoff)).map SessionCandidate.threadId).Nodup := by
  induction rows with
  | nil => exact List.nodup_nil
  | cons row rows ih =>
      obtain ⟨hrow, hrows⟩ := List.nodup_cons.mp h
      rw [List.filterMap_cons]
      split
      · exact ih hrows
      · rename_i item hitem
        refine List.nodup_cons.mpr ⟨fun hmem => ?_, ih hrows⟩
        obtain ⟨other, hother, hid⟩ := List.mem_map.mp hmem
        obtain ⟨row', hrow', hcandidate⟩ := List.mem_filterMap.mp hother
        refine hrow ?_
        rw [← (candidateOf_spec hitem).threadId, ← hid, (candidateOf_spec hcandidate).threadId]
        exact List.mem_map_of_mem hrow'

/-- The candidates have different identifiers, as the rows have. -/
theorem nodup_threadIds :
    ((activeSessionCandidates home disk cutoff).map SessionCandidate.threadId).Nodup :=
  ((List.mergeSort_perm _ _).map SessionCandidate.threadId).nodup_iff.mpr
    (nodup_candidates disk.threads.nodup)

section Candidate

variable {row : ThreadRow}

theorem IsCandidate.parent_notMem (h : IsCandidate home disk row item) : parent ∉ item.relative := by
  intro hmem
  refine home.resolve_parent item.source ?_
  rw [show home.resolve item.source = home.sessionsRoot ++ item.relative from h.place]
  exact List.mem_append_right _ hmem

theorem IsCandidate.destPlace (h : IsCandidate home disk row item) :
    home.resolve (item.dest home) = home.resolve home.archiveRoot ++ item.relative :=
  home.resolve_archived _ h.parent_notMem

theorem IsCandidate.source_ne_dest {row' : ThreadRow} {other : SessionCandidate}
    (h : IsCandidate home disk row item) (h' : IsCandidate home disk row' other) :
    item.place home ≠ home.resolve (other.dest home) := by
  rw [h.place, h'.destPlace]
  exact home.apart _ _

end Candidate

variable {items : List SessionCandidate}

/-- Moves of candidates with different places are apart. -/
theorem apart_moves (hitems : ∀ c ∈ items, ∃ row ∈ disk.threads.rows, IsCandidate home disk row c)
    (hplaces : (items.map (SessionCandidate.place home)).Nodup) :
    Apart (items.map (SessionCandidate.move home)) where
  sources := by
    rw [List.map_map]
    exact hplaces
  targets := by
    rw [List.map_map]
    refine List.Nodup.of_map (fun p => home.sessionsRoot ++ p.drop (home.resolve home.archiveRoot).length) ?_
    rw [List.map_map]
    have heq : items.map ((fun p => home.sessionsRoot ++
        p.drop (home.resolve home.archiveRoot).length) ∘ Prod.snd ∘ SessionCandidate.move home) =
        items.map (SessionCandidate.place home) := by
      refine List.map_congr_left fun c hc => ?_
      obtain ⟨row, -, hrow⟩ := hitems c hc
      show home.sessionsRoot ++ (home.resolve (c.dest home)).drop _ = c.place home
      rw [hrow.destPlace, List.drop_left, hrow.place]
    rw [heq]
    exact hplaces
  disjoint := by
    intro m hm m' hm'
    obtain ⟨c, hc, rfl⟩ := List.mem_map.mp hm
    obtain ⟨c', hc', rfl⟩ := List.mem_map.mp hm'
    obtain ⟨row, -, hrow⟩ := hitems c hc
    obtain ⟨row', -, hrow'⟩ := hitems c' hc'
    exact hrow.source_ne_dest hrow'

/-! ## Where the archive stops -/

variable (home) in
/-- How many first candidates have places of their own. -/
def separate (seen : List Place) : List SessionCandidate → Nat
  | [] => 0
  | item :: items =>
      if item.place home ∈ seen then 0 else separate (item.place home :: seen) items + 1

/-- An archive that stops: how many files were moved, and whether each of them
has its record. -/
structure Stop where
  moved : Nat
  recorded : Bool
deriving DecidableEq

def Step.stop (step : Step) (item : Nat) : Stop :=
  match step with
  | .directory | .move => ⟨item, true⟩
  | .record => ⟨item + 1, false⟩
  | .update => ⟨item + 1, true⟩

variable (home) in
/-- Where an archive stops: at the step that raises, or at the first candidate
whose file another candidate has taken away. -/
def stopAt (seen : List Place) (items : List SessionCandidate) (fault : Option Fault) : Option Stop :=
  let n := separate home seen items
  match fault.filter fun f => f.item < n with
  | some f => some (f.step.stop f.item)
  | none => if n < items.length then some ⟨n, true⟩ else none

def Stop.next (s : Stop) : Stop := { s with moved := s.moved + 1 }

variable {seen : List Place} {fault : Option Fault}

theorem stopAt_shared (h : item.place home ∈ seen) :
    stopAt home seen (item :: items) fault = some ⟨0, true⟩ := by
  have hn : separate home seen (item :: items) = 0 := if_pos h
  have hfault : (fault.filter fun f => f.item < 0) = none := by
    cases fault <;> rfl
  rw [stopAt, hn]
  simp only [hfault]
  rfl

theorem stopAt_fault {f : Fault} (h : item.place home ∉ seen) (hf : f.item = 0) :
    stopAt home seen (item :: items) (some f) = some (f.step.stop 0) := by
  have hn : separate home seen (item :: items) = separate home (item.place home :: seen) items + 1 :=
    if_neg h
  have hfault : (some f).filter (fun f => f.item < separate home (item.place home :: seen) items + 1) =
      some f := by
    rw [Option.filter_some, if_pos (by rw [hf]; exact decide_eq_true (Nat.succ_pos _))]
  rw [stopAt, hn]
  simp only [hfault, hf]

theorem stopAt_next (h : item.place home ∉ seen) (hf : ∀ f, fault = some f → f.item ≠ 0) :
    stopAt home seen (item :: items) fault =
      (stopAt home (item.place home :: seen) items (nextFault fault)).map Stop.next := by
  have hn : separate home seen (item :: items) = separate home (item.place home :: seen) items + 1 :=
    if_neg h
  rw [stopAt, stopAt, hn]
  generalize separate home (item.place home :: seen) items = n
  cases fault with
  | none =>
      simp only [nextFault, Option.filter_none, Option.map_none, List.length_cons,
        Nat.add_lt_add_iff_right]
      split <;> rfl
  | some f =>
      obtain ⟨i, step, kept⟩ := f
      obtain ⟨i, rfl⟩ : ∃ k, i = k + 1 := ⟨i - 1, Nat.succ_pred (hf _ rfl) |>.symm⟩
      simp only [nextFault, Option.map_some, Option.filter_some, Nat.add_lt_add_iff_right,
        Nat.add_sub_cancel]
      by_cases hi : i < n
      · simp only [decide_eq_true hi, if_true]
        cases step <;> rfl
      · simp only [decide_eq_false hi, Bool.false_eq_true, if_false, List.length_cons,
          Nat.add_lt_add_iff_right]
        split <;> rfl

/-- The candidates before the stop have places of their own. -/
theorem nodup_before : ∀ {items : List SessionCandidate} {seen : List Place} {k : Nat},
    k ≤ separate home seen items →
      (∀ c ∈ items.take k, c.place home ∉ seen) ∧
        ((items.take k).map (SessionCandidate.place home)).Nodup := by
  intro items
  induction items with
  | nil =>
      intro seen k hk
      rw [List.take_nil]
      exact ⟨fun c hc => absurd hc List.not_mem_nil, List.nodup_nil⟩
  | cons item items ih =>
      intro seen k hk
      rw [separate] at hk
      split at hk
      · obtain rfl : k = 0 := by omega
        exact ⟨fun c hc => absurd hc List.not_mem_nil, List.nodup_nil⟩
      · rename_i hitem
        cases k with
        | zero => exact ⟨fun c hc => absurd hc List.not_mem_nil, List.nodup_nil⟩
        | succ k =>
            obtain ⟨hseen, hnodup⟩ := ih (Nat.le_of_succ_le_succ hk)
            rw [List.take_succ_cons]
            refine ⟨?_, ?_⟩
            · intro c hc
              rcases List.mem_cons.mp hc with rfl | hc
              · exact hitem
              · exact fun hmem => hseen c hc (List.mem_cons_of_mem _ hmem)
            · refine List.nodup_cons.mpr ⟨fun hmem => ?_, hnodup⟩
              obtain ⟨c, hc, hplace⟩ := List.mem_map.mp hmem
              exact hseen c hc (hplace ▸ List.mem_cons_self)

variable (home) in
theorem separate_le (seen : List Place) (items : List SessionCandidate) :
    separate home seen items ≤ items.length := by
  induction items generalizing seen with
  | nil => exact Nat.le_refl _
  | cons item items ih =>
      rw [separate, List.length_cons]
      split
      · exact Nat.zero_le _
      · exact Nat.succ_le_succ (ih _)

/-- What was moved before the stop has places of its own. -/
theorem moved_le {s : Stop} (h : stopAt home seen items fault = some s) :
    s.moved ≤ separate home seen items := by
  rw [stopAt] at h
  split at h
  · rename_i f hf
    obtain ⟨-, hlt⟩ := Option.filter_eq_some_iff.mp hf
    have hitem : f.item < separate home seen items := of_decide_eq_true hlt
    obtain rfl := Option.some.inj h
    cases f.step with
    | directory => exact Nat.le_of_lt hitem
    | move => exact Nat.le_of_lt hitem
    | record => exact hitem
    | update => exact hitem
  · split at h
    · obtain rfl := Option.some.inj h
      exact Nat.le_refl _
    · cases h

/-- An archive that does not stop has a place of its own for every candidate. -/
theorem separate_of_completed (h : stopAt home seen items fault = none) :
    separate home seen items = items.length := by
  have hle := separate_le home seen items
  rw [stopAt] at h
  split at h
  · cases h
  · split at h
    · cases h
    · omega

variable (home now) in
/-- One candidate archived. -/
def archiveOne (p : Progress) (item : SessionCandidate) : Progress where
  files := shift p.files (item.place home) (home.resolve (item.dest home))
  manifest := p.manifest ++ ((item.record home).line ++ ['\n'])
  threads := p.threads.archive home now item

variable (home now) in
/-- The archive of all candidates, with no step that raises. -/
def advance (items : List SessionCandidate) (p : Progress) : Progress :=
  items.foldl (archiveOne home now) p

/-- What a stopped archive leaves. -/
structure Stopped (home : CodexHome) (items : List SessionCandidate) (p : Progress) (s : Stop)
    (p' : Progress) : Prop where
  files : p'.files = shiftAll ((items.take s.moved).map (SessionCandidate.move home)) p.files
  recorded : s.recorded = true → p'.manifest =
    p.manifest ++ manifestText ((items.take s.moved).map (SessionCandidate.record home))
  cut : s.recorded = false → 0 < s.moved ∧ p'.manifest <+:
    p.manifest ++ manifestText ((items.take (s.moved - 1)).map (SessionCandidate.record home))

theorem stopped_zero (items : List SessionCandidate) (p : Progress) :
    Stopped home items p ⟨0, true⟩ p where
  files := rfl
  recorded := fun _ => (List.append_nil _).symm
  cut := nofun

theorem Stopped.next {s : Stop} {p p' : Progress}
    (h : Stopped home items (archiveOne home now p item) s p') :
    Stopped home (item :: items) p s.next p' where
  files := h.files
  recorded := by
    intro hs
    rw [h.recorded hs, archiveOne, List.append_assoc]
    rfl
  cut := by
    intro hs
    obtain ⟨hpos, hbegin⟩ := h.cut hs
    refine ⟨Nat.succ_pos _, ?_⟩
    obtain ⟨k, hk⟩ : ∃ k, s.moved = k + 1 := ⟨s.moved - 1, by omega⟩
    have htake : (item :: items).take (s.next.moved - 1) = item :: items.take (s.moved - 1) := by
      show (item :: items).take (s.moved + 1 - 1) = _
      rw [Nat.add_sub_cancel, hk, List.take_succ_cons, Nat.add_sub_cancel]
    rw [htake, List.map_cons, manifestText, List.flatMap_cons]
    rwa [archiveOne, List.append_assoc] at hbegin

/-- The files at the places of the candidates: those of the places seen are away. -/
def Waiting (home : CodexHome) (seen : List Place) (items : List SessionCandidate) (files : Files) :
    Prop :=
  ∀ c ∈ items, (files (c.place home)).isSome = true ↔ c.place home ∉ seen

variable (now) in
theorem Waiting.next {p : Progress} (h : Waiting home seen (item :: items) p.files)
    (hdest : ∀ c ∈ item :: items, c.place home ≠ home.resolve (item.dest home)) :
    Waiting home (item.place home :: seen) items (archiveOne home now p item).files := by
  intro c hc
  have hne := hdest c (List.mem_cons_of_mem _ hc)
  show (shift p.files (item.place home) (home.resolve (item.dest home)) (c.place home)).isSome =
    true ↔ _
  rw [shift, if_neg hne, List.mem_cons]
  by_cases hplace : c.place home = item.place home
  · rw [if_pos hplace]
    exact ⟨fun h => absurd h (by simp), fun hnot => absurd (.inl hplace) hnot⟩
  · rw [if_neg hplace, h c (List.mem_cons_of_mem _ hc)]
    exact ⟨fun hnot hor => hor.elim hplace hnot, fun hnot hmem => hnot (.inr hmem)⟩

theorem advance_files (items : List SessionCandidate) (p : Progress) :
    (advance home now items p).files = shiftAll (items.map (SessionCandidate.move home)) p.files := by
  induction items generalizing p with
  | nil => rfl
  | cons item items ih => exact ih (archiveOne home now p item)

theorem advance_manifest (items : List SessionCandidate) (p : Progress) :
    (advance home now items p).manifest =
      p.manifest ++ manifestText (items.map (SessionCandidate.record home)) := by
  induction items generalizing p with
  | nil => exact (List.append_nil _).symm
  | cons item items ih =>
      have hrest := ih (archiveOne home now p item)
      rw [archiveOne, List.append_assoc] at hrest
      exact hrest

/-- **The loop does what the place where it stops says.** -/
theorem archiveItems_spec (fault : Option Fault) (hdest : ∀ c ∈ items, ∀ c' ∈ items,
    c.place home ≠ home.resolve (c'.dest home)) (p : Progress)
    (hwait : Waiting home seen items p.files) :
    (stopAt home seen items fault = none →
      archiveItems home now items fault p = (advance home now items p, true)) ∧
    ∀ s, stopAt home seen items fault = some s →
      ∃ p', archiveItems home now items fault p = (p', false) ∧ Stopped home items p s p' := by
  induction items generalizing seen fault p with
  | nil =>
      have hnone : stopAt home seen [] fault = none := by
        cases fault <;> rfl
      refine ⟨fun _ => rfl, fun s hs => ?_⟩
      rw [hnone] at hs
      cases hs
  | cons item items ih =>
      by_cases hseen : item.place home ∈ seen
      · -- the file was moved away as another candidate's
        rw [stopAt_shared hseen]
        refine ⟨nofun, fun s hs => ?_⟩
        obtain rfl := Option.some.inj hs
        refine ⟨p, ?_, stopped_zero _ p⟩
        have hgone : move p.files (home.resolve item.source) (home.resolve (item.dest home)) =
            none := by
          refine if_neg fun hsome => ?_
          exact (hwait item List.mem_cons_self).mp hsome hseen
        rw [archiveItems, hgone]
        split <;> rfl
      · have hmove : move p.files (home.resolve item.source) (home.resolve (item.dest home)) =
            some (shift p.files (item.place home) (home.resolve (item.dest home))) :=
          if_pos ((hwait item List.mem_cons_self).mpr hseen)
        by_cases hfault : ∃ f, fault = some f ∧ f.item = 0
        · obtain ⟨⟨i, step, kept⟩, rfl, hi⟩ := hfault
          obtain rfl : i = 0 := hi
          rw [stopAt_fault hseen rfl]
          refine ⟨nofun, fun s hs => ?_⟩
          obtain rfl := Option.some.inj hs
          cases step with
          | directory => exact ⟨p, rfl, stopped_zero _ p⟩
          | move => exact ⟨p, rfl, stopped_zero _ p⟩
          | record =>
              rw [archiveItems, hmove]
              refine ⟨_, rfl, ⟨rfl, nofun, fun _ => ⟨Nat.one_pos, ?_⟩⟩⟩
              show p.manifest.take kept <+: p.manifest ++ []
              rw [List.append_nil]
              exact List.take_prefix _ _
          | update =>
              rw [archiveItems, hmove]
              refine ⟨_, rfl, ⟨rfl, fun _ => ?_, nofun⟩⟩
              show _ = p.manifest ++ manifestText [item.record home]
              rw [manifestText, List.flatMap_singleton]
        · have hne : ∀ f, fault = some f → f.item ≠ 0 := fun f hf hi => hfault ⟨f, hf, hi⟩
          have hquiet : ∀ step, raises fault step = false := by
            intro step
            cases fault with
            | none => rfl
            | some f => simp [raises, hne f rfl]
          have hloop : archiveItems home now (item :: items) fault p =
              archiveItems home now items (nextFault fault) (archiveOne home now p item) := by
            rw [archiveItems, hmove]
            simp only [hquiet, Bool.or_self, Bool.false_eq_true, if_false]
            rfl
          have hdest' : ∀ c ∈ items, ∀ c' ∈ items, c.place home ≠ home.resolve (c'.dest home) :=
            fun c hc c' hc' => hdest c (List.mem_cons_of_mem _ hc) c' (List.mem_cons_of_mem _ hc')
          have hwait' := hwait.next now fun c hc => hdest c hc item List.mem_cons_self
          obtain ⟨hcompleted, hstopped⟩ := ih (nextFault fault) hdest' _ hwait'
          rw [stopAt_next hseen hne, hloop]
          refine ⟨fun h => ?_, fun s hs => ?_⟩
          · rw [hcompleted (Option.map_eq_none_iff.mp h)]
            rfl
          · obtain ⟨s', hs', rfl⟩ := Option.map_eq_some_iff.mp hs
            obtain ⟨p', hp', hstop⟩ := hstopped s' hs'
            exact ⟨p', hp', hstop.next⟩

/-! ## What the restore script does -/

/-- The records the script takes back. -/
def SessionCandidate.undo (home : CodexHome) (item : SessionCandidate) : Undo :=
  (item.record home).undo

theorem restoreLines_eq (lines : List Text) (s : Files × Threads) :
    restoreLines home lines s =
      ((readLines lines).1.foldl (restoreOne home) s, (readLines lines).2) := by
  induction lines generalizing s with
  | nil => rfl
  | cons line lines ih =>
      rw [restoreLines, readLines]
      cases hline : readLine line with
      | none => rfl
      | some u => exact ih (restoreOne home s u)

/-- The script runs: it is there and its source names its two files. -/
structure Runs (home : CodexHome) (disk : Disk) : Prop where
  script : disk.script = true
  manifest : rawLiteral home.manifest.text = true
  stateDb : rawLiteral home.stateDb.text = true

theorem restoreSessions_idle (h : ¬Runs home disk) : restoreSessions home disk = disk := by
  refine if_neg fun hruns => h ?_
  rw [Bool.and_eq_true, Bool.and_eq_true] at hruns
  exact ⟨hruns.1.1, hruns.1.2, hruns.2⟩

theorem restoreSessions_runs (h : Runs home disk) {text : Text} (htext : disk.manifest = some text) :
    (restoreSessions home disk).files =
        ((readManifest text).1.foldl (restoreOne home) (disk.files, disk.threads)).1 ∧
      (restoreSessions home disk).threads =
        if (readManifest text).2 then
          ((readManifest text).1.foldl (restoreOne home) (disk.files, disk.threads)).2
        else disk.threads := by
  rw [restoreSessions, if_pos (by rw [h.script, h.manifest, h.stateDb]; rfl), htext]
  simp only [restoreLines_eq]
  unfold readManifest
  cases (readLines (SessionStart.splitlines text)).2 <;> exact ⟨rfl, rfl⟩

theorem foldl_restoreOne_files (back : List SessionCandidate) (s : Files × Threads) :
    ((back.map (SessionCandidate.undo home)).foldl (restoreOne home) s).1 =
      Relocation.undo (back.map (SessionCandidate.move home)) s.1 := by
  induction back generalizing s with
  | nil => rfl
  | cons item back ih =>
      have hone : (restoreOne home s (item.undo home)).1 =
          moveIfThere s.1 (home.resolve (item.dest home)) (item.place home) := by
        show moveIfThere s.1 (home.resolve (PurePath.parse (item.dest home).text))
          (home.resolve (PurePath.parse item.source.text)) = _
        rw [PurePath.parse_text, PurePath.parse_text]
        rfl
      have hrest := ih (restoreOne home s (item.undo home))
      rw [hone] at hrest
      exact hrest

/-! ## Rows -/

section Row

variable {change : SessionCandidate → ThreadRow → ThreadRow} {row : ThreadRow}

theorem foldl_row_other (h : ∀ c ∈ items, row.id ≠ c.threadId) :
    items.foldl (fun row c => if row.id = c.threadId then change c row else row) row = row := by
  induction items with
  | nil => rfl
  | cons c items ih =>
      obtain ⟨hc, hitems⟩ := List.forall_mem_cons.mp h
      rw [List.foldl_cons, if_neg hc, ih hitems]

theorem foldl_row_candidate (hid : ∀ c row, (change c row).id = row.id)
    (hnodup : (items.map SessionCandidate.threadId).Nodup) (hitem : item ∈ items)
    (h : row.id = item.threadId) :
    items.foldl (fun row c => if row.id = c.threadId then change c row else row) row =
      change item row := by
  induction items with
  | nil => cases hitem
  | cons c items ih =>
      obtain ⟨hc, hitems⟩ := List.nodup_cons.mp hnodup
      rw [List.foldl_cons]
      rcases List.mem_cons.mp hitem with rfl | hmem
      · rw [if_pos h]
        refine foldl_row_other fun other hother heq => hc ?_
        rw [← h, ← hid item row, heq]
        exact List.mem_map_of_mem hother
      · have hne : row.id ≠ c.threadId := by
          intro heq
          refine hc ?_
          rw [← heq, h]
          exact List.mem_map_of_mem hmem
        rw [if_neg hne]
        exact ih hitems hmem

end Row

end RalphVault.Archive
