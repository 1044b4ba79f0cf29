import RalphVault.AutoResearch.Scope

/-!
# AutoResearch — freshness

What an equal fingerprint says about two sessions. Inside git only HEAD and
the status listing enter the digest, and of the configuration only some
members do; so there is always a session with the same fingerprint that runs
differently, and a file that has already been changed can be changed again
without the packet becoming stale.
-/

namespace RalphVault.AutoResearch

open Memory

/-! ## What two sessions should agree on -/

/-- The members of the configuration that decide a run. -/
def runKeys : List Text :=
  [txt "benchmark_command", txt "checks_command", txt "metric", txt "direction", txt "scope",
   txt "commit_paths", txt "baseline_policy"]

/-- A file of the session itself, or in a directory that is left out. -/
def notWatched (path : Text) : Bool :=
  ignoredFiles.contains path || (splitOn '/' path).any ignoredDirs.contains

structure Agrees (s s' : Session) : Prop where
  files : ∀ path, notWatched path = false → s.tree.work path = s'.tree.work path
  config : ∀ key ∈ runKeys, (latestConfig s.ledger).map (Fields.get? · key) =
    (latestConfig s'.ledger).map (Fields.get? · key)

/-- Every session with the fingerprint of this one agrees with it. -/
def Pinned (p : Platform) (git : Git) (s : Session) : Prop :=
  ∀ s', fingerprint p git s' = fingerprint p git s → Agrees s s'

/-! ## Writing to a file -/

/-- The tree with another content of a file. -/
def WorkingTree.write (t : WorkingTree) (path : Text) (content : Content) : WorkingTree :=
  { t with walk := t.walk.map fun f => if f.1 = path then (path, some content) else f }

/-- The session with another content of a file. -/
def Session.write (s : Session) (path : Text) (content : Content) : Session :=
  { s with tree := s.tree.write path content }

section Write

variable {t : WorkingTree} {path other : Text} {content : Content}

theorem write_keys : (t.write path content).walk.map (·.1) = t.walk.map (·.1) := by
  unfold WorkingTree.write
  rw [List.map_map]
  apply List.map_congr_left
  intro f _
  by_cases h : f.1 = path
  · simp [h]
  · simp [h]

theorem get?_write (walk : List (Text × Option Content)) :
    SortedMap.get? other (walk.map fun f => if f.1 = path then (path, some content) else f) =
      if other = path then (SortedMap.get? path walk).map fun _ => some content
      else SortedMap.get? other walk := by
  induction walk with
  | nil => split <;> rfl
  | cons f walk ih =>
      rw [List.map_cons]
      by_cases hf : f.1 = path
      · rw [if_pos hf]
        by_cases ho : other = path
        · simp [SortedMap.get?, hf, ho]
        · simp [SortedMap.get?, hf, ho, Ne.symm ho] at ih ⊢
          exact ih
      · rw [if_neg hf]
        by_cases ho : other = path
        · simp [SortedMap.get?, hf, ho] at ih ⊢
          exact ih
        · simp only [SortedMap.get?, ho, if_false] at ih ⊢
          rw [ih]

theorem work_write_other (h : other ≠ path) : (t.write path content).work other = t.work other := by
  show (SortedMap.get? other (t.walk.map _)).join = _
  rw [get?_write, if_neg h]
  rfl

/-- A file that was changed stays changed, and one that was not tracked stays
so. -/
theorem kinds_write (h : (t.write path content).kind path = t.kind path) :
    (t.write path content).kinds = t.kinds := by
  have hpaths : (t.write path content).paths = t.paths := by
    unfold WorkingTree.paths
    rw [write_keys]
    rfl
  have hkind : (t.write path content).kind = t.kind := by
    funext other
    by_cases ho : other = path
    · rw [ho, h]
    · unfold WorkingTree.kind
      rw [work_write_other ho]
      rfl
  unfold WorkingTree.kinds
  rw [hpaths, hkind]
  rfl

end Write

section Fingerprints

variable {p : Platform} {git : Git} {s : Session} {path : Text} {content : Content}

/-- Inside git the fingerprint reads of the files only their kinds. -/
theorem fingerprintOf_write (hinside : s.inside = true)
    (hkind : (s.tree.write path content).kind path = s.tree.kind path) (config : Fields) :
    fingerprintOf p git (s.write path content) config = fingerprintOf p git s config := by
  have hstatus : git.statusOf (s.tree.write path content) = git.statusOf s.tree := by
    unfold Git.statusOf
    rw [kinds_write hkind]
    rfl
  have hstate : gitState git (s.write path content) = gitState git s := by
    unfold gitState
    show (if s.inside = true then _ else _) = _
    rw [if_pos hinside, if_pos hinside]
    show [_, _, (_, Value.str (strip (git.statusOf (s.tree.write path content))))] = _
    rw [hstatus]
    rfl
  unfold fingerprintOf
  rw [hstate]
  show _ = p.sha256 (p.sortedJson [_, _, _, (_, Value.obj (if s.inside = true then [] else _))])
  rw [if_pos hinside]
  show p.sha256 (p.sortedJson [_, _, _, (_, Value.obj (if s.inside = true then [] else _))]) = _
  rw [if_pos hinside]
  rfl

theorem fingerprint_write (hinside : s.inside = true)
    (hkind : (s.tree.write path content).kind path = s.tree.kind path) :
    fingerprint p git (s.write path content) = fingerprint p git s := by
  unfold fingerprint
  show (latestConfig s.ledger).map _ = _
  rw [show fingerprintOf p git (s.write path content) = fingerprintOf p git s from
    funext (fingerprintOf_write hinside hkind)]

/-- A packet is logged after such a write exactly when it is before. -/
theorem logPacket_write (hinside : s.inside = true)
    (hkind : (s.tree.write path content).kind path = s.tree.kind path) (packet : Packet)
    (status : Status) (asi : Fields) (description : Text) :
    logPacket p git (s.write path content) packet status asi description =
      (logPacket p git s packet status asi description).map (·.write path content) := by
  have hledger : (s.write path content).ledger = s.ledger := rfl
  unfold logPacket
  rw [hledger]
  cases latestConfig s.ledger with
  | none => rfl
  | some config =>
      dsimp only
      rw [fingerprintOf_write hinside hkind config]
      split
      · rfl
      · split
        · rfl
        · split
          · rfl
          · split <;> rfl

/-! ## The configuration -/

/-- A baseline policy other than the one of a configuration. -/
def otherPolicy (config : Fields) : Value :=
  match config.get? (txt "baseline_policy") with
  | some (.str t) => if t = txt "initial" then .str (txt "latest_kept") else .str (txt "initial")
  | _ => .str (txt "initial")

theorem otherPolicy_ne (config : Fields) :
    config.get? (txt "baseline_policy") ≠ some (otherPolicy config) := by
  unfold otherPolicy
  split
  · rename_i t ht
    rw [ht]
    split
    · rename_i hinitial
      rw [hinitial]
      intro h
      have h : txt "initial" = txt "latest_kept" := by
        injection h with h
        injection h
      revert h
      decide
    · rename_i hother
      intro h
      apply hother
      injection h with h
      injection h
  · rename_i hno
    exact fun h => hno _ h

/-- The session after a further `setup` that changes the policy only. -/
def Session.withPolicy (s : Session) (config : Fields) : Session :=
  { s with ledger := s.ledger ++ [config.set (txt "baseline_policy") (otherPolicy config)] }

theorem latestConfig_withPolicy {config : Fields} (h : latestConfig s.ledger = some config) :
    latestConfig (s.withPolicy config).ledger =
      some (config.set (txt "baseline_policy") (otherPolicy config)) := by
  have hconfig := List.find?_some h
  unfold latestConfig Session.withPolicy
  dsimp only
  rw [List.reverse_append, List.reverse_singleton, List.singleton_append, List.find?_cons_of_pos]
  rw [Fields.get?_set, if_neg (by decide)]
  exact hconfig

theorem stableConfigView_withPolicy (config : Fields) :
    stableConfigView (config.set (txt "baseline_policy") (otherPolicy config)) =
      stableConfigView config := by
  unfold stableConfigView
  apply List.map_congr_left
  intro key hkey
  rw [Fields.getD_set, if_neg]
  rintro rfl
  revert hkey
  decide

theorem fingerprint_withPolicy {config : Fields} (h : latestConfig s.ledger = some config) :
    fingerprint p git (s.withPolicy config) = fingerprint p git s := by
  unfold fingerprint
  rw [latestConfig_withPolicy h, h, Option.map_some, Option.map_some]
  congr 1
  unfold fingerprintOf
  rw [stableConfigView_withPolicy]
  rfl

end Fingerprints

/-- A session with one changed file. -/
def editedSession : Session where
  cwd := txt "/repo"
  inside := true
  commit := txt "0f3c"
  tree :=
    { head := [(txt "src/a.py", txt "x = 1")]
      index := [(txt "src/a.py", txt "x = 1")]
      walk := [(txt "src", none), (txt "src/a.py", some (txt "x = 2"))] }
  ledger := [[(txt "entry_type", .str (txt "config")), (txt "segment_id", .str (txt "speed-1")),
    (txt "metric", .str (txt "seconds")), (txt "direction", .str (txt "lower")),
    (txt "benchmark_command", .str (txt "make bench")),
    (txt "commit_paths", .arr [.str (txt "src")])]]

end RalphVault.AutoResearch
