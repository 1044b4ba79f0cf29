import RalphVault.FileTree
import RalphVault.Store.Calls

/-!
# Implementation store — the paths of a plan

A plan id is a relative path below `plans`: the plan keeps its snapshot,
its journal and its lock in the directory of that name. Paths are lists of
components below the directory `plans`, which exists.
-/

namespace RalphVault.Store

abbrev StorePath := List Text

/-! ## Paths -/

/-- `PlanPaths`. -/
structure PlanPaths where
  planId : Text
  root : StorePath
  state : StorePath
  events : StorePath
  stateLock : StorePath

/-- `StorePaths.for_plan`. -/
def forPlan (planId : Text) : Check PlanPaths := do
  validatePlanId planId
  let components := splitOn '/' planId
  pure
    { planId := joinWith ['/'] components
      root := components
      state := components ++ [txt "state.json"]
      events := components ++ [txt "events.jsonl"]
      stateLock := components ++ [txt "state.lock"] }

/-- The paths a plan uses as files. -/
def PlanPaths.files (p : PlanPaths) : List StorePath := [p.stateLock, p.events, p.state]

/-- The paths a plan uses as directories. -/
def PlanPaths.directories (p : PlanPaths) : List StorePath := p.root.inits

/-! ## Directories and files -/

/-- `ensure_directory_chain`. -/
def ensureDirectoryChain (t : FileTree Text) (path : StorePath) : Check (FileTree Text) :=
  let shown := String.ofList (joinWith ['/'] path)
  match t.mkdirs path with
  | some t' => .ok t'
  | none => .error (.storePathError
      s!"store directory must be a real directory: {shown}")

/-- A file opened for writing. -/
def openFile (t : FileTree Text) (path : StorePath) : Check (FileTree Text) :=
  let shown := String.ofList (joinWith ['/'] path)
  match t.create path with
  | some t' => .ok t'
  | none => .error (.storeIOError
      s!"cannot open append target safely: {shown}")

/-- What `register_plan` does to the tree: the directory of the plan, then its
lock, its journal and its snapshot. -/
def registerPaths (t : FileTree Text) (p : PlanPaths) : Check (FileTree Text) := do
  let t ← ensureDirectoryChain t p.root
  p.files.foldlM openFile t

/-! ## Where the paths are -/

theorem splitOn_ne_nil (c : Char) (t : Text) : splitOn c t ≠ [] := by
  cases t with
  | nil => simp [splitOn]
  | cons d t =>
      rw [splitOn]
      split
      · simp
      · split <;> simp

theorem joinWith_splitOn (c : Char) (t : Text) : joinWith [c] (splitOn c t) = t := by
  induction t with
  | nil => rfl
  | cons d t ih =>
      rw [splitOn]
      cases hs : splitOn c t with
      | nil => exact absurd hs (splitOn_ne_nil c t)
      | cons part parts =>
          rw [hs] at ih
          by_cases hd : d = c
          · rw [if_pos hd, ← ih, hd]
            rfl
          · rw [if_neg hd]
            cases parts with
            | nil => simpa [joinWith] using ih
            | cons part' parts => simpa [joinWith] using ih

/-- The files of a plan. -/
def planFileNames : List Text := [txt "state.lock", txt "events.jsonl", txt "state.json"]

/-- The paths of a plan follow from its id. -/
structure PlanPaths.Of (planId : Text) (p : PlanPaths) : Prop where
  root : p.root = splitOn '/' planId
  files : p.files = planFileNames.map fun name => p.root ++ [name]

theorem forPlan_of {planId : Text} {p : PlanPaths} (h : forPlan planId = .ok p) :
    PlanPaths.Of planId p := by
  simp only [forPlan, bind_eq_ok, pure, Except.pure, Except.ok.injEq] at h
  obtain ⟨_, -, rfl⟩ := h
  exact ⟨rfl, rfl⟩

theorem PlanPaths.Of.mem_files {planId : Text} {p : PlanPaths} (h : PlanPaths.Of planId p)
    {f : StorePath} : f ∈ p.files ↔ ∃ name ∈ planFileNames, p.root ++ [name] = f := by
  rw [h.files, List.mem_map]

/-- Different ids have different directories. -/
theorem PlanPaths.Of.root_ne {a b : Text} {p q : PlanPaths} (hp : PlanPaths.Of a p)
    (hq : PlanPaths.Of b q) (hne : a ≠ b) : p.root ≠ q.root := by
  intro heq
  rw [hp.root, hq.root] at heq
  exact hne (by rw [← joinWith_splitOn '/' a, heq, joinWith_splitOn])

/-! ## Plans apart -/

/-- No path one plan uses as a file is used by the other at all. -/
structure Apart (p q : PlanPaths) : Prop where
  files : ∀ f ∈ p.files, f ∉ q.files
  left : ∀ f ∈ p.files, f ∉ q.directories
  right : ∀ f ∈ q.files, f ∉ p.directories

/-- The id `b` goes through a file of the plan `a`: it is `a/state.json`, or
begins with `a/state.json/`, and so for the other files. -/
def Through (a b : Text) : Prop :=
  ∃ name ∈ planFileNames, splitOn '/' a ++ [name] <+: splitOn '/' b

instance (a b : Text) : Decidable (Through a b) :=
  inferInstanceAs (Decidable (∃ name ∈ planFileNames, _))

theorem through_iff {a b : Text} {p q : PlanPaths} (hp : PlanPaths.Of a p)
    (hq : PlanPaths.Of b q) : Through a b ↔ ∃ f ∈ p.files, f ∈ q.directories := by
  simp only [Through, hp.mem_files, PlanPaths.directories, List.mem_inits, hp.root, hq.root]
  constructor
  · rintro ⟨name, hname, hpre⟩
    exact ⟨_, ⟨name, hname, rfl⟩, hpre⟩
  · rintro ⟨_, ⟨name, hname, rfl⟩, hpre⟩
    exact ⟨name, hname, hpre⟩

/-- **Two plans are apart exactly when neither id goes through a file of the
other.** -/
theorem apart_iff {a b : Text} {p q : PlanPaths} (hp : PlanPaths.Of a p) (hq : PlanPaths.Of b q)
    (hne : a ≠ b) : Apart p q ↔ ¬ Through a b ∧ ¬ Through b a := by
  rw [through_iff hp hq, through_iff hq hp]
  constructor
  · intro h
    constructor
    · rintro ⟨f, hf, hdir⟩
      exact h.left f hf hdir
    · rintro ⟨f, hf, hdir⟩
      exact h.right f hf hdir
  · rintro ⟨hleft, hright⟩
    refine ⟨fun f hf hfq => ?_, fun f hf hdir => hleft ⟨f, hf, hdir⟩,
      fun f hf hdir => hright ⟨f, hf, hdir⟩⟩
    obtain ⟨name, -, rfl⟩ := hp.mem_files.mp hf
    obtain ⟨name', -, heq⟩ := hq.mem_files.mp hfq
    exact hp.root_ne hq hne (List.append_inj_left' heq.symm rfl)

/-! ## Registration -/

theorem ensureDirectoryChain_eq_ok {t t' : FileTree Text} (h : t.WellFormed) {path : StorePath} :
    ensureDirectoryChain t path = .ok t' ↔ (∀ q, q <+: path → t q ≠ some .file) ∧
      t' = fun q => if q <+: path then some .directory else t q := by
  rw [← FileTree.mkdirs_eq_some h]
  unfold ensureDirectoryChain
  cases t.mkdirs path <;> simp

theorem openFile_eq_ok {t t' : FileTree Text} {path : StorePath} :
    openFile t path = .ok t' ↔ t path ≠ some .directory ∧
      t path.dropLast = some .directory ∧ t' = t.set path .file := by
  rw [← FileTree.create_eq_some]
  unfold openFile
  cases t.create path <;> simp

/-- Files opened in a directory: none of them is a directory, and then they
are files. -/
theorem openFiles_eq_ok {t t' : FileTree Text} {dir : StorePath} {names : List Text}
    (hdir : t dir = some .directory) :
    (names.map fun name => dir ++ [name]).foldlM openFile t = .ok t' ↔
      (∀ name ∈ names, t (dir ++ [name]) ≠ some .directory) ∧
      t' = fun q => if q ∈ names.map (fun name => dir ++ [name]) then some .file else t q := by
  induction names generalizing t with
  | nil => simp [pure, Except.pure, eq_comm]
  | cons name names ih =>
      simp only [List.map_cons, List.foldlM_cons, bind_eq_ok, openFile_eq_ok,
        List.dropLast_concat, hdir, true_and, List.forall_mem_cons]
      have hset : (t.set (dir ++ [name]) .file) dir = some .directory := by
        simp [FileTree.set, hdir]
      have hother : ∀ name', t (dir ++ [name]) ≠ some .directory →
          (t.set (dir ++ [name]) .file (dir ++ [name']) ≠ some .directory ↔
            t (dir ++ [name']) ≠ some .directory) := by
        intro name' hname
        by_cases heq : dir ++ [name'] = dir ++ [name]
        · simp [FileTree.set, heq, hname]
        · simp only [FileTree.set, if_neg heq]
      have htree : (fun q => if q ∈ names.map (fun name => dir ++ [name]) then some FileNode.file
            else t.set (dir ++ [name]) .file q) =
          fun q => if q ∈ (dir ++ [name]) :: names.map (fun name => dir ++ [name]) then
            some FileNode.file else t q := by
        funext q
        by_cases hq : q = dir ++ [name] <;> simp [FileTree.set, hq]
      constructor
      · rintro ⟨_, ⟨hname, rfl⟩, hrest⟩
        obtain ⟨hnames, rfl⟩ := (ih hset).mp hrest
        exact ⟨⟨hname, fun name' h' => (hother name' hname).mp (hnames name' h')⟩, htree⟩
      · rintro ⟨⟨hname, hnames⟩, rfl⟩
        refine ⟨_, ⟨hname, rfl⟩, (ih hset).mpr ⟨fun name' h' => ?_, htree.symm⟩⟩
        exact (hother name' hname).mpr (hnames name' h')

/-- No part of the directory of a plan is a file, and none of its files is a
directory: a reader is not refused. -/
structure Usable (t : FileTree Text) (p : PlanPaths) : Prop where
  directories : ∀ q ∈ p.directories, t q ≠ some .file
  files : ∀ f ∈ p.files, t f ≠ some .directory

/-- **A plan can be registered exactly where it is usable**; then its directory
is there, and its files. -/
theorem registerPaths_eq_ok {t t' : FileTree Text} (h : t.WellFormed) {planId : Text}
    {p : PlanPaths} (hp : PlanPaths.Of planId p) :
    registerPaths t p = .ok t' ↔ Usable t p ∧
      t' = fun q => if q ∈ p.files then some .file
        else if q ∈ p.directories then some .directory else t q := by
  have hdir : (fun q => if q <+: p.root then some FileNode.directory else t q) p.root =
      some .directory := if_pos (List.prefix_refl _)
  have hbelow : ∀ name, ¬ p.root ++ [name] <+: p.root := by
    intro name hpre
    have hlen := hpre.length_le
    simp only [List.length_append, List.length_singleton] at hlen
    omega
  simp only [registerPaths, bind_eq_ok, ensureDirectoryChain_eq_ok h, PlanPaths.directories,
    List.mem_inits]
  constructor
  · rintro ⟨_, ⟨hparts, rfl⟩, hfiles⟩
    rw [hp.files, openFiles_eq_ok hdir] at hfiles
    obtain ⟨hnames, rfl⟩ := hfiles
    refine ⟨⟨fun q hq => hparts q ((List.mem_inits _ _).mp hq), fun f hf => ?_⟩, by rw [hp.files]⟩
    obtain ⟨name, hname, rfl⟩ := hp.mem_files.mp hf
    have hfree := hnames name hname
    rwa [if_neg (hbelow name)] at hfree
  · rintro ⟨husable, rfl⟩
    refine ⟨_, ⟨fun q hq => husable.directories q ((List.mem_inits _ _).mpr hq), rfl⟩, ?_⟩
    rw [hp.files, openFiles_eq_ok hdir]
    refine ⟨fun name hname => ?_, rfl⟩
    rw [if_neg (hbelow name)]
    exact husable.files _ (hp.mem_files.mpr ⟨name, hname, rfl⟩)

/-- Every plan can be registered in an empty store. -/
theorem PlanPaths.Of.usable_root {planId : Text} {p : PlanPaths} (hp : PlanPaths.Of planId p) :
    Usable FileTree.root p := by
  refine ⟨fun q _ => ?_, fun f hf => ?_⟩
  · unfold FileTree.root
    split <;> simp
  · obtain ⟨name, -, rfl⟩ := hp.mem_files.mp hf
    simp [FileTree.root]

/-- Registering `p` leaves `q` usable, whatever else is in the tree. -/
def Spares (p q : PlanPaths) : Prop :=
  ∀ t t', t.WellFormed → registerPaths t p = .ok t' → Usable t q → Usable t' q

theorem Apart.spares {a : Text} {p q : PlanPaths} (hp : PlanPaths.Of a p) (h : Apart p q) :
    Spares p q := by
  intro t t' ht hregister husable
  obtain ⟨-, rfl⟩ := (registerPaths_eq_ok ht hp).mp hregister
  refine ⟨fun d hd => ?_, fun f hf => ?_⟩
  · have hfile : d ∉ p.files := fun hmem => h.left d hmem hd
    simp only [if_neg hfile]
    split
    · simp
    · exact husable.directories d hd
  · have hdir : f ∉ p.directories := h.right f hf
    simp only [if_neg hdir]
    split
    · simp
    · exact husable.files f hf

theorem Apart.symm {p q : PlanPaths} (h : Apart p q) : Apart q p :=
  ⟨fun f hf hfp => h.files f hfp hf, h.right, h.left⟩

/-- **Two plans keep out of each other's way exactly when neither id goes
through a file of the other.** -/
theorem plan_paths_apart_iff {a b : Text} {p q : PlanPaths} (hp : forPlan a = .ok p)
    (hq : forPlan b = .ok q) (hne : a ≠ b) :
    (Apart p q ∧ Spares p q ∧ Spares q p) ↔ ¬ Through a b ∧ ¬ Through b a := by
  rw [← apart_iff (forPlan_of hp) (forPlan_of hq) hne]
  constructor
  · exact fun h => h.1
  · exact fun h => ⟨h, h.spares (forPlan_of hp), h.symm.spares (forPlan_of hq)⟩

/-- The paths of the plan `planId`, whatever it is. -/
def pathsOf (planId : Text) : PlanPaths :=
  match forPlan planId with
  | .ok p => p
  | .error _ => ⟨[], [], [], [], []⟩

/-- A plan and a plan below it keep apart. -/
theorem plan_paths_apart_below :
    Apart (pathsOf (txt "a")) (pathsOf (txt "a/b")) ∧ Spares (pathsOf (txt "a")) (pathsOf (txt "a/b")) ∧
      Spares (pathsOf (txt "a/b")) (pathsOf (txt "a")) :=
  (@plan_paths_apart_iff (txt "a") (txt "a/b") _ _ rfl rfl (by decide)).mpr (by decide)

/-- **A plan id below a file of another plan**: once `a` is registered,
`a/state.json` cannot be. -/
theorem plan_paths_collide :
    forPlan (txt "a") = .ok (pathsOf (txt "a")) ∧
    forPlan (txt "a/state.json") = .ok (pathsOf (txt "a/state.json")) ∧
    (pathsOf (txt "a")).state = (pathsOf (txt "a/state.json")).root ∧
    ¬ Apart (pathsOf (txt "a")) (pathsOf (txt "a/state.json")) ∧
    ¬ Spares (pathsOf (txt "a")) (pathsOf (txt "a/state.json")) := by
  have hcollide : (pathsOf (txt "a")).state ∈ (pathsOf (txt "a/state.json")).directories := by
    decide
  have hfile : (pathsOf (txt "a")).state ∈ (pathsOf (txt "a")).files := by decide
  refine ⟨rfl, rfl, rfl, fun h => h.left _ hfile hcollide, fun h => ?_⟩
  have ha : PlanPaths.Of (txt "a") (pathsOf (txt "a")) := forPlan_of rfl
  have hb : PlanPaths.Of (txt "a/state.json") (pathsOf (txt "a/state.json")) := forPlan_of rfl
  have hregister := (registerPaths_eq_ok FileTree.wellFormed_root ha).mpr ⟨ha.usable_root, rfl⟩
  have husable := h _ _ FileTree.wellFormed_root hregister hb.usable_root
  exact husable.directories _ hcollide (if_pos hfile)

end RalphVault.Store
