import RalphVault.Memory.Value
import RalphVault.PurePath

/-!
# Security — the write boundary

`.codex/hooks/shared/security_boundary.py`: the paths that a native write
names, as far as they are collected, and the check that each of them stays
below the workspace. The workspace is the resolved root of the active context.
-/

namespace RalphVault.WriteBoundary

open Memory

/-! ## The file system -/

inductive Resolved where
  | path (p : PurePath)
  /-- `OSError` or `ValueError` -/
  | refused
  /-- any other exception -/
  | raised

/-- What the file system says about absolute paths, and the home directories of
the users, the own one under the empty name. -/
structure FileSystem where
  /-- `Path.exists`, links followed -/
  present : PurePath → Bool
  /-- `Path.is_symlink` -/
  isSymlink : PurePath → Bool
  /-- `Path.resolve(strict=False)` -/
  resolve : PurePath → Resolved
  home : Text → Option PurePath

/-- A path and the paths above it, from the root down. -/
def components (p : PurePath) : List PurePath := p.parts.inits.map fun parts => ⟨p.root, parts⟩

/-- The components without `..`, as `os.path.normpath` folds them. -/
def foldParents (parts : List Name) : List Name :=
  parts.foldl (fun acc n => if n.1 = txt ".." then acc.dropLast else acc ++ [n]) []

/-- `os.path.abspath` of an absolute path. -/
def abspath (p : PurePath) : PurePath := ⟨p.root, foldParents p.parts⟩

/-- `Path.relative_to`, unless it raises. -/
def isBelow (workspace p : PurePath) : Bool :=
  workspace.root == p.root && workspace.parts.isPrefixOf p.parts

/-! ## The collected paths -/

/-- `tool_input`. -/
def toolInput (payload : Fields) : Fields :=
  let keys := [txt "tool_input", txt "toolInput", txt "input"]
  (keys.findSome? fun key => match Fields.get? payload key with
    | some (.obj data) => some data
    | _ => none).getD []

/-- `PATH_KEYS`. -/
def pathKeys : List Text :=
  [txt "path", txt "file_path", txt "filePath", txt "target_path", txt "targetPath", txt "filename"]

/-- The values of the path keys. -/
def keyPaths (payload : Fields) : List Text :=
  pathKeys.filterMap fun key => match Fields.get? (toolInput payload) key with
    | some (.str value) => if (strip value).isEmpty then none else some (strip value)
    | _ => none

/-- The words that open a line of `PATCH_PATH_RE`. -/
def fileMarkers : List Text :=
  [txt "*** Add File: ", txt "*** Update File: ", txt "*** Delete File: "]

/-- The path in a match of `PATCH_PATH_RE`, which is a whole line. -/
def matchedPath (line : Text) : Option Text :=
  (fileMarkers.findSome? fun marker => afterPrefix marker line).bind fun path =>
    if path = [] ∨ '\r' ∈ path then none else some (strip path)

/-- The paths that `PATCH_PATH_RE` finds. -/
def matchedPaths (patch : Text) : List Text := (splitOn '\n' patch).filterMap matchedPath

/-- The containers of the tool input that are read, in their order. -/
def patchKeys : List Text := [txt "patch", txt "input", txt "command"]

/-- The first container that is truthy, or that of the payload. -/
def patchValue (payload : Fields) : Option Value :=
  (patchKeys.findSome? fun key => (Fields.get? (toolInput payload) key).filter truthy).or
    (Fields.get? payload (txt "patch"))

/-- `raw_paths`. -/
def rawPaths (payload : Fields) (tool : Text) : List Text :=
  (keyPaths payload ++
    if tool = txt "apply_patch" then
      match patchValue payload with
      | some (.str patch) => matchedPaths patch
      | _ => []
    else []).eraseDups

/-! ## The check -/

/-- `WRITE_TOOLS`. -/
def writeTools : List Text := [txt "apply_patch", txt "edit", txt "write"]

inductive Outcome where
  | allowed
  | denied (reason : Text)
  | raised
deriving DecidableEq

section Check

variable (fs : FileSystem) (workspace : PurePath)

/-- `Path.expanduser`, unless it raises. -/
def expandUser (p : PurePath) : Option PurePath :=
  match p.root, p.parts with
  | .relative, first :: rest =>
      match first.1 with
      | '~' :: user => (fs.home user).map fun home => home.join rest
      | _ => some p
  | _, _ => some p

/-- The absolute path of a raw one. -/
def candidate (raw : Text) : Option PurePath :=
  (expandUser fs (PurePath.parse raw)).map fun p =>
    if p.root = .relative then workspace.join p.parts else p

/-- `_has_symlink_component`. -/
def hasSymlinkComponent (p : PurePath) : Bool :=
  (components (abspath p)).any fun item => fs.present item && fs.isSymlink item

/-- One pass of the loop over the raw paths. -/
def checkPath (raw : Text) : Outcome :=
  match candidate fs workspace raw with
  | none => .raised
  | some p =>
      if hasSymlinkComponent fs p then
        .denied (txt "Write path crosses a symbolic link outside the trusted workspace boundary.")
      else match fs.resolve p with
        | .path resolved =>
            if isBelow workspace resolved then .allowed
            else .denied (txt "Write path is outside the active workspace.")
        | .refused => .denied (txt "Write path is outside the active workspace.")
        | .raised => .raised

/-- The first outcome that is not `allowed`. -/
def checkPaths : List Text → Outcome
  | [] => .allowed
  | raw :: raws => match checkPath fs workspace raw with
      | .allowed => checkPaths raws
      | outcome => outcome

/-- `workspace_denial`. -/
def workspaceDenial (payload : Fields) (tool : Text) : Outcome :=
  if !writeTools.contains tool then .allowed
  else if (rawPaths payload tool).isEmpty then
    .denied (txt "Write action has no bounded workspace path.")
  else checkPaths fs workspace (rawPaths payload tool)

end Check

/-! ## The targets of a write -/

def moveMarker : Text := txt "*** Move to: "

/-- A line without the carriage return of its end. -/
def lineText (line : Text) : Text := if line.getLast? = some '\r' then line.dropLast else line

/-- The target in a line of a patch. -/
def lineTarget (line : Text) : Option Text :=
  ((fileMarkers ++ [moveMarker]).findSome? fun marker => afterPrefix marker (lineText line)).bind
    fun path => if path = [] then none else some (strip path)

/-- The targets of a patch. -/
def patchTargets (patch : Text) : List Text := (splitOn '\n' patch).filterMap lineTarget

/-- What a tool call names: the path keys, and the targets of the patch that is
applied. -/
def namedTargets (payload : Fields) (tool : Text) (applied : Text) : List Text :=
  keyPaths payload ++ if tool = txt "apply_patch" then patchTargets applied else []

section Bounded

variable (fs : FileSystem) (workspace : PurePath)

/-- A raw path resolves below the workspace, and no component of it is a link. -/
def Bounded (raw : Text) : Prop :=
  ∃ p, candidate fs workspace raw = some p ∧
    (∀ item ∈ components p, fs.isSymlink item = false) ∧
    ∃ resolved, fs.resolve p = .path resolved ∧ isBelow workspace resolved = true

/-- The links of a path are all seen: none of them dangles, and none is folded
away with a `..` behind it. -/
def LinksSeen (raw : Text) : Prop :=
  ∀ p, candidate fs workspace raw = some p → ∀ item ∈ components p, fs.isSymlink item = true →
    fs.present item = true ∧ item ∈ components (abspath p)

end Bounded

/-- A line of the applied patch that is not read: the patch is not the first
container, or the line has a carriage return, or moves a file. -/
def Skipped (payload : Fields) (applied line : Text) : Prop :=
  patchValue payload ≠ some (.str applied) ∨ '\r' ∈ line ∨ startsWith moveMarker line = true

/-- The targets in skipped lines are in the workspace, and the links of all
targets are seen. -/
structure Covered (fs : FileSystem) (workspace : PurePath) (payload : Fields)
    (tool applied : Text) : Prop where
  skipped : tool = txt "apply_patch" → ∀ line ∈ splitOn '\n' applied, Skipped payload applied line →
    ∀ raw ∈ lineTarget line, Bounded fs workspace raw
  links : ∀ raw ∈ namedTargets payload tool applied, LinksSeen fs workspace raw

section Exact

variable {fs : FileSystem} {workspace : PurePath} {payload : Fields} {tool applied raw : Text}

theorem checkPaths_allowed {raws : List Text} (h : checkPaths fs workspace raws = .allowed) :
    ∀ raw ∈ raws, checkPath fs workspace raw = .allowed := by
  induction raws with
  | nil => exact fun raw hraw => nomatch hraw
  | cons raw raws ih =>
      rw [checkPaths] at h
      split at h
      · rename_i hraw
        exact List.forall_mem_cons.mpr ⟨hraw, ih h⟩
      · rename_i hother
        exact absurd h hother

/-- What the check says of a path that passes. -/
theorem checkPath_allowed (h : checkPath fs workspace raw = .allowed) :
    ∃ p, candidate fs workspace raw = some p ∧ hasSymlinkComponent fs p = false ∧
      ∃ resolved, fs.resolve p = .path resolved ∧ isBelow workspace resolved = true := by
  unfold checkPath at h
  split at h
  · cases h
  · rename_i p hp
    split at h
    · cases h
    · rename_i hlink
      refine ⟨p, hp, Bool.eq_false_iff.mpr hlink, ?_⟩
      split at h
      · rename_i resolved hresolved
        split at h
        · rename_i hbelow
          exact ⟨resolved, hresolved, hbelow⟩
        · cases h
      · cases h
      · cases h

theorem linksSeen_of_bounded (h : Bounded fs workspace raw) : LinksSeen fs workspace raw := by
  obtain ⟨p, hp, hlinks, -⟩ := h
  intro p' hp' item hitem hlink
  obtain rfl := Option.some.inj (hp.symm.trans hp')
  rw [hlinks item hitem] at hlink
  cases hlink

/-- A path that passes is bounded when its links are seen. -/
theorem bounded_of_linksSeen (h : checkPath fs workspace raw = .allowed)
    (hlinks : LinksSeen fs workspace raw) : Bounded fs workspace raw := by
  obtain ⟨p, hp, hseen, resolved, hresolved, hbelow⟩ := checkPath_allowed h
  refine ⟨p, hp, fun item hitem => ?_, resolved, hresolved, hbelow⟩
  by_contra hlink
  rw [Bool.not_eq_false] at hlink
  obtain ⟨hpresent, hfolded⟩ := hlinks p hp item hitem hlink
  have hany : hasSymlinkComponent fs p = true :=
    List.any_eq_true.mpr ⟨item, hfolded, by rw [hpresent, hlink]; rfl⟩
  rw [hseen] at hany
  cases hany

/-- A line that is not skipped is matched. -/
theorem matchedPath_eq {line : Text} (hreturn : '\r' ∉ line)
    (hmove : startsWith moveMarker line = false) : matchedPath line = lineTarget line := by
  have hline : lineText line = line := by
    refine if_neg fun hlast => hreturn ?_
    exact List.mem_of_getLast? hlast
  have hmarker : afterPrefix moveMarker line = none := by
    rw [afterPrefix, hmove]
    rfl
  have hmarkers : ((fileMarkers ++ [moveMarker]).findSome? fun marker => afterPrefix marker line) =
      fileMarkers.findSome? fun marker => afterPrefix marker line := by
    rw [List.findSome?_append, List.findSome?_cons, hmarker, List.findSome?_nil, Option.or_none]
  unfold matchedPath lineTarget
  rw [hline, hmarkers]
  cases hpath : fileMarkers.findSome? fun marker => afterPrefix marker line with
  | none => rfl
  | some path =>
      have hsub : '\r' ∉ path := by
        obtain ⟨marker, -, hafter⟩ := List.exists_of_findSome?_eq_some hpath
        unfold afterPrefix at hafter
        split at hafter
        · obtain rfl := Option.some.inj hafter
          exact fun hmem => hreturn (List.mem_of_mem_drop hmem)
        · cases hafter
      rw [Option.bind_some, Option.bind_some]
      simp only [hsub, or_false]

/-- A target in a line that is read is collected. -/
theorem mem_rawPaths {line : Text} (hline : line ∈ splitOn '\n' applied)
    (hread : ¬Skipped payload applied line) (hraw : lineTarget line = some raw) :
    raw ∈ rawPaths payload (txt "apply_patch") := by
  rw [Skipped, not_or, not_or, not_not, Bool.not_eq_true] at hread
  obtain ⟨hpatch, hreturn, hmove⟩ := hread
  rw [rawPaths, List.mem_eraseDups, if_pos rfl, hpatch]
  refine List.mem_append_right _ (List.mem_filterMap.mpr ⟨line, hline, ?_⟩)
  rw [matchedPath_eq hreturn hmove]
  exact hraw

theorem rawPaths_allowed (htool : tool ∈ writeTools)
    (h : workspaceDenial fs workspace payload tool = .allowed) (hraw : raw ∈ rawPaths payload tool) :
    checkPath fs workspace raw = .allowed := by
  rw [workspaceDenial, if_neg (by rw [List.contains_iff_mem.mpr htool]; decide)] at h
  split at h
  · cases h
  · exact checkPaths_allowed h raw hraw

/-- **The targets of an allowed write are in the workspace exactly when those in
skipped lines are, and all links are seen.** -/
theorem targets_bounded_iff (htool : tool ∈ writeTools)
    (hallowed : workspaceDenial fs workspace payload tool = .allowed) :
    (∀ raw ∈ namedTargets payload tool applied, Bounded fs workspace raw) ↔
      Covered fs workspace payload tool applied := by
  constructor
  · intro h
    refine ⟨fun hpatch line hline _ raw hraw => h raw ?_, fun raw hraw => linksSeen_of_bounded (h raw hraw)⟩
    rw [namedTargets, if_pos hpatch]
    exact List.mem_append_right _ (List.mem_filterMap.mpr ⟨line, hline, hraw⟩)
  · intro h raw hnamed
    -- a collected path passes the check
    have hcollected : raw ∈ rawPaths payload tool → Bounded fs workspace raw := fun hraw =>
      bounded_of_linksSeen (rawPaths_allowed htool hallowed hraw) (h.links raw hnamed)
    rcases List.mem_append.mp hnamed with hkey | hpatch
    · refine hcollected ?_
      rw [rawPaths, List.mem_eraseDups]
      exact List.mem_append_left _ hkey
    · split at hpatch
      · rename_i happly
        obtain ⟨line, hline, hraw⟩ := List.mem_filterMap.mp hpatch
        by_cases hskipped : Skipped payload applied line
        · exact h.skipped happly line hline hskipped raw hraw
        · refine hcollected ?_
          rw [happly]
          exact mem_rawPaths hline hskipped hraw
      · exact absurd hpatch List.not_mem_nil

end Exact

/-! ## A patch that moves a file -/

/-- A file system without links. -/
def FileSystem.plain : FileSystem where
  present _ := true
  isSymlink _ := false
  resolve p := .path (abspath p)
  home _ := none

def demoWorkspace : PurePath := PurePath.parse (txt "/repo")

/-- A call with a patch as its command. -/
def patchCall (patch : Text) : Fields :=
  [(txt "tool_name", .str (txt "apply_patch")),
    (txt "tool_input", .obj [(txt "command", .str patch)])]

def updatePatch : Text := txt "*** Begin Patch\n*** Update File: a.txt\n@@\n-x\n+y\n*** End Patch\n"

def movePatch : Text :=
  txt "*** Begin Patch\n*** Update File: a.txt\n*** Move to: ../out.txt\n*** End Patch\n"

/-- An update in the workspace. -/
theorem update_bounded : Bounded .plain demoWorkspace (txt "a.txt") := by
  have hall : ∀ raw ∈ namedTargets (patchCall updatePatch) (txt "apply_patch") updatePatch,
      Bounded .plain demoWorkspace raw := by
    refine (targets_bounded_iff (by decide) (by decide +kernel)).mpr ⟨?_, ?_⟩
    · intro _ line hline hskipped
      have hread : ∀ line ∈ splitOn '\n' updatePatch, '\r' ∉ line ∧
          startsWith moveMarker line = false := by decide +kernel
      rcases hskipped with hpatch | hreturn | hmove
      · exact absurd rfl hpatch
      · exact absurd hreturn (hread line hline).1
      · rw [(hread line hline).2] at hmove
        cases hmove
    · intro raw _ p _ item _ hlink
      cases hlink
  exact hall (txt "a.txt") (by decide +kernel)

/-- **The target of a move is not checked.** -/
theorem move_leaves_workspace :
    ¬∀ (fs : FileSystem) (workspace : PurePath) (payload : Fields) (tool applied : Text),
      tool ∈ writeTools → patchValue payload = some (.str applied) →
      workspaceDenial fs workspace payload tool = .allowed →
      ∀ raw ∈ namedTargets payload tool applied, Bounded fs workspace raw := by
  intro h
  obtain ⟨p, hp, -, resolved, hresolved, hbelow⟩ := h .plain demoWorkspace (patchCall movePatch)
    (txt "apply_patch") movePatch (by decide) rfl (by decide +kernel) (txt "../out.txt")
    (by decide +kernel)
  obtain rfl := Option.some.inj hp
  obtain rfl := Resolved.path.inj hresolved
  revert hbelow
  decide +kernel

end RalphVault.WriteBoundary
