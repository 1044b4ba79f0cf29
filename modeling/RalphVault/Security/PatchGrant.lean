import Mathlib
import RalphVault.AutoResearch.Generations
import RalphVault.Outcome
import RalphVault.PromptCache.Signature
import RalphVault.Security.WriteBoundary

/-!
# Security — patch grants

`local_minikube_grant.py`: the grant of a patch as `patch_grant` makes it from
the text, and as `patch_grant_from_request` makes it again from the request
that the user is shown. The targets of a grant are texts relative to the git
root, and the second function reads these texts as the first reads the paths
of the patch: without the blanks at their ends, and with a `~` expanded.
-/

namespace RalphVault.PatchGrants

open Memory (strip)
open AutoResearch.Generations (TextLe)
open WriteBoundary (FileSystem Resolved expandUser candidate components isBelow
  fileMarkers moveMarker)

/-! ## The machine -/

/-- `[0-9a-f]{64}`. -/
def isDigest (t : Text) : Bool :=
  t.length == 64 && t.all fun c => ('0' ≤ c && c ≤ '9') || ('a' ≤ c && c ≤ 'f')

/-- The machine between two calls. The root directory exists. A resolved path
is absolute, is resolved to itself, and nothing on it is a link. -/
structure Host extends FileSystem where
  /-- `Path.cwd()` -/
  workingDirectory : PurePath
  /-- What `git rev-parse --show-toplevel` prints in a directory, unless it fails. -/
  showToplevel : PurePath → Option Text
  /-- `digest` -/
  sha256 : Text → Text
  present_root : ∀ r, present ⟨r, []⟩ = true
  resolve_absolute : ∀ p q, resolve p = .path q → q.root ≠ .relative
  resolve_resolved : ∀ p q, resolve p = .path q → resolve q = .path q
  resolve_links : ∀ p q, resolve p = .path q →
    ∀ item ∈ components q, present item = true → isSymlink item = false
  sha256_digest : ∀ t, isDigest (sha256 t) = true

/-- An exception that is not caught: the home directory is not known, or the
working directory cannot be resolved. -/
inductive Raised where
  | expandUser
  | resolve
deriving DecidableEq

/-! ## Grants -/

structure PatchGrant where
  patchSha256 : Text
  cwd : Text
  targets : List Text
  approvalSha256 : Text
deriving DecidableEq

def PatchGrant.markerName (g : PatchGrant) : Text := txt "patch-" ++ g.approvalSha256

/-- What one of the patterns captures in a line. -/
def captured (markers : List Text) (line : Text) : Option Text :=
  (markers.findSome? fun marker => afterPrefix marker line).filter (· ≠ [])

/-- `[*PATCH_PATH_RE.findall(patch), *PATCH_MOVE_RE.findall(patch)]`. -/
def rawPaths (patch : Text) : List Text :=
  (splitOn '\n' patch).filterMap (captured fileMarkers) ++
    (splitOn '\n' patch).filterMap (captured [moveMarker])

section Grant

variable (host : Host)

/-- `Path.absolute`. -/
def absolute (p : PurePath) : PurePath :=
  if p.root = .relative then host.workingDirectory.join p.parts else p

/-- `_git_root`. -/
def gitRoot (cwd : PurePath) : Option PurePath :=
  (host.showToplevel cwd).bind fun stdout =>
    match host.resolve (absolute host (PurePath.parse (strip stdout))) with
    | .path root => some root
    | _ => none

/-- The first path from an absolute one upwards that exists. -/
def existing (p : PurePath) : PurePath :=
  ((components p).reverse.find? host.present).getD ⟨p.root, []⟩

/-- `Path.relative_to`, unless it raises. -/
def relativeTo (root p : PurePath) : Option (List Name) :=
  if isBelow root p then some (p.parts.drop root.parts.length) else none

/-- The loop of `_normalized_target_paths` for one path: it is refused, or has
a text relative to the root. -/
def normalizedPath (cwd root : PurePath) (raw : Text) : Except Raised (Option Text) :=
  match candidate host.toFileSystem cwd (strip raw) with
  | none => .error .expandUser
  | some p =>
      if host.isSymlink (existing host (absolute host p)) then .ok none
      else match host.resolve (absolute host p) with
        -- all that `resolve` and `relative_to` raise is caught
        | .path resolved => .ok <| (relativeTo root resolved).bind fun relative =>
            if relative = [] then none else some (PurePath.text ⟨.relative, relative⟩)
        | _ => .ok none

def normalizedPaths (cwd root : PurePath) : List Text → Except Raised (Option (List Text))
  | [] => .ok (some [])
  | raw :: raws =>
      match normalizedPath host cwd root raw with
      | .error e => .error e
      | .ok none => .ok none
      | .ok (some t) => (Option.map (t :: ·)) <$> normalizedPaths cwd root raws

/-- `_normalized_target_paths`. -/
def normalizedTargetPaths (cwd : PurePath) (raws : List Text) :
    Except Raised (Option (List Text)) :=
  match gitRoot host cwd with
  | none => .ok none
  | some root =>
      if raws = [] then .ok none
      else (fun normalized => normalized.bind fun ts =>
        if ts.Nodup then some (ts.insertionSort TextLe) else none) <$>
          normalizedPaths host cwd root raws

/-- The text that is approved. -/
def subject (cwd sha : Text) (targets : List Text) : Text :=
  (Json.obj [(txt "cwd", .str cwd), (txt "patch_sha256", .str sha),
    (txt "targets", .arr (targets.map .str))]).asciiDumps

def grantOf (sha : Text) (cwd : PurePath) (targets : List Text) : Except Raised PatchGrant :=
  match host.resolve (absolute host cwd) with
  | .path canonical => .ok {
      patchSha256 := sha
      cwd := canonical.text
      targets := targets
      approvalSha256 := host.sha256 (subject canonical.text sha targets) }
  | _ => .error .resolve

/-- `patch_grant`. -/
def patchGrant (patch : Text) (cwd : PurePath) : Except Raised (Option PatchGrant) :=
  match normalizedTargetPaths host cwd (rawPaths patch) with
  | .error e => .error e
  | .ok none => .ok none
  | .ok (some targets) => some <$> grantOf host (host.sha256 patch) cwd targets

/-- `patch_grant_from_request`. -/
def patchGrantFromRequest (sha : Text) (cwd : PurePath) (targets : List Text) :
    Except Raised (Option PatchGrant) :=
  if isDigest sha = false then .ok none
  else match gitRoot host cwd with
    | none => .ok none
    | some root =>
        if targets = [] then .ok none
        else match normalizedTargetPaths host root targets with
          | .error e => .error e
          | .ok none => .ok none
          | .ok (some targets) => some <$> grantOf host sha cwd targets

end Grant

/-! ## Readings that permute a list -/

/-- Each of the items is read as one of them, and no two as the same. -/
structure Permutes {α : Type} (f : α → Option α) (ts : List α) : Prop where
  kept : ∀ t ∈ ts, ∃ u ∈ ts, f t = some u
  inj : ∀ t ∈ ts, ∀ u ∈ ts, f t = f u → t = u

section Permutes

variable {α : Type} {f : α → Option α} {ts us : List α}

theorem Permutes.congr (h : ∀ t, t ∈ ts ↔ t ∈ us) : Permutes f ts ↔ Permutes f us := by
  constructor
  · intro hp
    refine ⟨fun t ht => ?_, fun t ht u hu => hp.inj t ((h t).mpr ht) u ((h u).mpr hu)⟩
    obtain ⟨u, hu, hf⟩ := hp.kept t ((h t).mpr ht)
    exact ⟨u, (h u).mp hu, hf⟩
  · intro hp
    refine ⟨fun t ht => ?_, fun t ht u hu => hp.inj t ((h t).mp ht) u ((h u).mp hu)⟩
    obtain ⟨u, hu, hf⟩ := hp.kept t ((h t).mp ht)
    exact ⟨u, (h u).mpr hu, hf⟩

/-- What the readings of distinct items are. -/
theorem permutes_iff (hnodup : ts.Nodup) :
    Permutes f ts ↔ ∃ us : List α, ts.map f = us.map some ∧ us.Perm ts := by
  constructor
  · intro h
    choose! g hmem hread using h.kept
    have hus : ts.map f = (ts.map g).map some := by
      rw [List.map_map]
      exact List.map_congr_left hread
    have hmap : (ts.map f).Nodup := hnodup.map_on fun t ht u hu => h.inj t ht u hu
    rw [hus] at hmap
    have hsub : ts.map g ⊆ ts := by
      intro u hu
      obtain ⟨t, ht, rfl⟩ := List.mem_map.mp hu
      exact hmem t ht
    exact ⟨ts.map g, hus, (List.subperm_of_subset hmap.of_map hsub).perm_of_length_le (by simp)⟩
  · intro h
    obtain ⟨us, hus, hperm⟩ := h
    constructor
    · intro t ht
      have hmem : f t ∈ us.map some := by
        rw [← hus]
        exact List.mem_map_of_mem ht
      obtain ⟨u, hu, hf⟩ := List.mem_map.mp hmem
      exact ⟨u, hperm.mem_iff.mp hu, hf.symm⟩
    · have hmap : (ts.map f).Nodup := by
        rw [hus]
        exact (hperm.nodup_iff.mpr hnodup).map (Option.some_injective α)
      intro t ht u hu
      exact List.inj_on_of_nodup_map hmap ht hu

/-- Items that are read as themselves need no thought. -/
theorem permutes_filter (p : α → Bool) (h : ∀ t ∈ ts, p t = false → f t = some t) :
    Permutes f ts ↔ Permutes f (ts.filter p) := by
  constructor
  · intro hp
    refine ⟨fun t ht => ?_, fun t ht u hu =>
      hp.inj t (List.mem_of_mem_filter ht) u (List.mem_of_mem_filter hu)⟩
    obtain ⟨ht, hpt⟩ := List.mem_filter.mp ht
    obtain ⟨u, hu, hf⟩ := hp.kept t ht
    refine ⟨u, List.mem_filter.mpr ⟨hu, ?_⟩, hf⟩
    -- an item that is read as itself is read from no other one
    by_contra hpu
    rw [Bool.not_eq_true] at hpu
    rw [hp.inj t ht u hu (hf.trans (h u hu hpu).symm), hpu] at hpt
    cases hpt
  · intro hp
    have hcross : ∀ t ∈ ts, ∀ u ∈ ts, p t = false → p u = true → f t ≠ f u := by
      intro t ht u hu hpt hpu heq
      obtain ⟨v, hv, hf⟩ := hp.kept u (List.mem_filter.mpr ⟨hu, hpu⟩)
      rw [h t ht hpt, hf, Option.some.injEq] at heq
      rw [heq, (List.mem_filter.mp hv).2] at hpt
      cases hpt
    constructor
    · intro t ht
      cases hpt : p t with
      | false => exact ⟨t, ht, h t ht hpt⟩
      | true =>
          obtain ⟨u, hu, hf⟩ := hp.kept t (List.mem_filter.mpr ⟨ht, hpt⟩)
          exact ⟨u, List.mem_of_mem_filter hu, hf⟩
    · intro t ht u hu heq
      cases hpt : p t with
      | false =>
          cases hpu : p u with
          | false =>
              rw [h t ht hpt, h u hu hpu] at heq
              exact Option.some.inj heq
          | true => exact absurd heq (hcross t ht u hu hpt hpu)
      | true =>
          cases hpu : p u with
          | false => exact absurd heq.symm (hcross u hu t ht hpu hpt)
          | true =>
              exact hp.inj t (List.mem_filter.mpr ⟨ht, hpt⟩) u (List.mem_filter.mpr ⟨hu, hpu⟩) heq

end Permutes

/-! ## What the functions return -/

section Spec

variable {host : Host} {cwd root : PurePath} {patch sha : Text} {raws ts us : List Text}
  {g : PatchGrant}

/-- The file that a path names: its text relative to the root. -/
def fileAt (host : Host) (cwd root : PurePath) (raw : Text) : Option Text :=
  match normalizedPath host cwd root raw with
  | .ok (some t) => some t
  | _ => none

theorem normalizedPaths_eq_ok :
    normalizedPaths host cwd root raws = .ok (some ts) ↔
      raws.map (fileAt host cwd root) = ts.map some := by
  induction raws generalizing ts with
  | nil => cases ts <;> simp [normalizedPaths]
  | cons raw raws ih =>
      rw [normalizedPaths, List.map_cons, fileAt]
      cases hpath : normalizedPath host cwd root raw with
      | error e => cases ts <;> simp
      | ok o =>
          cases o with
          | none => cases ts <;> simp
          | some t =>
              show Option.map (t :: ·) <$> normalizedPaths host cwd root raws = .ok (some ts) ↔ _
              rw [Outcome.map_eq_ok]
              constructor
              · intro h
                obtain ⟨o, ho, hmap⟩ := h
                obtain ⟨us, rfl, rfl⟩ := Option.map_eq_some_iff.mp hmap
                rw [List.map_cons, ih.mp ho]
              · intro h
                cases ts with
                | nil => cases h
                | cons u us =>
                    obtain ⟨hu, hus⟩ := List.cons.inj h
                    obtain rfl := Option.some.inj hu
                    exact ⟨some us, ih.mpr hus, rfl⟩

/-- What `_normalized_target_paths` returns. -/
theorem normalizedTargetPaths_eq_ok :
    normalizedTargetPaths host cwd raws = .ok (some us) ↔
      ∃ (root : PurePath) (ts : List Text), gitRoot host cwd = some root ∧ raws ≠ [] ∧
        raws.map (fileAt host cwd root) = ts.map some ∧ ts.Nodup ∧
        us = ts.insertionSort TextLe := by
  unfold normalizedTargetPaths
  cases hroot : gitRoot host cwd with
  | none => simp
  | some root =>
      by_cases hraws : raws = []
      · simp [hraws]
      · dsimp only
        rw [if_neg hraws, Outcome.map_eq_ok]
        constructor
        · intro h
          obtain ⟨o, ho, hbind⟩ := h
          obtain ⟨ts, rfl, hsort⟩ := Option.bind_eq_some_iff.mp hbind
          by_cases hnodup : ts.Nodup
          · rw [if_pos hnodup, Option.some.injEq] at hsort
            exact ⟨root, ts, rfl, hraws, normalizedPaths_eq_ok.mp ho, hnodup, hsort.symm⟩
          · rw [if_neg hnodup] at hsort
            cases hsort
        · intro h
          obtain ⟨root', ts, hroot', -, hmap, hnodup, rfl⟩ := h
          obtain rfl := Option.some.inj hroot'
          refine ⟨some ts, normalizedPaths_eq_ok.mpr hmap, ?_⟩
          rw [Option.bind_some, if_pos hnodup]

theorem grantOf_eq_ok :
    grantOf host sha cwd ts = .ok g ↔
      ∃ canonical, host.resolve (absolute host cwd) = .path canonical ∧
        g = ⟨sha, canonical.text, ts, host.sha256 (subject canonical.text sha ts)⟩ := by
  unfold grantOf
  cases hresolve : host.resolve (absolute host cwd) with
  | path canonical => simp [eq_comm]
  | refused => simp
  | raised => simp

theorem patchGrant_eq_ok :
    patchGrant host patch cwd = .ok (some g) ↔
      ∃ ts, normalizedTargetPaths host cwd (rawPaths patch) = .ok (some ts) ∧
        grantOf host (host.sha256 patch) cwd ts = .ok g := by
  unfold patchGrant
  split
  · rename_i e he
    simp [he]
  · rename_i hnone
    simp [hnone]
  · rename_i ts hts
    simp [hts, Outcome.map_eq_ok]

theorem patchGrantFromRequest_eq_ok (hsha : isDigest sha = true) (hroot : gitRoot host cwd = some root)
    (hne : us ≠ []) :
    patchGrantFromRequest host sha cwd us = .ok (some g) ↔
      ∃ ts, normalizedTargetPaths host root us = .ok (some ts) ∧
        grantOf host sha cwd ts = .ok g := by
  unfold patchGrantFromRequest
  rw [if_neg (by rw [hsha]; decide), hroot]
  simp only [if_neg hne]
  split
  · rename_i e he
    simp [he]
  · rename_i hnone
    simp [hnone]
  · rename_i ts hts
    simp [hts, Outcome.map_eq_ok]

end Spec

/-! ## Reading a target again -/

section Again

variable {host : Host} {cwd root : PurePath} {raw t : Text}

theorem relativeTo_eq_some {p : PurePath} {relative : List Name} :
    relativeTo root p = some relative ↔ p = root.join relative := by
  obtain ⟨r, parts⟩ := p
  unfold relativeTo isBelow PurePath.join
  constructor
  · intro h
    split at h
    · rename_i hbelow
      rw [Bool.and_eq_true, beq_iff_eq, List.isPrefixOf_iff_prefix] at hbelow
      obtain ⟨hroot, rest, hrest⟩ := hbelow
      rw [← hrest, List.drop_left, Option.some.injEq] at h
      rw [PurePath.mk.injEq]
      exact ⟨hroot.symm, hrest.symm.trans (by rw [h])⟩
    · cases h
  · intro h
    rw [PurePath.mk.injEq] at h
    obtain ⟨rfl, rfl⟩ := h
    rw [if_pos (by simp), List.drop_left]

theorem fileAt_eq_some (h : fileAt host cwd root raw = some t) :
    ∃ p relative, host.resolve p = .path (root.join relative) ∧ relative ≠ [] ∧
      t = PurePath.text ⟨.relative, relative⟩ := by
  have hpath : normalizedPath host cwd root raw = .ok (some t) := by
    unfold fileAt at h
    split at h
    · rename_i u hu
      rw [hu, Option.some.inj h]
    · cases h
  unfold normalizedPath at hpath
  split at hpath
  · cases hpath
  · rename_i p hp
    split at hpath
    · cases hpath
    · split at hpath
      · rename_i resolved hresolved
        rw [Except.ok.injEq, Option.bind_eq_some_iff] at hpath
        obtain ⟨relative, hrelative, htext⟩ := hpath
        split at htext
        · cases htext
        · rename_i hne
          rw [relativeTo_eq_some.mp hrelative] at hresolved
          exact ⟨_, relative, hresolved, hne, (Option.some.inj htext).symm⟩
      · cases hpath

/-- The first existing path above a resolved one is no link. -/
theorem existing_resolved {p q : PurePath} (h : host.resolve p = .path q) :
    host.isSymlink (existing host q) = false := by
  have hroot : (⟨q.root, []⟩ : PurePath) ∈ (components q).reverse := by
    rw [List.mem_reverse]
    exact List.mem_map_of_mem ((List.mem_inits _ _).mpr List.nil_prefix)
  unfold existing
  cases hfind : (components q).reverse.find? host.present with
  | none =>
      have hnone := List.find?_eq_none.mp hfind _ hroot
      exact absurd (host.present_root _) hnone
  | some item =>
      have hitem := List.mem_reverse.mp (List.mem_of_find?_eq_some hfind)
      exact host.resolve_links p q h item hitem (List.find?_some hfind)

/-- A relative text begins like its first component. -/
theorem head?_text (n : Name) (rest : List Name) :
    (PurePath.text ⟨.relative, n :: rest⟩).head? = n.1.head? := by
  obtain ⟨c, u, hn⟩ := List.exists_cons_of_ne_nil (PurePath.name_spec n).1
  have hjoined : ∃ v, PurePath.text ⟨.relative, n :: rest⟩ = n.1 ++ v := by
    rw [PurePath.text, if_neg (fun h => List.cons_ne_nil _ _ h.2)]
    cases rest with
    | nil => exact ⟨[], (List.append_nil _).symm⟩
    | cons m rest => exact ⟨_, List.append_assoc _ _ _⟩
  obtain ⟨v, hv⟩ := hjoined
  rw [hv, hn]
  rfl

/-- A target without blanks at its ends and without a `~` in front is read as
the file it is the text of. -/
theorem fileAt_again (h : fileAt host cwd root raw = some t) (hstrip : strip t = t)
    (htilde : t.head? ≠ some '~') : fileAt host root root t = some t := by
  obtain ⟨p, relative, hresolve, hne, rfl⟩ := fileAt_eq_some h
  obtain ⟨n, rest, rfl⟩ := List.exists_cons_of_ne_nil hne
  have hexpand : expandUser host.toFileSystem ⟨.relative, n :: rest⟩ =
      some ⟨.relative, n :: rest⟩ := by
    unfold expandUser
    split
    · rename_i first rest' hparts
      obtain ⟨rfl, rfl⟩ := List.cons.inj hparts
      split
      · rename_i user huser
        rw [head?_text, huser] at htilde
        exact absurd rfl htilde
      · rfl
    · rename_i hno
      exact absurd rfl (hno n rest rfl)
  have hcandidate : candidate host.toFileSystem root
      (strip (PurePath.text ⟨.relative, n :: rest⟩)) = some (root.join (n :: rest)) := by
    rw [candidate, hstrip, PurePath.parse_text, hexpand]
    rfl
  have habsolute : absolute host (root.join (n :: rest)) = root.join (n :: rest) :=
    if_neg (host.resolve_absolute p _ hresolve)
  have hpath : normalizedPath host root root (PurePath.text ⟨.relative, n :: rest⟩) =
      .ok (some (PurePath.text ⟨.relative, n :: rest⟩)) := by
    unfold normalizedPath
    rw [hcandidate]
    dsimp only
    rw [habsolute, existing_resolved hresolve, if_neg (by decide),
      host.resolve_resolved p _ hresolve]
    dsimp only
    rw [relativeTo_eq_some.mpr rfl, Option.bind_some, if_neg hne]
  rw [fileAt, hpath]

end Again

/-! ## The same grant again -/

/-- A text that may be read otherwise than it was written: the git root is not
its own, a blank stands at an end, or a `~` in front. -/
def Wayward (host : Host) (root : PurePath) (t : Text) : Prop :=
  gitRoot host root ≠ some root ∨ strip t ≠ t ∨ t.head? = some '~'

instance (host : Host) (root : PurePath) : DecidablePred (Wayward host root) := fun _ =>
  inferInstanceAs (Decidable (_ ∨ _ ∨ _))

/-- The files that a patch names, those with a wayward text. -/
def waywardFiles (host : Host) (cwd root : PurePath) (patch : Text) : List Text :=
  ((rawPaths patch).filterMap (fileAt host cwd root)).filter (Wayward host root)

/-- The wayward files are read again, from the git root, as the same files. -/
def ReadBack (host : Host) (patch : Text) (cwd : PurePath) : Prop :=
  ∃ root root', gitRoot host cwd = some root ∧ gitRoot host root = some root' ∧
    Permutes (fileAt host root root') (waywardFiles host cwd root patch)

/-- No two of the texts have one digest. -/
def CollisionFree (host : Host) (ts : List Text) : Prop :=
  ∀ s ∈ ts, ∀ t ∈ ts, host.sha256 s = host.sha256 t → s = t

/-- The texts whose digests are in a grant. -/
def hashed (patch : Text) (g : PatchGrant) : List Text :=
  [patch, subject g.cwd g.patchSha256 g.targets]

/-- A grant is made again from its request, and its approval is that of one
text, one directory and one list of targets only. -/
structure Faithful (host : Host) (patch : Text) (cwd : PurePath) (g : PatchGrant) : Prop where
  request : patchGrantFromRequest host g.patchSha256 cwd g.targets = .ok (some g)
  unique : ∀ patch' cwd' g', patchGrant host patch' cwd' = .ok (some g') →
    CollisionFree host (hashed patch g ++ hashed patch' g') →
    g'.approvalSha256 = g.approvalSha256 → patch' = patch ∧
      host.resolve (absolute host cwd') = host.resolve (absolute host cwd) ∧
      g'.targets = g.targets

section Exact

variable {host : Host} {cwd cwd' root : PurePath} {patch patch' : Text} {us : List Text}
  {g g' : PatchGrant}

theorem textLe_antisymm {s t : Text} (h : TextLe s t) (h' : TextLe t s) : s = t := by
  by_contra hne
  have hlt := textLt_total hne h'
  rw [TextLe, hlt] at h
  cases h

/-- A sorted list of targets is kept when reading them again permutes them. -/
theorem normalizedTargetPaths_again (hne : us ≠ []) (hnodup : us.Nodup)
    (hsorted : us.Pairwise TextLe) :
    normalizedTargetPaths host root us = .ok (some us) ↔
      ∃ root', gitRoot host root = some root' ∧ Permutes (fileAt host root root') us := by
  rw [normalizedTargetPaths_eq_ok]
  constructor
  · intro h
    obtain ⟨root', ts, hroot, -, hmap, -, hsort⟩ := h
    have hperm : ts.Perm us := by
      rw [hsort]
      exact (List.perm_insertionSort TextLe ts).symm
    exact ⟨root', hroot, (permutes_iff hnodup).mpr ⟨ts, hmap, hperm⟩⟩
  · intro h
    obtain ⟨root', hroot, hpermutes⟩ := h
    obtain ⟨ts, hmap, hperm⟩ := (permutes_iff hnodup).mp hpermutes
    refine ⟨root', ts, hroot, hne, hmap, hperm.nodup_iff.mpr hnodup, ?_⟩
    exact (hperm.symm.trans (List.perm_insertionSort TextLe ts).symm).eq_of_pairwise
      (fun _ _ _ _ => textLe_antisymm) hsorted (List.pairwise_insertionSort TextLe ts)

theorem request_iff (h : patchGrant host patch cwd = .ok (some g)) :
    patchGrantFromRequest host g.patchSha256 cwd g.targets = .ok (some g) ↔
      ReadBack host patch cwd := by
  obtain ⟨us, hus, hgrant⟩ := patchGrant_eq_ok.mp h
  obtain ⟨canonical, hresolve, rfl⟩ := grantOf_eq_ok.mp hgrant
  obtain ⟨root, ts, hroot, hraws, hmap, hnodup, rfl⟩ := normalizedTargetPaths_eq_ok.mp hus
  have hsorted := List.perm_insertionSort TextLe ts
  have hfiles : (rawPaths patch).filterMap (fileAt host cwd root) = ts := by
    have hid := congrArg (List.filterMap id) hmap
    rwa [List.filterMap_map, List.filterMap_map, Function.id_comp, Function.id_comp,
      List.filterMap_some] at hid
  have hne : ts.insertionSort TextLe ≠ [] := by
    intro hnil
    rw [hnil] at hsorted
    have hts : ts = [] := List.nil_perm.mp hsorted
    rw [hts] at hmap
    exact hraws (List.map_eq_nil_iff.mp hmap)
  rw [patchGrantFromRequest_eq_ok (host.sha256_digest patch) hroot hne]
  have hagain : (∃ us, normalizedTargetPaths host root (ts.insertionSort TextLe) = .ok (some us) ∧
      grantOf host (host.sha256 patch) cwd us = .ok ⟨host.sha256 patch, canonical.text,
        ts.insertionSort TextLe, host.sha256 (subject canonical.text (host.sha256 patch)
          (ts.insertionSort TextLe))⟩) ↔
      normalizedTargetPaths host root (ts.insertionSort TextLe) =
        .ok (some (ts.insertionSort TextLe)) := by
    constructor
    · intro h
      obtain ⟨us, hus, hus'⟩ := h
      obtain ⟨_, _, heq⟩ := grantOf_eq_ok.mp hus'
      rw [PatchGrant.mk.injEq] at heq
      rw [← heq.2.2.1] at hus
      exact hus
    · intro h
      exact ⟨_, h, hgrant⟩
  rw [hagain, normalizedTargetPaths_again hne (hsorted.nodup_iff.mpr hnodup)
    (List.pairwise_insertionSort TextLe ts)]
  -- a target that is not wayward is read as itself
  have hread : ∀ root', gitRoot host root = some root' → ∀ t ∈ ts,
      decide (Wayward host root t) = false → fileAt host root root' t = some t := by
    intro root' hroot' t ht hsteady
    rw [decide_eq_false_iff_not, Wayward, not_or, not_or, not_not, not_not] at hsteady
    obtain ⟨hown, hstrip, htilde⟩ := hsteady
    rw [hown, Option.some.injEq] at hroot'
    rw [← hroot']
    have hmem : some t ∈ (rawPaths patch).map (fileAt host cwd root) := by
      rw [hmap]
      exact List.mem_map_of_mem ht
    obtain ⟨raw, -, hraw⟩ := List.mem_map.mp hmem
    exact fileAt_again hraw hstrip htilde
  have hpermutes : ∀ root', gitRoot host root = some root' →
      (Permutes (fileAt host root root') (ts.insertionSort TextLe) ↔
        Permutes (fileAt host root root') (waywardFiles host cwd root patch)) := by
    intro root' hroot'
    rw [waywardFiles, hfiles, Permutes.congr fun t => hsorted.mem_iff]
    exact permutes_filter _ (hread root' hroot')
  constructor
  · intro h
    obtain ⟨root', hroot', hp⟩ := h
    exact ⟨root, root', hroot, hroot', (hpermutes root' hroot').mp hp⟩
  · intro h
    obtain ⟨root₁, root', hroot₁, hroot', hp⟩ := h
    obtain rfl := Option.some.inj (hroot.symm.trans hroot₁)
    exact ⟨root', hroot', (hpermutes root' hroot').mpr hp⟩

/-- The texts of two subjects tell their parts. -/
theorem subject_inj {cwd cwd' sha sha' : Text} {ts us : List Text}
    (h : subject cwd sha ts = subject cwd' sha' us) : cwd = cwd' ∧ sha = sha' ∧ ts = us := by
  have hget := PromptCache.asciiDumps_get? (by simp only [List.map_cons, List.map_nil]; decide)
    (by simp only [List.map_cons, List.map_nil]; decide) h
  have hitems : ∀ ts us : List Text, (Json.arr (ts.map .str)).norm = (Json.arr (us.map .str)).norm →
      ts = us := by
    intro ts us heq
    rw [Json.norm, Json.norm, Json.normItems_eq, Json.normItems_eq, List.map_map, List.map_map,
      Json.arr.injEq] at heq
    exact List.map_injective_iff.mpr (fun _ _ hst => Json.str.inj hst) heq
  refine ⟨?_, ?_, ?_⟩
  · exact PromptCache.member_eq PromptCache.str_norm (hget (txt "cwd")) rfl rfl
  · exact PromptCache.member_eq PromptCache.str_norm (hget (txt "patch_sha256")) rfl rfl
  · exact PromptCache.member_eq hitems (hget (txt "targets")) rfl rfl

/-- One approval is for one text, one directory and one list of targets. -/
theorem approval_inj (h : patchGrant host patch cwd = .ok (some g))
    (h' : patchGrant host patch' cwd' = .ok (some g'))
    (hfree : CollisionFree host (hashed patch g ++ hashed patch' g'))
    (happroval : g'.approvalSha256 = g.approvalSha256) : patch' = patch ∧
      host.resolve (absolute host cwd') = host.resolve (absolute host cwd) ∧
      g'.targets = g.targets := by
  obtain ⟨us, -, hgrant⟩ := patchGrant_eq_ok.mp h
  obtain ⟨canonical, hresolve, rfl⟩ := grantOf_eq_ok.mp hgrant
  obtain ⟨us', -, hgrant'⟩ := patchGrant_eq_ok.mp h'
  obtain ⟨canonical', hresolve', rfl⟩ := grantOf_eq_ok.mp hgrant'
  obtain ⟨hcwd, hsha, htargets⟩ := subject_inj
    (hfree _ (by simp [hashed]) _ (by simp [hashed]) happroval)
  refine ⟨hfree _ (by simp [hashed]) _ (by simp [hashed]) hsha, ?_, htargets⟩
  have hcanonical := congrArg PurePath.parse hcwd
  rw [PurePath.parse_text, PurePath.parse_text] at hcanonical
  rw [hresolve, hresolve', hcanonical]

/-- **A grant is faithful exactly when the wayward files of its patch are read
again as the same files.** -/
theorem faithful_iff (h : patchGrant host patch cwd = .ok (some g)) :
    Faithful host patch cwd g ↔ ReadBack host patch cwd := by
  constructor
  · intro hfaithful
    exact (request_iff h).mp hfaithful.request
  · intro hback
    refine ⟨(request_iff h).mpr hback, ?_⟩
    intro patch' cwd' g' h' hfree happroval
    exact approval_inj h h' hfree happroval

end Exact

/-! ## A file whose name begins with a blank -/

def repo : PurePath := PurePath.parse (txt "/repo")

def namePatch : Text := txt "*** Add File: a.txt"

def blankPatch : Text := txt "*** Add File: ./ a.txt"

/-- The SHA-256 digests of the texts that are hashed below. -/
def digests : List (Text × Text) :=
  [(namePatch, txt "4567e514ea5fa9ed7e56e40b896cf21f71af3fd9aecfbd974b63870f41371ab5"),
    (subject (txt "/repo") (txt "4567e514ea5fa9ed7e56e40b896cf21f71af3fd9aecfbd974b63870f41371ab5") [txt "a.txt"],
      txt "08320a491cbb23f5eca35cb7ee007c8b86e23bc87a7f95cdd781a3a283f93d9b"),
    (blankPatch, txt "a8046ce41ec32c4158b94e542cf9e5c02c20c97d90fd67727aee312f9fe82fb3"),
    (subject (txt "/repo") (txt "a8046ce41ec32c4158b94e542cf9e5c02c20c97d90fd67727aee312f9fe82fb3") [txt " a.txt"],
      txt "51b6129effaf7dc4d4a8d41a1444e649ee59f1c25b0cd44c728363b0c664c71d"),
    (subject (txt "/repo") (txt "a8046ce41ec32c4158b94e542cf9e5c02c20c97d90fd67727aee312f9fe82fb3") [txt "a.txt"],
      txt "f41749a00d477e8b33d48e5d6a923406e40b423f60497653d61afd1c7be992f6")]

/-- A repository at `/repo` without files and without links. -/
def repoHost : Host where
  present p := p.parts.isEmpty || p == repo
  isSymlink _ := false
  resolve p :=
    if p.root = .relative ∨ p.parts.any fun n => n.1 == txt ".." then .refused else .path p
  home _ := none
  workingDirectory := repo
  showToplevel p := if isBelow repo p then some (txt "/repo\n") else none
  sha256 t := (digests.lookup t).getD (List.replicate 64 '0')
  present_root _ := rfl
  resolve_absolute p q h := by
    split at h
    · cases h
    · rename_i hp
      obtain rfl := Resolved.path.inj h
      exact fun hroot => hp (.inl hroot)
  resolve_resolved p q h := by
    split at h
    · cases h
    · rename_i hp
      obtain rfl := Resolved.path.inj h
      exact if_neg hp
  resolve_links _ _ _ _ _ _ := rfl
  sha256_digest t := by
    have hall : ∀ o ∈ digests.map Prod.snd, isDigest o = true := by decide
    cases hlookup : digests.lookup t with
    | none => decide
    | some o =>
        obtain ⟨front, back, heq, -⟩ := List.lookup_eq_some_iff.mp hlookup
        exact hall o (List.mem_map_of_mem (a := (t, o)) (by rw [heq]; simp))

def nameGrant : PatchGrant where
  patchSha256 := txt "4567e514ea5fa9ed7e56e40b896cf21f71af3fd9aecfbd974b63870f41371ab5"
  cwd := txt "/repo"
  targets := [txt "a.txt"]
  approvalSha256 := txt "08320a491cbb23f5eca35cb7ee007c8b86e23bc87a7f95cdd781a3a283f93d9b"

theorem nameGrant_faithful : Faithful repoHost namePatch repo nameGrant :=
  (faithful_iff (by decide)).mpr
    ⟨repo, repo, by decide, by decide, by
      have hfiles : waywardFiles repoHost repo repo namePatch = [] := by decide
      rw [hfiles]
      exact ⟨fun t ht => absurd ht List.not_mem_nil, fun t ht => absurd ht List.not_mem_nil⟩⟩

def blankGrant : PatchGrant where
  patchSha256 := txt "a8046ce41ec32c4158b94e542cf9e5c02c20c97d90fd67727aee312f9fe82fb3"
  cwd := txt "/repo"
  targets := [txt " a.txt"]
  approvalSha256 := txt "51b6129effaf7dc4d4a8d41a1444e649ee59f1c25b0cd44c728363b0c664c71d"

def requestedGrant : PatchGrant where
  patchSha256 := txt "a8046ce41ec32c4158b94e542cf9e5c02c20c97d90fd67727aee312f9fe82fb3"
  cwd := txt "/repo"
  targets := [txt "a.txt"]
  approvalSha256 := txt "f41749a00d477e8b33d48e5d6a923406e40b423f60497653d61afd1c7be992f6"

/-- The marker made from the request is not the one that is looked for. -/
theorem blank_target_lost :
    patchGrant repoHost blankPatch repo = .ok (some blankGrant) ∧
      patchGrantFromRequest repoHost blankGrant.patchSha256 repo blankGrant.targets =
        .ok (some requestedGrant) ∧
      requestedGrant.markerName ≠ blankGrant.markerName := by
  refine ⟨?_, ?_, ?_⟩
  · decide
  · decide
  · decide

end RalphVault.PatchGrants
