import RalphVault.AsciiJson
import RalphVault.HookGraph.Ownership
import RalphVault.PurePath
import RalphVault.Security.DatabaseUrl

/-!
# Hook graph — plugin bundles

`scripts/gates/effective-hook-graph.py`: the digests of the files of a plugin
bundle, which become part of the declaration of its hooks. For each command of
the manifest one operand is found, and the file there is digested; when one of
them cannot be digested the bundle is not verified, and the declarations are
digested without it.
-/

namespace RalphVault.HookGraph

open Memory

/-! ## Bundles -/

/-- The doctor with the digest of a file. -/
structure BundlePlatform extends Platform where
  sha256Bytes : List UInt8 → Text

/-- A regular file at a path, links followed. -/
structure BundleFile where
  bytes : List UInt8
  /-- whether the path is itself a symbolic link -/
  symlink : Bool
  /-- whether the resolved path is below the root of the bundle -/
  inside : Bool
  /-- `st_nlink` -/
  links : Nat
deriving DecidableEq

/-- The manifest `hooks.json`: its bytes and the object they are read as. -/
structure Manifest where
  bytes : List UInt8
  fields : Fields

/-- The other files of a bundle, and the name of its root. -/
structure Bundle where
  id : Text
  manifestLinks : Nat
  files : Text → Option BundleFile

def manifestName : Text := txt "./hooks.json"

/-- The file at a path of a bundle with this manifest. -/
def Bundle.at (m : Manifest) (b : Bundle) (path : Text) : Option BundleFile :=
  if path = manifestName then some ⟨m.bytes, false, true, b.manifestLinks⟩ else b.files path

/-- What a program reads at a path. -/
def Bundle.content (m : Manifest) (b : Bundle) (path : Text) : Option (List UInt8) :=
  (b.at m path).map BundleFile.bytes

/-! ## Operands -/

/-- `_INTERPRETERS`. -/
def interpreters : List Text := [txt "python", txt "python3", txt "bash", txt "sh", txt "zsh"]

/-- `Path(text).name`. -/
def pathName (t : Text) : Text := ((PurePath.parse t).parts.getLast?.map Subtype.val).getD []

/-- The tokens from the operand of an interpreter on. -/
def skipOptions : List Text → Option (List Text)
  | [] => none
  | argument :: rest =>
      if [txt "-c", txt "-m", txt "--command"].contains argument ||
          startsWith (txt "--command=") argument then none
      else if argument = txt "--" then some rest
      else if startsWith (txt "-") argument then skipOptions rest
      else some (argument :: rest)

/-- The tokens from the executable on. -/
def skipEnv : List Text → List Text
  | [] => []
  | token :: rest =>
      if pathName token = txt "env" then
        rest.dropWhile fun t => startsWith (txt "-") t || t.contains '='
      else token :: rest

/-- The operand without the variable for the root of the plugin. -/
def stripRoot (operand : Text) : Text :=
  let braced := txt "${CLAUDE_PLUGIN_ROOT}/"
  let plain := txt "$CLAUDE_PLUGIN_ROOT/"
  if startsWith braced operand then operand.drop braced.length
  else if startsWith plain operand then operand.drop plain.length
  else operand

/-- The operand as a path of the bundle. -/
def bundlePath (operand : Text) : Option Text :=
  let candidate := PurePath.parse operand
  if candidate.root ≠ .relative ∨ operand = [] ∨ candidate.parts.any (·.1 == txt "..") then none
  else
    let normalized := candidate.text
    some (if startsWith (txt "./") normalized then normalized else txt "./" ++ normalized)

/-- `_bundle_script_operand`. -/
def bundleScriptOperand (tokens : List Text) : Option Text := do
  let operands ← match skipEnv tokens with
    | [] => none
    | executable :: rest =>
        if interpreters.contains (pathName executable) then skipOptions rest
        else some (executable :: rest)
  let operand ← operands.head?
  bundlePath (stripRoot operand)

/-! ## Verification -/

/-- The commands of one child of a group. -/
def childCommand : Value → Option Text
  | .obj child => match Fields.get? child (txt "command") with
      | some (.str command) => some command
      | _ => none
  | _ => none

def groupCommands : Value → List Text
  | .obj group => match Fields.get? group (txt "hooks") with
      | some (.arr children) => children.filterMap childCommand
      | _ => []
  | _ => []

def eventCommands : Value → List Text
  | .arr groups => groups.flatMap groupCommands
  | _ => []

/-- The commands of a manifest, in the order of the loops. -/
def bundleCommands (fields : Fields) : List Text :=
  match Fields.get? fields (txt "hooks") with
  | some (.obj hooks) => hooks.flatMap fun entry => eventCommands entry.2
  | _ => []

/-- The operand of a command, unless it has none or is no list of words. -/
def commandOperand (command : Text) : Option Text :=
  (Security.shlexStep .blank [] command).bind bundleScriptOperand

/-- `MAX_TRUSTED_PLUGIN_FILE_BYTES`. -/
def maxTrustedPluginFileBytes : Nat := 1048576

/-- The provenance of a bundle that is verified. -/
def bundleFields (id manifestDigest : Text) (scriptDigests : Fields) : Fields :=
  [(txt "bundle_id", .str id), (txt "manifest_digest", .str manifestDigest),
    (txt "script_digests", .obj scriptDigests)]

section Verification

variable (p : BundlePlatform) (m : Manifest) (b : Bundle)

/-- `_sha256` of a regular file. -/
def fileDigest (file : BundleFile) : Option Text :=
  if file.links ≠ 1 ∨ maxTrustedPluginFileBytes < file.bytes.length then none
  else some (txt "sha256:" ++ p.sha256Bytes file.bytes)

/-- The digest of the file at an operand. -/
def operandDigest (operand : Text) : Option Text :=
  (b.at m operand).bind fun file =>
    if file.symlink || !file.inside then none else fileDigest p file

/-- One pass of the innermost loop of `_verified_bundle`. -/
def addScriptDigest (digests : Fields) (command : Text) : Option Fields :=
  (commandOperand command).bind fun operand =>
    (operandDigest p m b operand).map fun digest => digests.set operand (.str digest)

/-- `_verified_bundle`. -/
def verifiedBundle : Option Fields :=
  (fileDigest p ⟨m.bytes, false, true, b.manifestLinks⟩).bind fun manifestDigest =>
    ((bundleCommands m.fields).foldlM (addScriptDigest p m b) []).map
      (bundleFields b.id manifestDigest)

end Verification

/-- A registration in a configuration whose verified bundle is set. -/
def Registration.under (r : Registration) (bundle : Option Fields) : Registration :=
  { r with bundle := some ((bundle.map Value.obj).getD .null) }

/-- The declaration of a registration. -/
def declaration (r : Registration) (matcher : Text) : Fields :=
  [(txt "source", .str r.source), (txt "event", .str r.event), (txt "matcher", .str matcher),
    (txt "command", .str r.command)] ++
  (match r.bundle with
    | some (.obj bundle) => [(txt "bundle", .obj bundle)]
    | _ => [])

/-- The digest under which a registration is looked up, if it is. -/
def declarationDigest (p : Platform) (r : Registration) : Option Text :=
  if !isPlugin r.source then none
  else match r.matcher with
    | some (.str matcher) => some (txt "sha256:" ++ p.sha256 (p.compactJson (declaration r matcher)))
    | _ => none

/-- Trust is a matter of the digest. -/
theorem trustedReportOnlyDomain_eq (p : Platform) (trust : Trust) (r : Registration) :
    trustedReportOnlyDomain p trust r = (declarationDigest p r).bind fun digest =>
      (((SortedMap.get? r.source trust).bind (SortedMap.get? digest)).bind Domain.ofName).filter
        fun d => d.event == r.event := by
  unfold trustedReportOnlyDomain declarationDigest
  split
  · rfl
  · cases r.matcher with
    | none => rfl
    | some matcher => cases matcher <;> rfl

/-! ## What a verified bundle says -/

/-- The operands of the commands of a manifest. -/
def operands (m : Manifest) : List Text := (bundleCommands m.fields).filterMap commandOperand

/-- The digests of the scripts so far: those of the operands read, and no other. -/
structure Digested (p : BundlePlatform) (m : Manifest) (b : Bundle) (read : List Text)
    (digests : Fields) : Prop where
  keys : (digests.map Prod.fst).Nodup
  known : ∀ operand ∈ read, (operandDigest p m b operand).isSome
  digest : ∀ operand, Fields.get? digests operand =
    if operand ∈ read then (operandDigest p m b operand).map Value.str else none

section Verified

variable {p : BundlePlatform} {m : Manifest} {a b : Bundle} {read : List Text}
  {digests digests' : Fields} {command : Text}

theorem keys_set (d : Fields) (k : Text) (v : Value) :
    (d.set k v).map Prod.fst = if k ∈ d.map Prod.fst then d.map Prod.fst
      else d.map Prod.fst ++ [k] := by
  induction d with
  | nil => rfl
  | cons e d ih =>
      obtain ⟨k', w⟩ := e
      rw [Fields.set]
      by_cases hk : k' = k
      · subst hk
        rw [if_pos rfl, if_pos (by exact List.mem_cons_self)]
        rfl
      · have hcons : k ∈ ((k', w) :: d).map Prod.fst ↔ k ∈ d.map Prod.fst := by
          rw [List.map_cons, List.mem_cons]
          exact or_iff_right (Ne.symm hk)
        rw [if_neg hk, List.map_cons, ih]
        simp only [hcons]
        split <;> rfl

theorem nodup_set {d : Fields} (h : (d.map Prod.fst).Nodup) (k : Text) (v : Value) :
    ((d.set k v).map Prod.fst).Nodup := by
  rw [keys_set]
  split
  · exact h
  · rename_i hk
    exact List.nodup_append.mpr ⟨h, List.nodup_singleton k, fun x hx y hy => by
      rw [List.mem_singleton.mp hy]
      rintro rfl
      exact hk hx⟩

/-- A command adds the digest of its operand. -/
theorem digested_step (h : Digested p m b read digests)
    (hadd : addScriptDigest p m b digests command = some digests') :
    ∃ operand, commandOperand command = some operand ∧
      Digested p m b (read ++ [operand]) digests' := by
  obtain ⟨operand, hoperand, hadd⟩ := Option.bind_eq_some_iff.mp hadd
  obtain ⟨digest, hdigest, rfl⟩ := Option.map_eq_some_iff.mp hadd
  refine ⟨operand, hoperand, nodup_set h.keys _ _, ?_, fun q => ?_⟩
  · refine List.forall_mem_append.mpr ⟨h.known, List.forall_mem_singleton.mpr ?_⟩
    rw [hdigest]
    rfl
  · rw [Fields.get?_set, h.digest]
    by_cases hq : operand = q
    · subst hq
      rw [if_pos rfl, if_pos (List.mem_append_right _ List.mem_cons_self), hdigest]
      rfl
    · have hmem : q ∈ read ++ [operand] ↔ q ∈ read := by
        rw [List.mem_append, List.mem_singleton]
        exact or_iff_left (Ne.symm hq)
      rw [if_neg hq]
      simp only [hmem]

theorem digested_run {commands : List Text} (h : Digested p m b read digests)
    (hrun : commands.foldlM (addScriptDigest p m b) digests = some digests') :
    Digested p m b (read ++ commands.filterMap commandOperand) digests' := by
  induction commands generalizing read digests with
  | nil =>
      obtain rfl := Option.some.inj hrun
      rw [List.filterMap_nil, List.append_nil]
      exact h
  | cons command commands ih =>
      rw [List.foldlM_cons] at hrun
      obtain ⟨next, hadd, hrest⟩ := Option.bind_eq_some_iff.mp hrun
      obtain ⟨operand, hoperand, hnext⟩ := digested_step h hadd
      have hall := ih hnext hrest
      rw [List.append_assoc] at hall
      rw [List.filterMap_cons, hoperand]
      exact hall

/-- **A verified bundle has the digest of the file at each operand.** -/
theorem verifiedBundle_spec {bundle : Fields} (h : verifiedBundle p m b = some bundle) :
    ∃ manifestDigest digests, Digested p m b (operands m) digests ∧
      bundle = bundleFields b.id manifestDigest digests := by
  obtain ⟨manifestDigest, -, h⟩ := Option.bind_eq_some_iff.mp h
  obtain ⟨digests, hrun, rfl⟩ := Option.map_eq_some_iff.mp h
  have hstart : Digested p m b [] [] := ⟨List.nodup_nil, nofun, fun _ => rfl⟩
  exact ⟨manifestDigest, digests, digested_run hstart hrun, rfl⟩

/-- Bundles with the same files at the operands are verified alike. -/
theorem verifiedBundle_congr (hid : a.id = b.id) (hlinks : a.manifestLinks = b.manifestLinks)
    (hfiles : ∀ operand ∈ operands m, a.at m operand = b.at m operand) :
    verifiedBundle p m a = verifiedBundle p m b := by
  have hrun : ∀ (commands : List Text) (digests : Fields),
      (∀ operand ∈ commands.filterMap commandOperand, a.at m operand = b.at m operand) →
      commands.foldlM (addScriptDigest p m a) digests =
        commands.foldlM (addScriptDigest p m b) digests := by
    intro commands
    induction commands with
    | nil => exact fun _ _ => rfl
    | cons command commands ih =>
        intro digests hfiles
        have hadd : addScriptDigest p m a digests command = addScriptDigest p m b digests command := by
          unfold addScriptDigest
          cases hoperand : commandOperand command with
          | none => rfl
          | some operand =>
              have hmem : operand ∈ (command :: commands).filterMap commandOperand :=
                List.mem_filterMap.mpr ⟨command, List.mem_cons_self, hoperand⟩
              rw [Option.bind_some, Option.bind_some, operandDigest, operandDigest,
                hfiles operand hmem]
        rw [List.foldlM_cons, List.foldlM_cons, hadd]
        refine congrArg _ (funext fun next => ih next fun operand hmem => hfiles operand ?_)
        obtain ⟨other, hother, heq⟩ := List.mem_filterMap.mp hmem
        exact List.mem_filterMap.mpr ⟨other, List.mem_cons_of_mem _ hother, heq⟩
  rw [verifiedBundle, verifiedBundle, hid, hlinks, hrun _ _ hfiles]

end Verified

/-! ## What a trusted declaration pins -/

/-- Equal digests, and equal JSON texts, are those of equal contents. -/
structure CollisionFree (p : BundlePlatform) : Prop where
  text : ∀ t t', p.sha256 t = p.sha256 t' → t = t'
  bytes : ∀ x y, p.sha256Bytes x = p.sha256Bytes y → x = y
  compactJson : ∀ d d', p.compactJson d = p.compactJson d' →
    Json.norm (toJson (.obj d)) = Json.norm (toJson (.obj d'))

section Pins

-- `named` gives the files of the bundle that a command line runs, as programs
-- and as scripts
variable (p : BundlePlatform) (trust : Trust) (m : Manifest) (named : Text → List Text)

/-- Whether the declaration of a registration is trusted for some domain. -/
def trusted (r : Registration) (bundle : Option Fields) : Prop :=
  (trustedReportOnlyDomain p.toPlatform trust (r.under bundle)).isSome = true

/-- Two bundles for which a registration has the same trusted digest have the
same files that its command runs. -/
def Pinned (r : Registration) : Prop :=
  ∀ a b : Bundle, trusted p trust r (verifiedBundle p m a) →
    declarationDigest p.toPlatform (r.under (verifiedBundle p m a)) =
      declarationDigest p.toPlatform (r.under (verifiedBundle p m b)) →
    ∀ path ∈ named r.command, a.content m path = b.content m path

/-- No file but the manifest is run under a declaration that is trusted without
a bundle, and only operands of the manifest, or the manifest, under one that is
trusted with a bundle. -/
structure RunsOperands (r : Registration) : Prop where
  unverified : trusted p trust r none → ∀ path ∈ named r.command, path = manifestName
  verified : ∀ a bundle, verifiedBundle p m a = some bundle → trusted p trust r (some bundle) →
    ∀ path ∈ named r.command, path ∈ operands m ∨ path = manifestName

end Pins

section Exact

variable {p : BundlePlatform} {trust : Trust} {m : Manifest} {named : Text → List Text}
  {r : Registration} {a b : Bundle} {path : Text}

theorem toJsonFields_eq (d : Fields) : toJsonFields d = d.map fun e => (e.1, toJson e.2) := by
  induction d with
  | nil => rfl
  | cons e d ih =>
      obtain ⟨k, v⟩ := e
      rw [toJsonFields, ih]
      rfl

/-- Dictionaries with the same text have the same members. -/
theorem get?_of_norm {d d' : Fields} (hd : (d.map Prod.fst).Nodup) (hd' : (d'.map Prod.fst).Nodup)
    (h : Json.norm (toJson (.obj d)) = Json.norm (toJson (.obj d'))) (k : Text) :
    ((Fields.get? d k).map toJson).map Json.norm = ((Fields.get? d' k).map toJson).map Json.norm := by
  have hkeys : ∀ d : Fields, (toJsonFields d).map Prod.fst = d.map Prod.fst := by
    intro d
    rw [toJsonFields_eq, List.map_map]
    rfl
  have hget := Json.norm_obj_get? (by rw [hkeys]; exact hd) (by rw [hkeys]; exact hd') h k
  rw [toJsonFields_eq, toJsonFields_eq, SortedMap.get?_map, SortedMap.get?_map] at hget
  exact hget

theorem trusted_digest {bundle : Option Fields} (h : trusted p trust r bundle) :
    ∃ matcher, r.matcher = some (.str matcher) ∧
      ∀ bundle, declarationDigest p.toPlatform (r.under bundle) =
        some (txt "sha256:" ++ p.sha256 (p.compactJson (declaration (r.under bundle) matcher))) := by
  rw [trusted, trustedReportOnlyDomain_eq] at h
  obtain ⟨domain, hdomain⟩ := Option.isSome_iff_exists.mp h
  obtain ⟨digest, hdigest, -⟩ := Option.bind_eq_some_iff.mp hdomain
  unfold declarationDigest at hdigest
  split at hdigest
  · cases hdigest
  · rename_i hplugin
    split at hdigest
    · rename_i matcher hmatcher
      have hsource : ¬(!isPlugin r.source) = true := hplugin
      have hmatch : r.matcher = some (.str matcher) := hmatcher
      refine ⟨matcher, hmatch, fun bundle => ?_⟩
      have hunder : (r.under bundle).matcher = some (.str matcher) := hmatch
      rw [declarationDigest, if_neg (show ¬(!isPlugin (r.under bundle).source) = true from hsource),
        hunder]
    · cases hdigest

/-- The members of a declaration with a bundle. -/
theorem declaration_some (bundle : Fields) (matcher : Text) :
    declaration (r.under (some bundle)) matcher =
      [(txt "source", .str r.source), (txt "event", .str r.event), (txt "matcher", .str matcher),
        (txt "command", .str r.command), (txt "bundle", .obj bundle)] := rfl

theorem declaration_none (matcher : Text) :
    declaration (r.under none) matcher =
      [(txt "source", .str r.source), (txt "event", .str r.event), (txt "matcher", .str matcher),
        (txt "command", .str r.command)] := rfl

/-- **Registrations with the same digest have the same bundle, or none.** -/
theorem norm_bundle (hp : CollisionFree p) {bundle bundle' : Option Fields}
    (h : trusted p trust r bundle) (heq : declarationDigest p.toPlatform (r.under bundle) =
      declarationDigest p.toPlatform (r.under bundle')) :
    bundle.map (fun d => Json.norm (toJson (.obj d))) =
      bundle'.map fun d => Json.norm (toJson (.obj d)) := by
  obtain ⟨matcher, -, hdigest⟩ := trusted_digest h
  rw [hdigest, hdigest] at heq
  have hnorm := hp.compactJson _ _ (hp.text _ _ (List.append_cancel_left (Option.some.inj heq)))
  have hkeys : ∀ bundle : Option Fields,
      ((declaration (r.under bundle) matcher).map Prod.fst).Nodup := by
    intro bundle
    cases bundle with
    | none =>
        rw [declaration_none]
        show [txt "source", txt "event", txt "matcher", txt "command"].Nodup
        decide
    | some bundle =>
        rw [declaration_some]
        show [txt "source", txt "event", txt "matcher", txt "command", txt "bundle"].Nodup
        decide
  have hget : ∀ bundle : Option Fields,
      Fields.get? (declaration (r.under bundle) matcher) (txt "bundle") =
        bundle.map Value.obj := by
    intro bundle
    cases bundle <;> rfl
  have hbundle := get?_of_norm (hkeys bundle) (hkeys bundle') hnorm (txt "bundle")
  rw [hget, hget, Option.map_map, Option.map_map, Option.map_map, Option.map_map] at hbundle
  exact hbundle

/-- **Bundles verified alike have the same files at the operands.** -/
theorem content_of_norm (hp : CollisionFree p) {bundle bundle' : Fields}
    (ha : verifiedBundle p m a = some bundle) (hb : verifiedBundle p m b = some bundle')
    (hnorm : Json.norm (toJson (.obj bundle)) = Json.norm (toJson (.obj bundle')))
    (hpath : path ∈ operands m) : a.content m path = b.content m path := by
  obtain ⟨manifestDigest, digests, hdigests, rfl⟩ := verifiedBundle_spec ha
  obtain ⟨manifestDigest', digests', hdigests', rfl⟩ := verifiedBundle_spec hb
  have hkeys : ∀ id manifestDigest digests,
      ((bundleFields id manifestDigest digests).map Prod.fst).Nodup := by
    intro _ _ _
    show [txt "bundle_id", txt "manifest_digest", txt "script_digests"].Nodup
    decide
  have hget : ∀ id manifestDigest digests,
      Fields.get? (bundleFields id manifestDigest digests) (txt "script_digests") =
        some (.obj digests) := fun _ _ _ => rfl
  have hscripts := get?_of_norm (hkeys _ _ _) (hkeys _ _ _) hnorm (txt "script_digests")
  rw [hget, hget] at hscripts
  have hdigest := get?_of_norm hdigests.keys hdigests'.keys (Option.some.inj hscripts) path
  rw [hdigests.digest, hdigests'.digest, if_pos hpath, if_pos hpath] at hdigest
  obtain ⟨digest, hfile⟩ := Option.isSome_iff_exists.mp (hdigests.known path hpath)
  obtain ⟨digest', hfile'⟩ := Option.isSome_iff_exists.mp (hdigests'.known path hpath)
  rw [hfile, hfile'] at hdigest
  have hsame : digest = digest' := Json.str.inj (Option.some.inj hdigest)
  rw [hsame] at hfile
  have hread : ∀ {c : Bundle}, operandDigest p m c path = some digest' →
      ∃ file, c.at m path = some file ∧ txt "sha256:" ++ p.sha256Bytes file.bytes = digest' := by
    intro c hc
    obtain ⟨file, hat, hc⟩ := Option.bind_eq_some_iff.mp hc
    refine ⟨file, hat, ?_⟩
    split at hc
    · cases hc
    · unfold fileDigest at hc
      split at hc
      · cases hc
      · exact Option.some.inj hc
  obtain ⟨file, hat, hbytes⟩ := hread hfile
  obtain ⟨file', hat', hbytes'⟩ := hread hfile'
  rw [Bundle.content, Bundle.content, hat, hat']
  refine congrArg some (hp.bytes _ _ (List.append_cancel_left (hbytes.trans hbytes'.symm)))

theorem at_manifest : a.at m manifestName = some ⟨m.bytes, false, true, a.manifestLinks⟩ :=
  if_pos rfl

theorem at_file (h : path ≠ manifestName) : a.at m path = a.files path := if_neg h

theorem content_manifest : a.content m manifestName = b.content m manifestName := by
  rw [Bundle.content, Bundle.content, at_manifest, at_manifest]
  rfl

/-- The bundle with another file at one path. -/
def Bundle.replace (b : Bundle) (path : Text) (file : Option BundleFile) : Bundle :=
  { b with files := fun other => if other = path then file else b.files other }

theorem at_replace_self (h : path ≠ manifestName) (file : Option BundleFile) :
    (b.replace path file).at m path = file := by
  rw [at_file h]
  exact if_pos rfl

theorem at_replace_other {other : Text} (h : other ≠ path) (file : Option BundleFile) :
    (b.replace path file).at m other = b.at m other := by
  have hfiles : (b.replace path file).files other = b.files other := if_neg h
  unfold Bundle.at
  rw [hfiles]
  rfl

/-- A file that is not the manifest has another content in some bundle that
differs at its path only. -/
theorem exists_replace (m : Manifest) (b : Bundle) (h : path ≠ manifestName) :
    ∃ file, b.content m path ≠ (b.replace path file).content m path := by
  by_cases hnone : b.content m path = none
  · refine ⟨some ⟨[], false, true, 1⟩, ?_⟩
    rw [hnone, Bundle.content, at_replace_self h]
    nofun
  · refine ⟨none, ?_⟩
    rw [show (b.replace path none).content m path = none by
      rw [Bundle.content, at_replace_self h, Option.map_none]]
    exact hnone

/-- A bundle whose manifest has a second link is not verified. -/
theorem verifiedBundle_linked (h : b.manifestLinks ≠ 1) : verifiedBundle p m b = none := by
  rw [verifiedBundle, fileDigest, if_pos (.inl h)]
  rfl

/-- **A trusted digest pins the files that the command runs exactly when these
are operands of a verified bundle.** -/
theorem pinned_iff (hp : CollisionFree p) :
    Pinned p trust m named r ↔ RunsOperands p trust m named r := by
  constructor
  · intro h
    refine ⟨fun htrusted path hpath => ?_, fun a bundle ha htrusted path hpath => ?_⟩
    · -- two bundles that are not verified, and differ at the path
      by_contra hne
      let b : Bundle := ⟨[], 2, fun _ => none⟩
      have hlinks : b.manifestLinks ≠ 1 := by decide
      obtain ⟨file, hfile⟩ := exists_replace m b hne
      have hb : verifiedBundle p m b = none := verifiedBundle_linked hlinks
      have hreplaced : verifiedBundle p m (b.replace path file) = none :=
        verifiedBundle_linked hlinks
      refine hfile (h b (b.replace path file) ?_ ?_ path hpath)
      · rw [hb]
        exact htrusted
      · rw [hb, hreplaced]
    · -- the same bundle with another file at a path that is no operand
      by_contra hne
      rw [not_or] at hne
      obtain ⟨file, hfile⟩ := exists_replace m a hne.2
      have hsame : verifiedBundle p m a = verifiedBundle p m (a.replace path file) := by
        refine verifiedBundle_congr rfl rfl fun operand hoperand => ?_
        refine (at_replace_other (fun heq => hne.1 ?_) file).symm
        rw [← heq]
        exact hoperand
      refine hfile (h a (a.replace path file) ?_ ?_ path hpath)
      · rw [ha]
        exact htrusted
      · rw [← hsame]
  · intro h a b htrusted heq path hpath
    have hnorm := norm_bundle hp htrusted heq
    cases ha : verifiedBundle p m a with
    | none =>
        rw [ha] at htrusted
        rw [h.unverified htrusted path hpath]
        exact content_manifest
    | some bundle =>
        rw [ha] at htrusted hnorm
        obtain ⟨bundle', hb, hsame⟩ := Option.map_eq_some_iff.mp hnorm.symm
        rcases h.verified a bundle ha htrusted path hpath with hoperand | rfl
        · exact content_of_norm hp ha hb hsame.symm hoperand
        · exact content_manifest

end Exact

/-! ## A plugin with a script, and with two -/

/-- The files that a list of simple commands runs, its operators being words of
their own. -/
def listedScripts (command : Text) : List Text :=
  let words := (Security.shlexStep .blank [] command).getD []
  (words.splitOnP fun w => [txt "&&", txt "||", txt ";", txt "|", txt "&"].contains w).filterMap
    bundleScriptOperand

/-- The digests at hand, and for what is not at hand a text that tells it from
everything else. -/
def tableDigest {α : Type} [DecidableEq α] (rows : List (α × Text)) (other : α → Text) (x : α) :
    Text :=
  (SortedMap.get? x rows).getD (List.replicate 65 '0' ++ other x)

theorem tableDigest_inj {α : Type} [DecidableEq α] {rows : List (α × Text)} {other : α → Text}
    (hdigests : (rows.map Prod.snd).Nodup) (hlength : ∀ row ∈ rows, row.2.length = 64)
    (hother : ∀ x y, other x = other y → x = y) (x y : α)
    (h : tableDigest rows other x = tableDigest rows other y) : x = y := by
  have hrow : ∀ {z d}, SortedMap.get? z rows = some d → d.length = 64 :=
    fun hz => hlength _ (SortedMap.mem_of_get? hz)
  unfold tableDigest at h
  cases hx : SortedMap.get? x rows with
  | none =>
      cases hy : SortedMap.get? y rows with
      | none =>
          rw [hx, hy] at h
          exact hother x y (List.append_cancel_left h)
      | some d =>
          rw [hx, hy] at h
          have hlen := congrArg List.length h
          rw [Option.getD_none, Option.getD_some, hrow hy, List.length_append,
            List.length_replicate] at hlen
          omega
  | some d =>
      cases hy : SortedMap.get? y rows with
      | none =>
          rw [hx, hy] at h
          have hlen := congrArg List.length h
          rw [Option.getD_none, Option.getD_some, hrow hx, List.length_append,
            List.length_replicate] at hlen
          omega
      | some d' =>
          rw [hx, hy] at h
          have hsame : d = d' := h
          have hinj := List.inj_on_of_nodup_map hdigests (SortedMap.mem_of_get? hx)
            (SortedMap.mem_of_get? hy) hsame
          exact congrArg Prod.fst hinj

/-- The bytes of an ASCII text. -/
def fileBytes (t : Text) : List UInt8 := t.map fun c => UInt8.ofNat c.toNat

def oneScript : Text := txt "./a.sh"

def twoScripts : Text := txt "./a.sh && ./b.sh"

/-- The manifest with one command. -/
def demoManifest (command : Text) : Manifest where
  bytes := fileBytes (txt "\x7b\"hooks\":\x7b\"PostToolUse\":[\x7b\"matcher\":\"Write\"," ++
    txt "\"hooks\":[\x7b\"command\":\"" ++ command ++ txt "\"\x7d]\x7d]\x7d\x7d")
  fields := [(txt "hooks", .obj [(txt "PostToolUse", .arr [.obj [(txt "matcher", .str (txt "Write")),
    (txt "hooks", .arr [.obj [(txt "command", .str command)]])]])])]

def demoRegistration (command : Text) : Registration where
  source := txt "plugin:demo"
  event := txt "PostToolUse"
  matcher := some (.str (txt "Write"))
  command := command
  bundle := none

/-- The provenance of a bundle where `./a.sh` is the script. -/
def demoProvenance (manifestDigest : Text) : Fields :=
  bundleFields (txt "demo") manifestDigest [(txt "./a.sh", .str (txt "sha256:" ++
    txt "28d3b9e880a77975493dc7e359144c0295a4f694cfe0af4f928c22307bc5c320"))]

/-- The text of a declaration. -/
def declarationText (command : Text) (bundle : Option Fields) : Text :=
  Json.asciiDumps (toJson (.obj (declaration ((demoRegistration command).under bundle)
    (txt "Write"))))

def oneProvenance : Fields := demoProvenance (txt "sha256:" ++
  txt "9a5259d018645e11f616c1b4130fd12a045d04f9a71a565bf0fbeec6485ac477")

def twoProvenance : Fields := demoProvenance (txt "sha256:" ++
  txt "6d9471edd1a1d616e9798ccd7b782ff25b652139bf8d2e765f57ac5838b4cd03")

def textRows : List (Text × Text) :=
  [(declarationText oneScript none,
      txt "76061ab331581fe4a4e6aef6b5a981b24bc986448098f476ae068e82dfab099e"),
    (declarationText oneScript (some oneProvenance),
      txt "fa28f6ed01afb8ab26db59702a5d51bf26851a218cfd8812ec9c5cfc95d16d6c"),
    (declarationText twoScripts (some twoProvenance),
      txt "3cd76fa91944cdad42883547d2c18834b26dd9f5ed6fe46e654076addbb8d4f3")]

def fileRows : List (List UInt8 × Text) :=
  [(fileBytes (txt "exit 0\n"),
      txt "28d3b9e880a77975493dc7e359144c0295a4f694cfe0af4f928c22307bc5c320"),
    ((demoManifest oneScript).bytes,
      txt "9a5259d018645e11f616c1b4130fd12a045d04f9a71a565bf0fbeec6485ac477"),
    ((demoManifest twoScripts).bytes,
      txt "6d9471edd1a1d616e9798ccd7b782ff25b652139bf8d2e765f57ac5838b4cd03")]

def demoPlatform : BundlePlatform where
  toHost := Host.ascii (tableDigest textRows id)
  compactJson d := Json.asciiDumps (toJson (.obj d))
  sha256Bytes := tableDigest fileRows fun bytes => bytes.map fun b => Char.ofNat b.toNat

theorem demo_collisionFree : CollisionFree demoPlatform where
  text := tableDigest_inj (by decide) (by decide) fun _ _ h => h
  bytes := by
    refine tableDigest_inj (by decide) (by decide) fun x y h => ?_
    refine List.map_injective_iff.mpr (fun b c hbc => ?_) h
    have hchar : ∀ b : UInt8, (Char.ofNat b.toNat).toNat = b.toNat := by
      intro b
      have hlt : b.toNat < 256 := b.toNat_lt
      have hvalid : b.toNat.isValidChar := .inl (by omega)
      rw [Char.ofNat, dif_pos hvalid]
      rfl
    exact UInt8.toNat_inj.mp (by rw [← hchar b, ← hchar c, hbc])
  compactJson _ _ h := Json.asciiDumps_inj h

/-- The digest of a declaration is trusted as report-only. -/
def demoTrust (digest : Text) : Trust :=
  [(txt "plugin:demo", [(txt "sha256:" ++ digest, txt "post_tool_persistence")])]

/-- A single script is pinned by a digest with its bundle. -/
theorem single_script_pinned :
    Pinned demoPlatform
      (demoTrust (txt "fa28f6ed01afb8ab26db59702a5d51bf26851a218cfd8812ec9c5cfc95d16d6c"))
      (demoManifest oneScript) listedScripts (demoRegistration oneScript) := by
  refine (pinned_iff demo_collisionFree).mpr ⟨fun htrusted => ?_, fun _ _ _ _ path hpath => ?_⟩
  · exfalso
    revert htrusted
    unfold trusted
    decide +kernel
  · left
    have hall : ∀ path ∈ listedScripts (demoRegistration oneScript).command,
        path ∈ operands (demoManifest oneScript) := by decide +kernel
    exact hall path hpath

/-- A bundle where both scripts are the same. -/
def demoBundle : Bundle where
  id := txt "demo"
  manifestLinks := 1
  files path := if [txt "./a.sh", txt "./b.sh"].contains path then
    some ⟨fileBytes (txt "exit 0\n"), false, true, 1⟩ else none

/-- The bundle after an edit of `./b.sh`. -/
def editedBundle : Bundle :=
  demoBundle.replace (txt "./b.sh") (some ⟨fileBytes (txt "exit 1\n"), false, true, 1⟩)

/-- **The second script of a list can be edited under a trusted digest.** -/
theorem second_script_not_pinned :
    CollisionFree demoPlatform ∧
      ¬Pinned demoPlatform
        (demoTrust (txt "3cd76fa91944cdad42883547d2c18834b26dd9f5ed6fe46e654076addbb8d4f3"))
        (demoManifest twoScripts) listedScripts (demoRegistration twoScripts) := by
  refine ⟨demo_collisionFree, fun h => ?_⟩
  have hbundle : verifiedBundle demoPlatform (demoManifest twoScripts) demoBundle =
      some twoProvenance := by rfl
  have hedited : verifiedBundle demoPlatform (demoManifest twoScripts) editedBundle =
      some twoProvenance := by rfl
  have htrusted : trusted demoPlatform (demoTrust
      (txt "3cd76fa91944cdad42883547d2c18834b26dd9f5ed6fe46e654076addbb8d4f3"))
      (demoRegistration twoScripts) (some twoProvenance) := by
    unfold trusted
    decide +kernel
  have hcontent := h demoBundle editedBundle (by rw [hbundle]; exact htrusted)
    (by rw [hbundle, hedited]) (txt "./b.sh") (by decide +kernel)
  revert hcontent
  decide +kernel

end RalphVault.HookGraph
