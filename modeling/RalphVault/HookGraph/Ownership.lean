import RalphVault.HookGraph.Analyzer

/-!
# Hook graph — ownership

Which lists of configurations the analyzer accepts, said of their
registrations, and who then owns a domain. A plugin whose command is named
like a blocking dispatcher is counted as an owner like any other source: only
the report-only names are checked against a trusted declaration.
-/

namespace RalphVault.HookGraph

open Memory

/-! ## Roles and domains -/

section Tables

variable {role : Text} {d : Domain}

theorem domainForRole_of_blocking (h : role ∈ d.blockingRoles) : domainForRole role = some d := by
  cases d <;>
    simp only [Domain.blockingRoles, List.mem_cons, List.not_mem_nil, or_false] at h <;>
    rcases h with rfl | rfl | rfl <;> decide

theorem not_reportOnly_of_blocking (h : role ∈ d.blockingRoles) : role ∉ d.reportOnlyRoles := by
  cases d <;>
    simp only [Domain.blockingRoles, List.mem_cons, List.not_mem_nil, or_false] at h <;>
    rcases h with rfl | rfl | rfl <;> decide

theorem isBlockingRole_of_mem (h : role ∈ d.blockingRoles) : isBlockingRole role = true := by
  unfold isBlockingRole
  rw [List.any_eq_true]
  exact ⟨d, by cases d <;> decide, by simpa using h⟩

/-- A blocking role blocks in its own domain. -/
theorem mem_blockingRoles (hdomain : domainForRole role = some d)
    (hblocking : isBlockingRole role = true) : role ∈ d.blockingRoles := by
  unfold isBlockingRole at hblocking
  obtain ⟨d', -, hd'⟩ := List.any_eq_true.mp hblocking
  have hrole : role ∈ d'.blockingRoles := by simpa using hd'
  have heq : some d' = some d := (domainForRole_of_blocking hrole).symm.trans hdomain
  cases heq
  exact hrole

theorem domainForRole_nil : domainForRole [] = none := by decide

theorem Domain.mem_all (d : Domain) : d ∈ Domain.all := by cases d <;> decide

theorem legacy_role_blocks :
    domainForRole (txt "anti_rationalization_stop") = some .stopCompletion := by decide

end Tables

/-! ## Registrations -/

/-- The registrations of some configurations. -/
def commandsOf (vs : List Visit) : List Registration :=
  vs.filterMap fun v => match v with
    | .command r => some r
    | .malformed _ => none

/-- The role a registration is read as. -/
def Registration.role (r : Registration) : Text := (roleForCommand r.command).getD []

/-- Whether a registration is read as blocking in a domain, under its event. -/
def Registration.guards (r : Registration) (d : Domain) : Bool :=
  r.event == d.event && d.blockingRoles.contains r.role

/-- Whether a global registration stands back for the project. -/
def Registration.standsBack (r : Registration) (d : Domain) (rs : List Registration) : Bool :=
  [txt "global", txt "global-dry-run"].contains r.source &&
    contains (txt "global_hook_dispatch.py") r.command &&
    rs.any fun other => other.source == txt "project" && other.guards d && other.role == r.role

/-- The registrations that own a domain. -/
def owning (rs : List Registration) (d : Domain) : List Registration :=
  rs.filter fun r => r.guards d && !r.standsBack d rs

/-- The entry of an owner. -/
def Registration.guardEntry (r : Registration) (d : Domain) : HookEntry :=
  ⟨r.event, r.role, r.source, r.command, true, some d⟩

section Analysis

variable (p : Platform) (trust : Trust)

def registrations (configs : List Config) : List Registration := commandsOf (visits p configs)

/-- What the analyzer accepts of one registration. -/
def Admissible (r : Registration) : Prop :=
  match domainForRole r.role with
  | none => (trustedReportOnlyDomain p trust r).isSome = true ∨
      isPlugin r.source = false ∨ guardedEvent r.event = false
  | some d => (isPlugin r.source = true → r.role ∈ d.reportOnlyRoles →
      trustedReportOnlyDomain p trust r = some d) ∧ d.event = r.event

/-- Whether a registration is evidence for a domain. -/
def Concerns (r : Registration) (d : Domain) : Prop :=
  match domainForRole r.role with
  | none => trustedReportOnlyDomain p trust r = some d
  | some d' => d' = d

/-- The lists of configurations that pass the analyzer. -/
structure Acceptable (required : List Text) (configs : List Config) : Prop where
  known : ∀ t ∈ required, ∃ d : Domain, d.name = t
  readable : ∀ r ∈ registrations p configs, (roleForCommand r.command).isSome = true
  wellFormed : ∀ v ∈ visits p configs, ∃ r, v = .command r
  admissible : ∀ r ∈ registrations p configs, Admissible p trust r
  modern : ∀ r ∈ registrations p configs, r.role ≠ txt "anti_rationalization_stop"
  owned : ∀ d : Domain, d.name ∈ required → ∃ r, owning (registrations p configs) d = [r]
  idle : ∀ d : Domain, d.name ∉ required → ∀ r ∈ registrations p configs, ¬Concerns p trust r d

end Analysis

/-! ## One judgement -/

section Judgement

variable {p : Platform} {trust : Trust} {r : Registration} {d : Domain}

theorem trusted_isPlugin (h : trustedReportOnlyDomain p trust r = some d) :
    isPlugin r.source = true := by
  unfold trustedReportOnlyDomain at h
  split at h
  · cases h
  · simpa using ‹¬(!isPlugin r.source) = true›

theorem unclassified_errors {message : Text} {entries : List HookEntry} :
    (unclassified r message entries).errors = [] ↔
      isPlugin r.source = false ∨ guardedEvent r.event = false := by
  unfold unclassified
  split
  · rename_i h
    simp only [Bool.and_eq_true] at h
    simp [h.1, h.2]
  · rename_i h
    simp only [Bool.and_eq_true, not_and, Bool.not_eq_true] at h
    refine iff_of_true rfl ?_
    cases hplugin : isPlugin r.source with
    | false => exact .inl rfl
    | true => exact .inr (h hplugin)

theorem judgeRole_errors : (judgeRole p trust r r.role).errors = [] ↔ Admissible p trust r := by
  unfold judgeRole Admissible
  dsimp only
  cases hdomain : domainForRole r.role with
  | none =>
      cases htrusted : trustedReportOnlyDomain p trust r with
      | some d =>
          -- a trusted declaration is accepted, with or without a role
          have hplugin : isPlugin r.source = true := trusted_isPlugin htrusted
          simp only [hplugin, if_true]
          split <;> simp [reportOnly]
      | none =>
          dsimp only
          split
          · simp [unclassified_errors]
          · split
            · simp [unclassified_errors]
            · rename_i hplugin
              simp [hplugin]
  | some d =>
      have hrole : r.role.isEmpty = false := by
        cases hr : r.role with
        | nil =>
            rw [hr, domainForRole_nil] at hdomain
            cases hdomain
        | cons c cs => rfl
      simp only [hrole, Bool.false_eq_true, if_false]
      split
      · rename_i h
        simp only [Bool.and_eq_true, bne_iff_ne, ne_eq, List.contains_iff_mem] at h
        simp [h.1.1, h.1.2, h.2]
      · rename_i h
        simp only [Bool.and_eq_true, bne_iff_ne, ne_eq, List.contains_iff_mem, not_and,
          not_not] at h
        split
        · rename_i hevent
          simp [hevent]
        · rename_i hevent
          refine iff_of_true rfl ⟨fun hplugin hreport => h ⟨hplugin, hreport⟩, not_not.mp hevent⟩

theorem judgeRole_legacy :
    (judgeRole p trust r r.role).legacy = (r.role == txt "anti_rationalization_stop") := by
  have hother (h : domainForRole r.role = none) :
      (r.role == txt "anti_rationalization_stop") = false := by
    rw [beq_eq_false_iff_ne]
    intro heq
    rw [heq, legacy_role_blocks] at h
    cases h
  unfold judgeRole
  dsimp only
  split
  · rename_i hempty
    have hnil : r.role = [] := List.isEmpty_iff.mp hempty
    rw [hother (hnil ▸ domainForRole_nil)]
    split
    · rfl
    · unfold unclassified
      split <;> rfl
  · split
    · rename_i hdomain
      rw [hother hdomain]
      split
      · split
        · rfl
        · unfold unclassified
          split <;> rfl
      · rfl
    · split
      · rfl
      · split <;> rfl

/-- What one judgement gives a domain of blocking entries: itself, if it guards
the domain. -/
theorem judgeRole_guard :
    (judgeRole p trust r r.role).entries.filter (fun e => e.domain == some d && e.blocking) =
      if r.guards d then [r.guardEntry d] else [] := by
  have hunguarded (h : domainForRole r.role = none) : r.guards d = false := by
    by_contra hguards
    simp only [Registration.guards, Bool.not_eq_false, Bool.and_eq_true,
      List.contains_iff_mem] at hguards
    rw [domainForRole_of_blocking hguards.2] at h
    cases h
  have hunclassified (message : Text) (entries : List HookEntry)
      (h : ∀ e ∈ entries, e.blocking = false) :
      (unclassified r message entries).entries.filter
        (fun e => e.domain == some d && e.blocking) = [] := by
    have hentries : (unclassified r message entries).entries = entries := by
      unfold unclassified
      split <;> rfl
    rw [hentries, List.filter_eq_nil_iff]
    intro e he
    simp [h e he]
  unfold judgeRole
  dsimp only
  split
  · rename_i hempty
    have hnil : r.role = [] := List.isEmpty_iff.mp hempty
    rw [hunguarded (hnil ▸ domainForRole_nil), if_neg Bool.false_ne_true]
    split
    · simp [reportOnly]
    · exact hunclassified _ _ (by simp)
  · split
    · rename_i hdomain
      rw [hunguarded hdomain, if_neg Bool.false_ne_true]
      split
      · split
        · simp [reportOnly]
        · exact hunclassified _ _ (by simp)
      · simp
    · rename_i d' hdomain
      by_cases hguards : r.guards d = true
      · -- a blocking role is in its own domain and is not report-only
        have hmem : r.event = d.event ∧ r.role ∈ d.blockingRoles := by
          simpa [Registration.guards] using hguards
        have hd : d = d' := by
          have h := (domainForRole_of_blocking hmem.2).symm.trans hdomain
          exact Option.some.inj h
        subst hd
        rw [if_pos hguards, if_neg, if_neg]
        · simp [isBlockingRole_of_mem hmem.2, Registration.guardEntry]
        · simp [hmem.1]
        · simp [not_reportOnly_of_blocking hmem.2]
      · rw [if_neg hguards]
        split
        · rfl
        · split
          · rfl
          · rename_i hevent
            rw [List.filter_eq_nil_iff]
            intro e he
            obtain rfl := List.mem_singleton.mp he
            intro hblocking
            apply hguards
            simp only [Bool.and_eq_true, beq_iff_eq, Option.some.injEq] at hblocking
            obtain ⟨rfl, hblocking⟩ := hblocking
            simp only [Registration.guards, Bool.and_eq_true, beq_iff_eq, List.contains_iff_mem]
            exact ⟨(not_not.mp hevent).symm, mem_blockingRoles hdomain hblocking⟩

/-- The evidence an accepted registration leaves. -/
theorem judgeRole_concerns (h : Admissible p trust r) :
    (∃ e ∈ (judgeRole p trust r r.role).entries, e.domain = some d) ↔ Concerns p trust r d := by
  have hunclassified (message : Text) (entries : List HookEntry)
      (hentries : ∀ e ∈ entries, e.domain = none) :
      ¬∃ e ∈ (unclassified r message entries).entries, e.domain = some d := by
    rintro ⟨e, he, hdomain⟩
    have hkept : (unclassified r message entries).entries = entries := by
      unfold unclassified
      split <;> rfl
    rw [hkept] at he
    rw [hentries e he] at hdomain
    cases hdomain
  unfold judgeRole Concerns
  unfold Admissible at h
  dsimp only
  cases hdomain : domainForRole r.role with
  | none =>
      cases htrusted : trustedReportOnlyDomain p trust r with
      | some t =>
          have hplugin : isPlugin r.source = true := trusted_isPlugin htrusted
          simp only [hplugin, if_true]
          split <;> simp [reportOnly]
      | none =>
          refine iff_of_false ?_ (by simp)
          dsimp only
          split
          · exact hunclassified _ _ (by simp)
          · split
            · exact hunclassified _ _ (by simp)
            · simp
  | some t =>
      have hrole : r.role.isEmpty = false := by
        cases hr : r.role with
        | nil =>
            rw [hr, domainForRole_nil] at hdomain
            cases hdomain
        | cons c cs => rfl
      rw [hdomain] at h
      simp only [hrole, Bool.false_eq_true, if_false]
      rw [if_neg, if_neg]
      · simp
      · simp [h.2]
      · intro hclaims
        simp only [Bool.and_eq_true, bne_iff_ne, ne_eq, List.contains_iff_mem] at hclaims
        exact hclaims.2 (h.1 hclaims.1.1 hclaims.1.2)

end Judgement

/-! ## The walk -/

section Walk

variable {p : Platform} {trust : Trust}

/-- What is found at a visit, unless the analysis raises. -/
def found (p : Platform) (trust : Trust) : Visit → Findings
  | .malformed error => ⟨[], [], [error], false⟩
  | .command r => judgeRole p trust r r.role

theorem inspect_eq {v : Visit} {f : Findings} (h : inspect p trust v = some f) :
    f = found p trust v := by
  cases v with
  | malformed error =>
      cases h
      rfl
  | command r =>
      obtain ⟨role, hrole, rfl⟩ := Option.map_eq_some_iff.mp h
      simp [found, Registration.role, hrole]

theorem mapM_inspect {vs : List Visit} {fs : List Findings}
    (h : vs.mapM (inspect p trust) = some fs) :
    fs = vs.map (found p trust) ∧
      ∀ r ∈ commandsOf vs, (roleForCommand r.command).isSome = true := by
  induction vs generalizing fs with
  | nil =>
      cases h
      exact ⟨rfl, by simp [commandsOf]⟩
  | cons v vs ih =>
      simp only [List.mapM_cons, Option.bind_eq_bind, Option.bind_eq_some_iff] at h
      obtain ⟨f, hf, fs', hfs, h⟩ := h
      cases h
      obtain ⟨rfl, hroles⟩ := ih hfs
      refine ⟨by rw [inspect_eq hf]; rfl, ?_⟩
      cases v with
      | malformed error => exact hroles
      | command r =>
          intro r' hr'
          obtain rfl | hr' := List.mem_cons.mp (show r' ∈ r :: commandsOf vs from hr')
          · obtain ⟨role, hrole, -⟩ := Option.map_eq_some_iff.mp hf
            simp [hrole]
          · exact hroles r' hr'

theorem mapM_inspect_of_readable {vs : List Visit}
    (h : ∀ r ∈ commandsOf vs, (roleForCommand r.command).isSome = true) :
    vs.mapM (inspect p trust) = some (vs.map (found p trust)) := by
  induction vs with
  | nil => rfl
  | cons v vs ih =>
      cases v with
      | malformed error =>
          rw [List.mapM_cons, ih h]
          rfl
      | command r =>
          have hrest := ih fun r' hr' => h r' (List.mem_cons_of_mem r hr')
          obtain ⟨role, hrole⟩ := Option.isSome_iff_exists.mp (h r List.mem_cons_self)
          rw [List.mapM_cons, hrest]
          simp [inspect, judge, hrole, found, Registration.role]

variable (p trust)

/-- All that is found in some visits. -/
def foundIn (vs : List Visit) : Findings := .concat (vs.map (found p trust))

variable {p trust}

theorem foundIn_owners_raw (vs : List Visit) (d : Domain) :
    (foundIn p trust vs).entries.filter (fun e => e.domain == some d && e.blocking) =
      ((commandsOf vs).filter (·.guards d)).map (·.guardEntry d) := by
  induction vs with
  | nil => rfl
  | cons v vs ih =>
      have hcons : (foundIn p trust (v :: vs)).entries =
          (found p trust v).entries ++ (foundIn p trust vs).entries := rfl
      rw [hcons, List.filter_append, ih]
      cases v with
      | malformed error => rfl
      | command r =>
          have hcommands : commandsOf (.command r :: vs) = r :: commandsOf vs := rfl
          rw [hcommands, List.filter_cons, show (found p trust (.command r)) =
            judgeRole p trust r r.role from rfl, judgeRole_guard]
          cases r.guards d <;> rfl

theorem mem_commandsOf {vs : List Visit} {r : Registration} :
    r ∈ commandsOf vs ↔ Visit.command r ∈ vs := by
  simp only [commandsOf, List.mem_filterMap]
  constructor
  · rintro ⟨v, hv, h⟩
    cases v with
    | malformed error => cases h
    | command r' =>
        cases h
        exact hv
  · intro h
    exact ⟨_, h, rfl⟩

theorem foundIn_errors {vs : List Visit} :
    (foundIn p trust vs).errors = [] ↔
      (∀ v ∈ vs, ∃ r, v = .command r) ∧ ∀ r ∈ commandsOf vs, Admissible p trust r := by
  have hflat : (foundIn p trust vs).errors = [] ↔ ∀ v ∈ vs, (found p trust v).errors = [] := by
    simp [foundIn, Findings.concat, List.flatMap_eq_nil_iff]
  rw [hflat]
  constructor
  · intro h
    constructor
    · intro v hv
      cases v with
      | malformed error => cases h _ hv
      | command r => exact ⟨r, rfl⟩
    · intro r hr
      exact judgeRole_errors.mp (h _ (mem_commandsOf.mp hr))
  · rintro ⟨hformed, hadmissible⟩ v hv
    obtain ⟨r, rfl⟩ := hformed v hv
    exact judgeRole_errors.mpr (hadmissible r (mem_commandsOf.mpr hv))

theorem foundIn_legacy {vs : List Visit} :
    (foundIn p trust vs).legacy = false ↔
      ∀ r ∈ commandsOf vs, r.role ≠ txt "anti_rationalization_stop" := by
  have hany : (foundIn p trust vs).legacy = false ↔ ∀ v ∈ vs, (found p trust v).legacy = false := by
    simp [foundIn, Findings.concat]
  rw [hany]
  constructor
  · intro h r hr
    have hlegacy : (judgeRole p trust r r.role).legacy = false := h _ (mem_commandsOf.mp hr)
    rwa [judgeRole_legacy, beq_eq_false_iff_ne] at hlegacy
  · intro h v hv
    cases v with
    | malformed error => rfl
    | command r =>
        show (judgeRole p trust r r.role).legacy = false
        rw [judgeRole_legacy, beq_eq_false_iff_ne]
        exact h r (mem_commandsOf.mpr hv)

theorem foundIn_evidence {vs : List Visit} {d : Domain}
    (h : ∀ r ∈ commandsOf vs, Admissible p trust r) :
    (∃ e ∈ (foundIn p trust vs).entries, e.domain = some d) ↔
      ∃ r ∈ commandsOf vs, Concerns p trust r d := by
  constructor
  · rintro ⟨e, he, hdomain⟩
    obtain ⟨f, hf, he⟩ := List.mem_flatMap.mp he
    obtain ⟨v, hv, rfl⟩ := List.mem_map.mp hf
    cases v with
    | malformed error => cases he
    | command r =>
        have hr := mem_commandsOf.mpr hv
        exact ⟨r, hr, (judgeRole_concerns (h r hr)).mp ⟨e, he, hdomain⟩⟩
  · rintro ⟨r, hr, hconcerns⟩
    obtain ⟨e, he, hdomain⟩ := (judgeRole_concerns (h r hr)).mpr hconcerns
    refine ⟨e, List.mem_flatMap.mpr ⟨_, List.mem_map_of_mem (mem_commandsOf.mp hr), he⟩, hdomain⟩

theorem judgeRole_blocking_domain {r : Registration} {e : HookEntry}
    (he : e ∈ (judgeRole p trust r r.role).entries) (hblocking : e.blocking = true) :
    ∃ d, e.domain = some d := by
  have hunclassified {message : Text} {entries : List HookEntry}
      (h : ∀ e ∈ entries, e.blocking = false)
      (he : e ∈ (unclassified r message entries).entries) : False := by
    have hkept : (unclassified r message entries).entries = entries := by
      unfold unclassified
      split <;> rfl
    rw [hkept] at he
    rw [h e he] at hblocking
    cases hblocking
  unfold judgeRole at he
  dsimp only at he
  split at he
  · split at he
    · obtain rfl := List.mem_singleton.mp he
      exact ⟨_, rfl⟩
    · exact absurd he (fun he => hunclassified (by simp) he)
  · split at he
    · split at he
      · split at he
        · obtain rfl := List.mem_singleton.mp he
          exact ⟨_, rfl⟩
        · exact absurd he (fun he => hunclassified (by simp) he)
      · obtain rfl := List.mem_singleton.mp he
        cases hblocking
    · split at he
      · cases he
      · split at he
        · cases he
        · obtain rfl := List.mem_singleton.mp he
          exact ⟨_, rfl⟩

theorem mem_guards {vs : List Visit} {d : Domain} {e : HookEntry} :
    (e ∈ (foundIn p trust vs).entries ∧ e.domain = some d ∧ e.blocking = true) ↔
      ∃ r ∈ commandsOf vs, r.guards d = true ∧ e = r.guardEntry d := by
  have hmem : e ∈ (foundIn p trust vs).entries.filter (fun e => e.domain == some d && e.blocking) ↔
      e ∈ ((commandsOf vs).filter (·.guards d)).map (·.guardEntry d) := by
    rw [foundIn_owners_raw]
  simp only [List.mem_filter, Bool.and_eq_true, beq_iff_eq, List.mem_map] at hmem
  rw [hmem]
  constructor
  · rintro ⟨r, ⟨hr, hguards⟩, rfl⟩
    exact ⟨r, hr, hguards, rfl⟩
  · rintro ⟨r, hr, hguards, rfl⟩
    exact ⟨r, ⟨hr, hguards⟩, rfl⟩

/-- The suppression of an entry is that of its registration. -/
theorem suppressed_guardEntry {vs : List Visit} {r : Registration} {d : Domain}
    (hguards : r.guards d = true) :
    suppressedGlobalRegistration (r.guardEntry d) (foundIn p trust vs).entries =
      r.standsBack d (commandsOf vs) := by
  have hr : r.event = d.event ∧ r.role ∈ d.blockingRoles := by
    simpa [Registration.guards] using hguards
  have hany : ((foundIn p trust vs).entries.any fun other =>
        other.source == txt "project" && other.event == (r.guardEntry d).event &&
          other.role == (r.guardEntry d).role && other.blocking) =
      (commandsOf vs).any fun other =>
        other.source == txt "project" && other.guards d && other.role == r.role := by
    rw [Bool.eq_iff_iff, List.any_eq_true, List.any_eq_true]
    constructor
    · rintro ⟨e, he, h⟩
      simp only [Bool.and_eq_true, beq_iff_eq] at h
      obtain ⟨⟨⟨hsource, -⟩, hrole⟩, hblocking⟩ := h
      obtain ⟨f, hf, he'⟩ := List.mem_flatMap.mp he
      obtain ⟨v, hv, rfl⟩ := List.mem_map.mp hf
      obtain ⟨d', hd'⟩ : ∃ d', e.domain = some d' := by
        cases v with
        | malformed error => cases he'
        | command r' => exact judgeRole_blocking_domain he' hblocking
      obtain ⟨other, hother, hguards', rfl⟩ := mem_guards.mp ⟨he, hd', hblocking⟩
      have hrole : other.role = r.role := hrole
      -- the same role blocks in the same domain
      have hsame : d' = d := by
        have hd' : r.role ∈ d'.blockingRoles := by
          simp only [Registration.guards, Bool.and_eq_true, List.contains_iff_mem] at hguards'
          exact hrole ▸ hguards'.2
        exact Option.some.inj
          ((domainForRole_of_blocking hd').symm.trans (domainForRole_of_blocking hr.2))
      subst hsame
      refine ⟨other, hother, ?_⟩
      simp only [Bool.and_eq_true, beq_iff_eq]
      exact ⟨⟨hsource, hguards'⟩, hrole⟩
    · rintro ⟨other, hother, h⟩
      simp only [Bool.and_eq_true, beq_iff_eq] at h
      obtain ⟨⟨hsource, hguards'⟩, hrole⟩ := h
      obtain ⟨hmem, -, -⟩ := mem_guards.mpr ⟨other, hother, hguards', rfl⟩
      refine ⟨other.guardEntry d, hmem, ?_⟩
      have hevent : other.event = d.event := by
        simp only [Registration.guards, Bool.and_eq_true, beq_iff_eq] at hguards'
        exact hguards'.1
      simp only [Bool.and_eq_true, beq_iff_eq]
      exact ⟨⟨⟨hsource, hevent.trans hr.1.symm⟩, hrole⟩, rfl⟩
  unfold suppressedGlobalRegistration Registration.standsBack
  rw [← hany]
  have hsource : (r.guardEntry d).source = r.source := rfl
  have hcommand : (r.guardEntry d).command = r.command := rfl
  rw [hsource, hcommand]
  cases [txt "global", txt "global-dry-run"].contains r.source <;>
    cases contains (txt "global_hook_dispatch.py") r.command <;> rfl

/-- The owners the analyzer counts are the owning registrations. -/
theorem owners_foundIn (vs : List Visit) (d : Domain) :
    owners (foundIn p trust vs).entries d =
      (owning (commandsOf vs) d).map (·.guardEntry d) := by
  have hsplit : owners (foundIn p trust vs).entries d =
      ((foundIn p trust vs).entries.filter (fun e => e.domain == some d && e.blocking)).filter
        (fun e => !suppressedGlobalRegistration e (foundIn p trust vs).entries) := by
    unfold owners
    rw [List.filter_filter]
    apply List.filter_congr
    intro e _
    rw [Bool.and_comm]
  rw [hsplit, foundIn_owners_raw, List.filter_map, List.filter_filter]
  unfold owning
  congr 1
  apply List.filter_congr
  intro r _
  cases hguards : r.guards d with
  | false => simp
  | true =>
      simp only [Function.comp_apply, Bool.and_true, Bool.true_and]
      rw [suppressed_guardEntry hguards]

end Walk

/-! ## Acceptance -/

section Acceptance

variable {p : Platform} {trust : Trust} {required : List Text} {configs : List Config}

theorem sortedTexts_eq_nil {ts : List Text} : sortedTexts ts = [] ↔ ts = [] := by
  unfold sortedTexts
  constructor
  · intro h
    have hperm := List.perm_insertionSort (fun t u : Text => textLt u t = false) ts.eraseDups
    rw [h] at hperm
    have hnil : ts.eraseDups = [] := List.nil_perm.mp hperm
    cases ts with
    | nil => rfl
    | cons t ts =>
        rw [List.eraseDups_cons] at hnil
        cases hnil
  · rintro rfl
    rfl

theorem inspectDomain_errors {entries : List HookEntry} {d : Domain} :
    (inspectDomain required entries d).2.2 = [] ↔
      if d.name ∈ required then ∃ e, owners entries d = [e]
      else ¬∃ e ∈ entries, e.domain = some d := by
  have hperm : (sortedOwners entries d).Perm (owners entries d) := List.perm_insertionSort _ _
  unfold inspectDomain
  dsimp only
  by_cases hrequired : d.name ∈ required
  · rw [if_pos hrequired, if_neg (by simpa using hrequired)]
    cases hsorted : sortedOwners entries d with
    | nil =>
        rw [hsorted] at hperm
        rw [List.nil_perm.mp hperm]
        simp
    | cons e es =>
        rw [hsorted] at hperm
        cases es with
        | nil =>
            rw [← List.singleton_perm.mp hperm]
            simp
        | cons e' es =>
            refine iff_of_false (by simp) ?_
            rintro ⟨only, honly⟩
            rw [honly] at hperm
            simpa using hperm.length_eq
  · rw [if_neg hrequired, if_pos (by simpa using hrequired)]
    have hempty : ((entries.filter fun e => e.domain == some d).map HookEntry.label).isEmpty = true ↔
        ¬∃ e ∈ entries, e.domain = some d := by
      simp [List.filter_eq_nil_iff]
    split
    · rename_i h
      exact iff_of_true rfl (hempty.mp h)
    · rename_i h
      exact iff_of_false (by simp) (fun hnone => h (hempty.mpr hnone))

theorem reportOn_fail {found : Findings} :
    (reportOn required found).status ≠ .fail ↔
      unknownDomains required = [] ∧ found.errors = [] ∧
        (∀ d, (inspectDomain required found.entries d).2.2 = []) ∧ found.legacy = false := by
  have hdomains : (Domain.all.map (inspectDomain required found.entries)).flatMap (·.2.2) = [] ↔
      ∀ d, (inspectDomain required found.entries d).2.2 = [] := by
    simp [List.flatMap_eq_nil_iff, Domain.mem_all]
  have hstatus (errors warnings : List Text) :
      (if !errors.isEmpty then Status.fail else if !warnings.isEmpty then .warn else .pass) ≠ .fail ↔
        errors = [] := by
    cases errors with
    | nil => cases warnings <;> simp
    | cons e es => simp
  unfold reportOn
  dsimp only
  rw [hstatus, List.append_eq_nil_iff, List.append_eq_nil_iff, List.append_eq_nil_iff, hdomains]
  cases hunknown : unknownDomains required with
  | nil => cases found.legacy <;> simp
  | cons t ts => simp

theorem unknownDomains_eq_nil : unknownDomains required = [] ↔ ∀ t ∈ required, ∃ d : Domain, d.name = t := by
  unfold unknownDomains
  rw [sortedTexts_eq_nil, List.filter_eq_nil_iff]
  apply forall₂_congr
  intro t _
  simp only [Bool.not_eq_true', Bool.not_eq_false, List.any_eq_true, beq_iff_eq]
  constructor
  · rintro ⟨d, -, h⟩
    exact ⟨d, h⟩
  · rintro ⟨d, h⟩
    exact ⟨d, d.mem_all, h⟩

/-- The analyzer's report, when it gives one. -/
theorem analyze_eq_some {report : Report} :
    analyzeHookGraph p trust required configs = some report ↔
      (∀ r ∈ registrations p configs, (roleForCommand r.command).isSome = true) ∧
        report = reportOn required (foundIn p trust (visits p configs)) := by
  unfold analyzeHookGraph
  constructor
  · intro h
    obtain ⟨fs, hfs, rfl⟩ := Option.map_eq_some_iff.mp h
    obtain ⟨rfl, hroles⟩ := mapM_inspect hfs
    exact ⟨hroles, rfl⟩
  · rintro ⟨hroles, rfl⟩
    rw [mapM_inspect_of_readable hroles]
    rfl

/-- A list of configurations passes exactly when it is acceptable. -/
theorem analyze_ne_fail :
    (∃ report, analyzeHookGraph p trust required configs = some report ∧ report.status ≠ .fail) ↔
      Acceptable p trust required configs := by
  constructor
  · rintro ⟨report, h, hstatus⟩
    obtain ⟨hreadable, rfl⟩ := analyze_eq_some.mp h
    obtain ⟨hknown, herrors, hdomains, hlegacy⟩ := reportOn_fail.mp hstatus
    obtain ⟨hformed, hadmissible⟩ := foundIn_errors.mp herrors
    refine ⟨unknownDomains_eq_nil.mp hknown, hreadable, hformed, hadmissible,
      foundIn_legacy.mp hlegacy, ?_, ?_⟩
    · intro d hd
      have howner := inspectDomain_errors.mp (hdomains d)
      rw [if_pos hd, owners_foundIn] at howner
      obtain ⟨e, he⟩ := howner
      obtain ⟨r, hr, -⟩ := List.map_eq_singleton_iff.mp he
      exact ⟨r, hr⟩
    · intro d hd r hr hconcerns
      have hidle := inspectDomain_errors.mp (hdomains d)
      rw [if_neg hd, foundIn_evidence hadmissible] at hidle
      exact hidle ⟨r, hr, hconcerns⟩
  · intro h
    refine ⟨_, analyze_eq_some.mpr ⟨h.readable, rfl⟩, ?_⟩
    refine reportOn_fail.mpr ⟨unknownDomains_eq_nil.mpr h.known,
      foundIn_errors.mpr ⟨h.wellFormed, h.admissible⟩, ?_, foundIn_legacy.mpr h.modern⟩
    intro d
    rw [inspectDomain_errors]
    split
    · rename_i hd
      obtain ⟨r, hr⟩ := h.owned d hd
      rw [owners_foundIn]
      exact ⟨r.guardEntry d, by rw [show commandsOf (visits p configs) = registrations p configs from rfl, hr]; rfl⟩
    · rename_i hd
      rw [foundIn_evidence h.admissible]
      rintro ⟨r, hr, hconcerns⟩
      exact h.idle d hd r hr hconcerns

end Acceptance

/-! ## Plugins as owners -/

/-- The configurations a domain may be owned by. -/
def ownerSources : List Text := [txt "project", txt "global", txt "global-dry-run"]

/-- The configuration of a plugin. -/
def pluginConfig (name : Text) (config : Value) : Config := (txt "plugin:" ++ name, config)

/-- Each required domain has one effective blocking registration, of the
project or of the global configuration. -/
def Report.Owned (required : List Text) (report : Report) : Prop :=
  ∀ d : Domain, d.name ∈ required →
    ∃ e, owners report.entries d = [e] ∧ ownerSources.contains e.source = true

section Plugins

variable (p : Platform) (trust : Trust) (required : List Text) (configs : List Config)

/-- What a report that is not FAIL says about ownership. -/
def OwnershipHolds : Prop :=
  ∀ report, analyzeHookGraph p trust required configs = some report → report.status ≠ .fail →
    report.Owned required

/-- A further configuration does not repair a list that is FAIL. -/
def FailurePersists (config : Config) : Prop :=
  (∃ report, analyzeHookGraph p trust required configs = some report ∧ report.status = .fail) →
    ∀ report, analyzeHookGraph p trust required (configs ++ [config]) = some report →
      report.status = .fail

/-- Only the project and the global configuration guard the required domains. -/
def OwnersGuard : Prop :=
  ∀ d : Domain, d.name ∈ required → ∀ r ∈ registrations p configs, r.guards d = true →
    ownerSources.contains r.source = true

/-- A configuration guards no required domain. -/
def GuardsNothing (config : Config) : Prop :=
  ∀ d : Domain, d.name ∈ required → ∀ r ∈ registrations p [config], r.guards d = false

variable {p trust required configs}

theorem registrations_append (cs : List Config) :
    registrations p (configs ++ cs) = registrations p configs ++ registrations p cs := by
  simp [registrations, visits, commandsOf, List.flatMap_append, List.filterMap_append]

theorem registration_source {config : Config} {r : Registration}
    (hr : r ∈ registrations p [config]) : r.source = config.1 := by
  have hvisit : Visit.command r ∈ visitConfig p config := by
    simpa [visits] using mem_commandsOf.mp hr
  have hchild {source event : Text} {matcher bundle : Option Value} {child : Value}
      (h : visitChild p source event matcher bundle child = .command r) : r.source = source := by
    unfold visitChild at h
    split at h
    · cases h
      rfl
    · cases h
  have hgroup {source event : Text} {bundle : Option Value} {group : Value}
      (h : Visit.command r ∈ visitGroup p source event bundle group) : r.source = source := by
    unfold visitGroup at h
    split at h
    · split at h
      · obtain ⟨child, -, hr⟩ := List.mem_map.mp h
        exact hchild hr
      · cases List.mem_singleton.mp h
    · cases List.mem_singleton.mp h
  unfold visitConfig at hvisit
  split at hvisit
  · split at hvisit
    · obtain ⟨entry, -, hentry⟩ := List.mem_flatMap.mp hvisit
      unfold visitEvent at hentry
      split at hentry
      · obtain ⟨group, -, hr⟩ := List.mem_flatMap.mp hentry
        exact hgroup hr
      · cases List.mem_singleton.mp hentry
    · cases List.mem_singleton.mp hvisit
  · cases List.mem_singleton.mp hvisit

theorem plugin_source {name : Text} {config : Value} {r : Registration}
    (hr : r ∈ registrations p [pluginConfig name config]) :
    ownerSources.contains r.source = false := by
  rw [registration_source hr, ← Bool.not_eq_true, List.contains_iff_mem]
  intro h
  have hhead : (pluginConfig name config).1.take 7 = txt "plugin:" := rfl
  simp only [ownerSources, List.mem_cons, List.not_mem_nil, or_false] at h
  rcases h with h | h | h <;>
    · rw [h] at hhead
      revert hhead
      decide

/-- Owners from elsewhere than the project and the global configuration are
added to the ones there are. -/
theorem owning_append {rs others : List Registration} {d : Domain}
    (h : ∀ r ∈ others, ownerSources.contains r.source = false) :
    owning (rs ++ others) d = owning rs d ++ others.filter (·.guards d) := by
  have hproject (r : Registration) : r.standsBack d (rs ++ others) = r.standsBack d rs := by
    have hnone : (others.any fun other =>
        other.source == txt "project" && other.guards d && other.role == r.role) = false := by
      rw [List.any_eq_false]
      intro other hother hclaims
      simp only [Bool.and_eq_true, beq_iff_eq] at hclaims
      have hfrom := h other hother
      rw [hclaims.1.1] at hfrom
      revert hfrom
      decide
    unfold Registration.standsBack
    rw [List.any_append, hnone, Bool.or_false]
  have hothers {r : Registration} (hr : r ∈ others) : r.standsBack d (rs ++ others) = false := by
    have hglobal : [txt "global", txt "global-dry-run"].contains r.source = false := by
      have hfrom := h r hr
      rw [← Bool.not_eq_true, List.contains_iff_mem] at hfrom ⊢
      exact fun hmem => hfrom (List.mem_cons_of_mem _ hmem)
    unfold Registration.standsBack
    rw [hglobal, Bool.false_and, Bool.false_and]
  have hkept : rs.filter (fun r => r.guards d && !r.standsBack d (rs ++ others)) =
      rs.filter (fun r => r.guards d && !r.standsBack d rs) := by
    apply List.filter_congr
    intro r _
    rw [hproject]
  have hadded : others.filter (fun r => r.guards d && !r.standsBack d (rs ++ others)) =
      others.filter (·.guards d) := by
    apply List.filter_congr
    intro r hr
    rw [hothers hr, Bool.not_false, Bool.and_true]
  unfold owning
  rw [List.filter_append, hkept, hadded]

theorem analyze_fail_of_readable
    (hreadable : ∀ r ∈ registrations p configs, (roleForCommand r.command).isSome = true)
    (h : ¬Acceptable p trust required configs) :
    ∃ report, analyzeHookGraph p trust required configs = some report ∧ report.status = .fail := by
  refine ⟨_, analyze_eq_some.mpr ⟨hreadable, rfl⟩, ?_⟩
  by_contra hstatus
  exact h (analyze_ne_fail.mp ⟨_, analyze_eq_some.mpr ⟨hreadable, rfl⟩, hstatus⟩)

/-- A plugin that guards nothing leaves acceptance as it was. -/
theorem acceptable_of_append {name : Text} {config : Value}
    (h : Acceptable p trust required (configs ++ [pluginConfig name config]))
    (hnothing : GuardsNothing p required (pluginConfig name config)) :
    Acceptable p trust required configs := by
  have hmem {r : Registration} (hr : r ∈ registrations p configs) :
      r ∈ registrations p (configs ++ [pluginConfig name config]) := by
    rw [registrations_append]
    exact List.mem_append_left _ hr
  refine
    { known := h.known
      readable := fun r hr => h.readable r (hmem hr)
      wellFormed := fun v hv => h.wellFormed v ?_
      admissible := fun r hr => h.admissible r (hmem hr)
      modern := fun r hr => h.modern r (hmem hr)
      owned := fun d hd => ?_
      idle := fun d hd r hr => h.idle d hd r (hmem hr) }
  · rw [visits, List.flatMap_append]
    exact List.mem_append_left _ hv
  · obtain ⟨r, hr⟩ := h.owned d hd
    rw [registrations_append, owning_append fun r hr => plugin_source hr] at hr
    have hempty : (registrations p [pluginConfig name config]).filter (·.guards d) = [] := by
      rw [List.filter_eq_nil_iff]
      intro r hr
      simp [hnothing d hd r hr]
    rw [hempty, List.append_nil] at hr
    exact ⟨r, hr⟩

theorem ownershipHolds_iff :
    OwnershipHolds p trust required configs ↔
      (Acceptable p trust required configs → OwnersGuard p required configs) := by
  constructor
  · intro h hacceptable d hd r hr hguards
    obtain ⟨report, hreport, hstatus⟩ := analyze_ne_fail.mpr hacceptable
    obtain ⟨e, he, hsource⟩ := h report hreport hstatus d hd
    obtain ⟨-, rfl⟩ := analyze_eq_some.mp hreport
    by_contra hforeign
    -- a registration from elsewhere never stands back, so it is the owner
    have hglobal : [txt "global", txt "global-dry-run"].contains r.source = false := by
      rw [← Bool.not_eq_true, List.contains_iff_mem]
      exact fun hmem => hforeign (List.contains_iff_mem.mpr (List.mem_cons_of_mem _ hmem))
    have hstands : r.standsBack d (registrations p configs) = false := by
      unfold Registration.standsBack
      rw [hglobal, Bool.false_and, Bool.false_and]
    have howning : r ∈ owning (registrations p configs) d := by
      rw [owning, List.mem_filter]
      exact ⟨hr, by rw [hguards, hstands]; rfl⟩
    have hentry : r.guardEntry d ∈ [e] := by
      rw [← he]
      show r.guardEntry d ∈ owners (foundIn p trust (visits p configs)).entries d
      rw [owners_foundIn]
      exact List.mem_map_of_mem howning
    rw [List.mem_singleton] at hentry
    rw [← hentry] at hsource
    exact hforeign hsource
  · intro h report hreport hstatus d hd
    have hacceptable := analyze_ne_fail.mp ⟨report, hreport, hstatus⟩
    obtain ⟨-, rfl⟩ := analyze_eq_some.mp hreport
    obtain ⟨r, hr⟩ := hacceptable.owned d hd
    have howning : r ∈ owning (registrations p configs) d := hr ▸ List.mem_singleton_self r
    obtain ⟨hmem, hguards⟩ := List.mem_filter.mp howning
    simp only [Bool.and_eq_true] at hguards
    refine ⟨r.guardEntry d, ?_, h hacceptable d hd r hmem hguards.1⟩
    show owners (foundIn p trust (visits p configs)).entries d = _
    rw [owners_foundIn, show commandsOf (visits p configs) = registrations p configs from rfl, hr]
    rfl

theorem failurePersists_iff {name : Text} {config : Value} :
    FailurePersists p trust required configs (pluginConfig name config) ↔
      (Acceptable p trust required (configs ++ [pluginConfig name config]) →
        GuardsNothing p required (pluginConfig name config)) := by
  constructor
  · intro h hacceptable d hd r hr
    by_contra hguards
    obtain ⟨only, honly⟩ := hacceptable.owned d hd
    rw [registrations_append, owning_append fun r hr => plugin_source hr] at honly
    have hlate : r ∈ (registrations p [pluginConfig name config]).filter (·.guards d) :=
      List.mem_filter.mpr ⟨hr, by simpa using hguards⟩
    -- the plugin is the owner, so the list had none before
    have hnone : owning (registrations p configs) d = [] := by
      have hlength := congrArg List.length honly
      have hpos := List.length_pos_of_mem hlate
      rw [List.length_append, List.length_singleton] at hlength
      exact List.length_eq_zero_iff.mp (by omega)
    have hbefore : ¬Acceptable p trust required configs := by
      intro hbefore
      obtain ⟨r, hr⟩ := hbefore.owned d hd
      rw [hnone] at hr
      cases hr
    have hreadable : ∀ r ∈ registrations p configs, (roleForCommand r.command).isSome = true := by
      intro r hr
      apply hacceptable.readable
      rw [registrations_append]
      exact List.mem_append_left _ hr
    obtain ⟨report, hreport, hstatus⟩ := analyze_ne_fail.mpr hacceptable
    exact hstatus (h (analyze_fail_of_readable hreadable hbefore) report hreport)
  · rintro h ⟨before, hbefore, hfail⟩ report hreport
    by_contra hstatus
    have hacceptable := analyze_ne_fail.mp ⟨report, hreport, hstatus⟩
    obtain ⟨before', hbefore', hpass⟩ :=
      analyze_ne_fail.mpr (acceptable_of_append hacceptable (h hacceptable))
    rw [hbefore] at hbefore'
    cases hbefore'
    exact hpass hfail

end Plugins

def Platform.ascii : Platform where
  toHost := Host.ascii Advisor.shortDigest
  compactJson d := Json.asciiDumps (toJson (.obj d))

/-- A configuration with one command for each of some events. -/
def commandsConfig (commands : List (Text × Text)) : Value :=
  .obj [(txt "hooks", .obj (commands.map fun c => (c.1, .arr [.obj [(txt "hooks",
    .arr [.obj [(txt "command", .str c.2)]])]])))]

def projectWithoutStop : Config :=
  (txt "project", commandsConfig
    [(txt "UserPromptSubmit", txt "python3 /repo/.codex/hooks/user_prompt_dispatch.py"),
     (txt "PreToolUse", txt "python3 /repo/.codex/hooks/security_pre_tool_dispatch.py"),
     (txt "PostToolUse", txt "python3 /repo/.codex/hooks/post_tool_dispatch.py")])

def stopSpoof : Config :=
  pluginConfig (txt "spoof") (commandsConfig [(txt "Stop", txt "python3 ./stop_dispatch.py")])

end RalphVault.HookGraph
