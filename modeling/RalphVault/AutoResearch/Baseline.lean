import Mathlib
import RalphVault.AutoResearch.Packets
import RalphVault.Outcome

/-!
# AutoResearch — the baseline

`latest_baseline` and `direction_delta` of `common.py`, as `run_next` uses
them: the values of the latest metric in the entries that were kept or are a
baseline, of which the policy takes one. No entry is asked for its segment.

The ledger holds JSON objects without `NaN` and `Infinity`, which do not count
as values.
-/

namespace RalphVault.AutoResearch.Baseline

open Memory AutoResearch
open Outcome (bind_eq_ok map_eq_ok)

/-- The arithmetic of floats. -/
structure Arithmetic where
  /-- `float(n)`, unless it overflows. -/
  ofInt : Int → Option Rat
  /-- `round(a - b, 6)`. -/
  difference : Rat → Rat → Rat

/-- An `AutoResearchError`, or an error of the interpreter. -/
inductive Failure where
  | autoResearch (message : Text)
  | python

/-- What is measured: the metrics that the benchmark prints. -/
abbrev Metrics := List (Text × Rat)

section Functions

variable (host : Host) (floats : Arithmetic)

/-! ## Values -/

/-- `float(value)` if `is_finite_number(value)`; an integer may overflow. -/
def finiteNumber : Value → Except Failure (Option Rat)
  | .bool b => .ok (some (if b then 1 else 0))
  | .int n => match floats.ofInt n with
      | some q => .ok (some q)
      | none => .error .python
  | .float q => .ok (some q)
  | .str t => .ok (host.floatOf t)
  | _ => .ok none

/-- `d.get(key)` for a key of any type. -/
def getKey (d : Fields) : Value → Except Failure Value
  | .str k => .ok (d.getD k .null)
  | .arr _ => .error .python
  | .obj _ => .error .python
  | _ => .ok .null

/-- `entry.get("status") in {"keep", "baseline"}`. -/
def isCounted (entry : Fields) : Except Failure Bool :=
  match entry.getD (txt "status") .null with
  | .str t => .ok (t == txt "keep" || t == txt "baseline")
  | .arr _ => .error .python
  | .obj _ => .error .python
  | _ => .ok false

/-- `entry.get("metrics") or {}`. -/
def metricsOf (entry : Fields) : Except Failure Fields :=
  let value := entry.getD (txt "metrics") .null
  if truthy value then
    match value with
    | .obj metrics => .ok metrics
    | _ => .error .python
  else .ok []

/-- The value that one entry adds to the candidates, if any. -/
def entryValue (metric : Value) (entry : Fields) : Except Failure (Option Rat) :=
  (isCounted entry).bind fun counted =>
    if counted then
      (metricsOf entry).bind fun metrics =>
        (getKey metrics metric).bind fun value => finiteNumber host floats value
    else .ok none

/-- `candidates`. -/
def candidates (metric : Value) : List Fields → Except Failure (List Rat)
  | [] => .ok []
  | entry :: entries =>
      (entryValue host floats metric entry).bind fun value =>
        (candidates metric entries).map fun values => value.toList ++ values

/-! ## The baseline -/

def supportedPolicies : List Text := [txt "initial", txt "latest_kept", txt "best_kept"]

/-- `baseline_policy_from_config`. -/
def baselinePolicyFromConfig (config : Fields) : Except Failure Text :=
  let given := config.getD (txt "baseline_policy") .null
  let policy := if truthy given then pyStr host given else txt "best_kept"
  if policy ∈ supportedPolicies then .ok policy
  else .error (.autoResearch (txt "unsupported baseline_policy: " ++ policy))

def isDirection (name : Text) : Value → Bool
  | .str t => t == name
  | _ => false

/-- What the policy takes of the candidates, which are not empty. -/
def select (direction : Value) (policy : Text) (values : List Rat) : Except Failure (Option Rat) :=
  if policy = txt "initial" then .ok values.head?
  else if policy = txt "latest_kept" then .ok values.getLast?
  else if policy = txt "best_kept" then
    if isDirection (txt "lower") direction then .ok values.min?
    else if isDirection (txt "higher") direction then .ok values.max?
    else .error (.autoResearch (txt "best_kept baseline policy requires direction"))
  else .error (.autoResearch (txt "unsupported baseline_policy: " ++ policy))

/-- `latest_baseline`. -/
def latestBaseline (entries : List Fields) (metric direction : Value) (policy : Text) :
    Except Failure (Option Rat) :=
  (candidates host floats metric entries).bind fun values =>
    if values = [] then .ok none else select direction policy values

/-- `direction_delta` of a measured value. -/
def directionDelta (baseline : Option Rat) (value : Rat) (direction : Value) : Option Rat :=
  baseline.map fun b =>
    if isDirection (txt "lower") direction then floats.difference b value
    else floats.difference value b

/-- `config[key]`. -/
def required (config : Fields) (key : Text) : Except Failure Value :=
  match config.get? key with
  | some value => .ok value
  | none => .error .python

/-- `metrics.get(metric_name)`. -/
def measured (metrics : Metrics) : Value → Except Failure (Option Rat)
  | .str k => .ok (SortedMap.get? k metrics)
  | .arr _ => .error .python
  | .obj _ => .error .python
  | _ => .ok none

/-- The baseline and the delta of a packet. -/
structure Comparison where
  baseline : Option Rat
  delta : Option Rat
deriving DecidableEq

/-- `run_next` under a configuration, as far as the baseline and the delta go. -/
def compare (entries : List Fields) (config : Fields) (metrics : Metrics) : Except Failure Comparison :=
  (required config (txt "metric")).bind fun metric =>
    (measured metrics metric).bind fun value =>
      (baselinePolicyFromConfig host config).bind fun policy =>
        (required config (txt "direction")).bind fun direction =>
          (latestBaseline host floats entries metric direction policy).map fun kept =>
            let baseline := kept.or value
            { baseline, delta := value.bind fun v => directionDelta floats baseline v direction }

/-- `run_next`, as far as the baseline and the delta go. -/
def runNext (entries : List Fields) (metrics : Metrics) : Except Failure Comparison :=
  match latestConfig entries with
  | some config => compare host floats entries config metrics
  | none => .error (.autoResearch
      (txt "missing config entry in autoresearch.jsonl; run setup first"))

end Functions

/-! ## What is counted -/

variable {host : Host} {floats : Arithmetic} {entry : Fields} {metric direction : Value}
  {policy : Text} {values : List Rat} {before after entries : List Fields}

def isConfig (entry : Fields) : Bool :=
  match entry.get? (txt "entry_type") with
  | some (.str t) => t == txt "config"
  | _ => false

/-- The policy takes this one of the values. -/
inductive Chosen (direction : Value) : Text → List Rat → Rat → Prop where
  | initial {b : Rat} {rest : List Rat} : Chosen direction (txt "initial") (b :: rest) b
  | latestKept {b : Rat} {front : List Rat} :
      Chosen direction (txt "latest_kept") (front ++ [b]) b
  | lowest {values : List Rat} {b : Rat} (hlower : direction = .str (txt "lower")) (hmem : b ∈ values)
      (hleast : ∀ v ∈ values, b ≤ v) : Chosen direction (txt "best_kept") values b
  | highest {values : List Rat} {b : Rat} (hhigher : direction = .str (txt "higher"))
      (hmem : b ∈ values) (hgreatest : ∀ v ∈ values, v ≤ b) :
      Chosen direction (txt "best_kept") values b

theorem isDirection_iff {name : Text} : isDirection name direction = true ↔ direction = .str name := by
  cases direction <;> simp [isDirection]

/-- What is selected is what the policy chooses. -/
theorem chosen_of_select {b : Rat} (h : select direction policy values = .ok (some b)) :
    Chosen direction policy values b := by
  rw [select] at h
  split at h
  · rename_i hpolicy
    obtain ⟨rest, rfl⟩ := List.head?_eq_some_iff.mp (Except.ok.inj h)
    exact hpolicy ▸ .initial
  · split at h
    · rename_i hpolicy
      obtain ⟨front, rfl⟩ := List.getLast?_eq_some_iff.mp (Except.ok.inj h)
      exact hpolicy ▸ .latestKept
    · split at h
      · rename_i hpolicy
        split at h
        · rename_i hlower
          obtain ⟨hmem, hleast⟩ := List.min?_eq_some_iff.mp (Except.ok.inj h)
          exact hpolicy ▸ .lowest (isDirection_iff.mp hlower) hmem hleast
        · split at h
          · rename_i hhigher
            obtain ⟨hmem, hgreatest⟩ := List.max?_eq_some_iff.mp (Except.ok.inj h)
            exact hpolicy ▸ .highest (isDirection_iff.mp hhigher) hmem hgreatest
          · cases h
      · cases h

/-- The value of an entry that was kept or is a baseline. -/
def keptValue (host : Host) (floats : Arithmetic) (metric : Value) (entry : Fields) : Option Rat :=
  match entryValue host floats metric entry with
  | .ok value => value
  | .error _ => none

/-- The entry was kept or is a baseline, and its metrics have this finite value. -/
structure Counted (host : Host) (floats : Arithmetic) (metric : Value) (entry : Fields) (v : Rat) :
    Prop where
  status : entry.getD (txt "status") .null = .str (txt "keep") ∨
    entry.getD (txt "status") .null = .str (txt "baseline")
  value : ∃ (metrics : Fields) (key : Text),
    entry.getD (txt "metrics") .null = .obj metrics ∧ metric = .str key ∧
    finiteNumber host floats (metrics.getD key .null) = .ok (some v)

theorem isCounted_iff : isCounted entry = .ok true ↔
    entry.getD (txt "status") .null = .str (txt "keep") ∨
      entry.getD (txt "status") .null = .str (txt "baseline") := by
  rw [isCounted]
  cases entry.getD (txt "status") .null <;> simp

theorem finiteNumber_null : finiteNumber host floats .null = .ok none := rfl

/-- Only such a value is counted. -/
theorem counted_of_entryValue {v : Rat} (h : entryValue host floats metric entry = .ok (some v)) :
    Counted host floats metric entry v := by
  obtain ⟨counted, hcounted, h⟩ := bind_eq_ok.1 h
  split at h
  · rename_i htrue
    subst htrue
    obtain ⟨metrics, hmetrics, h⟩ := bind_eq_ok.1 h
    obtain ⟨value, hvalue, h⟩ := bind_eq_ok.1 h
    refine ⟨isCounted_iff.mp hcounted, ?_⟩
    have hkey : ∃ key, metric = .str key ∧ value = metrics.getD key .null := by
      rw [getKey.eq_def] at hvalue
      split at hvalue
      · exact ⟨_, rfl, (Except.ok.inj hvalue).symm⟩
      · cases hvalue
      · cases hvalue
      · rw [← Except.ok.inj hvalue, finiteNumber_null] at h
        cases h
    obtain ⟨key, rfl, rfl⟩ := hkey
    have hobject : entry.getD (txt "metrics") .null = .obj metrics := by
      simp only [metricsOf] at hmetrics
      split at hmetrics
      · split at hmetrics
        · rename_i hfields
          rw [hfields, Except.ok.inj hmetrics]
        · cases hmetrics
      · rw [← Except.ok.inj hmetrics] at h
        cases h
    exact ⟨metrics, key, hobject, rfl, h⟩
  · cases h

/-- The values that count. -/
theorem keptValue_eq_some_iff {v : Rat} : keptValue host floats metric entry = some v ↔
    Counted host floats metric entry v := by
  constructor
  · intro h
    rw [keptValue] at h
    split at h
    · rename_i value hvalue
      exact counted_of_entryValue (hvalue.trans (congrArg Except.ok h))
    · cases h
  · rintro ⟨hstatus, metrics, key, hmetrics, rfl, hvalue⟩
    have htruthy : truthy (.obj metrics) = true := by
      cases metrics with
      | nil => cases hvalue
      | cons m metrics => rfl
    have hobject : metricsOf entry = .ok metrics := by
      simp only [metricsOf, hmetrics, htruthy, if_true]
    have hentry : entryValue host floats (.str key) entry = .ok (some v) := by
      rw [entryValue, isCounted_iff.mpr hstatus]
      show (metricsOf entry).bind _ = _
      rw [hobject]
      exact hvalue
    rw [keptValue, hentry]

theorem candidates_eq_ok (h : candidates host floats metric entries = .ok values) :
    values = entries.filterMap (keptValue host floats metric) := by
  induction entries generalizing values with
  | nil => exact (Except.ok.inj h).symm
  | cons entry entries ih =>
      obtain ⟨value, hvalue, h⟩ := bind_eq_ok.1 h
      obtain ⟨rest, hrest, rfl⟩ := map_eq_ok.1 h
      have hkept : keptValue host floats metric entry = value := by rw [keptValue, hvalue]
      rw [List.filterMap_cons, hkept, ih hrest]
      cases value <;> rfl

theorem candidates_ignored (hentry : entryValue host floats metric entry = .ok none) :
    candidates host floats metric (before ++ entry :: after) =
      candidates host floats metric (before ++ after) := by
  induction before with
  | nil =>
      rw [List.nil_append, List.nil_append, candidates, hentry]
      show (candidates host floats metric after).map (fun values => [] ++ values) = _
      cases candidates host floats metric after <;> rfl
  | cons first before ih => rw [List.cons_append, candidates, ih, List.cons_append, candidates]

theorem latestConfig_eq (entries : List Fields) :
    latestConfig entries = entries.reverse.find? isConfig := rfl

theorem latestConfig_ignored (before : List Fields)
    (h : isConfig entry = false ∨ ∃ c ∈ after, isConfig c = true) :
    latestConfig (before ++ entry :: after) = latestConfig (before ++ after) := by
  rw [latestConfig_eq, latestConfig_eq, List.reverse_append, List.reverse_append, List.reverse_cons]
  simp only [List.find?_append]
  rcases h with h | ⟨c, hc, hconfig⟩
  · rw [List.find?_cons_of_neg (by simp [h]), List.find?_nil, Option.or_none]
  · have hsome : (after.reverse.find? isConfig).isSome = true :=
      List.find?_isSome.mpr ⟨c, List.mem_reverse.mpr hc, hconfig⟩
    obtain ⟨found, hfound⟩ := Option.isSome_iff_exists.mp hsome
    rw [hfound]
    rfl

/-! ## The law -/

/-- What `run_next` compares a packet with. -/
structure BaselineLaw (host : Host) (floats : Arithmetic) (entries : List Fields) (metrics : Metrics) :
    Prop where
  /-- The values that count are those of kept entries and baselines. -/
  counted : ∀ metric entry v,
    keptValue host floats metric entry = some v ↔ Counted host floats metric entry v
  /-- The baseline is the policy's choice among the values of the latest metric
  that were kept in the ledger, or the measured value if there is none. -/
  chosen : ∀ r, runNext host floats entries metrics = .ok r →
    ∃ config metric direction policy value, latestConfig entries = some config ∧
      config.get? (txt "metric") = some metric ∧ config.get? (txt "direction") = some direction ∧
      baselinePolicyFromConfig host config = .ok policy ∧ measured metrics metric = .ok value ∧
      (entries.filterMap (keptValue host floats metric) = [] → r.baseline = value) ∧
      (entries.filterMap (keptValue host floats metric) ≠ [] → ∃ b, r.baseline = some b ∧
        Chosen direction policy (entries.filterMap (keptValue host floats metric)) b) ∧
      r.delta = value.bind fun v => directionDelta floats r.baseline v direction
  /-- An entry that has no such value and is not the latest configuration changes
  neither the baseline nor the delta. -/
  ignored : ∀ before entry after config metric, entries = before ++ entry :: after →
    latestConfig entries = some config → config.get? (txt "metric") = some metric →
    entryValue host floats metric entry = .ok none →
    (isConfig entry = false ∨ ∃ c ∈ after, isConfig c = true) →
    runNext host floats entries metrics = runNext host floats (before ++ after) metrics

theorem select_isSome {r : Option Rat} (h : select direction policy values = .ok r)
    (hne : values ≠ []) : ∃ b, r = some b := by
  obtain ⟨v, rest, rfl⟩ := List.exists_cons_of_ne_nil hne
  rw [select] at h
  split at h
  · exact ⟨v, (Except.ok.inj h).symm⟩
  · split at h
    · exact ⟨_, (Except.ok.inj h).symm.trans (List.getLast?_eq_some_getLast (by simp))⟩
    · split at h
      · split at h
        · exact ⟨_, (Except.ok.inj h).symm.trans List.min?_cons'⟩
        · split at h
          · exact ⟨_, (Except.ok.inj h).symm.trans List.max?_cons'⟩
          · cases h
      · cases h

theorem latestBaseline_eq_ok {kept : Option Rat}
    (h : latestBaseline host floats entries metric direction policy = .ok kept) :
    (entries.filterMap (keptValue host floats metric) = [] → kept = none) ∧
      (entries.filterMap (keptValue host floats metric) ≠ [] → ∃ b, kept = some b ∧
        Chosen direction policy (entries.filterMap (keptValue host floats metric)) b) := by
  obtain ⟨values, hvalues, h⟩ := bind_eq_ok.1 h
  rw [← candidates_eq_ok hvalues]
  split at h
  · rename_i hnil
    exact ⟨fun _ => (Except.ok.inj h).symm, fun hne => absurd hnil hne⟩
  · rename_i hne
    obtain ⟨b, rfl⟩ := select_isSome h hne
    exact ⟨fun hnil => absurd hnil hne, fun _ => ⟨b, rfl, chosen_of_select h⟩⟩

theorem required_eq_ok {config : Fields} {key : Text} {value : Value}
    (h : required config key = .ok value) : config.get? key = some value := by
  rw [required] at h
  split at h
  · rename_i hget
    rw [hget, Except.ok.inj h]
  · cases h

theorem latestBaseline_ignored (hentry : entryValue host floats metric entry = .ok none) :
    latestBaseline host floats (before ++ entry :: after) metric direction policy =
      latestBaseline host floats (before ++ after) metric direction policy := by
  rw [latestBaseline, latestBaseline, candidates_ignored hentry]

/-- **The baseline of every ledger**: from the values that were kept under the
latest metric, in whichever segment. -/
theorem baseline_of_ledger (host : Host) (floats : Arithmetic) (entries : List Fields)
    (metrics : Metrics) : BaselineLaw host floats entries metrics where
  counted := fun _ _ _ => keptValue_eq_some_iff
  chosen := by
    intro r h
    rw [runNext] at h
    split at h
    · rename_i config hconfig
      obtain ⟨metric, hmetric, h⟩ := bind_eq_ok.1 h
      obtain ⟨value, hvalue, h⟩ := bind_eq_ok.1 h
      obtain ⟨policy, hpolicy, h⟩ := bind_eq_ok.1 h
      obtain ⟨direction, hdirection, h⟩ := bind_eq_ok.1 h
      obtain ⟨kept, hkept, rfl⟩ := map_eq_ok.1 h
      obtain ⟨hnone, hsome⟩ := latestBaseline_eq_ok hkept
      refine ⟨config, metric, direction, policy, value, hconfig, required_eq_ok hmetric,
        required_eq_ok hdirection, hpolicy, hvalue, fun hnil => ?_, fun hne => ?_, rfl⟩
      · show kept.or value = value
        rw [hnone hnil, Option.none_or]
      · obtain ⟨b, rfl, hchosen⟩ := hsome hne
        exact ⟨b, rfl, hchosen⟩
    · cases h
  ignored := by
    intro before entry after config metric hentries hconfig hmetric hentry hlatest
    have hsame := latestConfig_ignored before hlatest
    rw [← hentries] at hsame
    have hrequired : required config (txt "metric") = .ok metric := by rw [required, hmetric]
    rw [runNext, runNext, ← hsame, hconfig]
    show compare host floats entries config metrics = compare host floats _ config metrics
    rw [compare, compare, hrequired, hentries]
    show (measured metrics metric).bind _ = (measured metrics metric).bind _
    simp only [latestBaseline_ignored hentry]

/-! ## An earlier segment -/

/-- The segment of an entry. -/
def segmentOf (entry : Fields) : Text :=
  match entry.get? (txt "segment_id") with
  | some (.str t) => t
  | _ => []

def configEntry (segment direction : Text) : Fields :=
  [(txt "entry_type", .str (txt "config")), (txt "segment_id", .str segment),
    (txt "status", .str (txt "config")), (txt "metric", .str (txt "seconds")),
    (txt "direction", .str direction), (txt "baseline_policy", .str (txt "best_kept"))]

def keptEntry (segment : Text) (value : Int) : Fields :=
  [(txt "entry_type", .str (txt "packet")), (txt "segment_id", .str segment),
    (txt "status", .str (txt "keep")), (txt "metrics", .obj [(txt "seconds", .int value)])]

/-- A packet was kept in a first segment, where lower is better; in the second
one higher is better. -/
def twoSegments : List Fields :=
  [configEntry (txt "first") (txt "lower"), keptEntry (txt "first") 5,
    configEntry (txt "second") (txt "higher")]

/-- Whole numbers. -/
def wholeFloats : Arithmetic where
  ofInt n := some n
  difference a b := a - b

def baselineOf : Except Failure Comparison → Option Rat
  | .ok r => r.baseline
  | .error _ => none

/-- The packet of the second segment is compared with the value of the first. -/
theorem earlier_segment_is_baseline : ¬∀ (entries : List Fields) (metrics : Metrics) (config : Fields),
    latestConfig entries = some config → runNext (Host.ascii id) wholeFloats entries metrics =
      runNext (Host.ascii id) wholeFloats
        (entries.filter fun entry => segmentOf entry = segmentOf config) metrics := by
  intro h
  have hsame := h twoSegments [(txt "seconds", 3)] (configEntry (txt "second") (txt "higher")) rfl
  have hbaseline := congrArg baselineOf hsame
  exact absurd hbaseline (by decide +kernel)

end RalphVault.AutoResearch.Baseline
