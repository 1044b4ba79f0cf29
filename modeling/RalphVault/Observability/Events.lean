import RalphVault.Blanks
import RalphVault.Observability.EventStore
import RalphVault.Schema

/-!
# Observability — events

`normalize_event` of `.codex/hooks/shared/runtime_observability.py`: an event
becomes a mapping of codes, digests, bounded numbers and flags. `record_event`
builds an event, which normalises it, and appends it, which normalises it once
more. What is read of a field reads back as itself, except for an identity that
was not given: it becomes `unknown`, and `unknown` becomes a digest.

Left out: texts with lone surrogates, whose digest raises, and how
`build_event` assembles the mapping that it normalises.
-/

namespace RalphVault.Observability.Events

open Schema
open Memory (compactSpace)
open Stop.Terminal (Digest isLowerHex)

/-! ## Values -/

/-- A value of an event: one of the types the normaliser asks for, where `items`
is a list, a tuple, or a set in the order of its iteration, or another one. -/
inductive Datum (ο : Type) where
  | none
  | bool (b : Bool)
  | int (n : Int)
  | str (t : Text)
  | items (vs : List (Datum ο))
  | other (o : ο)

abbrev Mapping (ο : Type) := List (Text × Datum ο)

/-- What `int` makes of a value; an error other than `TypeError` and
`ValueError` is raised. -/
inductive IntRead where
  | value (n : Int)
  | refused
  | raised

/-- The characters of `SAFE_CODE_RE`. -/
def isSafe (c : Char) : Bool :=
  isAsciiLower c || isAsciiDigit c || c == '_' || c == '.' || c == ':' || c == '-'

/-- The interpreter: on characters of a safe code `str.lower` does nothing. -/
structure Platform (ο : Type) where
  /-- `hashlib.sha256(…).hexdigest()[:24]`. -/
  digest24 : Text → Digest 24
  lower : Text → Text
  lower_safe : ∀ t, (∀ c ∈ t, isSafe c = true) → lower t = t
  intOfText : Text → Option Int
  intOfOther : ο → IntRead
  truthyOther : ο → Bool

/-- The characters of a timestamp. -/
def isTimestampChar (c : Char) : Bool :=
  isAsciiDigit c || c == 'T' || c == ':' || c == '+' || c == '.' || c == 'Z' || c == '-'

/-- A reading of the clock, `_now_iso`. -/
structure Timestamp where
  text : Text
  nonempty : text ≠ []
  length_le : text.length ≤ 48
  chars : ∀ c ∈ text, isTimestampChar c = true

variable {ο : Type}

/-- `event.get(key)`. -/
def get (m : Mapping ο) (key : Text) : Datum ο := (SortedMap.get? key m).getD .none

section Readers

variable (p : Platform ο)

/-- `bool(value)`. -/
def truthy : Datum ο → Bool
  | .none => false
  | .bool b => b
  | .int n => n != 0
  | .str t => !t.isEmpty
  | .items vs => !vs.isEmpty
  | .other o => p.truthyOther o

/-- `int(value)`. -/
def toInt : Datum ο → IntRead
  | .none => .refused
  | .bool b => .value (if b then 1 else 0)
  | .int n => .value n
  | .str t => match p.intOfText t with
      | some n => .value n
      | Option.none => .refused
  | .items _ => .refused
  | .other o => p.intOfOther o

/-- `_bounded_int`. -/
def boundedInt (maximum : Int) (d : Datum ο) : Option (Datum ο) :=
  match toInt p d with
  | .value n => some (.int (max 0 (min n maximum)))
  | .refused => some (.int 0)
  | .raised => Option.none

/-- `_optional_bounded_int`. -/
def optionalBoundedInt (maximum : Int) : Datum ο → Option (Datum ο)
  | .none => some .none
  | d => match toInt p d with
      | .value n => some (.int (max 0 (min n maximum)))
      | .refused => some .none
      | .raised => Option.none

/-- `_bounded_bool`. -/
def boundedBool : Datum ο → Datum ο
  | .bool b => .bool b
  | _ => .none

/-- `_text`. -/
def text (limit : Nat) : Datum ο → Text
  | .str t => (compactSpace t).take limit
  | _ => []

/-- The text is a digest with the prefix. -/
def isDigestOf (mark t : Text) : Bool :=
  match afterPrefix (mark ++ ['-']) t with
  | some digits => decide (digits.length = 24) && digits.all isLowerHex
  | Option.none => false

/-- `_digest`. -/
def digest (mark : Text) (d : Datum ο) : Text :=
  let t := text 512 d
  if t = [] then []
  else if isDigestOf mark t then t
  else mark ++ '-' :: (p.digest24 t).text

/-- `SAFE_CODE_RE`. -/
def isSafeCode (t : Text) : Bool := decide (t ≠ []) && decide (t.length ≤ 96) && t.all isSafe

/-- `_code`. -/
def code (mark : Text) (d : Datum ο) : Text :=
  let t := p.lower (text 96 d)
  if isSafeCode t then t
  else if t = [] then [] else digest p mark (.str t)

/-- The loop of `_codes`. -/
def collect (mark : Text) (limit : Nat) : List (Datum ο) → List Text → List Text
  | [], result => result
  | item :: items, result =>
      let c := code p mark item
      let result := if c ≠ [] ∧ c ∉ result then result ++ [c] else result
      if limit ≤ result.length then result else collect mark limit items result

/-- `_codes`. -/
def codes (mark : Text) (limit : Nat) (d : Datum ο) : List Text :=
  collect p mark limit (match d with | .items vs => vs | d => [d]) []

/-- `_timestamp`. -/
def timestamp (now : Timestamp) (d : Datum ο) : Text :=
  let t := text 48 d
  if t ≠ [] ∧ t.all isTimestampChar = true then t else now.text

/-- `estimate_context_units`. -/
def estimateContextUnits (characters : Int) : Int := max 0 ((max 0 characters + 3) / 4)

/-- `value or default`. -/
def orElse (t default : Text) : Text := if t = [] then default else t

end Readers

/-! ## Configuration -/

def schemaVersion : Int := 1
def schemaName : Text := txt "ralph_runtime_overhead"
def maxEventBytes : Int := 16 * 1024

/-- `EVENTS`. -/
def events : List Text :=
  [txt "session_start", txt "user_prompt", txt "pre_tool", txt "post_tool", txt "stop",
    txt "subagent", txt "maintenance"]

def scopeValues : List Text := [txt "project", txt "global", txt "suppressed-global"]

def modelSources : List Text :=
  [txt "payload", txt "environment", txt "repository-default", txt "unknown"]

/-- `PRIVACY_DENYLIST`. -/
def privacyDenylist : List Text :=
  [txt "prompt", txt "raw_prompt", txt "assistant_response", txt "response", txt "tool_body",
    txt "tool_input", txt "tool_response", txt "memory_body", txt "memory", txt "transcript",
    txt "api_key", txt "secret", txt "credential", txt "wallet", txt "customer_data", txt "path",
    txt "workspace_root"]

def unknown : Text := txt "unknown"

/-! ## Fields -/

abbrev EventField (ο : Type) := Field Text (Datum ο)

section Fields

variable (p : Platform ο)

def constant (key : Text) (d : Datum ο) : EventField ο := ⟨key, fun _ => some (some d)⟩

/-- A field read off the value of its key. -/
def single (key : Text) (read : Datum ο → Option (Datum ο)) : EventField ο :=
  ⟨key, fun m => (read (get m key)).map some⟩

def total (key : Text) (read : Datum ο → Datum ο) : EventField ο :=
  single key fun d => some (read d)

def counter (key : Text) (maximum : Int) : EventField ο := single key (boundedInt p maximum)

def codeOr (key mark default : Text) : EventField ο :=
  total key fun d => .str (orElse (code p mark d) default)

def codesField (key mark : Text) (limit : Nat) : EventField ο :=
  total key fun d => .items ((codes p mark limit d).map .str)

/-- A flag with a default that the mapping decides. -/
def flagOr (key : Text) (default : Mapping ο → Bool) : EventField ο :=
  ⟨key, fun m => some (some (.bool (truthy p ((SortedMap.get? key m).getD (.bool (default m))))))⟩

/-- An identity: its digest or `unknown`. -/
def identity (key mark : Text) : EventField ο :=
  total key fun d => .str (orElse (digest p mark d) unknown)

/-- `name`. -/
def eventName (m : Mapping ο) : Text := code p (txt "event") (get m (txt "event"))

/-- `_project_id` of a value. -/
def projectId (d : Datum ο) : Text :=
  let t := text 64 d
  if EventStore.isProjectId t then t else []

/-- `model_source`. -/
def modelSource (d : Datum ο) : Text :=
  let candidate := p.lower (text 32 d)
  if candidate ∈ modelSources then candidate else unknown

def scopeOf : Datum ο → Text
  | .str t => if t ∈ scopeValues then t else txt "project"
  | _ => txt "project"

/-- `estimated_context_units`, from the output where it is not given. -/
def contextUnits : EventField ο where
  key := txt "estimated_context_units"
  read m :=
    match get m (txt "estimated_context_units") with
    | .none => (boundedInt p maxEventBytes (get m (txt "output_bytes"))).bind fun
        | .int n => (boundedInt p maxEventBytes (.int (estimateContextUnits n))).map some
        | _ => Option.none
    | d => (boundedInt p maxEventBytes d).map some

/-- `confidence`, which is left out where it has no code. -/
def confidence : EventField ο where
  key := txt "confidence"
  read m :=
    let c := code p (txt "confidence") (get m (txt "confidence"))
    some (if c = [] then Option.none else some (.str c))

def userSuppliedUsage : EventField ο where
  key := txt "user_supplied_usage"
  read m :=
    some (if truthy p ((SortedMap.get? (txt "user_supplied_usage") m).getD (.bool false)) then
      some (.bool true) else Option.none)

/-- The fields before the identities. -/
def opening (now : Timestamp) : List (EventField ο) :=
  [constant (txt "schema_version") (.int schemaVersion),
    constant (txt "schema_name") (.str schemaName),
    total (txt "timestamp") fun d => .str (timestamp now d),
    counter p (txt "monotonic_duration_ns") (10 ^ 15)]

def identities : List (EventField ο) :=
  [identity p (txt "session_id") (txt "session"),
    identity p (txt "turn_id") (txt "turn"),
    identity p (txt "task_signature") (txt "task")]

/-- The fields after the identities. -/
def metrics : List (EventField ο) :=
  [total (txt "project_id") fun d => .str (projectId d),
    total (txt "event") fun d => .str (code p (txt "event") d),
    codeOr p (txt "dispatcher") (txt "dispatcher") unknown,
    codeOr p (txt "profile") (txt "profile") (txt "conservative_unknown"),
    codeOr p (txt "model_family") (txt "model") unknown,
    total (txt "model_source") fun d => .str (modelSource p d),
    total (txt "model_verified") fun d => match boundedBool d with
      | .bool b => .bool b
      | _ => .bool false,
    codeOr p (txt "tool_family") (txt "tool") (txt "none"),
    codesField p (txt "components_considered") (txt "component") 16,
    codesField p (txt "components_executed") (txt "component") 16,
    codesField p (txt "components_skipped") (txt "component") 16,
    codesField p (txt "skipped_reason") (txt "skip") 16,
    counter p (txt "process_count") 128,
    counter p (txt "child_process_count") 128,
    counter p (txt "output_bytes") maxEventBytes,
    contextUnits p,
    single (txt "persistence_bytes") (optionalBoundedInt p (32 * 1024 * 1024)),
    flagOr p (txt "persistence_bytes_known") fun m =>
      match get m (txt "persistence_bytes") with
      | .none => false
      | _ => true,
    counter p (txt "persistence_files_written") 256,
    counter p (txt "persistence_replacements") 256,
    counter p (txt "persistence_appends") 256,
    counter p (txt "fsync_publications") 256,
    codesField p (txt "block_reason_code") (txt "block") 8,
    counter p (txt "continuation_count") 32,
    counter p (txt "advisor_count") 32,
    total (txt "cache_hit") boundedBool,
    total (txt "success") boundedBool,
    total (txt "source_scope") fun d => .str (scopeOf d),
    flagOr p (txt "duplicate_suppressed") fun _ => false,
    constant (txt "subscription_usage_measured") (.bool false),
    codeOr p (txt "scenario") (txt "scenario") (txt "unspecified"),
    flagOr p (txt "maintenance_deferred") fun m => decide (eventName p m = txt "maintenance"),
    confidence p,
    userSuppliedUsage p]

def fields (now : Timestamp) : List (EventField ο) := opening p now ++ (identities p ++ metrics p)

end Fields

/-! ## Normalising, appending and recording -/

/-- What `normalize_event` returns, or that it raises. -/
inductive Outcome (ο : Type) where
  | accepted (event : Mapping ο)
  | rejected
  | raised

section Record

variable (p : Platform ο)

/-- `normalize_event`. -/
def normalizeEvent (now : Timestamp) (event : Mapping ο) : Outcome ο :=
  if privacyDenylist.any fun key => (SortedMap.get? key event).isSome then .rejected
  else if eventName p event ∉ events then .rejected
  else if projectId (get event (txt "project_id")) = [] then .rejected
  else
    match readAll (fields p now) event with
    | some normalized => .accepted normalized
    | Option.none => .raised

/-- `append_event`: the project and the event that are stored, if any. -/
def appendEvent (now : Timestamp) (context : Option Text) (event : Mapping ο) :
    Option (Text × Mapping ο) :=
  match normalizeEvent p now event with
  | .accepted normalized =>
      some (projectId (match context with
        | some project => .str project
        | Option.none => get normalized (txt "project_id")), normalized)
  | _ => Option.none

/-- `record_event` of the mapping that `build_event` assembles. -/
def recordEvent (now later : Timestamp) (context : Option Text) (event : Mapping ο) :
    Option (Text × Mapping ο) :=
  match normalizeEvent p now event with
  | .accepted built => appendEvent p later context built
  | .rejected => appendEvent p later context []
  | .raised => Option.none

end Record

variable {p : Platform ο} {mark : Text} {d : Datum ο}

/-! ## Texts -/

theorem isSpace_of_visible {c : Char} (hlow : 33 ≤ c.toNat) (hhigh : c.toNat ≤ 126) :
    isSpace c = false := by
  simp only [isSpace, Bool.or_eq_false_iff, Bool.and_eq_false_iff, decide_eq_false_iff_not,
    beq_eq_false_iff_ne]
  omega

theorem isSpace_of_isSafe {c : Char} (h : isSafe c = true) : isSpace c = false := by
  simp only [isSafe, isAsciiLower, isAsciiDigit, Bool.or_eq_true, Bool.and_eq_true,
    decide_eq_true_eq, beq_iff_eq] at h
  rcases h with ((((h | h) | rfl) | rfl) | rfl) | rfl
  · exact isSpace_of_visible (by omega) (by omega)
  · exact isSpace_of_visible (by omega) (by omega)
  all_goals decide

theorem isSpace_of_isTimestampChar {c : Char} (h : isTimestampChar c = true) :
    isSpace c = false := by
  simp only [isTimestampChar, isAsciiDigit, Bool.or_eq_true, Bool.and_eq_true, decide_eq_true_eq,
    beq_iff_eq] at h
  rcases h with (((((h | rfl) | rfl) | rfl) | rfl) | rfl) | rfl
  · exact isSpace_of_visible (by omega) (by omega)
  all_goals decide

theorem isSafe_of_isLowerHex {c : Char} (h : isLowerHex c = true) : isSafe c = true := by
  simp only [isLowerHex, Bool.or_eq_true, Bool.and_eq_true, decide_eq_true_eq] at h
  simp only [isSafe, isAsciiLower, Bool.or_eq_true, Bool.and_eq_true, decide_eq_true_eq]
  rcases h with h | h
  · exact .inl (.inl (.inl (.inl (.inr h))))
  · exact .inl (.inl (.inl (.inl (.inl ⟨h.1, by omega⟩))))

/-- A text without spaces within the limit is taken as it is. -/
theorem text_word {limit : Nat} {t : Text} (h : ∀ c ∈ t, isSpace c = false)
    (hlength : t.length ≤ limit) : text limit (.str t : Datum ο) = t := by
  rw [text, compactSpace_word h, List.take_of_length_le hlength]

/-! ## Digests -/

/-- A prefix that leaves a digest a safe code. -/
structure SafeMark (mark : Text) : Prop where
  safe : ∀ c ∈ mark, isSafe c = true
  length_le : mark.length ≤ 71

/-- The shape of a digest. -/
def IsDigest (mark t : Text) : Prop :=
  ∃ digits : Text, t = mark ++ '-' :: digits ∧ digits.length = 24 ∧ ∀ c ∈ digits, isLowerHex c = true

theorem IsDigest.ne_nil {t : Text} (h : IsDigest mark t) : t ≠ [] := by
  obtain ⟨digits, rfl, -, -⟩ := h
  simp

theorem IsDigest.safe {t : Text} (hmark : SafeMark mark) (h : IsDigest mark t) :
    ∀ c ∈ t, isSafe c = true := by
  obtain ⟨digits, rfl, -, hhex⟩ := h
  intro c hc
  rcases List.mem_append.mp hc with hc | hc
  · exact hmark.safe c hc
  · rcases List.mem_cons.mp hc with rfl | hc
    · decide
    · exact isSafe_of_isLowerHex (hhex c hc)

theorem IsDigest.length_le {t : Text} (hmark : SafeMark mark) (h : IsDigest mark t) :
    t.length ≤ 96 := by
  obtain ⟨digits, rfl, hlength, -⟩ := h
  have hle := hmark.length_le
  simp only [List.length_append, List.length_cons]
  omega

theorem isDigestOf_iff {t : Text} : isDigestOf mark t = true ↔ IsDigest mark t := by
  rw [isDigestOf, afterPrefix, startsWith]
  constructor
  · intro h
    split at h
    · rename_i digits hdigits
      split at hdigits
      · rename_i hprefix
        obtain ⟨rest, hrest⟩ := List.isPrefixOf_iff_prefix.mp hprefix
        rw [← hrest, List.drop_left] at hdigits
        obtain rfl := Option.some.inj hdigits
        simp only [Bool.and_eq_true, decide_eq_true_eq, List.all_eq_true] at h
        exact ⟨rest, by rw [← hrest, List.append_assoc]; rfl, h.1, h.2⟩
      · cases hdigits
    · cases h
  · rintro ⟨digits, rfl, hlength, hhex⟩
    have hsplit : mark ++ '-' :: digits = (mark ++ ['-']) ++ digits := by
      rw [List.append_assoc]
      rfl
    rw [hsplit, if_pos (List.isPrefixOf_iff_prefix.mpr (List.prefix_append _ _)), List.drop_left]
    simp only [Bool.and_eq_true, decide_eq_true_eq, List.all_eq_true]
    exact ⟨hlength, hhex⟩

theorem digest_eq_nil_iff : digest p mark d = [] ↔ text 512 d = [] := by
  rw [digest]
  split
  · simp_all
  · rename_i hne
    split
    · simp [hne]
    · simp [hne]

theorem digest_shape (hne : digest p mark d ≠ []) : IsDigest mark (digest p mark d) := by
  rw [Ne, digest_eq_nil_iff] at hne
  rw [digest, if_neg hne]
  split
  · rename_i hdigest
    exact isDigestOf_iff.mp hdigest
  · exact ⟨_, rfl, (p.digest24 _).length, (p.digest24 _).hex⟩

/-- A digest is not digested again. -/
theorem digest_again {t : Text} (hmark : SafeMark mark) (h : IsDigest mark t) :
    digest p mark (.str t) = t := by
  have htext : text 512 (.str t : Datum ο) = t :=
    text_word (fun c hc => isSpace_of_isSafe (h.safe hmark c hc))
      (le_trans (h.length_le hmark) (by decide))
  rw [digest, htext, if_neg h.ne_nil, if_pos (isDigestOf_iff.mpr h)]

/-! ## Codes -/

theorem isSafeCode_iff {t : Text} : isSafeCode t = true ↔
    t ≠ [] ∧ t.length ≤ 96 ∧ ∀ c ∈ t, isSafe c = true := by
  simp [isSafeCode, and_assoc]

theorem IsDigest.isSafeCode {t : Text} (hmark : SafeMark mark) (h : IsDigest mark t) :
    isSafeCode t = true :=
  isSafeCode_iff.mpr ⟨h.ne_nil, h.length_le hmark, h.safe hmark⟩

theorem code_safe {t : Text} (h : isSafeCode t = true) : code p mark (.str t) = t := by
  obtain ⟨-, hlength, hsafe⟩ := isSafeCode_iff.mp h
  have htext : text 96 (.str t : Datum ο) = t :=
    text_word (fun c hc => isSpace_of_isSafe (hsafe c hc)) hlength
  rw [code, htext, p.lower_safe t hsafe, if_pos h]

theorem code_of_nil (h : text 96 d = []) : code p mark d = [] := by
  rw [code, h, p.lower_safe [] fun c hc => absurd hc List.not_mem_nil]
  rfl

theorem code_shape (hmark : SafeMark mark) (hne : code p mark d ≠ []) :
    isSafeCode (code p mark d) = true := by
  rw [code] at hne ⊢
  split at hne
  · rename_i hsafe
    rwa [if_pos hsafe]
  · rename_i hsafe
    rw [if_neg hsafe]
    split at hne
    · exact absurd rfl hne
    · rename_i hlower
      rw [if_neg hlower]
      exact (digest_shape hne).isSafeCode hmark

/-- A code reads back as itself. -/
theorem code_again (hmark : SafeMark mark) : code p mark (.str (code p mark d)) = code p mark d := by
  by_cases hne : code p mark d = []
  · rw [hne]
    exact code_of_nil rfl
  · exact code_safe (code_shape hmark hne)

theorem codeOr_again (hmark : SafeMark mark) {default : Text} (hdefault : isSafeCode default = true) :
    orElse (code p mark (.str (orElse (code p mark d) default))) default =
      orElse (code p mark d) default := by
  by_cases hne : code p mark d = []
  · have hdefaulted : orElse (code p mark d) default = default := if_pos hne
    rw [hdefaulted, code_safe hdefault, orElse, if_neg (isSafeCode_iff.mp hdefault).1]
  · have hcode : orElse (code p mark d) default = code p mark d := if_neg hne
    rw [hcode, code_again hmark, hcode]

/-! ## Lists of codes -/

/-- What `_codes` collects: distinct codes within the limit. -/
structure Collected (p : Platform ο) (mark : Text) (limit : Nat) (result : List Text) : Prop where
  again : ∀ c ∈ result, c ≠ [] ∧ code p mark (.str c) = c
  nodup : result.Nodup
  length_le : result.length ≤ limit

theorem Collected.collect {limit : Nat} (hmark : SafeMark mark) (items : List (Datum ο))
    {result : List Text} (h : Collected p mark limit result) (hroom : result.length < limit) :
    Collected p mark limit (collect p mark limit items result) := by
  induction items generalizing result with
  | nil => exact h
  | cons item items ih =>
      have hnext : Collected p mark limit (if code p mark item ≠ [] ∧ code p mark item ∉ result then
          result ++ [code p mark item] else result) := by
        split
        · rename_i hnew
          refine ⟨fun c hc => ?_, ?_, ?_⟩
          · rcases List.mem_append.mp hc with hc | hc
            · exact h.again c hc
            · rw [List.mem_singleton.mp hc]
              exact ⟨hnew.1, code_again hmark⟩
          · exact List.nodup_append.mpr ⟨h.nodup, List.nodup_singleton _, fun a ha b hb => by
              rw [List.mem_singleton.mp hb]
              exact fun heq => hnew.2 (heq ▸ ha)⟩
          · rw [List.length_append, List.length_singleton]
            exact hroom
        · exact h
      rw [Events.collect]
      generalize (if code p mark item ≠ [] ∧ code p mark item ∉ result then
        result ++ [code p mark item] else result) = next at hnext ⊢
      split
      · exact hnext
      · rename_i hlength
        exact ih hnext (Nat.lt_of_not_le hlength)

/-- Collected codes are collected again. -/
theorem collect_again {limit : Nat} (rest result : List Text)
    (h : Collected p mark limit (result ++ rest)) (hroom : result.length < limit) :
    collect p mark limit (rest.map .str) result = result ++ rest := by
  induction rest generalizing result with
  | nil => simp [collect]
  | cons c rest ih =>
      obtain ⟨hne, hcode⟩ := h.again c (by simp)
      have hfresh : c ∉ result := fun hc =>
        (List.nodup_append.mp h.nodup).2.2 c hc c List.mem_cons_self rfl
      have hsplit : result ++ c :: rest = (result ++ [c]) ++ rest := by
        rw [List.append_assoc]
        rfl
      have hadded : (if c ≠ [] ∧ c ∉ result then result ++ [c] else result) = result ++ [c] :=
        if_pos ⟨hne, hfresh⟩
      have hlength := h.length_le
      rw [List.map_cons, collect, hcode, hadded, hsplit]
      split
      · rename_i hfull
        have hnil : rest = [] := by
          rw [List.length_append, List.length_singleton] at hfull
          rw [List.length_append, List.length_cons] at hlength
          exact List.length_eq_zero_iff.mp (by omega)
        rw [hnil, List.append_nil]
      · rename_i hopen
        exact ih _ (hsplit ▸ h) (Nat.lt_of_not_le hopen)

theorem codes_again {limit : Nat} (hmark : SafeMark mark) (hlimit : 0 < limit) :
    codes p mark limit (.items ((codes p mark limit d).map .str)) = codes p mark limit d := by
  have hempty : Collected p mark limit [] :=
    ⟨fun c hc => absurd hc List.not_mem_nil, List.nodup_nil, Nat.zero_le _⟩
  exact collect_again (codes p mark limit d) [] (hempty.collect hmark _ hlimit) hlimit

/-! ## Numbers and flags -/

theorem clamp_again {n maximum : Int} (h : 0 ≤ maximum) :
    max 0 (min (max 0 (min n maximum)) maximum) = max 0 (min n maximum) := by
  omega

theorem boundedInt_again {maximum : Int} {v : Datum ο} (hmaximum : 0 ≤ maximum)
    (h : boundedInt p maximum d = some v) : boundedInt p maximum v = some v := by
  rw [boundedInt] at h
  split at h
  · rename_i n hn
    rw [← Option.some.inj h]
    exact congrArg (fun k => some (Datum.int k)) (clamp_again hmaximum)
  · rw [← Option.some.inj h]
    exact congrArg (fun k => some (Datum.int k)) (by omega)
  · cases h

theorem optionalBoundedInt_again {maximum : Int} {v : Datum ο} (hmaximum : 0 ≤ maximum)
    (h : optionalBoundedInt p maximum d = some v) : optionalBoundedInt p maximum v = some v := by
  rw [optionalBoundedInt.eq_def] at h
  split at h
  · rw [← Option.some.inj h]
    rfl
  · split at h
    · rw [← Option.some.inj h]
      exact congrArg (fun k => some (Datum.int k)) (clamp_again hmaximum)
    · rw [← Option.some.inj h]
      rfl
    · cases h

theorem boundedBool_again (d : Datum ο) : boundedBool (boundedBool d) = boundedBool d := by
  cases d <;> rfl

/-! ## Single values -/

theorem timestamp_again (now later : Timestamp) (d : Datum ο) :
    timestamp later (.str (timestamp now d) : Datum ο) = timestamp now d := by
  have hread : ∀ t : Text, t ≠ [] → t.length ≤ 48 → (∀ c ∈ t, isTimestampChar c = true) →
      timestamp later (.str t : Datum ο) = t := fun t hne hlength hchars => by
    have htext : text 48 (.str t : Datum ο) = t :=
      text_word (fun c hc => isSpace_of_isTimestampChar (hchars c hc)) hlength
    rw [timestamp, htext, if_pos ⟨hne, List.all_eq_true.mpr hchars⟩]
  by_cases h : text 48 d ≠ [] ∧ (text 48 d).all isTimestampChar = true
  · have hlength : (text 48 d).length ≤ 48 := by
      cases d <;> simp [text]
    have htaken : timestamp now d = text 48 d := if_pos h
    rw [htaken]
    exact hread _ h.1 hlength (List.all_eq_true.mp h.2)
  · have hclock : timestamp now d = now.text := if_neg h
    rw [hclock]
    exact hread _ now.nonempty now.length_le now.chars

theorem isProjectId_word {t : Text} (h : EventStore.isProjectId t = true) :
    t.length ≤ 64 ∧ ∀ c ∈ t, isSpace c = false := by
  rw [EventStore.isProjectId.eq_def] at h
  split at h
  · rename_i digits
    simp only [Bool.and_eq_true, decide_eq_true_eq, List.all_eq_true] at h
    refine ⟨by simp only [List.length_cons]; omega, fun c hc => ?_⟩
    rcases List.mem_cons.mp hc with rfl | hc
    · decide
    · rcases List.mem_cons.mp hc with rfl | hc
      · decide
      · exact isSpace_of_isSafe (isSafe_of_isLowerHex (h.2 c hc))
  · cases h

theorem projectId_again (d : Datum ο) :
    projectId (.str (projectId d) : Datum ο) = projectId d := by
  by_cases h : EventStore.isProjectId (text 64 d) = true
  · have hid : projectId d = text 64 d := if_pos h
    obtain ⟨hlength, hword⟩ := isProjectId_word h
    rw [hid, projectId, text_word hword hlength, if_pos h]
  · have hnone : projectId d = [] := if_neg h
    rw [hnone]
    rfl

theorem modelSource_again (d : Datum ο) : modelSource p (.str (modelSource p d)) = modelSource p d := by
  have hsources : ∀ t ∈ modelSources, t.length ≤ 32 ∧ ∀ c ∈ t, isSafe c = true := by decide
  have hread : ∀ t ∈ modelSources, modelSource p (.str t) = t := fun t ht => by
    obtain ⟨hlength, hsafe⟩ := hsources t ht
    have htext : text 32 (.str t : Datum ο) = t :=
      text_word (fun c hc => isSpace_of_isSafe (hsafe c hc)) hlength
    rw [modelSource, htext, p.lower_safe t hsafe, if_pos ht]
  by_cases h : p.lower (text 32 d) ∈ modelSources
  · have hsource : modelSource p d = p.lower (text 32 d) := if_pos h
    rw [hsource]
    exact hread _ h
  · have hsource : modelSource p d = unknown := if_neg h
    rw [hsource]
    exact hread _ (by decide)

theorem scopeOf_again (d : Datum ο) : scopeOf (.str (scopeOf d) : Datum ο) = scopeOf d := by
  have hread : ∀ t ∈ scopeValues, scopeOf (.str t : Datum ο) = t := fun t ht => if_pos ht
  have hproject : txt "project" ∈ scopeValues := by decide
  cases d with
  | str t =>
      by_cases h : t ∈ scopeValues
      · have hscope : scopeOf (.str t : Datum ο) = t := if_pos h
        rw [hscope, hscope]
      · have hscope : scopeOf (.str t : Datum ο) = txt "project" := if_neg h
        rw [hscope]
        exact hread _ hproject
  | _ => exact hread _ hproject

/-- A value that was given is read back as its digest; `unknown` is not. -/
theorem identity_again_iff (hmark : SafeMark mark) :
    orElse (digest p mark (.str (orElse (digest p mark d) unknown))) unknown =
      orElse (digest p mark d) unknown ↔ text 512 d ≠ [] := by
  rw [Ne, ← @digest_eq_nil_iff ο p mark d]
  constructor
  · intro h hnil
    have hunknown : orElse (digest p mark d) unknown = unknown := if_pos hnil
    have hgiven : digest p mark (.str unknown : Datum ο) ≠ [] := by
      rw [Ne, digest_eq_nil_iff]
      have htext : text 512 (.str unknown : Datum ο) = unknown := text_word (by decide) (by decide)
      rw [htext]
      decide
    rw [hunknown, orElse, if_neg hgiven] at h
    obtain ⟨digits, hdigits, -, -⟩ := digest_shape hgiven
    rw [h] at hdigits
    have hdash : '-' ∈ unknown := by
      rw [hdigits]
      simp
    exact absurd hdash (by decide)
  · intro hne
    have hdigest : orElse (digest p mark d) unknown = digest p mark d := if_neg hne
    rw [hdigest, digest_again hmark (digest_shape hne), hdigest]

/-! ## Fields -/

theorem get_of_get? {m : Mapping ο} {key : Text} {v : Datum ο} (h : SortedMap.get? key m = some v) :
    get m key = v := by
  rw [get, h]
  rfl

theorem constant_steady (key : Text) (v : Datum ο) : Steady (constant key v) (constant key v) :=
  ⟨rfl, fun _ _ _ h _ => h⟩

theorem single_steady {key : Text} {read : Datum ο → Option (Datum ο)}
    (h : ∀ d v, read d = some v → read v = some v) : Steady (single key read) (single key read) := by
  refine ⟨rfl, fun m v r hread hvalue => ?_⟩
  obtain ⟨w, hw, rfl⟩ := Option.map_eq_some_iff.mp hread
  have hget : get r key = w := get_of_get? hvalue
  show (read (get r key)).map some = some (some w)
  rw [hget, h _ w hw]
  rfl

theorem total_steady {key : Text} {read read' : Datum ο → Datum ο}
    (h : ∀ d, read' (read d) = read d) : Steady (total key read) (total key read') := by
  refine ⟨rfl, fun m v r hread hvalue => ?_⟩
  obtain rfl : some (read (get m key)) = v := Option.some.inj hread
  have hget : get r key = read (get m key) := get_of_get? hvalue
  show some (some (read' (get r key))) = _
  rw [hget, h]

theorem counter_steady (key : Text) {maximum : Int} (h : 0 ≤ maximum) :
    Steady (counter p key maximum) (counter p key maximum) :=
  single_steady fun _ _ hread => boundedInt_again h hread

theorem codeOr_steady (key : Text) (hmark : SafeMark mark) {default : Text}
    (hdefault : isSafeCode default = true) :
    Steady (codeOr p key mark default) (codeOr p key mark default) :=
  total_steady fun _ => congrArg Datum.str (codeOr_again hmark hdefault)

theorem codesField_steady (key : Text) (hmark : SafeMark mark) {limit : Nat} (hlimit : 0 < limit) :
    Steady (codesField p key mark limit) (codesField p key mark limit) :=
  total_steady fun _ => congrArg (fun cs => Datum.items (cs.map .str)) (codes_again hmark hlimit)

theorem flagOr_steady (key : Text) (default : Mapping ο → Bool) :
    Steady (flagOr p key default) (flagOr p key default) := by
  refine ⟨rfl, fun m v r hread hvalue => ?_⟩
  obtain rfl := Option.some.inj hread
  show some (some (Datum.bool (truthy p ((SortedMap.get? key r).getD _)))) = _
  have hget : SortedMap.get? key r = _ := hvalue
  rw [hget]
  rfl

theorem contextUnits_steady : Steady (contextUnits p) (contextUnits p) := by
  have hbound : (0 : Int) ≤ maxEventBytes := by decide
  have hshape : ∀ d v, boundedInt p maxEventBytes d = some v → ∃ n, v = .int n := fun d v h => by
    rw [boundedInt] at h
    split at h
    · exact ⟨_, (Option.some.inj h).symm⟩
    · exact ⟨_, (Option.some.inj h).symm⟩
    · cases h
  -- both branches give a bounded number, which is given from then on
  have hvalue : ∀ m v, (contextUnits p).read m = some v →
      ∃ d n, boundedInt p maxEventBytes d = some (.int n) ∧ v = some (.int n) := fun m v h => by
    have hmap : ∀ d, (boundedInt p maxEventBytes d).map some = some v →
        ∃ d n, boundedInt p maxEventBytes d = some (.int n) ∧ v = some (.int n) := fun d h => by
      obtain ⟨w, hw, rfl⟩ := Option.map_eq_some_iff.mp h
      obtain ⟨n, rfl⟩ := hshape d w hw
      exact ⟨d, n, hw, rfl⟩
    simp only [contextUnits] at h
    split at h
    · obtain ⟨w, -, hw⟩ := Option.bind_eq_some_iff.mp h
      split at hw
      · exact hmap _ hw
      · cases hw
    · exact hmap _ h
  refine ⟨rfl, fun m v r hread hget => ?_⟩
  obtain ⟨d, n, hn, rfl⟩ := hvalue m v hread
  have hgiven : get r (txt "estimated_context_units") = .int n := get_of_get? hget
  show (match get r (txt "estimated_context_units") with
    | .none => _
    | d => _) = _
  rw [hgiven]
  exact congrArg (Option.map some) (boundedInt_again hbound hn)

theorem confidence_steady : Steady (confidence p) (confidence p) := by
  have hmark : SafeMark (txt "confidence") := ⟨by decide, by decide⟩
  have hread : ∀ m, (confidence p).read m =
      some (if code p (txt "confidence") (get m (txt "confidence")) = [] then Option.none
        else some (.str (code p (txt "confidence") (get m (txt "confidence"))))) := fun _ => rfl
  refine ⟨rfl, fun m v r h hvalue => ?_⟩
  rw [hread] at h ⊢
  have hget : get r (txt "confidence") = v.getD .none := by rw [← hvalue]; rfl
  rw [hget]
  by_cases hcode : code p (txt "confidence") (get m (txt "confidence")) = []
  · rw [if_pos hcode] at h
    obtain rfl := Option.some.inj h
    exact congrArg some (if_pos (code_of_nil rfl))
  · rw [if_neg hcode] at h
    obtain rfl := Option.some.inj h
    rw [Option.getD_some, code_again hmark, if_neg hcode]

theorem userSuppliedUsage_steady : Steady (userSuppliedUsage p) (userSuppliedUsage p) := by
  refine ⟨rfl, fun m v r h hvalue => ?_⟩
  have hget : SortedMap.get? (txt "user_supplied_usage") r = v := hvalue
  simp only [userSuppliedUsage] at h ⊢
  rw [hget]
  split at h
  · rw [← Option.some.inj h]
    rfl
  · rw [← Option.some.inj h]
    rfl

/-! ## The schema -/

theorem opening_steady (now later : Timestamp) :
    List.Forall₂ Steady (opening p now) (opening p later) :=
  .cons (constant_steady _ _) <|
  .cons (constant_steady _ _) <|
  .cons (total_steady fun d => congrArg Datum.str (timestamp_again now later d)) <|
  .cons (counter_steady _ (by decide)) .nil

theorem metrics_steady : List.Forall₂ Steady (metrics p) (metrics p) :=
  .cons (total_steady fun d => congrArg Datum.str (projectId_again d)) <|
  .cons (total_steady fun _ => congrArg Datum.str (code_again ⟨by decide, by decide⟩)) <|
  .cons (codeOr_steady _ ⟨by decide, by decide⟩ (by decide)) <|
  .cons (codeOr_steady _ ⟨by decide, by decide⟩ (by decide)) <|
  .cons (codeOr_steady _ ⟨by decide, by decide⟩ (by decide)) <|
  .cons (total_steady fun d => congrArg Datum.str (modelSource_again d)) <|
  .cons (total_steady fun d => by cases d <;> rfl) <|
  .cons (codeOr_steady _ ⟨by decide, by decide⟩ (by decide)) <|
  .cons (codesField_steady _ ⟨by decide, by decide⟩ (by decide)) <|
  .cons (codesField_steady _ ⟨by decide, by decide⟩ (by decide)) <|
  .cons (codesField_steady _ ⟨by decide, by decide⟩ (by decide)) <|
  .cons (codesField_steady _ ⟨by decide, by decide⟩ (by decide)) <|
  .cons (counter_steady _ (by decide)) <|
  .cons (counter_steady _ (by decide)) <|
  .cons (counter_steady _ (by decide)) <|
  .cons contextUnits_steady <|
  .cons (single_steady fun _ _ => optionalBoundedInt_again (by decide)) <|
  .cons (flagOr_steady _ _) <|
  .cons (counter_steady _ (by decide)) <|
  .cons (counter_steady _ (by decide)) <|
  .cons (counter_steady _ (by decide)) <|
  .cons (counter_steady _ (by decide)) <|
  .cons (codesField_steady _ ⟨by decide, by decide⟩ (by decide)) <|
  .cons (counter_steady _ (by decide)) <|
  .cons (counter_steady _ (by decide)) <|
  .cons (total_steady boundedBool_again) <|
  .cons (total_steady boundedBool_again) <|
  .cons (total_steady fun d => congrArg Datum.str (scopeOf_again d)) <|
  .cons (flagOr_steady _ _) <|
  .cons (constant_steady _ _) <|
  .cons (codeOr_steady _ ⟨by decide, by decide⟩ (by decide)) <|
  .cons (flagOr_steady _ _) <|
  .cons confidence_steady <|
  .cons userSuppliedUsage_steady .nil

theorem fields_nodup (now : Timestamp) : ((fields p now).map Field.key).Nodup := by
  simp only [fields, opening, identities, metrics, List.map_append, List.map_cons, List.map_nil,
    constant, total, single, counter, codeOr, codesField, flagOr, identity, contextUnits, confidence,
    userSuppliedUsage]
  decide

theorem fields_allowed (now : Timestamp) :
    ∀ key ∈ privacyDenylist, key ∉ (fields p now).map Field.key := by
  simp only [fields, opening, identities, metrics, List.map_append, List.map_cons, List.map_nil,
    constant, total, single, counter, codeOr, codesField, flagOr, identity, contextUnits, confidence,
    userSuppliedUsage]
  decide

theorem fields_same (now later : Timestamp) :
    List.Forall₂ (fun f f' : EventField ο => f.key = f'.key) (fields p now) (fields p later) := by
  have hopening : List.Forall₂ (fun f f' : EventField ο => f.key = f'.key) (opening p now)
      (opening p later) := (opening_steady now later).imp fun _ _ h => h.1
  exact List.rel_append hopening (List.forall₂_same.mpr fun _ _ => rfl)

/-- An identity is named in a mapping if it is a text that is not blank. -/
def Named (m : Mapping ο) (key : Text) : Prop :=
  ∃ t, get m key = .str t ∧ ∃ c ∈ t, isSpace c = false

theorem named_iff {m : Mapping ο} {key : Text} : Named m key ↔ text 512 (get m key) ≠ [] := by
  have htext : ∀ t : Text, text 512 (.str t : Datum ο) ≠ [] ↔ ∃ c ∈ t, isSpace c = false := fun t => by
    rw [text, Ne, List.take_eq_nil_iff, compactSpace_eq_nil_iff]
    simp
  rw [Named]
  cases get m key with
  | str t => simpa using (htext t).symm
  | _ => simp [text]

/-- The identities of an event. -/
structure Identified (m : Mapping ο) : Prop where
  session : Named m (txt "session_id")
  turn : Named m (txt "turn_id")
  task : Named m (txt "task_signature")

variable {now later : Timestamp} {event result : Mapping ο}

/-- An identity reads its own value back exactly when it was named. -/
theorem identity_settled_iff {key : Text} (hmark : SafeMark mark)
    (hread : (identity p key mark).read event = some (SortedMap.get? key result)) :
    (identity p key mark).read result = some (SortedMap.get? key result) ↔ Named event key := by
  have hvalue : SortedMap.get? key result =
      some (.str (orElse (digest p mark (get event key)) unknown)) := (Option.some.inj hread).symm
  have hget : get result key = .str (orElse (digest p mark (get event key)) unknown) :=
    get_of_get? hvalue
  rw [named_iff, ← identity_again_iff hmark (p := p), hvalue]
  show some (some (Datum.str (orElse (digest p mark (get result key)) unknown))) = _ ↔ _
  rw [hget]
  simp only [Option.some.injEq, Datum.str.injEq]

/-- The fields of an event give themselves back exactly when its identities were
named. -/
theorem readAll_fields_again_iff (h : readAll (fields p now) event = some result) :
    readAll (fields p later) result = some result ↔ Identified event := by
  have hread := read_of_readAll (fields_nodup now) h
  have hopening : ∀ f ∈ opening p now, f.read event = some (SortedMap.get? f.key result) :=
    fun f hf => hread f (List.mem_append_left _ hf)
  have hmetrics : ∀ f ∈ metrics p, f.read event = some (SortedMap.get? f.key result) :=
    fun f hf => hread f (List.mem_append_right _ (List.mem_append_right _ hf))
  have hidentities : ∀ f ∈ identities p, f.read event = some (SortedMap.get? f.key result) :=
    fun f hf => hread f (List.mem_append_right _ (List.mem_append_left _ hf))
  have hsession := identity_settled_iff ⟨by decide, by decide⟩ (hidentities _ (.head _))
  have hturn := identity_settled_iff ⟨by decide, by decide⟩ (hidentities _ (.tail _ (.head _)))
  have htask := identity_settled_iff ⟨by decide, by decide⟩
    (hidentities _ (.tail _ (.tail _ (.head _))))
  constructor
  · intro hagain
    have hsettled : ∀ f ∈ identities p, f.read result = some (SortedMap.get? f.key result) :=
      fun f hf => read_of_readAll (fields_nodup later) hagain f
        (List.mem_append_right _ (List.mem_append_left _ hf))
    exact ⟨hsession.mp (hsettled _ (.head _)), hturn.mp (hsettled _ (.tail _ (.head _))),
      htask.mp (hsettled _ (.tail _ (.tail _ (.head _))))⟩
  · intro hnamed
    rw [readAll_again_iff (fields_nodup now) h (fields_same now later)]
    refine List.rel_append (settled_of_steady hopening (opening_steady now later))
      (List.rel_append ?_ (settled_of_steady hmetrics metrics_steady))
    exact .cons ⟨rfl, hsession.mpr hnamed.session⟩ <|
      .cons ⟨rfl, hturn.mpr hnamed.turn⟩ <| .cons ⟨rfl, htask.mpr hnamed.task⟩ .nil

/-! ## Events -/

theorem normalizeEvent_accepted_iff : normalizeEvent p now event = .accepted result ↔
    (∀ key ∈ privacyDenylist, SortedMap.get? key event = none) ∧ eventName p event ∈ events ∧
      projectId (get event (txt "project_id")) ≠ [] ∧
      readAll (fields p now) event = some result := by
  have hdenied : (privacyDenylist.any fun key => (SortedMap.get? key event).isSome) = false ↔
      ∀ key ∈ privacyDenylist, SortedMap.get? key event = none := by
    simp
  rw [← hdenied, normalizeEvent]
  cases hany : privacyDenylist.any fun key => (SortedMap.get? key event).isSome
  · by_cases hname : eventName p event ∈ events
    · by_cases hproject : projectId (get event (txt "project_id")) = []
      · simp [hproject]
      · cases hfields : readAll (fields p now) event <;> simp [hname, hproject]
    · simp [hname]
  · simp

/-- What is required of an event holds of the normalised one. -/
theorem normalizeEvent_again_iff (later : Timestamp)
    (h : normalizeEvent p now event = .accepted result) :
    normalizeEvent p later result = .accepted result ↔ Identified event := by
  obtain ⟨-, hname, hproject, hfields⟩ := normalizeEvent_accepted_iff.mp h
  have hread := read_of_readAll (fields_nodup now) hfields
  have hallowed : ∀ key ∈ privacyDenylist, SortedMap.get? key result = none :=
    fun key hkey => get?_readAll_none hfields (fields_allowed now key hkey)
  have hmetrics : ∀ f ∈ metrics p, f.read event = some (SortedMap.get? f.key result) :=
    fun f hf => hread f (List.mem_append_right _ (List.mem_append_right _ hf))
  have hprojectField : get result (txt "project_id") =
      .str (projectId (get event (txt "project_id"))) :=
    get_of_get? (Option.some.inj (hmetrics _ (.head _))).symm
  have heventField : get result (txt "event") = .str (eventName p event) :=
    get_of_get? (Option.some.inj (hmetrics _ (.tail _ (.head _)))).symm
  have hnameAgain : eventName p result = eventName p event := by
    rw [eventName, heventField]
    exact code_again ⟨by decide, by decide⟩
  have hprojectAgain : projectId (get result (txt "project_id")) =
      projectId (get event (txt "project_id")) := by
    rw [hprojectField, projectId_again]
  rw [normalizeEvent_accepted_iff, hnameAgain, hprojectAgain, readAll_fields_again_iff hfields]
  exact ⟨fun h => h.2.2.2, fun h => ⟨hallowed, hname, hproject, h⟩⟩

/-- One event has one stored form: it is a fixed point of the normaliser, and
`record_event` stores what was built. -/
structure OneForm (p : Platform ο) (now later : Timestamp) (event built : Mapping ο) : Prop where
  settled : normalizeEvent p later built = .accepted built
  recorded : ∀ context, (recordEvent p now later context event).map Prod.snd = some built

/-- Where `build_event` gives an event, it has one stored form exactly when its
session, its turn and its task were named. -/
theorem event_oneForm_iff (p : Platform ο) (now later : Timestamp) (event built : Mapping ο)
    (h : normalizeEvent p now event = .accepted built) :
    OneForm p now later event built ↔ Identified event := by
  rw [← normalizeEvent_again_iff later h]
  refine ⟨OneForm.settled, fun hsettled => ⟨hsettled, fun context => ?_⟩⟩
  rw [recordEvent, h]
  show (appendEvent p later context built).map Prod.snd = some built
  rw [appendEvent, hsettled]
  rfl

/-! ## A turn without a name -/

theorem asciiLower_safe {t : Text} (h : ∀ c ∈ t, isSafe c = true) : Memory.asciiLower t = t := by
  have hchar : ∀ c, isSafe c = true → isAsciiUpper c = false := fun c hc => by
    simp only [isSafe, isAsciiLower, isAsciiDigit, Bool.or_eq_true, Bool.and_eq_true,
      decide_eq_true_eq, beq_iff_eq] at hc
    simp only [isAsciiUpper, Bool.and_eq_false_iff, decide_eq_false_iff_not]
    rcases hc with ((((hc | hc) | rfl) | rfl) | rfl) | rfl
    · omega
    · omega
    all_goals decide
  rw [Memory.asciiLower, List.map_congr_left fun c hc => if_neg (by simp [hchar c (h c hc)])]
  exact List.map_id' t

/-- A platform that knows ASCII and the digest of `unknown` only. -/
def samplePlatform : Platform Empty where
  digest24 _ := ⟨txt "b23a6a8439c0dde5515893e7", by decide, by decide⟩
  lower := Memory.asciiLower
  lower_safe _ h := asciiLower_safe h
  intOfText _ := Option.none
  intOfOther o := o.elim
  truthyOther o := o.elim

def sampleNow : Timestamp := ⟨txt "2026-09-09T12:00:00+00:00", by decide, by decide, by decide⟩

/-- A stop of a session, with a turn or without one. -/
def stopEvent (turn : Mapping Empty) : Mapping Empty :=
  [(txt "event", .str (txt "stop")), (txt "project_id", .str (txt "p-0123456789abcdef")),
    (txt "session_id", .str (txt "session-0123456789abcdef01234567")),
    (txt "task_signature", .str (txt "task-0123456789abcdef01234567"))] ++ turn

def namedTurn : Mapping Empty := [(txt "turn_id", .str (txt "turn-0123456789abcdef01234567"))]

/-- What the normaliser makes of an event. -/
def builtOf (event : Mapping Empty) : Mapping Empty :=
  match normalizeEvent samplePlatform sampleNow event with
  | .accepted built => built
  | _ => []

theorem accepted_builtOf {event : Mapping Empty} (h : builtOf event ≠ []) :
    normalizeEvent samplePlatform sampleNow event = .accepted (builtOf event) := by
  rw [builtOf] at h ⊢
  split at h
  · rename_i built hbuilt
    rw [hbuilt]
  · exact absurd rfl h

theorem stopEvent_built (turn : Mapping Empty) (h : turn = [] ∨ turn = namedTurn) :
    builtOf (stopEvent turn) ≠ [] := by
  rcases h with rfl | rfl
  · exact fun hnil => absurd (congrArg List.length hnil) (by decide)
  · exact fun hnil => absurd (congrArg List.length hnil) (by decide)

theorem event_oneForm_named :
    OneForm samplePlatform sampleNow sampleNow (stopEvent namedTurn) (builtOf (stopEvent namedTurn)) :=
  (event_oneForm_iff samplePlatform sampleNow sampleNow (stopEvent namedTurn)
    (builtOf (stopEvent namedTurn)) (accepted_builtOf (stopEvent_built _ (.inr rfl)))).mpr
    ⟨⟨_, rfl, 's', by decide, by decide⟩, ⟨_, rfl, 't', by decide, by decide⟩,
      ⟨_, rfl, 't', by decide, by decide⟩⟩

/-- An event without a turn is stored by `record_event` with another turn than
it was built with. -/
theorem unnamed_turn_redigested : ¬∀ event built,
    normalizeEvent samplePlatform sampleNow event = .accepted built →
      OneForm samplePlatform sampleNow sampleNow event built := by
  intro h
  have haccepted := accepted_builtOf (stopEvent_built [] (.inl rfl))
  have hnamed := (normalizeEvent_again_iff sampleNow haccepted).mp (h _ _ haccepted).settled
  obtain ⟨t, ht, -⟩ := hnamed.turn
  cases ht

end RalphVault.Observability.Events
