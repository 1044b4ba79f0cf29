import Mathlib
import RalphVault.Canonical
import RalphVault.Memory.Value

/-!
# AutoResearch — generation bundles

`generation.py`: the bundle of files a packet of `run_next` leaves in a
directory of its segment. The number of the directory is read back from the
listing by the pattern `gen_\d{3}`, while it is written with three digits or
more, so that the directory `gen_1000` is not seen.
-/

namespace RalphVault.AutoResearch.Generations

open Memory

/-- What the interpreter and the file system give. -/
structure Platform where
  unicode : Unicode
  /-- `int` of a text of decimal digits. -/
  intOf : Text → Nat
  intOf_ascii : ∀ t, (∀ c ∈ t, isAsciiDigit c = true) → intOf t = Nat.ofDigitChars 10 t 0
  /-- The order of `iterdir`. -/
  iterdir : List Text → List Text
  mem_iterdir : ∀ names name, name ∈ iterdir names ↔ name ∈ names
  /-- `sensitive_content.is_red`. -/
  red : Text → Bool
  /-- The first bytes of a text, read again with replacements. -/
  cut : Text → Text
  sha256 : Text → Text
  /-- `json.dumps`, indented and with sorted keys, and a line feed. -/
  dumps : Fields → Text

/-! ## Names -/

/-- `SAFE_ID_RE` and what `safe_id` adds to it. -/
def isSafeId (value : Text) : Bool :=
  0 < value.length && value.length ≤ 96 &&
    value.all (fun c => isAsciiAlnum c || ['.', '_', '-'].contains c) && !startsWith ['.'] value

/-- `f"{n:03d}"`. -/
def threeDigits (n : Nat) : Text :=
  List.replicate (3 - (decimalText n).length) '0' ++ decimalText n

def generationId (n : Nat) : Text := txt "gen_" ++ threeDigits n

section Functions

variable (p : Platform)

/-- The name matches `gen_\d{3}`. -/
def isGeneration (name : Text) : Bool :=
  match afterPrefix (txt "gen_") name with
  | some digits => digits.length == 3 && digits.all p.unicode.decimal
  | none => false

/-- `int(name.split("_", 1)[1])`. -/
def numberOf (name : Text) : Nat := p.intOf ((name.dropWhile (· != '_')).drop 1)

def TextLe (s t : Text) : Prop := textLt t s = false

instance : DecidableRel TextLe := fun s t => inferInstanceAs (Decidable (textLt t s = false))

/-- `next_generation_id`, of the directories in the segment. -/
def nextGenerationId (dirs : List Text) : Text :=
  match (((p.iterdir dirs).filter (isGeneration p)).insertionSort TextLe).getLast? with
  | none => generationId 0
  | some last => generationId (numberOf p last + 1)

/-! ## Bundles -/

/-- The payload `run_next` gives to a bundle. -/
structure Payload where
  createdAt : Text
  candidatePatch : Text
  stdout : Text
  stderr : Text
  improvement : Text
  command : Fields
  metrics : Fields
  checks : Fields
  hardGates : Fields
  decision : Fields
  asi : Fields
  trace : Fields

/-- A file of a bundle: its key, its name and its text. -/
structure Artifact where
  key : Text
  name : Text
  text : Text

/-- `artifact_record`. -/
def artifactRecord (a : Artifact) : Fields :=
  [(txt "path", .str a.name), (txt "bytes", .int (utf8Len a.text)),
   (txt "sha256", .str (p.sha256 a.text)), (txt "scanner", .str (txt "sensitive_content.is_red")),
   (txt "scan_status", .str (txt "pass"))]

def manifest (segment generation : Text) (payload : Payload) : Artifact :=
  ⟨txt "manifest", txt "manifest.json", p.dumps
    [(txt "created_at", .str payload.createdAt), (txt "segment_id", .str segment),
     (txt "generation_id", .str generation),
     (txt "schema", .str (txt "ralph-autoresearch-generation-v1"))]⟩

/-- `text_files` and `json_files`. -/
def artifacts (payload : Payload) : List Artifact :=
  [⟨txt "candidate_patch", txt "candidate.patch", payload.candidatePatch⟩,
   ⟨txt "stdout_preview", txt "benchmark.stdout.preview.txt", p.cut payload.stdout⟩,
   ⟨txt "stderr_preview", txt "benchmark.stderr.preview.txt", p.cut payload.stderr⟩,
   ⟨txt "improvement", txt "improvement.md", payload.improvement⟩,
   ⟨txt "command", txt "command.json", p.dumps payload.command⟩,
   ⟨txt "metrics", txt "metrics.json", p.dumps payload.metrics⟩,
   ⟨txt "checks", txt "checks.json", p.dumps payload.checks⟩,
   ⟨txt "hard_gates", txt "hard_gates.json", p.dumps payload.hardGates⟩,
   ⟨txt "decision", txt "decision.json", p.dumps payload.decision⟩,
   ⟨txt "asi", txt "asi.json", p.dumps payload.asi⟩,
   ⟨txt "trace", txt "trace.json", p.dumps payload.trace⟩]

def scanReport (payload : Payload) (scanned : List Artifact) : Artifact :=
  ⟨txt "scan_report", txt "scan_report.json", p.dumps
    [(txt "created_at", .str payload.createdAt),
     (txt "scanner", .str (txt "sensitive_content.is_red")), (txt "fail_closed", .bool true),
     (txt "required_artifacts",
       .arr (((scanned.map Artifact.key).insertionSort TextLe).map .str)),
     (txt "scanned_artifacts", .obj (scanned.map fun a => (a.key, .obj (artifactRecord p a))))]⟩

/-- A segment: the names of its directories and the files in them. -/
structure Segment where
  dirs : List Text
  files : Text → Text → Option Text

namespace Segment

def empty : Segment := ⟨[], fun _ _ => none⟩

def mkdir (s : Segment) (dir : Text) : Segment :=
  if s.dirs.contains dir then s else { s with dirs := s.dirs ++ [dir] }

def replace (s : Segment) (dir name text : Text) : Segment :=
  { s with files := fun d n => if d = dir ∧ n = name then some text else s.files d n }

end Segment

/-- `atomic_write_text` of one file after the other: a file that is RED
raises, and nothing is written from there on. -/
def writeAll (dir : Text) : List Artifact → Segment → Segment
  | [], s => s
  | a :: later, s => if p.red a.text then s else writeAll dir later (s.replace dir a.name a.text)

/-- The files of a bundle in the order they are written. `safe_preview` of
the two outputs raises behind the manifest. -/
def bundleFiles (segment generation : Text) (payload : Payload) : List Artifact :=
  let first := manifest p segment generation payload
  if p.red (p.cut payload.stdout) || p.red (p.cut payload.stderr) then [first]
  else first :: (artifacts p payload ++ [scanReport p payload (first :: artifacts p payload)])

/-- `write_generation_bundle` without an id in the payload. -/
def writeGenerationBundle (segment : Text) (s : Segment) (payload : Payload) : Segment × Text :=
  let generation := nextGenerationId p s.dirs
  (writeAll p generation (bundleFiles p segment generation payload) (s.mkdir generation),
    generation)

/-! ## Packets -/

/-- A packet as far as its bundle goes: whether the spine is on, and whether
something raises before the directory is made. -/
structure Packet where
  spine : Bool
  blocked : Bool
  payload : Payload

/-- The packet comes to make a directory. -/
def Packet.writes (segment : Text) (packet : Packet) : Bool :=
  packet.spine && isSafeId segment && !packet.blocked

/-- The segment and the ids of the bundles so far. -/
structure Outcome where
  segment : Segment
  ids : List Text

def runNext (segment : Text) (o : Outcome) (packet : Packet) : Outcome :=
  if packet.writes segment then
    let written := writeGenerationBundle p segment o.segment packet.payload
    ⟨written.1, o.ids ++ [written.2]⟩
  else o

def runAll (segment : Text) (packets : List Packet) : Outcome :=
  packets.foldl (runNext p segment) ⟨Segment.empty, []⟩

end Functions

/-! ## Numbers of generations -/

theorem ofDigitChars_zeros (k : Nat) (digits : Text) :
    Nat.ofDigitChars 10 (List.replicate k '0' ++ digits) 0 = Nat.ofDigitChars 10 digits 0 := by
  induction k with
  | zero => rfl
  | succ k ih => exact ih

theorem isAsciiDigit_of_mem {n : Nat} {c : Char} (h : c ∈ threeDigits n) :
    isAsciiDigit c = true := by
  obtain h | h := List.mem_append.mp h
  · rw [List.eq_of_mem_replicate h]
    rfl
  · have hdigit := Json.isDigit_decimalText h
    simp only [Char.isDigit, isAsciiDigit, Bool.and_eq_true, decide_eq_true_eq] at hdigit ⊢
    exact hdigit

@[simp] theorem numberOf_generationId (p : Platform) (n : Nat) :
    numberOf p (generationId n) = n := by
  have hdrop : ((generationId n).dropWhile (· != '_')).drop 1 = threeDigits n := rfl
  rw [numberOf, hdrop, p.intOf_ascii _ fun c hc => isAsciiDigit_of_mem hc, threeDigits,
    ofDigitChars_zeros]
  exact Nat.ofDigitChars_ten_toDigits

theorem generationId_inj (p : Platform) {m n : Nat} (h : generationId m = generationId n) :
    m = n := by
  rw [← numberOf_generationId p m, h, numberOf_generationId]

/-- The three digits of a number below a thousand. -/
theorem threeDigits_eq {n : Nat} (h : n < 1000) : threeDigits n =
    [(n / 100).digitChar, (n / 10 % 10).digitChar, (n % 10).digitChar] := by
  have hsmall {d : Nat} (hd : d < 10) : decimalText d = [d.digitChar] :=
    Nat.toDigits_of_lt_base hd
  have hmore {m : Nat} (hm : 10 ≤ m) :
      decimalText m = decimalText (m / 10) ++ [(m % 10).digitChar] :=
    Nat.toDigits_of_base_le (by decide) hm
  rcases Nat.lt_or_ge n 10 with h10 | h10
  · rw [threeDigits, hsmall h10, Nat.div_eq_of_lt (by omega : n < 100),
      Nat.div_eq_of_lt h10, Nat.mod_eq_of_lt h10]
    rfl
  · rcases Nat.lt_or_ge n 100 with h100 | h100
    · rw [threeDigits, hmore h10, hsmall (by omega : n / 10 < 10), Nat.div_eq_of_lt h100,
        Nat.mod_eq_of_lt (by omega : n / 10 < 10)]
      rfl
    · rw [threeDigits, hmore h10, hmore (by omega : 10 ≤ n / 10), Nat.div_div_eq_div_mul,
        hsmall (by omega : n / 100 < 10)]
      rfl

theorem toNat_digitChar {d : Nat} (h : d < 10) : d.digitChar.toNat = 48 + d := by
  interval_cases d <;> rfl

/-- Below a thousand the names are ordered as the numbers. -/
theorem textLt_generationId {m n : Nat} (h : m < n) (hn : n < 1000) :
    textLt (generationId m) (generationId n) = true := by
  have hm := threeDigits_eq (Nat.lt_trans h hn)
  have hdigits : textLt (threeDigits m) (threeDigits n) = true := by
    rw [hm, threeDigits_eq hn]
    simp only [textLt, toNat_digitChar (by omega : m / 100 < 10),
      toNat_digitChar (by omega : n / 100 < 10), toNat_digitChar (by omega : m / 10 % 10 < 10),
      toNat_digitChar (by omega : n / 10 % 10 < 10), toNat_digitChar (by omega : m % 10 < 10),
      toNat_digitChar (by omega : n % 10 < 10), Bool.or_eq_true, Bool.and_eq_true,
      decide_eq_true_eq, beq_iff_eq, Bool.and_false, Bool.false_eq_true, or_false]
    omega
  simpa [generationId, txt, textLt] using hdigits

theorem length_threeDigits {n : Nat} : (threeDigits n).length = 3 ↔ n < 1000 := by
  have hlen : (decimalText n).length ≤ 3 ↔ n < 10 ^ 3 :=
    Nat.length_toDigits_le_iff (by decide) (by decide)
  rw [threeDigits, List.length_append, List.length_replicate]
  omega

/-- The pattern sees the names below a thousand. -/
theorem isGeneration_generationId (p : Platform) {n : Nat} :
    isGeneration p (generationId n) = true ↔ n < 1000 := by
  have hprefix : afterPrefix (txt "gen_") (generationId n) = some (threeDigits n) := by
    rw [afterPrefix, if_pos (by simp [startsWith, generationId])]
    rfl
  have hdecimal : (threeDigits n).all p.unicode.decimal = true := by
    rw [List.all_eq_true]
    intro c hc
    have hdigit := isAsciiDigit_of_mem hc
    have hascii : c.toNat < 128 := by
      simp only [isAsciiDigit, Bool.and_eq_true, decide_eq_true_eq] at hdigit
      omega
    rw [p.unicode.decimal_ascii c hascii]
    exact hdigit
  simp only [isGeneration, hprefix, hdecimal, Bool.and_true, beq_iff_eq]
  exact length_threeDigits

/-! ## The next number -/

instance : Std.Total TextLe where
  total s t := by
    cases hlt : textLt t s with
    | false => exact .inl hlt
    | true =>
        refine .inr ?_
        by_contra hlt'
        have hself := textLt_trans hlt (by simpa [TextLe] using hlt')
        rw [textLt_irrefl] at hself
        cases hself

instance : IsTrans Text TextLe where
  trans s t u hst htu := by
    by_contra hus
    have hus : textLt u s = true := by simpa [TextLe] using hus
    by_cases hne : t = u
    · subst hne
      rw [hst] at hus
      cases hus
    · have htu' := textLt_total (Ne.symm hne) htu
      rw [TextLe, textLt_trans htu' hus] at hst
      cases hst

theorem le_getLast {l : List Text} (h : l.Pairwise TextLe) {last : Text}
    (hlast : l.getLast? = some last) {t : Text} (ht : t ∈ l) : t = last ∨ TextLe t last := by
  obtain ⟨front, rfl⟩ := List.getLast?_eq_some_iff.mp hlast
  obtain ht | ht := List.mem_append.mp ht
  · exact .inr ((List.pairwise_append.mp h).2.2 t ht last (List.mem_singleton_self _))
  · exact .inl (List.mem_singleton.mp ht)

/-- The directories after `k` bundles. -/
def DirsAfter (k : Nat) (dirs : List Text) : Prop :=
  ∀ name, name ∈ dirs ↔ ∃ m < k, name = generationId (min m 1000)

/-- The next number is that of the bundles so far, up to a thousand. -/
theorem nextGenerationId_eq (p : Platform) {k : Nat} {dirs : List Text} (h : DirsAfter k dirs) :
    nextGenerationId p dirs = generationId (min k 1000) := by
  have hseen {name : Text} : name ∈ ((p.iterdir dirs).filter (isGeneration p)).insertionSort TextLe ↔
      ∃ m < min k 1000, name = generationId m := by
    rw [(List.perm_insertionSort _ _).mem_iff, List.mem_filter, p.mem_iterdir, h name]
    constructor
    · rintro ⟨⟨m, hm, rfl⟩, hgeneration⟩
      have hlt := (isGeneration_generationId p).mp hgeneration
      exact ⟨m, by omega, by rw [Nat.min_eq_left (by omega : m ≤ 1000)]⟩
    · rintro ⟨m, hm, rfl⟩
      refine ⟨⟨m, by omega, ?_⟩, (isGeneration_generationId p).mpr (by omega)⟩
      rw [Nat.min_eq_left (by omega : m ≤ 1000)]
  unfold nextGenerationId
  cases hlast : (((p.iterdir dirs).filter (isGeneration p)).insertionSort TextLe).getLast? with
  | none =>
      have hk : k = 0 := by
        by_contra hk
        have hfirst := hseen.mpr ⟨0, by omega, rfl⟩
        rw [List.getLast?_eq_none_iff.mp hlast] at hfirst
        cases hfirst
      rw [hk]
      rfl
  | some last =>
      obtain ⟨m, hm, rfl⟩ := hseen.mp (List.mem_of_getLast? hlast)
      have htop := hseen.mpr ⟨min k 1000 - 1, by omega, rfl⟩
      have hmax : m = min k 1000 - 1 := by
        obtain heq | hle := le_getLast (List.pairwise_insertionSort TextLe _) hlast htop
        · exact (generationId_inj p heq).symm
        · by_contra hne
          rw [TextLe, textLt_generationId (by omega) (by omega)] at hle
          cases hle
      simp only [numberOf_generationId]
      congr 1
      omega

/-! ## Runs -/

section Runs

variable (p : Platform) (segment : Text)

theorem writeAll_frame (dir : Text) (artifacts : List Artifact) (s : Segment) :
    (writeAll p dir artifacts s).dirs = s.dirs ∧
      ∀ d name, d ≠ dir → (writeAll p dir artifacts s).files d name = s.files d name := by
  induction artifacts generalizing s with
  | nil => exact ⟨rfl, fun _ _ _ => rfl⟩
  | cons a later ih =>
      rw [writeAll]
      split
      · exact ⟨rfl, fun _ _ _ => rfl⟩
      · obtain ⟨hdirs, hfiles⟩ := ih (s.replace dir a.name a.text)
        refine ⟨hdirs, fun d name hd => ?_⟩
        rw [hfiles d name hd]
        simp [Segment.replace, hd]

theorem mem_mkdir {s : Segment} {dir name : Text} :
    name ∈ (s.mkdir dir).dirs ↔ name ∈ s.dirs ∨ name = dir := by
  rw [Segment.mkdir]
  split
  · next hmem =>
    have hmem : dir ∈ s.dirs := by simpa using hmem
    constructor
    · exact .inl
    · rintro (h | rfl)
      · exact h
      · exact hmem
  · simp

theorem files_mkdir (s : Segment) (dir : Text) : (s.mkdir dir).files = s.files := by
  rw [Segment.mkdir]
  split <;> rfl

/-- What is known after `k` bundles. -/
structure After (k : Nat) (o : Outcome) : Prop where
  ids : o.ids = (List.range k).map fun m => generationId (min m 1000)
  dirs : DirsAfter k o.segment.dirs
  files : ∀ dir name text, o.segment.files dir name = some text → dir ∈ o.segment.dirs

variable {p} {segment} {k : Nat} {o : Outcome}

theorem After.write (h : After k o) {packet : Packet} (hwrites : packet.writes segment = true) :
    After (k + 1) (runNext p segment o packet) := by
  have hnext := nextGenerationId_eq p h.dirs
  rw [runNext, if_pos hwrites]
  dsimp only [writeGenerationBundle]
  rw [hnext]
  obtain ⟨hdirs, hfiles⟩ := writeAll_frame p (generationId (min k 1000))
    (bundleFiles p segment (generationId (min k 1000)) packet.payload)
    (o.segment.mkdir (generationId (min k 1000)))
  refine ⟨?_, ?_, ?_⟩
  · rw [h.ids, List.range_succ, List.map_append]
    rfl
  · intro name
    dsimp only
    rw [hdirs, mem_mkdir, h.dirs name]
    constructor
    · rintro (⟨m, hm, rfl⟩ | rfl)
      · exact ⟨m, by omega, rfl⟩
      · exact ⟨k, by omega, rfl⟩
    · rintro ⟨m, hm, rfl⟩
      rcases Nat.lt_or_ge m k with hlt | hge
      · exact .inl ⟨m, hlt, rfl⟩
      · exact .inr (by rw [Nat.le_antisymm (Nat.le_of_lt_succ hm) hge])
  · intro dir name text htext
    dsimp only at htext ⊢
    rw [hdirs, mem_mkdir]
    by_cases hdir : dir = generationId (min k 1000)
    · exact .inr hdir
    · rw [hfiles dir name hdir, files_mkdir] at htext
      exact .inl (h.files dir name text htext)

/-- Up to the thousand and first bundle a packet changes no file there is. -/
theorem After.kept (h : After k o) (hk : k ≤ 1000) (packet : Packet) {dir name text : Text}
    (htext : o.segment.files dir name = some text) :
    (runNext p segment o packet).segment.files dir name = some text := by
  rw [runNext]
  split
  · dsimp only [writeGenerationBundle]
    rw [nextGenerationId_eq p h.dirs]
    have hdir : dir ≠ generationId (min k 1000) := by
      rintro rfl
      obtain ⟨m, hm, heq⟩ := (h.dirs _).mp (h.files _ _ _ htext)
      have := generationId_inj p heq
      omega
    rw [(writeAll_frame p _ _ _).2 dir name hdir, files_mkdir]
    exact htext
  · exact htext

theorem after_runAll (packets : List Packet) :
    After (packets.countP (Packet.writes segment)) (runAll p segment packets) := by
  induction packets using List.reverseRecOn with
  | nil =>
      refine ⟨rfl, fun name => ?_, fun _ _ _ h => by cases h⟩
      constructor
      · intro h
        cases h
      · rintro ⟨m, hm, -⟩
        cases hm
  | append_singleton packets packet ih =>
      rw [List.countP_append, runAll, List.foldl_append]
      by_cases hwrites : packet.writes segment = true
      · have hone : [packet].countP (Packet.writes segment) = 1 := by simp [hwrites]
        rw [hone]
        exact ih.write hwrites
      · have hnone : [packet].countP (Packet.writes segment) = 0 := by simp [hwrites]
        rw [hnone]
        simp only [List.foldl_cons, List.foldl_nil, runNext, hwrites]
        exact ih

/-- The ids come in the order of their numbers, so that none comes twice. -/
def IdsIncrease (p : Platform) (segment : Text) (packets : List Packet) : Prop :=
  ((runAll p segment packets).ids.map (numberOf p)).Pairwise (· < ·)

/-- A packet leaves every file that is there when it begins. -/
def FilesStay (p : Platform) (segment : Text) (packets : List Packet) : Prop :=
  ∀ before packet later, packets = before ++ packet :: later → ∀ dir name text,
    (runAll p segment before).segment.files dir name = some text →
    (runAll p segment (before ++ [packet])).segment.files dir name = some text

theorem numbers_runAll (packets : List Packet) :
    (runAll p segment packets).ids.map (numberOf p) =
      (List.range (packets.countP (Packet.writes segment))).map (min · 1000) := by
  rw [(after_runAll packets).ids, List.map_map]
  exact List.map_congr_left fun m _ => numberOf_generationId p _

theorem idsIncrease_iff (packets : List Packet) :
    IdsIncrease p segment packets ↔ packets.countP (Packet.writes segment) ≤ 1001 := by
  rw [IdsIncrease, numbers_runAll, List.pairwise_map]
  constructor
  · intro h
    by_contra hmore
    have htwice := List.pairwise_iff_getElem.mp h 1000 1001 (by simp; omega) (by simp; omega)
      (by decide)
    simp at htwice
  · intro hle
    refine List.pairwise_lt_range.imp_of_mem fun {a b} ha hb hlt => ?_
    have hb := List.mem_range.mp hb
    omega

theorem filesStay_of_le {packets : List Packet}
    (h : packets.countP (Packet.writes segment) ≤ 1001) : FilesStay p segment packets := by
  rintro before packet later rfl dir name text htext
  rw [List.countP_append, List.countP_cons] at h
  rw [runAll, List.foldl_append]
  show (runNext p segment (runAll p segment before) packet).segment.files dir name = some text
  by_cases hwrites : packet.writes segment = true
  · rw [if_pos hwrites] at h
    exact (after_runAll before).kept (by omega) packet htext
  · rw [runNext, if_neg hwrites]
    exact htext

end Runs

/-- The bundles of a run have ids that increase, and no packet changes a file
of an earlier one, if and only if at most 1001 packets write a bundle. -/
theorem bundles_fresh_iff (p : Platform) (segment : Text) (packets : List Packet) :
    IdsIncrease p segment packets ∧ FilesStay p segment packets ↔
      packets.countP (Packet.writes segment) ≤ 1001 :=
  ⟨fun h => (idsIncrease_iff packets).mp h.1,
    fun h => ⟨(idsIncrease_iff packets).mpr h, filesStay_of_le h⟩⟩

/-! ## The bundle after a thousand and one -/

/-- A platform on which nothing is RED. -/
def plainPlatform : Platform where
  unicode := Unicode.ascii
  intOf t := Nat.ofDigitChars 10 t 0
  intOf_ascii _ _ := rfl
  iterdir names := names
  mem_iterdir _ _ := Iff.rfl
  red _ := false
  cut t := t
  sha256 t := t
  dumps _ := txt "{}\n"

/-- A packet with that candidate patch. -/
def patched (patch : Text) : Packet :=
  ⟨true, false, ⟨[], patch, [], [], [], [], [], [], [], [], [], []⟩⟩

theorem writes_patched (patch : Text) : (patched patch).writes (txt "s") = true := rfl

theorem patch_written {k : Nat} {o : Outcome} (h : After k o) (patch : Text) :
    (runNext plainPlatform (txt "s") o (patched patch)).segment.files
      (generationId (min k 1000)) (txt "candidate.patch") = some patch := by
  rw [runNext, if_pos (writes_patched patch)]
  dsimp only [writeGenerationBundle]
  rw [nextGenerationId_eq plainPlatform h.dirs]
  simp [bundleFiles, artifacts, scanReport, manifest, writeAll, plainPlatform, patched,
    Segment.replace, txt]

theorem patch_after (before : List Packet) (patch : Text) :
    (runAll plainPlatform (txt "s") (before ++ [patched patch])).segment.files
      (generationId (min (before.countP (Packet.writes (txt "s"))) 1000))
      (txt "candidate.patch") = some patch := by
  rw [runAll, List.foldl_append]
  exact patch_written (after_runAll before) patch

/-- Behind a thousand bundles the next two have one directory. -/
theorem patch_overwritten {before : List Packet}
    (h : before.countP (Packet.writes (txt "s")) = 1000) {patch patch' : Text}
    (hne : patch ≠ patch') : ¬FilesStay plainPlatform (txt "s")
      (before ++ [patched patch] ++ [patched patch']) := by
  intro hstay
  have hfirst := patch_after before patch
  have hsecond := patch_after (before ++ [patched patch]) patch'
  have hone : [patched patch].countP (Packet.writes (txt "s")) = 1 := rfl
  rw [List.countP_append, h, hone, Nat.min_eq_right (by omega)] at hsecond
  rw [h, Nat.min_self] at hfirst
  have hkept := hstay _ _ [] rfl _ _ _ hfirst
  rw [hsecond] at hkept
  exact hne (Option.some.inj hkept).symm

/-- The 1002nd bundle is written over the 1001st. -/
theorem thousandth_bundle_overwritten : ¬FilesStay plainPlatform (txt "s")
    (List.replicate 1000 (patched (txt "a")) ++ [patched (txt "a")] ++ [patched (txt "b")]) := by
  refine patch_overwritten ?_ (by decide)
  rw [List.countP_replicate, if_pos (writes_patched _)]

end RalphVault.AutoResearch.Generations
