import RalphVault.AsciiJson

/-!
# Advisor — the budget of a packet

`bounded_packet` of `agent_budget.py`: the free texts of a packet are cut to
fixed lengths, and if the encoded packet is still too long, files and then
halves of the longest text are dropped until it is not.
-/

namespace RalphVault.Advisor.PacketBudget

open Json

/-! ## Packets -/

/-- `MAX_PACKET_BYTES`. -/
def maxPacketBytes : Nat := 4096

/-- `_bounded_text` of a text. -/
def boundedText (t : Text) (limit : Nat) : Text := (joinWith [' '] (words t)).take limit

structure Packet where
  question : Text
  context : Text
  files : List Text
  constraints : Text
  outputFormat : Text
  budgetBytes : Nat
deriving DecidableEq

def Packet.toJson (p : Packet) : Json :=
  .obj [(txt "question", .str p.question), (txt "context", .str p.context),
    (txt "files", .arr (p.files.map .str)), (txt "constraints", .str p.constraints),
    (txt "output_format", .str p.outputFormat), (txt "budget_bytes", .num p.budgetBytes)]

/-- `encoded_size`. -/
def Packet.encodedSize (p : Packet) : Nat := utf8Len (asciiDumps p.toJson)

/-- The free texts, in the order in which the longest is looked for. -/
inductive Field where
  | question
  | context
  | constraints
  | outputFormat
deriving DecidableEq

def Field.all : List Field := [.question, .context, .constraints, .outputFormat]

def Packet.get (p : Packet) : Field → Text
  | .question => p.question
  | .context => p.context
  | .constraints => p.constraints
  | .outputFormat => p.outputFormat

def Packet.set (p : Packet) (t : Text) : Field → Packet
  | .question => { p with question := t }
  | .context => { p with context := t }
  | .constraints => { p with constraints := t }
  | .outputFormat => { p with outputFormat := t }

/-! ## Shrinking -/

def Packet.longer (p : Packet) (best : Option Field) (f : Field) : Option Field :=
  match best with
  | some b => if (p.get b).length < (p.get f).length then some f else some b
  | none => some f

/-- `candidates`. -/
def Packet.candidates (p : Packet) : List Field :=
  Field.all.filter fun f => !(p.get f).isEmpty

/-- `max(candidates, key=...)`: the first of the longest texts. -/
def Packet.longest (p : Packet) : Option Field := p.candidates.foldl p.longer none

/-- The body of the `while` loop, unless it breaks. -/
def Packet.shrink (p : Packet) : Option Packet :=
  if p.files ≠ [] then some { p with files := p.files.take (p.files.length / 2) }
  else p.longest.map fun f => p.set ((p.get f).take ((p.get f).length / 2)) f

/-- The packet without its texts, behind the `break`. -/
def Packet.cleared (p : Packet) : Packet :=
  { p with question := [], context := [], files := [], constraints := [], outputFormat := [] }

/-- The `while` loop. -/
def shrinkTo (limit : Nat) : Nat → Packet → Option Packet
  | 0, _ => none
  | fuel + 1, p =>
      if limit < p.encodedSize then
        match p.shrink with
        | some smaller => shrinkTo limit fuel smaller
        | none => some p.cleared
      else some p

/-- The arguments of `bounded_packet`. -/
structure Request where
  question : Text
  context : Text
  files : List Text
  constraints : Text
  outputFormat : Text
  /-- `int(budget_bytes)`, if it is a number. -/
  budgetBytes : Option Int

/-- `_ints` with its default bound. -/
def ints (default : Nat) : Option Int → Nat
  | none => default
  | some n => (max 0 (min n (2 ^ 31 - 1))).toNat

def Request.limit (r : Request) : Nat :=
  max 256 (min maxPacketBytes (ints maxPacketBytes r.budgetBytes))

section Build

variable (red : Text → Bool)

def guarded (t : Text) (limit : Nat) : Text :=
  if red t then txt "[redacted-local-only]" else boundedText t limit

/-- The packet before it is measured. -/
def Request.packet (r : Request) : Packet where
  question := guarded red r.question 800
  context := guarded red r.context 1600
  files := ((r.files.map (boundedText · 180)).filter fun path => !path.isEmpty).take 12
  constraints := guarded red r.constraints 800
  outputFormat := boundedText r.outputFormat 240
  budgetBytes := r.limit

/-- The first cut of a packet that is too long. -/
def Packet.firstCut (p : Packet) (limit : Nat) : Packet :=
  { p with
    files := p.files.take 4
    context := p.context.take (limit / 3)
    constraints := p.constraints.take (limit / 6)
    question := p.question.take (limit / 4) }

/-- `bounded_packet`; `red` is `is_red`. -/
def boundedPacket (fuel : Nat) (r : Request) : Option Packet :=
  let p := r.packet red
  if p.encodedSize ≤ r.limit then some p else shrinkTo r.limit fuel (p.firstCut r.limit)

end Build

/-! ## Progress -/

/-- The files and the characters a packet still has to lose. -/
def Packet.load (p : Packet) : Nat :=
  p.files.length + p.question.length + p.context.length + p.constraints.length +
    p.outputFormat.length

theorem load_set {p : Packet} {t : Text} {f : Field} (h : t.length < (p.get f).length) :
    (p.set t f).load < p.load := by
  cases f <;> simp only [Packet.set, Packet.get, Packet.load] at h ⊢ <;> omega

theorem longer_cases (p : Packet) (best : Option Field) (f : Field) :
    p.longer best f = some f ∨ (∃ b, best = some b ∧ p.longer best f = some b) := by
  cases best with
  | none => exact .inl rfl
  | some b =>
      simp only [Packet.longer]
      split
      · exact .inl rfl
      · exact .inr ⟨b, rfl, rfl⟩

theorem foldl_longer_mem {p : Packet} {l : List Field} {best : Option Field} {g : Field}
    (h : l.foldl p.longer best = some g) : best = some g ∨ g ∈ l := by
  induction l generalizing best with
  | nil => exact .inl h
  | cons f l ih =>
      obtain hbest | hl := ih h
      · obtain hf | ⟨b, hb, hkept⟩ := longer_cases p best f
        · rw [hf] at hbest
          cases hbest
          exact .inr List.mem_cons_self
        · rw [hkept] at hbest
          exact .inl (hb.trans hbest)
      · exact .inr (List.mem_cons_of_mem _ hl)

theorem foldl_longer_some (p : Packet) (l : List Field) (b : Field) :
    ∃ g, l.foldl p.longer (some b) = some g := by
  induction l generalizing b with
  | nil => exact ⟨b, rfl⟩
  | cons f l ih =>
      rw [List.foldl_cons]
      obtain hf | ⟨b', -, hkept⟩ := longer_cases p (some b) f
      · rw [hf]
        exact ih f
      · rw [hkept]
        exact ih b'

/-- The text that is halved has a character. -/
theorem get_longest {p : Packet} {f : Field} (h : p.longest = some f) : p.get f ≠ [] := by
  obtain hnone | hmem := foldl_longer_mem h
  · cases hnone
  · simpa using (List.mem_filter.mp hmem).2

theorem get_of_longest_eq_none {p : Packet} (h : p.longest = none) (f : Field) :
    p.get f = [] := by
  by_contra hf
  have hmem : f ∈ p.candidates := by
    apply List.mem_filter.mpr
    exact ⟨by cases f <;> decide, by simpa using hf⟩
  rw [Packet.longest] at h
  cases hl : p.candidates with
  | nil =>
      rw [hl] at hmem
      cases hmem
  | cons g l =>
      obtain ⟨b, hb⟩ := foldl_longer_some p l g
      rw [hl, List.foldl_cons, Packet.longer, hb] at h
      cases h

/-- Each turn of the loop loses a file or a character. -/
theorem load_shrink {p smaller : Packet} (h : p.shrink = some smaller) :
    smaller.load < p.load := by
  unfold Packet.shrink at h
  split at h
  · next hfiles =>
    cases h
    have hpos : 0 < p.files.length := List.length_pos_iff.mpr hfiles
    simp only [Packet.load, List.length_take]
    omega
  · obtain ⟨f, hf, rfl⟩ := Option.map_eq_some_iff.mp h
    have hpos : 0 < (p.get f).length := List.length_pos_iff.mpr (get_longest hf)
    apply load_set
    rw [List.length_take]
    omega

/-- The loop breaks on a packet that has nothing left. -/
theorem cleared_of_shrink_eq_none {p : Packet} (h : p.shrink = none) : p = p.cleared := by
  unfold Packet.shrink at h
  split at h
  · cases h
  · next hfiles =>
    have hempty := get_of_longest_eq_none (Option.map_eq_none_iff.mp h)
    have hfiles : p.files = [] := by simpa using hfiles
    have hquestion : p.question = [] := hempty .question
    have hcontext : p.context = [] := hempty .context
    have hconstraints : p.constraints = [] := hempty .constraints
    have hformat : p.outputFormat = [] := hempty .outputFormat
    obtain ⟨question, context, files, constraints, outputFormat, budget⟩ := p
    subst hfiles hquestion hcontext hconstraints hformat
    rfl

/-! ## The size of an empty packet -/

theorem limit_bounds (r : Request) : 256 ≤ r.limit ∧ r.limit ≤ maxPacketBytes := by
  unfold Request.limit maxPacketBytes
  omega

def emptyHead : Text := txt "\x7b\"budget_bytes\":"

def emptyTail : Text :=
  txt ",\"constraints\":\"\",\"context\":\"\",\"files\":[],\"output_format\":\"\",\"question\":\"\"\x7d"

/-- The encoding of a packet without texts. -/
theorem canonical_cleared (p : Packet) : canonical p.cleared.toJson =
    emptyHead ++ (decimalText p.budgetBytes ++ emptyTail) := by
  have hnum : renderTo (.num p.budgetBytes) = fun rest => decimalText p.budgetBytes ++ rest := by
    funext rest
    simp [renderTo, intText]
  simp only [canonical, Packet.toJson, Packet.cleared, renderTo, renderFields]
  rw [← renderTo, hnum]
  rfl

theorem utf8Len_of_ascii {t : Text} (h : ∀ c ∈ t, c.toNat < 127) : utf8Len t = t.length := by
  induction t with
  | nil => rfl
  | cons c t ih =>
      have hsize : c.utf8Size = 1 := by
        have hc := h c List.mem_cons_self
        rw [Char.utf8Size_eq_one_iff]
        exact UInt32.le_iff_toNat_le.mpr (Nat.le_of_lt hc)
      rw [utf8Len_cons, hsize, ih fun d hd => h d (List.mem_cons_of_mem _ hd), List.length_cons]
      omega

theorem encodedSize_cleared {p : Packet} (h : p.budgetBytes ≤ maxPacketBytes) :
    p.cleared.encodedSize ≤ 256 := by
  have hdigits : (decimalText p.budgetBytes).length ≤ 4 := by
    refine (Nat.length_toDigits_le_iff (by decide) (by decide)).mpr ?_
    unfold maxPacketBytes at h
    omega
  have hhead : ∀ c ∈ emptyHead, c.toNat < 127 := by decide
  have htail : ∀ c ∈ emptyTail, c.toNat < 127 := by decide
  have hascii : ∀ c ∈ canonical p.cleared.toJson, c.toNat < 127 := by
    rw [canonical_cleared]
    intro c hc
    obtain hc | hc := List.mem_append.mp hc
    · exact hhead c hc
    · obtain hc | hc := List.mem_append.mp hc
      · have hdigit := isDigit_decimalText hc
        simp only [Char.isDigit, Bool.and_eq_true, decide_eq_true_eq] at hdigit
        have hle := UInt32.le_iff_toNat_le.mp hdigit.2
        exact Nat.lt_of_le_of_lt hle (by decide)
      · exact htail c hc
  rw [Packet.encodedSize, asciiDumps, asciiText_low hascii, utf8Len_of_ascii hascii,
    canonical_cleared, List.length_append, List.length_append]
  have hfixed : emptyHead.length + emptyTail.length ≤ 252 := by decide
  omega

/-! ## The end of the loop -/

theorem budgetBytes_shrink {p smaller : Packet} (h : p.shrink = some smaller) :
    smaller.budgetBytes = p.budgetBytes := by
  unfold Packet.shrink at h
  split at h
  · cases h
    rfl
  · obtain ⟨f, -, rfl⟩ := Option.map_eq_some_iff.mp h
    cases f <;> rfl

/-- With more fuel than the packet has to lose, the loop ends with a packet
that fits. -/
theorem shrinkTo_fits {limit : Nat} (hlimit : 256 ≤ limit) {p : Packet}
    (hbudget : p.budgetBytes ≤ maxPacketBytes) : ∃ result, result.encodedSize ≤ limit ∧
      ∀ fuel, p.load < fuel → shrinkTo limit fuel p = some result := by
  induction hload : p.load using Nat.strong_induction_on generalizing p with
  | _ load ih =>
      subst hload
      by_cases hlong : limit < p.encodedSize
      · cases hstep : p.shrink with
        | none =>
            -- nothing is left to lose, and the rest is short
            have hfits := encodedSize_cleared hbudget
            rw [← cleared_of_shrink_eq_none hstep] at hfits
            omega
        | some smaller =>
            have hless := load_shrink hstep
            have hsame := budgetBytes_shrink hstep
            obtain ⟨result, hfits, hruns⟩ := ih smaller.load hless (by omega) rfl
            refine ⟨result, hfits, ?_⟩
            intro fuel hfuel
            obtain ⟨before, rfl⟩ : ∃ before, fuel = before + 1 := ⟨fuel - 1, by omega⟩
            rw [shrinkTo, if_pos hlong, hstep]
            exact hruns before (by omega)
      · refine ⟨p, by omega, ?_⟩
        intro fuel hfuel
        obtain ⟨before, rfl⟩ : ∃ before, fuel = before + 1 := ⟨fuel - 1, by omega⟩
        rw [shrinkTo, if_neg hlong]

/-- Every request gets a packet, and the packet is no longer than the limit;
the limit is the budget that was asked for, between 256 and 4096. -/
theorem boundedPacket_fits (red : Text → Bool) (r : Request) : ∃ packet,
    (∀ fuel, ((r.packet red).firstCut r.limit).load < fuel →
      boundedPacket red fuel r = some packet) ∧
    packet.encodedSize ≤ r.limit ∧ r.limit ≤ maxPacketBytes ∧
    ∀ n : Nat, r.budgetBytes = some (n : Int) → 256 ≤ n → r.limit ≤ n := by
  have hasked (n : Nat) (hn : r.budgetBytes = some (n : Int)) (hle : 256 ≤ n) : r.limit ≤ n := by
    unfold Request.limit ints
    rw [hn]
    show max 256 (min maxPacketBytes (max 0 (min (n : Int) (2 ^ 31 - 1))).toNat) ≤ n
    omega
  have hbounds := limit_bounds r
  by_cases hfits : (r.packet red).encodedSize ≤ r.limit
  · refine ⟨r.packet red, ?_, hfits, hbounds.2, hasked⟩
    intro fuel _
    rw [boundedPacket, if_pos hfits]
  · obtain ⟨packet, hsize, hruns⟩ := shrinkTo_fits hbounds.1
      (p := (r.packet red).firstCut r.limit) hbounds.2
    refine ⟨packet, ?_, hsize, hbounds.2, hasked⟩
    intro fuel hfuel
    rw [boundedPacket, if_neg hfits]
    exact hruns fuel hfuel

end RalphVault.Advisor.PacketBudget
