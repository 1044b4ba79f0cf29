import RalphVault.Memory.Value
import RalphVault.Meter

/-!
# PostToolUse — the measured output

`_bounded_value_length` and `measured_output` of `cost_policy.py`: the lengths
of the leaves of the output fields, taken out of a limit. The recursion over
the payload is a meter over its leaves in their order.
-/

namespace RalphVault.PostTool

open Memory Meter

/-- `MAX_MEASURED_OUTPUT_CHARS`. -/
def maxMeasuredOutputChars : Nat := 12000

/-- `OUTPUT_FIELDS`. -/
def outputFields : List Text :=
  [txt "output", txt "stdout", txt "stderr", txt "result", txt "message"]

/-- `value in (None, "", [], {})`. -/
def isBlankValue : Value → Bool
  | .null => true
  | .str t => t.isEmpty
  | .arr vs => vs.isEmpty
  | .obj fs => fs.isEmpty
  | _ => false

section Measure

variable (host : Host)

mutual
/-- `_bounded_value_length`. -/
def boundedValueLength : Value → Nat → Nat × Bool
  | v, 0 => (0, !isBlankValue v)
  | .str t, remaining => (min t.length remaining, remaining < t.length)
  | .arr vs, remaining => boundedItems remaining vs 0 false
  | .obj fs, remaining => boundedFields remaining fs 0 false
  | v, remaining =>
      (min (pyStr host v).length remaining, remaining < (pyStr host v).length)

/-- The loop over the items of a list. -/
def boundedItems (remaining : Nat) : List Value → Nat → Bool → Nat × Bool
  | [], used, truncated => (used, truncated)
  | v :: vs, used, truncated =>
      let (size, itemTruncated) := boundedValueLength v (remaining - used)
      if remaining ≤ used + size then (used + size, truncated || itemTruncated)
      else boundedItems remaining vs (used + size) (truncated || itemTruncated)

/-- The loop over the values of an object. -/
def boundedFields (remaining : Nat) : List (Text × Value) → Nat → Bool → Nat × Bool
  | [], used, truncated => (used, truncated)
  | (_, v) :: fs, used, truncated =>
      let (size, itemTruncated) := boundedValueLength v (remaining - used)
      if remaining ≤ used + size then (used + size, truncated || itemTruncated)
      else boundedFields remaining fs (used + size) (truncated || itemTruncated)
end

/-- The values of the output fields an object has. -/
def presentOutputs (payload : Fields) : List Value := outputFields.filterMap payload.get?

/-- The output fields of a response, if it is an object. -/
def responseOutputs (payload : Fields) (field : Text) : List Value :=
  match payload.getD field .null with
  | .obj response => presentOutputs response
  | _ => []

/-- The values `measured_output` goes through. -/
def measuredValues (payload : Fields) : List Value :=
  presentOutputs payload ++
    ([txt "tool_response", txt "toolResponse"].flatMap (responseOutputs payload))

/-- `measured_output`. -/
def measuredOutput (payload : Fields) : Nat × Bool :=
  boundedItems host maxMeasuredOutputChars (measuredValues payload) 0 false

/-! ## The leaves -/

mutual
/-- The lengths of the leaves of a value, in their order. -/
def leafLengths : Value → List Nat
  | .str t => [t.length]
  | .arr vs => itemLengths vs
  | .obj fs => fieldLengths fs
  | v => [(pyStr host v).length]

def itemLengths : List Value → List Nat
  | [] => []
  | v :: vs => leafLengths v ++ itemLengths vs

def fieldLengths : List (Text × Value) → List Nat
  | [] => []
  | (_, v) :: fs => leafLengths v ++ fieldLengths fs
end

/-- A leaf is a meter of one size. -/
theorem fill_leaf (n r : Nat) : fill [n] r = (min n r, decide (r < n)) := by
  by_cases h : r ≤ n
  · rw [fill_cons_of_le h, Nat.min_eq_right h]
  · rw [fill_cons_of_lt (by omega), Nat.min_eq_left (by omega)]
    simp [fill]
    omega

/-- A turn of a loop that has used `used` of `r`, where the turns behind it are
a meter over `ms`. -/
theorem fill_turn {loop : Nat → Bool → Nat × Bool} {ns ms : List Nat} {r used : Nat}
    {truncated : Bool} (hused : used < r)
    (hloop : ∀ u t, u < r → loop u t = (u + (fill ms (r - u)).1, t || (fill ms (r - u)).2)) :
    (if r ≤ used + (fill ns (r - used)).1 then
        (used + (fill ns (r - used)).1, truncated || (fill ns (r - used)).2)
      else loop (used + (fill ns (r - used)).1) (truncated || (fill ns (r - used)).2)) =
      (used + (fill (ns ++ ms) (r - used)).1, truncated || (fill (ns ++ ms) (r - used)).2) := by
  have hsize := fill_used ns (r - used)
  by_cases hsum : ns.sum < r - used
  · have hnext : used + (fill ns (r - used)).1 = used + ns.sum := by omega
    rw [fill_fits hsum, hnext, if_neg (by omega), hloop _ _ (by omega),
      fill_append_of_lt ns ms _ hsum, Nat.sub_sub, Nat.add_assoc, Bool.or_false]
  · rw [if_pos (by omega), fill_append_of_le ns ms _ (by omega) (by omega)]

mutual
/-- The recursion over a value is a meter over its leaves. -/
theorem boundedValueLength_eq : ∀ (v : Value) {r : Nat}, 0 < r →
    boundedValueLength host v r = fill (leafLengths host v) r
  | .str t, r, hr => by
      rw [leafLengths, fill_leaf, boundedValueLength]
      omega
  | .null, r, hr => by
      rw [leafLengths, fill_leaf, boundedValueLength] <;> simp
      omega
  | .bool b, r, hr => by
      rw [leafLengths, fill_leaf, boundedValueLength] <;> simp
      omega
  | .int n, r, hr => by
      rw [leafLengths, fill_leaf, boundedValueLength] <;> simp
      omega
  | .float q, r, hr => by
      rw [leafLengths, fill_leaf, boundedValueLength] <;> simp
      omega
  | .arr vs, r, hr => by
      rw [leafLengths, boundedValueLength, boundedItems_eq vs hr]
      · simp
      · omega
  | .obj fs, r, hr => by
      rw [leafLengths, boundedValueLength, boundedFields_eq fs hr]
      · simp
      · omega

/-- So is the loop over the items of a list, from what is used so far. -/
theorem boundedItems_eq : ∀ (vs : List Value) {r used : Nat} {truncated : Bool}, used < r →
    boundedItems host r vs used truncated =
      (used + (fill (itemLengths host vs) (r - used)).1,
        truncated || (fill (itemLengths host vs) (r - used)).2)
  | [], r, used, truncated, _ => by simp [boundedItems, itemLengths, fill]
  | v :: vs, r, used, truncated, h => by
      rw [boundedItems, boundedValueLength_eq v (by omega), itemLengths]
      exact fill_turn h fun _ _ hu => boundedItems_eq vs hu

theorem boundedFields_eq : ∀ (fs : List (Text × Value)) {r used : Nat} {truncated : Bool},
    used < r → boundedFields host r fs used truncated =
      (used + (fill (fieldLengths host fs) (r - used)).1,
        truncated || (fill (fieldLengths host fs) (r - used)).2)
  | [], r, used, truncated, _ => by simp [boundedFields, fieldLengths, fill]
  | (_, v) :: fs, r, used, truncated, h => by
      rw [boundedFields, boundedValueLength_eq v (by omega), fieldLengths]
      exact fill_turn h fun _ _ hu => boundedFields_eq fs hu
end

/-! ## The output of a payload -/

/-- The lengths of the leaves that are measured. -/
def measuredLengths (payload : Fields) : List Nat := itemLengths host (measuredValues payload)

theorem measuredOutput_eq (payload : Fields) :
    measuredOutput host payload = fill (measuredLengths host payload) maxMeasuredOutputChars := by
  rw [measuredOutput, boundedItems_eq host _ (by decide : 0 < maxMeasuredOutputChars)]
  simp [measuredLengths]

/-- The smaller of the limit and the total, and whether the total is larger. -/
def MeasuresTotal (payload : Fields) : Prop :=
  measuredOutput host payload =
    (min (measuredLengths host payload).sum maxMeasuredOutputChars,
      decide (maxMeasuredOutputChars < (measuredLengths host payload).sum))

/-- **The output is measured right** if and only if the leaves do not use up
the limit exactly with something behind them. -/
theorem measuresTotal_iff (payload : Fields) : MeasuresTotal host payload ↔
    ¬StopsShort (measuredLengths host payload) maxMeasuredOutputChars := by
  have hflag := fill_overflows_iff (measuredLengths host payload) maxMeasuredOutputChars (by decide)
  rw [MeasuresTotal, measuredOutput_eq, Prod.ext_iff, fill_used, Bool.eq_iff_iff,
    decide_eq_true_iff, hflag]
  constructor
  · rintro ⟨_, h⟩ hshort
    obtain ⟨front, back, hsplit, hsum, hback⟩ := hshort
    have hmore : maxMeasuredOutputChars < (measuredLengths host payload).sum := by
      rw [hsplit, List.sum_append]
      omega
    exact (h.mpr hmore).2 ⟨front, back, hsplit, hsum, hback⟩
  · intro h
    exact ⟨rfl, and_iff_left h⟩

end Measure

/-! ## A limit that is used up exactly -/

/-- An output that uses up the limit, and one character of `stderr`. -/
def fullPayload : Fields :=
  [(txt "output", .str (List.replicate maxMeasuredOutputChars 'x')), (txt "stderr", .str ['y'])]

theorem full_output_not_truncated : ¬∀ host payload, MeasuresTotal host payload := by
  intro h
  let host := Host.ascii fun _ => []
  have hlengths : measuredLengths host fullPayload = [maxMeasuredOutputChars, 1] := by
    have hvalues : measuredValues fullPayload =
        [.str (List.replicate maxMeasuredOutputChars 'x'), .str ['y']] := rfl
    rw [measuredLengths, hvalues]
    simp only [itemLengths, leafLengths, List.length_replicate, List.length_singleton]
    rfl
  have htotal := h host fullPayload
  rw [MeasuresTotal, measuredOutput_eq, hlengths] at htotal
  revert htotal
  decide

end RalphVault.PostTool
