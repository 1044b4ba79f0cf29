import RalphVault.IndentedSize
import RalphVault.RotatingLog
import RalphVault.Security.ExternalBoundary

/-!
# PostToolUse — the cost ledger

`append_cost_event` of `.codex/hooks/shared/post_tool_ledger.py`: one record a
line, in `tool-ledger.jsonl` (file 0), which a rotation turns into
`tool-ledger.jsonl.1`. The rotation looks at the size the file has, the
admission at the size it would get: a file below the limit that has no room for
the record is neither rotated nor written. Left out: events that `json.dumps`
does not encode.
-/

namespace RalphVault.PostTool.CostLedger

open Memory RotatingLog

/-! ## Configuration -/

def defaultJsonlMaxBytes : Int := 2 * 1024 * 1024
def maxRecordBytes : Nat := 256 * 1024

/-- `jsonl_max_bytes`; the setting is what `int` reads in the environment. -/
def jsonlMaxBytes (setting : Option Int) : Nat :=
  (max (32 * 1024) (min (setting.getD defaultJsonlMaxBytes) (16 * 1024 * 1024))).toNat

/-! ## The files -/

/-- `st_size` of file 0, zero if it is missing. -/
def activeBytes (fs : RotatingLog.Files Text) : Nat := activeSize utf8Len fs

/-- `rotate_jsonl`. -/
def rotateJsonl (maximum : Nat) (fs : RotatingLog.Files Text) : RotatingLog.Files Text :=
  if (fs 0).isSome && decide (maximum ≤ activeBytes fs) then
    move (if (fs 1).isSome then remove fs 1 else fs) 0 1
  else fs

/-- `os.open` with `O_CREAT`. -/
def openActive (fs : RotatingLog.Files Text) : RotatingLog.Files Text :=
  fun k => if k = 0 then some (content fs 0) else fs k

/-! ## One call -/

/-- A call, and the setting of its process. -/
structure Call where
  setting : Option Int
  event : Fields

section Calls

variable (host : Host)

/-- `encoded`. -/
def Call.encoded (c : Call) : Text := ExternalBoundary.encode host (.obj c.event) ++ ['\n']

def Call.maximum (c : Call) : Nat := jsonlMaxBytes c.setting

/-- `append_cost_event`: whether the record is written, and the files. -/
def appendCostEvent (c : Call) (fs : RotatingLog.Files Text) : Bool × RotatingLog.Files Text :=
  if maxRecordBytes < utf8Len (c.encoded host) then (false, fs)
  else
    let opened := openActive (rotateJsonl c.maximum fs)
    if c.maximum < activeBytes opened + utf8Len (c.encoded host) then (false, opened)
    else (true, append opened (c.encoded host))

/-- The files after the calls, of which there were none before. -/
def run (calls : List Call) : RotatingLog.Files Text :=
  calls.foldl (fun fs c => (appendCostEvent host c fs).2) fun _ => none

/-- The record is within the record limit and within the limit of the ledger. -/
def Call.Fits (c : Call) : Prop :=
  utf8Len (c.encoded host) ≤ maxRecordBytes ∧ utf8Len (c.encoded host) ≤ c.maximum

/-- The call stores its record if it fits, and leaves the active file within the
limit. -/
structure Sound (c : Call) (fs : RotatingLog.Files Text) : Prop where
  stored : c.Fits host → (appendCostEvent host c fs).1 = true ∧
    ∃ earlier, content (appendCostEvent host c fs).2 0 = earlier ++ [c.encoded host]
  bounded : activeBytes (appendCostEvent host c fs).2 ≤ c.maximum

/-- What the call finds: an active file that is rotated or has room for a record
that fits, and one within the limit where the record is over the record limit. -/
structure HasRoom (c : Call) (fs : RotatingLog.Files Text) : Prop where
  fitting : c.Fits host →
    c.maximum ≤ activeBytes fs ∨ activeBytes fs + utf8Len (c.encoded host) ≤ c.maximum
  oversized : maxRecordBytes < utf8Len (c.encoded host) → activeBytes fs ≤ c.maximum

end Calls

variable {host : Host} {c : Call} {fs : RotatingLog.Files Text} {maximum : Nat}

/-! ## Sizes -/

theorem jsonlMaxBytes_pos (setting : Option Int) : 0 < jsonlMaxBytes setting := by
  have hle : (32 * 1024 : Int) ≤
      max (32 * 1024) (min (setting.getD defaultJsonlMaxBytes) (16 * 1024 * 1024)) := le_max_left _ _
  rw [jsonlMaxBytes]
  omega

@[simp] theorem activeBytes_openActive : activeBytes (openActive fs) = activeBytes fs := rfl

@[simp] theorem activeBytes_append (record : Text) :
    activeBytes (append fs record) = activeBytes fs + utf8Len record := activeSize_append utf8Len

/-- A rotation is a turn of the two files. -/
theorem rotateJsonl_full (hpos : 0 < maximum) (h : maximum ≤ activeBytes fs) :
    rotateJsonl maximum fs = turn 2 fs := by
  have hsome := isSome_of_activeSize (Nat.lt_of_lt_of_le hpos h)
  rw [rotateJsonl, if_pos (by simp [hsome, h])]
  funext k
  match k with
  | 0 => rfl
  | 1 => cases hrotated : fs 1 <;> simp [move, remove, turn]
  | k + 2 => cases hrotated : fs 1 <;> simp [move, remove, turn]

theorem rotateJsonl_below (h : activeBytes fs < maximum) : rotateJsonl maximum fs = fs := by
  rw [rotateJsonl, if_neg (by simp [h])]

theorem activeBytes_rotateJsonl (fs : RotatingLog.Files Text) (hpos : 0 < maximum) :
    activeBytes (rotateJsonl maximum fs) = if maximum ≤ activeBytes fs then 0 else activeBytes fs := by
  split
  · rename_i hfull
    rw [rotateJsonl_full hpos hfull, activeBytes, activeSize_turn]
  · rename_i hfull
    rw [rotateJsonl_below (Nat.lt_of_not_le hfull)]

/-! ## One call -/

theorem appendCostEvent_oversized (h : maxRecordBytes < utf8Len (c.encoded host)) :
    appendCostEvent host c fs = (false, fs) := if_pos h

/-- What a call within the record limit does. -/
theorem appendCostEvent_of_le (h : utf8Len (c.encoded host) ≤ maxRecordBytes) :
    appendCostEvent host c fs =
      if c.maximum < activeBytes (rotateJsonl c.maximum fs) + utf8Len (c.encoded host) then
        (false, openActive (rotateJsonl c.maximum fs))
      else (true, append (openActive (rotateJsonl c.maximum fs)) (c.encoded host)) := by
  rw [appendCostEvent, if_neg (Nat.not_lt.mpr h)]
  rfl

/-- The active file grows within the limit or not at all. -/
theorem activeBytes_appendCostEvent_le (h : utf8Len (c.encoded host) ≤ maxRecordBytes) :
    activeBytes (appendCostEvent host c fs).2 ≤ c.maximum := by
  have hrotated := activeBytes_rotateJsonl fs (jsonlMaxBytes_pos c.setting)
  rw [appendCostEvent_of_le h]
  split
  · rw [activeBytes_openActive, Call.maximum, hrotated]
    split <;> omega
  · rename_i hroom
    rw [activeBytes_append, activeBytes_openActive]
    omega

theorem appendCostEvent_stored_iff (h : c.Fits host) : (appendCostEvent host c fs).1 = true ↔
    c.maximum ≤ activeBytes fs ∨ activeBytes fs + utf8Len (c.encoded host) ≤ c.maximum := by
  have hrotated := activeBytes_rotateJsonl fs (jsonlMaxBytes_pos c.setting)
  have hfits := h.2
  rw [appendCostEvent_of_le h.1]
  rw [Call.maximum] at hfits ⊢
  rw [hrotated]
  by_cases hfull : jsonlMaxBytes c.setting ≤ activeBytes fs
  · rw [if_pos hfull, if_neg (by omega)]
    simp [hfull]
  · rw [if_neg hfull]
    split
    · simp only [Bool.false_eq_true, false_iff]
      omega
    · simp only [true_iff]
      omega

/-- A stored record is the last one of the active file. -/
theorem content_of_stored (h : (appendCostEvent host c fs).1 = true) :
    ∃ earlier, content (appendCostEvent host c fs).2 0 = earlier ++ [c.encoded host] := by
  by_cases hlength : utf8Len (c.encoded host) ≤ maxRecordBytes
  · rw [appendCostEvent_of_le hlength] at h ⊢
    split at h
    · exact absurd h Bool.false_ne_true
    · rename_i hroom
      rw [if_neg hroom]
      exact ⟨_, content_append_zero⟩
  · rw [appendCostEvent_oversized (Nat.lt_of_not_le hlength)] at h
    exact absurd h Bool.false_ne_true

theorem sound_iff_hasRoom : Sound host c fs ↔ HasRoom host c fs := by
  constructor
  · intro h
    refine ⟨fun hfits => (appendCostEvent_stored_iff hfits).mp (h.stored hfits).1, fun hlength => ?_⟩
    have hbounded := h.bounded
    rwa [appendCostEvent_oversized hlength] at hbounded
  · intro h
    refine ⟨fun hfits => ?_, ?_⟩
    · have hstored := (appendCostEvent_stored_iff hfits).mpr (h.fitting hfits)
      exact ⟨hstored, content_of_stored hstored⟩
    · by_cases hlength : utf8Len (c.encoded host) ≤ maxRecordBytes
      · exact activeBytes_appendCostEvent_le hlength
      · rw [appendCostEvent_oversized (Nat.lt_of_not_le hlength)]
        exact h.oversized (Nat.lt_of_not_le hlength)

/-! ## Runs -/

/-- In a run all calls are sound exactly when each one finds room. -/
theorem cost_ledger_sound_iff (host : Host) (calls : List Call) :
    (∀ before c after, calls = before ++ c :: after → Sound host c (run host before)) ↔
      ∀ before c after, calls = before ++ c :: after → HasRoom host c (run host before) :=
  forall_congr' fun _ => forall_congr' fun _ => forall_congr' fun _ =>
    imp_congr_right fun _ => sound_iff_hasRoom

/-! ## A ledger that is never rotated -/

/-- An event of one text. -/
def noted (n : Nat) : Call where
  setting := some (32 * 1024)
  event := [(txt "note", .str (List.replicate n 'x'))]

theorem utf8Len_noted (n : Nat) : utf8Len ((noted n).encoded host) = n + 13 := by
  have hquoted : ∀ t, utf8Len (ExternalBoundary.quoted t) = Json.asciiSize t + 2 := fun t => by
    rw [ExternalBoundary.quoted, Json.utf8Len_asciiQuoteTo]
    rfl
  have hkey : Json.asciiSize (txt "note") = 4 := by decide
  have htext : Json.asciiSize (List.replicate n 'x') = n := by
    rw [Json.asciiSize_plain fun c hc => by rw [List.eq_of_mem_replicate hc]; decide,
      List.length_replicate]
  have hobject : (noted n).encoded host = ['\x7b'] ++ (ExternalBoundary.quoted (txt "note") ++
      (txt ": " ++ ExternalBoundary.quoted (List.replicate n 'x'))) ++ ['\x7d'] ++ ['\n'] := rfl
  have hopen : utf8Len ['\x7b'] = 1 := rfl
  have hclose : utf8Len ['\x7d'] = 1 := rfl
  have hcolon : utf8Len (txt ": ") = 2 := by decide
  have hend : utf8Len ['\n'] = 1 := rfl
  rw [hobject, utf8Len_append, utf8Len_append, utf8Len_append, utf8Len_append, utf8Len_append,
    hquoted, hquoted, hkey, htext, hopen, hclose, hcolon, hend]
  omega

theorem maximum_noted (n : Nat) : (noted n).maximum = 32768 := rfl

theorem activeBytes_noted (host : Host) : activeBytes (run host [noted 0]) = 13 := by
  have hopened : activeBytes (rotateJsonl (noted 0).maximum fun _ => none) = 0 := rfl
  have hrecord : utf8Len ((noted 0).encoded host) ≤ maxRecordBytes := by
    rw [utf8Len_noted]
    decide
  rw [run, List.foldl_cons, List.foldl_nil, appendCostEvent_of_le hrecord, hopened, utf8Len_noted,
    maximum_noted, if_neg (by decide), activeBytes_append, activeBytes_openActive, utf8Len_noted]
  rfl

/-- After one small record those that would just fit in an empty ledger find no
room. -/
theorem not_hasRoom_noted {n : Nat} (hn : 32743 ≤ n) (hfits : n ≤ 32755) :
    ¬HasRoom host (noted n) (run host [noted 0]) := by
  have hrecord : maxRecordBytes = 262144 := rfl
  intro h
  have hroom := h.fitting ⟨by rw [utf8Len_noted]; omega, by rw [utf8Len_noted, maximum_noted]; omega⟩
  rw [activeBytes_noted, utf8Len_noted, maximum_noted] at hroom
  omega

/-- A ledger of one small record refuses a record that is within both limits. -/
theorem cost_ledger_refuses : ¬∀ calls before c after, calls = before ++ c :: after →
    Sound (Host.ascii id) c (run (Host.ascii id) before) := fun h =>
  not_hasRoom_noted (Nat.le_of_ble_eq_true rfl) (Nat.le_of_ble_eq_true rfl)
    (sound_iff_hasRoom.mp (h [noted 0, noted 32750] [noted 0] (noted 32750) [] rfl))

end RalphVault.PostTool.CostLedger
