import RalphVault.IndentedSize
import RalphVault.RotatingLog
import RalphVault.Stop.Terminal

/-!
# Observability — the event store

`.codex/hooks/shared/runtime_event_store.py`: the events of a project are the
lines of `runtime-events.jsonl` (file 0), turned into `.1`, `.2` and so on
before and after each append once they reach the byte limit. The limit on the
number of files counts the active file. With a limit of one file there is no
number to rotate to; the rotation removes `.1` and then gives this name to the
active file, so that the next event makes a second one.
-/

namespace RalphVault.Observability.EventStore

open RotatingLog
open Stop.Terminal (isLowerHex)

/-! ## Configuration -/

/-- The settings of the environment, as `int` reads them. -/
structure Settings where
  maxBytes : Option Int
  maxFiles : Option Int

/-- The limits of the store. -/
structure Limits where
  maxBytes : Nat
  maxFiles : Nat
  maxBytes_pos : 0 < maxBytes
  maxFiles_pos : 0 < maxFiles

def defaultMaxBytes : Int := 4 * 1024 * 1024
def defaultMaxFiles : Int := 3

/-- `_runtime_limits`. -/
def runtimeLimits (s : Settings) : Limits where
  maxBytes := (max (32 * 1024) (min (s.maxBytes.getD defaultMaxBytes) (32 * 1024 * 1024))).toNat
  maxFiles := (max 1 (min (s.maxFiles.getD defaultMaxFiles) 16)).toNat
  maxBytes_pos := by
    have hle := le_max_left (32 * 1024 : Int) (min (s.maxBytes.getD defaultMaxBytes) (32 * 1024 * 1024))
    omega
  maxFiles_pos := by
    have hle := le_max_left (1 : Int) (min (s.maxFiles.getD defaultMaxFiles) 16)
    omega

/-! ## Rotation -/

/-- `st_size` of file 0, zero if it is missing. -/
def activeBytes (fs : RotatingLog.Files Text) : Nat := activeSize utf8Len fs

/-- One turn of the loop: the file of the index moves up by one, the last one
is removed. -/
def shiftOne (last index : Nat) (fs : RotatingLog.Files Text) : RotatingLog.Files Text :=
  if (fs index).isSome then
    if index = last then remove fs index else move fs index (index + 1)
  else fs

/-- The loop, from an index down to 1. -/
def shift (last : Nat) : Nat → RotatingLog.Files Text → RotatingLog.Files Text
  | 0, fs => fs
  | index + 1, fs => shift last index (shiftOne last (index + 1) fs)

/-- `_rotate`. -/
def rotate (l : Limits) (fs : RotatingLog.Files Text) : RotatingLog.Files Text :=
  if (fs 0).isSome && decide (l.maxBytes ≤ activeBytes fs) then
    let shifted := shift (l.maxFiles - 1) (l.maxFiles - 1) fs
    move (if l.maxFiles = 1 then remove shifted 1 else shifted) 0 1
  else fs

/-! ## One call -/

/-- `PROJECT_ID_RE`. -/
def isProjectId : Text → Bool
  | 'p' :: '-' :: digits => decide (digits.length = 16) && digits.all isLowerHex
  | _ => false

structure Call where
  projectId : Text
  event : List (Text × Json)
  maxEventBytes : Int

/-- `encoded`. -/
def Call.encoded (c : Call) : Text := Json.asciiDumps (.obj c.event) ++ ['\n']

/-- The event files of the projects. -/
abbrev Store := Text → RotatingLog.Files Text

/-- `append_normalized`: whether the event is written, and the files. -/
def appendNormalized (l : Limits) (c : Call) (store : Store) : Bool × Store :=
  if !isProjectId c.projectId then (false, store)
  else if c.maxEventBytes < utf8Len c.encoded then (false, store)
  else
    let fs := rotate l (append (rotate l (store c.projectId)) c.encoded)
    (true, fun project => if project = c.projectId then fs else store project)

def Call.accepted (c : Call) : Bool :=
  isProjectId c.projectId && decide ((utf8Len c.encoded : Int) ≤ c.maxEventBytes)

/-- The store after the calls, of which there were none before. -/
def run (l : Limits) (calls : List Call) : Store :=
  calls.foldl (fun store c => (appendNormalized l c store).2) fun _ _ => none

/-- The events of a project that were written. -/
def appended (project : Text) (calls : List Call) : List Text :=
  (calls.filter fun c => c.accepted && decide (c.projectId = project)).map Call.encoded

/-- What the files of a project are to hold, and how large and many they are. -/
structure Kept (l : Limits) (events : List Text) (fs : RotatingLog.Files Text) : Prop where
  suffix : ∃ n, (∀ i, n ≤ i → fs i = none) ∧ held fs n <:+ events
  active : activeBytes fs < l.maxBytes
  files : AtMost l.maxFiles fs

/-- There is no rotated file, where the limit is one file, or the active one
becomes it. -/
def OneFile (l : Limits) (c : Call) (fs : RotatingLog.Files Text) : Prop :=
  l.maxFiles ≠ 1 ∨ fs 1 = none ∨ l.maxBytes ≤ activeBytes fs + utf8Len c.encoded

variable {l : Limits} {c : Call} {fs : RotatingLog.Files Text} {store : Store} {project : Text}

/-! ## Rotation is a turn -/

theorem shiftOne_last {last : Nat} : shiftOne last last fs = remove fs last := by
  rw [shiftOne, if_pos rfl]
  split
  · rfl
  · rename_i hmissing
    funext k
    rw [remove]
    split
    · rename_i hk
      rw [hk]
      simpa using hmissing
    · rfl

theorem shiftOne_move {last index : Nat} (hindex : index ≠ last) (hfree : fs (index + 1) = none) :
    shiftOne last index fs = move fs index (index + 1) := by
  rw [shiftOne, if_neg hindex]
  split
  · rfl
  · rename_i hmissing
    have hnone : fs index = none := by simpa using hmissing
    funext k
    rw [move]
    split
    · rename_i hk
      rw [hk, hnone]
    · split
      · rename_i hk
        rw [hk, hnone, hfree]
      · rfl

/-- From an index whose successor is free the loop moves every file up by one. -/
theorem shift_of_free {last index : Nat} (hindex : index < last) (hfree : fs (index + 1) = none) :
    shift last index fs =
      fun k => if 1 ≤ k ∧ k ≤ index + 1 then (if k = 1 then none else fs (k - 1)) else fs k := by
  induction index generalizing fs with
  | zero =>
      funext k
      rw [shift]
      by_cases hk : k = 1
      · rw [if_pos ⟨by omega, by omega⟩, if_pos hk, hk, hfree]
      · rw [if_neg (by omega)]
  | succ index ih =>
      rw [shift, shiftOne_move (by omega) hfree, ih (by omega) (by simp [move])]
      funext k
      by_cases hlow : 1 ≤ k ∧ k ≤ index + 1
      · have hnext : 1 ≤ k ∧ k ≤ index + 1 + 1 := ⟨hlow.1, by omega⟩
        rw [if_pos hlow, if_pos hnext]
        by_cases hone : k = 1
        · rw [if_pos hone, if_pos hone]
        · rw [if_neg hone, if_neg hone, move, if_neg (by omega), if_neg (by omega)]
      · rw [if_neg hlow, move]
        by_cases htop : k = index + 1 + 1
        · rw [if_neg (by omega), if_pos htop, if_pos ⟨by omega, by omega⟩, if_neg (by omega), htop]
          rfl
        · rw [if_neg (by omega), if_neg htop, if_neg (by omega)]

theorem shift_last (last : Nat) (hpos : 0 < last) : shift last last fs =
    fun k => if 1 ≤ k ∧ k ≤ last then (if k = 1 then none else fs (k - 1)) else fs k := by
  obtain ⟨index, rfl⟩ : ∃ index, last = index + 1 := ⟨last - 1, by omega⟩
  rw [shift, shiftOne_last, shift_of_free (Nat.lt_succ_self index) (by simp [remove])]
  funext k
  by_cases hlow : 1 ≤ k ∧ k ≤ index + 1
  · rw [if_pos hlow, if_pos hlow]
    by_cases hone : k = 1
    · rw [if_pos hone, if_pos hone]
    · rw [if_neg hone, if_neg hone, remove, if_neg (by omega)]
  · rw [if_neg hlow, if_neg hlow, remove, if_neg (by omega)]

/-- The files a rotation leaves are those of the limit, but two where it is one. -/
def slots (l : Limits) : Nat := max 2 l.maxFiles

theorem rotate_full (h : l.maxBytes ≤ activeBytes fs) : rotate l fs = turn (slots l) fs := by
  have hsome := isSome_of_activeSize (Nat.lt_of_lt_of_le l.maxBytes_pos h)
  have hpos := l.maxFiles_pos
  rw [rotate, if_pos (by simp [hsome, h]), slots]
  funext k
  by_cases hone : l.maxFiles = 1
  · simp only [hone, if_true, Nat.sub_self, shift, move, remove, turn]
    by_cases hzero : k = 0
    · rw [if_pos hzero, if_pos hzero]
    · rw [if_neg hzero, if_neg hzero]
      by_cases hnext : k = 1
      · subst hnext
        simp
      · rw [if_neg hnext, if_neg hnext, if_neg (by omega)]
  · have hmax : max 2 l.maxFiles = l.maxFiles := by omega
    simp only [hone, if_false, hmax, shift_last (l.maxFiles - 1) (by omega), move, turn]
    by_cases hzero : k = 0
    · rw [if_pos hzero, if_pos hzero]
    · rw [if_neg hzero, if_neg hzero]
      by_cases hnext : k = 1
      · subst hnext
        simp [show 1 < l.maxFiles by omega]
      · rw [if_neg hnext]
        by_cases hlow : k < l.maxFiles
        · rw [if_pos ⟨by omega, by omega⟩, if_neg hnext, if_pos hlow]
        · rw [if_neg (by omega), if_neg hlow]

theorem rotate_below (h : activeBytes fs < l.maxBytes) : rotate l fs = fs := by
  rw [rotate, if_neg (by simp [h])]

/-! ## One call -/

/-- What an accepted call makes of the files of its project. -/
def accept (l : Limits) (c : Call) (fs : RotatingLog.Files Text) : RotatingLog.Files Text :=
  rotate l (append (rotate l fs) c.encoded)

theorem appendNormalized_eq : appendNormalized l c store =
    if c.accepted then
      (true, fun project => if project = c.projectId then accept l c (store c.projectId)
        else store project)
    else (false, store) := by
  rw [appendNormalized, Call.accepted]
  by_cases hid : isProjectId c.projectId = true
  · by_cases hlength : c.maxEventBytes < utf8Len c.encoded
    · simp [hid, hlength]
    · simp [hid, hlength, Int.not_lt.mp hlength, accept]
  · simp [hid]

/-- The files of a project after a call. -/
theorem appendNormalized_project : (appendNormalized l c store).2 project =
    if c.accepted && decide (c.projectId = project) then accept l c (store project)
    else store project := by
  rw [appendNormalized_eq]
  by_cases haccepted : c.accepted = true
  · by_cases hproject : c.projectId = project
    · simp [haccepted, hproject]
    · simp [haccepted, hproject, Ne.symm hproject]
  · simp [haccepted]

/-- The invariant: the files are those of the slots, with the active one below
the limit. -/
structure Inv (l : Limits) (events : List Text) (fs : RotatingLog.Files Text) : Prop where
  keeps : Keeps events fs (slots l)
  active : activeBytes fs < l.maxBytes

/-- An accepted call adds its event and turns the files, if that fills the active
one. -/
theorem accept_eq (h : activeBytes fs < l.maxBytes) : accept l c fs =
    if l.maxBytes ≤ activeBytes fs + utf8Len c.encoded then turn (slots l) (append fs c.encoded)
    else append fs c.encoded := by
  have hsize : activeBytes (append fs c.encoded) = activeBytes fs + utf8Len c.encoded :=
    activeSize_append utf8Len
  rw [accept, rotate_below h]
  split
  · rename_i hfull
    exact rotate_full (hsize ▸ hfull)
  · rename_i hfull
    exact rotate_below (hsize ▸ Nat.lt_of_not_le hfull)

theorem slots_eq (l : Limits) : ∃ n, slots l = n + 1 := ⟨slots l - 1, by rw [slots]; omega⟩

theorem Inv.accept {events : List Text} (h : Inv l events fs) :
    Inv l (events ++ [c.encoded]) (accept l c fs) := by
  obtain ⟨n, hn⟩ := slots_eq l
  have hkeeps : Keeps (events ++ [c.encoded]) (append fs c.encoded) (n + 1) :=
    (hn ▸ h.keeps).append c.encoded
  have hsize : activeBytes (append fs c.encoded) = activeBytes fs + utf8Len c.encoded :=
    activeSize_append utf8Len
  rw [accept_eq h.active]
  split
  · exact ⟨hn ▸ hkeeps.turn, l.maxBytes_pos⟩
  · rename_i hfull
    exact ⟨hn ▸ hkeeps, hsize ▸ Nat.lt_of_not_le hfull⟩

theorem appended_concat (calls : List Call) : appended project (calls ++ [c]) =
    if c.accepted && decide (c.projectId = project) then appended project calls ++ [c.encoded]
    else appended project calls := by
  rw [appended, List.filter_append, List.map_append]
  split
  · rename_i hcall
    rw [List.filter_singleton, hcall]
    rfl
  · rename_i hcall
    simp only [List.filter_singleton, hcall]
    exact List.append_nil _

theorem run_concat (calls : List Call) (c : Call) :
    run l (calls ++ [c]) = (appendNormalized l c (run l calls)).2 := by
  rw [run, List.foldl_append]
  rfl

theorem inv_run (calls : List Call) : Inv l (appended project calls) (run l calls project) := by
  induction calls using List.reverseRecOn with
  | nil => exact ⟨.empty _, l.maxBytes_pos⟩
  | append_singleton calls c ih =>
      rw [run_concat, appendNormalized_project, appended_concat]
      split
      · exact ih.accept
      · exact ih

/-! ## The number of files -/

theorem atMost_of_maxFiles {events : List Text} (h : Inv l events fs) (hfiles : l.maxFiles ≠ 1) :
    AtMost l.maxFiles fs := by
  have hpos := l.maxFiles_pos
  have hslots : slots l = l.maxFiles := by rw [slots]; omega
  exact hslots ▸ h.keeps.atMost

/-- With a limit of one file there is either an active file or a rotated one. -/
theorem atMost_one_iff {events : List Text} (h : Inv l events fs) (hfiles : l.maxFiles = 1) :
    AtMost 1 fs ↔ fs 0 = none ∨ fs 1 = none := by
  constructor
  · intro hone
    by_contra hboth
    rw [not_or] at hboth
    have hcard := hone {0, 1} fun i hi => by
      rcases Finset.mem_insert.mp hi with rfl | hi
      · exact Option.isSome_iff_ne_none.mpr hboth.1
      · rw [Finset.mem_singleton.mp hi]
        exact Option.isSome_iff_ne_none.mpr hboth.2
    exact absurd hcard (by decide)
  · intro hnone s hs
    have hslots : slots l = 2 := by rw [slots, hfiles]; rfl
    refine Finset.card_le_one.mpr fun i hi j hj => ?_
    have hlow : ∀ k ∈ s, k = 0 ∨ k = 1 := fun k hk => by
      by_contra hhigh
      have hmissing := h.keeps.none_of_le k (by omega)
      exact absurd (hs k hk) (by simp [hmissing])
    have hfile : ∀ k ∈ s, fs k ≠ none := fun k hk => Option.isSome_iff_ne_none.mp (hs k hk)
    rcases hlow i hi with rfl | rfl <;> rcases hlow j hj with rfl | rfl
    · rfl
    · exact absurd hnone (by simp [hfile 0 hi, hfile 1 hj])
    · exact absurd hnone (by simp [hfile 0 hj, hfile 1 hi])
    · rfl

/-- An accepted call leaves one file, with a limit of one, exactly when there is
no rotated file or the active one becomes it. -/
theorem atMost_accept_iff {events : List Text} (h : Inv l events fs) :
    AtMost l.maxFiles (accept l c fs) ↔ OneFile l c fs := by
  by_cases hfiles : l.maxFiles = 1
  · rw [hfiles, atMost_one_iff h.accept hfiles, OneFile, accept_eq h.active]
    by_cases hfull : l.maxBytes ≤ activeBytes fs + utf8Len c.encoded
    · simp [hfull]
    · simp [hfull, hfiles, append]
  · simp [OneFile, hfiles, atMost_of_maxFiles h.accept hfiles]

theorem kept_iff {events : List Text} (h : Inv l events fs) :
    Kept l events fs ↔ AtMost l.maxFiles fs :=
  ⟨Kept.files, fun hfiles => ⟨⟨slots l, h.keeps.none_of_le, h.keeps.held⟩, h.active, hfiles⟩⟩

theorem atMost_empty (n : Nat) : AtMost n (fun _ => none : RotatingLog.Files Text) := fun s hs => by
  have hnil : s = ∅ := Finset.eq_empty_of_forall_notMem fun i hi => by simpa using hs i hi
  simp [hnil]

/-- In a run the files of all projects are as they are to be after every call
exactly when, where the limit is one file, no accepted call finds a rotated file
that stays. -/
theorem event_store_kept_iff (l : Limits) (calls : List Call) :
    (∀ before after, calls = before ++ after →
      ∀ project, Kept l (appended project before) (run l before project)) ↔
    ∀ before c after, calls = before ++ c :: after → c.accepted = true →
      OneFile l c (run l before c.projectId) := by
  constructor
  · intro h before c after hcalls haccepted
    have hkept := h (before ++ [c]) after (by rw [hcalls, List.append_assoc]; rfl) c.projectId
    have hfiles := hkept.files
    rw [run_concat, appendNormalized_project, if_pos (by simp [haccepted])] at hfiles
    exact (atMost_accept_iff (inv_run before)).mp hfiles
  · intro h before
    induction before using List.reverseRecOn with
    | nil => exact fun _ _ _ => (kept_iff (inv_run [])).mpr (atMost_empty _)
    | append_singleton before c ih =>
        intro after hcalls project
        rw [List.append_assoc] at hcalls
        rw [kept_iff (inv_run _), run_concat, appendNormalized_project]
        split
        · rename_i hcall
          simp only [Bool.and_eq_true, decide_eq_true_eq] at hcall
          rw [← hcall.2]
          exact (atMost_accept_iff (inv_run before)).mpr (h before c after hcalls hcall.1)
        · exact (ih (c :: after) hcalls project).files

/-! ## A limit of one file -/

/-- The smallest limits there are. -/
def smallest : Limits := runtimeLimits ⟨some 0, some 0⟩

def sampleProject : Text := txt "p-0123456789abcdef"

/-- An event of a text of `n` characters. -/
def noted (n : Nat) : Call where
  projectId := sampleProject
  event := [(txt "scenario", .str (List.replicate n 'x'))]
  maxEventBytes := 16 * 1024

theorem utf8Len_escapeTo (t rest : Text) : utf8Len (Json.asciiText (Json.escapeTo t rest)) =
    Json.asciiSize t + utf8Len (Json.asciiText rest) := by
  induction t with
  | nil => rw [Json.escapeTo, Json.asciiSize, List.map_nil, List.sum_nil, Nat.zero_add]
  | cons c t ih =>
      rw [Json.escapeTo_cons, Json.asciiText_append, utf8Len_append, ih, Json.asciiSize, Json.asciiSize,
        List.map_cons, List.sum_cons, Nat.add_assoc]

theorem utf8Len_noted (n : Nat) : utf8Len (noted n).encoded = n + 16 := by
  have hkey : Json.asciiSize (txt "scenario") = 8 := by decide
  have htext : Json.asciiSize (List.replicate n 'x') = n := by
    rw [Json.asciiSize_plain fun c hc => by rw [List.eq_of_mem_replicate hc]; decide,
      List.length_replicate]
  have hobject : (noted n).encoded = Json.asciiText ('\x7b' :: '"' ::
      Json.escapeTo (txt "scenario") ('"' :: ':' :: '"' ::
        Json.escapeTo (List.replicate n 'x') ['"', '\x7d'])) ++ ['\n'] := rfl
  have hopen : ∀ rest, utf8Len (Json.asciiText ('\x7b' :: '"' :: rest)) =
      2 + utf8Len (Json.asciiText rest) := fun rest => by
    rw [Json.asciiText_cons, Json.asciiText_cons, utf8Len_append, utf8Len_append, ← Nat.add_assoc]
    rfl
  have hmiddle : ∀ rest, utf8Len (Json.asciiText ('"' :: ':' :: '"' :: rest)) =
      3 + utf8Len (Json.asciiText rest) := fun rest => by
    rw [Json.asciiText_cons, Json.asciiText_cons, Json.asciiText_cons, utf8Len_append,
      utf8Len_append, utf8Len_append, ← Nat.add_assoc, ← Nat.add_assoc]
    rfl
  have hclose : utf8Len (Json.asciiText ['"', '\x7d']) = 2 := by decide
  have hend : utf8Len ['\n'] = 1 := rfl
  rw [hobject, utf8Len_append, hopen, utf8Len_escapeTo, hmiddle, utf8Len_escapeTo, hkey, htext,
    hclose, hend]
  omega

theorem accepted_noted {n : Nat} (h : n ≤ 16368) : (noted n).accepted = true := by
  have hsample : isProjectId sampleProject = true := by decide
  have hid : isProjectId (noted n).projectId = true := hsample
  have hlimit : (noted n).maxEventBytes = 16384 := rfl
  rw [Call.accepted, hid, utf8Len_noted, hlimit]
  simp only [Bool.true_and, decide_eq_true_eq]
  omega

theorem maxBytes_smallest : smallest.maxBytes = 32768 := rfl

/-- Of three events of a third of the limit the last one turns the files. -/
theorem run_noted {n : Nat} (h : n ≤ 16367) (hfull : 10907 ≤ n) :
    run smallest [noted n, noted n, noted n] (noted n).projectId =
      turn 2 (append (append (append (fun _ => none) (noted n).encoded) (noted n).encoded)
        (noted n).encoded) := by
  have hslots : slots smallest = 2 := rfl
  have hcall : ∀ store, (appendNormalized smallest (noted n) store).2 (noted n).projectId =
      accept smallest (noted n) (store (noted n).projectId) := fun store => by
    rw [appendNormalized_project, accepted_noted (by omega), if_pos (by simp)]
  have hfirst : activeBytes (fun _ => none : RotatingLog.Files Text) = 0 := rfl
  have hsize : ∀ fs, activeBytes (append fs (noted n).encoded) = activeBytes fs + (n + 16) :=
    fun fs => by rw [activeBytes, activeSize_append, utf8Len_noted, ← activeBytes]
  have hone : accept smallest (noted n) (fun _ => none) =
      append (fun _ => none) (noted n).encoded := by
    rw [accept_eq (by rw [hfirst, maxBytes_smallest]; omega), hfirst, utf8Len_noted,
      maxBytes_smallest, if_neg (by omega)]
  have htwo : accept smallest (noted n) (append (fun _ => none) (noted n).encoded) =
      append (append (fun _ => none) (noted n).encoded) (noted n).encoded := by
    rw [accept_eq (by rw [hsize, hfirst, maxBytes_smallest]; omega), hsize, hfirst, utf8Len_noted,
      maxBytes_smallest, if_neg (by omega)]
  rw [run, List.foldl_cons, List.foldl_cons, List.foldl_cons, List.foldl_nil, hcall, hcall, hcall,
    hone, htwo, accept_eq (by rw [hsize, hsize, hfirst, maxBytes_smallest]; omega), hsize, hsize,
    hfirst, utf8Len_noted, maxBytes_smallest, if_pos (by omega), hslots]

/-- With a limit of one file the event after a rotation makes a second one. -/
theorem event_store_two_files : ¬∀ (l : Limits) (calls before after : List Call),
    calls = before ++ after → ∀ project, Kept l (appended project before) (run l before project) := by
  intro h
  have hle : (12000 : Nat) ≤ 16367 := by decide
  have hfull : (10907 : Nat) ≤ 12000 := by decide
  have hroom := (event_store_kept_iff smallest [noted 12000, noted 12000, noted 12000, noted 12000]).mp
    (h smallest _) [noted 12000, noted 12000, noted 12000] (noted 12000) [] rfl
    (accepted_noted (Nat.le_succ_of_le hle))
  rw [run_noted hle hfull] at hroom
  rcases hroom with hfiles | hmissing | hactive
  · exact hfiles rfl
  · exact absurd hmissing (by simp [turn, append])
  · rw [utf8Len_noted, maxBytes_smallest, activeBytes, activeSize_turn] at hactive
    omega

end RalphVault.Observability.EventStore
