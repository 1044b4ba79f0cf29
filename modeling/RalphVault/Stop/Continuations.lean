import RalphVault.Stop.Budget

/-!
# Stop — continuations

How many continuations a scope is granted over a run of any number of
callers. A pass over the state file rewrites the entry of its scope also
when it denies the continuation, and then with the evidence of the call
that was denied. The run theorem therefore asks of each pass that it
finds the entry it needs (`Kept`) and that a call that is denied the
second continuation repeats the evidence on record (`Renews`).
-/

namespace RalphVault.Stop

open StateFile

variable {u : Unicode} {s : Scope} {h : Storage} {q : Request} {file : File} {w w' : World}

/-! ## One pass -/

/-- What a pass reads of a file and carries over still has the entry of a
scope as it was: the file was not taken for corrupt, and the entry has
neither expired nor been cut off. -/
def Kept (h : Storage) (key : Text) (file : File) : Prop :=
  h.runtimeSafe = true → h.locked = true → Keeps h.reading h.trim key file

theorem Storage.get?_trim_empty (h : Storage) (key : Text) :
    (h.trim .empty).get? key = none :=
  Records.get?_recent_eq_none (Records.get?_empty key)

/-- A pass leaves the entry and answers nothing, or it writes the entry
it wants and answers what it has decided. -/
inductive Pass (h : Storage) (q : Request) (file : File) : File → Option Reservation → Prop where
  | failed {left : File}
      (hleft : ∀ key, Kept h key file → entryIn left key = entryIn file key) :
      Pass h q file left none
  | decided {left stored : File} {e : Entry} {r : Option Reservation}
      (hstored : ∀ key, Kept h key file → entryIn stored key = entryIn file key)
      (hother : ∀ key, key ≠ q.scope.scopeKey → entryIn left key = entryIn stored key)
      (hown : entryIn left q.scope.scopeKey = some e)
      (hevidence : e.evidenceFingerprint = q.evidenceFingerprint)
      (hcount : e.count = nextCount (entryIn stored q.scope.scopeKey) q)
      (hanswer : ∀ r', r = some r' → ∃ corrupt changed,
        r' = reservationOf (entryIn stored q.scope.scopeKey) q corrupt changed) :
      Pass h q file left r

theorem reserveAt_pass (h : Storage) (q : Request) (file : File) :
    Pass h q file (reserveAt h q file).1 (reserveAt h q file).2 := by
  simp only [reserveAt]
  split
  · exact .failed fun key _ => rfl
  rename_i hready
  rw [Bool.or_eq_true, not_or, Bool.not_eq_true', Bool.not_eq_true', Bool.not_eq_false,
    Bool.not_eq_false] at hready
  cases hload : load .empty h.reading file with
  | none => exact .failed fun key _ => rfl
  | some loaded =>
      obtain ⟨left, stored⟩ := loaded
      have hentries : ∀ key, Kept h key file →
          entryIn (some (h.trim stored)) key = entryIn file key :=
        fun key hkept => hkept hready.1 hready.2 left stored hload
      have hleft : ∀ key, Kept h key file → entryIn left key = entryIn file key :=
        fun key hkept => entryIn_left (h.get?_trim_empty key) hload (hentries key hkept)
      dsimp only
      split
      · rename_i hchanged
        cases hpublication : h.publication with
        | refused => exact .failed hleft
        | done =>
            exact .decided hentries (fun key hne => Records.get?_assign_of_ne (Ne.symm hne))
              (Records.get?_assign_self ..) rfl rfl
              fun r' hr => ⟨_, _, (Option.some.inj hr).symm⟩
        | unacknowledged =>
            exact .decided hentries (fun key hne => Records.get?_assign_of_ne (Ne.symm hne))
              (Records.get?_assign_self ..) rfl rfl fun r' hr => (nomatch hr)
      · rename_i hsame
        simp only [Bool.or_eq_true, decide_eq_true_eq, not_or, Decidable.not_not] at hsame
        obtain ⟨⟨-, htrim⟩, hdesired⟩ := hsame
        obtain ⟨e, hcurrent, heq⟩ := Option.map_eq_some_iff.mp hdesired
        -- an entry was found, so the file was read as it is
        have hread : ∀ key, entryIn left key = entryIn (some (h.trim stored)) key := by
          rcases load_cases hload with ⟨hsame, hcontent⟩ | ⟨hempty, -⟩
          · intro key
            rw [entryIn_some, htrim, hsame, hcontent, entryIn]
          · rw [hempty, h.get?_trim_empty] at hcurrent
            cases hcurrent
        refine .decided hentries (fun key _ => hread key) ((hread _).trans hcurrent) ?_ ?_
          fun r' hr => ⟨_, _, (Option.some.inj hr).symm⟩
        · exact congrArg Entry.evidenceFingerprint heq
        · exact congrArg Entry.count heq

theorem Pass.other {left : File} {r : Option Reservation} {key : Text}
    (hpass : Pass h q file left r) (hkept : Kept h key file) (hne : key ≠ q.scope.scopeKey) :
    entryIn left key = entryIn file key := by
  cases hpass with
  | failed hleft => exact hleft key hkept
  | decided hstored hother _ _ _ _ => exact (hother key hne).trans (hstored key hkept)

/-! ## One scope in a run -/

/-- A request on the budget of a scope. -/
def Request.on (q : Request) (s : Scope) : Bool :=
  q.scope.projectId == s.projectId && q.scope.scopeKey == s.scopeKey

/-- The entry of a scope. -/
def World.entry (w : World) (s : Scope) : Option Entry :=
  entryIn (w.files (budgetPath s)) s.scopeKey

/-- A call that finds one continuation used either repeats the evidence
on record or is granted the second. -/
def Renews (current : Option Entry) (q : Request) : Prop :=
  ∀ e, current = some e → e.count = 1 → q.evidenceFingerprint = e.evidenceFingerprint ∨
    (q.critical = true ∧ q.evidenceFingerprint ≠ [])

/-- What the run theorem asks of a step: the file of the scope is read and
trimmed without losing its entry, no denied call overwrites the evidence,
and no call of the scope finds a second file to be counted in. -/
def Steady (u : Unicode) (s : Scope) (w : World) : Label → Prop
  | .enter _ q h =>
      (q.scope.projectId = s.projectId → Kept h s.scopeKey (w.files (budgetPath s))) ∧
        (q.on s = true → Renews (w.entry s) q)
  | .fallBack caller root h =>
      ∀ q, w.falling caller = some q → q.on s = true →
        fallbackBudgetPath u root q.scope = none ∨ h.runtimeSafe = false ∨ h.locked = false

/-- Every step of a run is steady where it is taken. -/
def SteadyRun (u : Unicode) (s : Scope) (w₀ : World) : List Label → Prop
  | [] => True
  | l :: past => SteadyRun u s w₀ past ∧
      ∀ w answers, w₀.run u past = some (w, answers) → Steady u s w l

/-- A continuation granted to a scope. -/
def Answer.grants (s : Scope) (a : Answer) : Bool := a.request.on s && a.reservation.allowed

/-- The continuations granted to a scope, in the order they were granted. -/
def granted (s : Scope) (answers : List Answer) : List Request :=
  (answers.filter (·.grants s)).map (·.request)

/-- At most two continuations, the second on new critical evidence. -/
def Bounded (s : Scope) (answers : List Answer) : Prop :=
  (granted s answers).length ≤ 2 ∧ ∀ first second, granted s answers = [first, second] →
    second.critical = true ∧ second.evidenceFingerprint ≠ first.evidenceFingerprint

/-- What the entry of a scope says about the continuations granted. -/
structure Accounted (s : Scope) (w : World) (answers : List Answer) : Prop where
  unused : w.entry s = none → granted s answers = []
  counted : ∀ e, w.entry s = some e →
    (granted s answers).length ≤ e.count ∧ 1 ≤ e.count ∧ e.count ≤ 2
  evidence : ∀ e, w.entry s = some e → e.count = 1 → ∀ first ∈ granted s answers,
    first.evidenceFingerprint = e.evidenceFingerprint
  bounded : Bounded s answers

theorem Accounted.initial (hunused : w.entry s = none) : Accounted s w [] where
  unused _ := rfl
  counted e he := by
    rw [hunused] at he
    cases he
  evidence e he := by
    rw [hunused] at he
    cases he
  bounded := ⟨Nat.zero_le 2, fun first second hlist => (nomatch hlist)⟩

/-- Only the entry and the continuations granted matter. -/
theorem Accounted.congr {answers answers' : List Answer} (hacc : Accounted s w answers)
    (hentry : w'.entry s = w.entry s) (hgranted : granted s answers' = granted s answers) :
    Accounted s w' answers' where
  unused hnone := by rw [hgranted, hacc.unused (hentry ▸ hnone)]
  counted e he := by
    rw [hgranted]
    exact hacc.counted e (hentry ▸ he)
  evidence e he hone := by
    rw [hgranted]
    exact hacc.evidence e (hentry ▸ he) hone
  bounded := by
    rw [Bounded, hgranted]
    exact hacc.bounded

/-- A second continuation is granted on new critical evidence only. -/
theorem allows_some {e : Entry} (hused : 1 ≤ e.count) :
    allows (some e) q = true ↔ e.count = 1 ∧ q.critical = true ∧
      q.evidenceFingerprint ≠ [] ∧ q.evidenceFingerprint ≠ e.evidenceFingerprint := by
  have hne : e.count ≠ 0 := by omega
  simp [allows, hne, and_assoc]

/-- The pass that writes the first entry of a scope. -/
theorem Accounted.first {answers answers' : List Answer} {e : Entry}
    (hacc : Accounted s w answers) (hnone : w.entry s = none) (hentry : w'.entry s = some e)
    (hevidence : e.evidenceFingerprint = q.evidenceFingerprint) (hcount : e.count = 1)
    (hgranted : granted s answers' = granted s answers ∨
      granted s answers' = granted s answers ++ [q]) : Accounted s w' answers' := by
  have hsome : ∀ e', w'.entry s = some e' → e' = e := fun e' he' =>
    Option.some.inj (he'.symm.trans hentry)
  have hlist : granted s answers' = [] ∨ granted s answers' = [q] := by
    rw [hacc.unused hnone] at hgranted
    exact hgranted
  refine ⟨fun h => ?_, fun e' he' => ?_, fun e' he' _ first hfirst => ?_, ?_, ?_⟩
  · rw [h] at hentry
    cases hentry
  · rw [hsome e' he', hcount]
    rcases hlist with hlist | hlist <;> rw [hlist] <;> simp
  · rw [hsome e' he', hevidence]
    rcases hlist with hlist | hlist <;> rw [hlist] at hfirst
    · cases hfirst
    · rw [List.mem_singleton.mp hfirst]
  · rcases hlist with hlist | hlist <;> rw [hlist] <;> simp
  · intro first second htwo
    rcases hlist with hlist | hlist <;> rw [hlist] at htwo <;> cases htwo

/-- A later pass that denies the continuation. -/
theorem Accounted.denied {answers answers' : List Answer} {e e' : Entry}
    (hacc : Accounted s w answers) (hold : w.entry s = some e) (hentry : w'.entry s = some e')
    (hevidence : e.count = 1 → e'.evidenceFingerprint = e.evidenceFingerprint)
    (hcount : e'.count = e.count) (hgranted : granted s answers' = granted s answers) :
    Accounted s w' answers' := by
  have hsome : ∀ e'', w'.entry s = some e'' → e'' = e' := fun e'' he =>
    Option.some.inj (he.symm.trans hentry)
  refine ⟨fun h => ?_, fun e'' he => ?_, fun e'' he hone => ?_, ?_⟩
  · rw [h] at hentry
    cases hentry
  · rw [hsome e'' he, hcount, hgranted]
    exact hacc.counted e hold
  · rw [hsome e'' he, hcount] at hone
    rw [hsome e'' he, hgranted, hevidence hone]
    exact hacc.evidence e hold hone
  · rw [Bounded, hgranted]
    exact hacc.bounded

/-- A later pass that allows it, acknowledged or not. -/
theorem Accounted.second {answers answers' : List Answer} {e e' : Entry}
    (hacc : Accounted s w answers) (hold : w.entry s = some e) (hentry : w'.entry s = some e')
    (hallows : allows (some e) q = true) (hcount : e'.count = e.count + 1)
    (hgranted : granted s answers' = granted s answers ∨
      granted s answers' = granted s answers ++ [q]) : Accounted s w' answers' := by
  have hsome : ∀ e'', w'.entry s = some e'' → e'' = e' := fun e'' he =>
    Option.some.inj (he.symm.trans hentry)
  obtain ⟨hlen, hused, -⟩ := hacc.counted e hold
  obtain ⟨hone, hcritical, -, hnew⟩ := (allows_some hused).mp hallows
  refine ⟨fun h => ?_, fun e'' he => ?_, fun e'' he h1 => ?_, ?_, fun first second htwo => ?_⟩
  · rw [h] at hentry
    cases hentry
  · rw [hsome e'' he]
    rcases hgranted with hgranted | hgranted
    · rw [hgranted]
      omega
    · rw [hgranted, List.length_append, List.length_singleton]
      omega
  · rw [hsome e'' he] at h1
    omega
  · rcases hgranted with hgranted | hgranted
    · rw [hgranted]
      omega
    · rw [hgranted, List.length_append, List.length_singleton]
      omega
  · rcases hgranted with hgranted | hgranted
    · rw [hgranted] at htwo
      exact hacc.bounded.2 first second htwo
    · -- the first is the continuation whose evidence is on record
      rw [hgranted, show [first, second] = [first] ++ [second] from rfl] at htwo
      obtain ⟨hfirst, hsecond⟩ := List.append_inj' htwo rfl
      cases hsecond
      refine ⟨hcritical, fun heq => hnew ?_⟩
      rw [heq]
      exact hacc.evidence e hold hone first (hfirst ▸ List.mem_singleton_self first)

/-- The entry of the scope is rewritten by a pass of its own. -/
theorem Accounted.decided {answers answers' : List Answer} {e : Entry}
    (hacc : Accounted s w answers) (hrenews : Renews (w.entry s) q)
    (hentry : w'.entry s = some e) (hevidence : e.evidenceFingerprint = q.evidenceFingerprint)
    (hcount : e.count = nextCount (w.entry s) q)
    (hgranted : granted s answers' = granted s answers ∨
      (allows (w.entry s) q = true ∧ granted s answers' = granted s answers ++ [q])) :
    Accounted s w' answers' := by
  cases hold : w.entry s with
  | none =>
      rw [hold] at hcount
      exact hacc.first hold hentry hevidence hcount (hgranted.imp_right And.right)
  | some old =>
      rw [hold] at hcount hgranted
      by_cases hallows : allows (some old) q = true
      · rw [nextCount, if_pos hallows] at hcount
        exact hacc.second hold hentry hallows hcount (hgranted.imp_right And.right)
      · rw [nextCount, if_neg hallows] at hcount
        refine hacc.denied hold hentry (fun hone => ?_) hcount
          (hgranted.resolve_right fun h => hallows h.1)
        rw [hevidence]
        -- critical evidence that is denied is the evidence on record
        rcases hrenews old hold hone with hsame | ⟨hcritical, hsome⟩
        · exact hsame
        · by_contra hne
          exact hallows ((allows_some (by omega)).mpr ⟨hone, hcritical, hsome, hne⟩)

/-! ## Steps and runs -/

theorem budgetPath_inj {t : Scope} (hpath : budgetPath t = budgetPath s) :
    t.projectId = s.projectId := by
  injection hpath

theorem Files.set_self (files : Files) (place : Place) (file : File) :
    files.set place file place = file := if_pos rfl

theorem Files.set_of_ne {files : Files} {place place' : Place} {file : File}
    (hne : place' ≠ place) : files.set place file place' = files place' := if_neg hne

theorem Request.on_iff : q.on s = true ↔
    budgetPath q.scope = budgetPath s ∧ q.scope.scopeKey = s.scopeKey := by
  simp only [Request.on, Bool.and_eq_true, beq_iff_eq, budgetPath, Place.project.injEq]

theorem granted_append (answers : List Answer) (a : Answer) :
    granted s (answers ++ [a]) =
      granted s answers ++ if a.grants s then [a.request] else [] := by
  rw [granted, List.filter_append, List.map_append, granted]
  by_cases ha : a.grants s = true <;> simp [ha]

theorem granted_append_of_not {answers : List Answer} {a : Answer} (ha : a.grants s = false) :
    granted s (answers ++ [a]) = granted s answers := by
  rw [granted_append, ha]
  exact List.append_nil _

/-- A step either takes a pass over the file of a project, or leaves these
files alone and allows nothing that a second file does not allow. -/
theorem World.step_entry {l : Label} {answer : Option Answer} (hsteady : Steady u s w l)
    (hstep : w.step u l = some (w', answer)) :
    (∃ caller q h r, l = .enter caller q h ∧
        Pass h q (w.files (budgetPath q.scope)) (w'.files (budgetPath q.scope)) r ∧
        (∀ place, place ≠ budgetPath q.scope → w'.files place = w.files place) ∧
        answer = r.map (Answer.mk q)) ∨
      ((∃ caller root h, l = .fallBack caller root h) ∧ w'.entry s = w.entry s ∧
        ∀ a, answer = some a → a.grants s = false) := by
  cases l with
  | enter caller q h =>
      refine .inl ⟨caller, q, h, (reserveAt h q (w.files (budgetPath q.scope))).2, rfl, ?_⟩
      have hpass := reserveAt_pass h q (w.files (budgetPath q.scope))
      simp only [World.step] at hstep
      split at hstep
      · cases hstep
      split at hstep <;> rename_i hresult <;> rw [hresult] <;>
        simp only [Option.some.injEq, Prod.mk.injEq] at hstep <;>
        obtain ⟨rfl, rfl⟩ := hstep <;>
        refine ⟨?_, fun place hne => Files.set_of_ne hne, rfl⟩
      · rw [hresult] at hpass
        simpa only [Files.set_self] using hpass
      · rw [hresult] at hpass
        simpa only [Files.set_self, World.setFalling] using hpass
  | fallBack caller root h =>
      refine .inr ⟨⟨caller, root, h, rfl⟩, ?_⟩
      simp only [World.step] at hstep
      split at hstep
      · cases hstep
      rename_i q hq
      split at hstep
      · cases hstep
        refine ⟨rfl, fun a ha => ?_⟩
        cases ha
        simp [Answer.grants, storageFailure]
      · rename_i place hplace
        cases hstep
        have hfallback : budgetPath s ≠ place := by
          obtain ⟨root', -, rfl⟩ := Option.map_eq_some_iff.mp hplace
          exact fun heq => (nomatch heq)
        refine ⟨?_, fun a ha => ?_⟩
        · exact congrArg (entryIn · s.scopeKey) (Files.set_of_ne hfallback)
        · cases ha
          by_cases hon : q.on s = true
          · rcases hsteady q hq hon with hnone | hunsafe | hunlocked
            · rw [hplace] at hnone
              cases hnone
            · simp [Answer.grants, reserveAt, hunsafe, storageFailure]
            · simp [Answer.grants, reserveAt, hunlocked, storageFailure]
          · simp [Answer.grants, hon]

theorem Accounted.step {l : Label} {answers : List Answer} {answer : Option Answer}
    (hacc : Accounted s w answers) (hsteady : Steady u s w l)
    (hstep : w.step u l = some (w', answer)) :
    Accounted s w' (answers ++ answer.toList) := by
  rcases World.step_entry hsteady hstep with
    ⟨caller, q, h, r, rfl, hpass, hfiles, rfl⟩ | ⟨-, hentry, hanswer⟩
  · obtain ⟨hkept, hrenews⟩ := hsteady
    have hforeign : q.on s = false → granted s (answers ++ (r.map (Answer.mk q)).toList) =
        granted s answers := by
      intro hon
      cases r with
      | none => exact congrArg (granted s) (List.append_nil _)
      | some r => exact granted_append_of_not (by simp [Answer.grants, hon])
    by_cases hpath : budgetPath q.scope = budgetPath s
    · have hkept := hkept (budgetPath_inj hpath)
      by_cases hkey : s.scopeKey = q.scope.scopeKey
      · have hon : q.on s = true := Request.on_iff.mpr ⟨hpath, hkey.symm⟩
        rw [hpath] at hpass
        cases hpass with
        | failed hleft =>
            exact hacc.congr (hleft _ hkept) (congrArg (granted s) (List.append_nil _))
        | @decided stored e r hstored hother hown hevidence hcount hanswer =>
            have hcurrent : entryIn stored q.scope.scopeKey = w.entry s := by
              rw [← hkey]
              exact hstored _ hkept
            rw [hcurrent] at hcount
            have hentry : w'.entry s = some e := by
              rw [World.entry, hkey]
              exact hown
            refine hacc.decided (hrenews hon) hentry hevidence hcount ?_
            cases r with
            | none => exact .inl (congrArg (granted s) (List.append_nil _))
            | some r =>
                obtain ⟨corrupt, changed, rfl⟩ := hanswer r rfl
                by_cases hallows : allows (w.entry s) q = true
                · refine .inr ⟨hallows, ?_⟩
                  have hgrants : Answer.grants s ⟨q, reservationOf
                      (entryIn stored q.scope.scopeKey) q corrupt changed⟩ = true := by
                    simp only [Answer.grants, hon, hcurrent, reservationOf, hallows, Bool.and_self]
                  exact (granted_append answers _).trans (by rw [if_pos hgrants])
                · refine .inl (granted_append_of_not ?_)
                  simp only [Answer.grants, hcurrent, reservationOf, hallows, Bool.and_false]
      · refine hacc.congr ?_ (hforeign ?_)
        · rw [hpath] at hpass
          exact hpass.other hkept hkey
        · rw [Bool.eq_false_iff]
          exact fun hon => hkey (Request.on_iff.mp hon).2.symm
    · refine hacc.congr (congrArg (entryIn · s.scopeKey) (hfiles _ (Ne.symm hpath))) (hforeign ?_)
      rw [Bool.eq_false_iff]
      exact fun hon => hpath (Request.on_iff.mp hon).1
  · refine hacc.congr hentry ?_
    cases answer with
    | none => exact congrArg (granted s) (List.append_nil _)
    | some a => exact granted_append_of_not (hanswer a rfl)

/-- A call on its own takes the steps `reserve` takes. -/
theorem reserve_eq_run {caller : Nat} (hidle : w.falling caller = none) (primary : Storage)
    (secondary : Storage) (root : Option Text) (q : Request) :
    ∃ steps, (steps = [.enter caller q primary] ∨
        steps = [.fallBack caller root secondary, .enter caller q primary]) ∧
      ((w.run u steps).map fun r => (r.1.files, r.2.map (·.reservation))) =
        some ((reserve u primary secondary root q w.files).1,
          [(reserve u primary secondary root q w.files).2]) := by
  cases hfirst : reserveAt primary q (w.files (budgetPath q.scope)) with
  | mk file reservation =>
      cases reservation with
      | some r =>
          refine ⟨_, .inl rfl, ?_⟩
          simp only [World.run, World.step, hidle, hfirst, reserve, Option.bind_some,
            Option.map_some]
          rfl
      | none =>
          refine ⟨_, .inr rfl, ?_⟩
          cases hplace : fallbackBudgetPath u root q.scope <;>
            simp only [World.run, World.step, hidle, hfirst, reserve, hplace,
              World.setFalling, Option.bind_some, Option.map_some, if_true] <;>
            rfl

theorem accounted_run {w₀ : World} (hunused : w₀.entry s = none) {run : List Label}
    {answers : List Answer} (hrun : w₀.run u run = some (w, answers))
    (hsteady : SteadyRun u s w₀ run) : Accounted s w answers := by
  induction run generalizing w answers with
  | nil =>
      cases hrun
      exact .initial hunused
  | cons l past ih =>
      rw [World.run, Option.bind_eq_some_iff] at hrun
      obtain ⟨⟨w', answers'⟩, hpast, hlast⟩ := hrun
      obtain ⟨⟨w'', answer⟩, hstep, heq⟩ := Option.map_eq_some_iff.mp hlast
      cases heq
      exact (ih hpast hsteady.1).step (hsteady.2 w' answers' hpast) hstep

/-! ## Other scopes -/

/-- A step of a call on the scope. -/
def Label.on (w : World) (s : Scope) : Label → Bool
  | .enter _ q _ => q.on s
  | .fallBack caller _ _ => (w.falling caller).any (·.on s)

theorem World.step_other {l : Label} {answer : Option Answer} (hother : l.on w s = false)
    (hsteady : Steady u s w l) (hstep : w.step u l = some (w', answer)) :
    w'.entry s = w.entry s := by
  rcases World.step_entry hsteady hstep with
    ⟨caller, q, h, r, rfl, hpass, hfiles, -⟩ | ⟨-, hentry, -⟩
  · by_cases hpath : budgetPath q.scope = budgetPath s
    · rw [hpath] at hpass
      refine hpass.other (hsteady.1 (budgetPath_inj hpath)) fun hkey => ?_
      exact Bool.eq_false_iff.mp hother (Request.on_iff.mpr ⟨hpath, hkey.symm⟩)
    · exact congrArg (entryIn · s.scopeKey) (hfiles _ (Ne.symm hpath))
  · exact hentry

/-- A pass during which nothing fails. -/
structure Storage.Serves (h : Storage) : Prop where
  runtimeSafe : h.runtimeSafe = true
  locked : h.locked = true
  reading : h.reading = .sound
  publication : h.publication = .done

theorem Storage.Serves.exists_reservation (hserves : h.Serves) (q : Request) (file : File)
    (hkept : Kept h q.scope.scopeKey file) :
    ∃ r, (reserveAt h q file).2 = some r ∧
      r.allowed = allows (entryIn file q.scope.scopeKey) q ∧
      r.count = nextCount (entryIn file q.scope.scopeKey) q := by
  have hsome : ((reserveAt h q file).2).isSome = true := by
    obtain ⟨left, stored, hload⟩ : ∃ left stored,
        load .empty .sound file = some (left, stored) := by
      cases file <;> exact ⟨_, _, rfl⟩
    simp only [reserveAt, hserves.runtimeSafe, hserves.locked, hserves.reading, hload,
      hserves.publication, publish, Bool.not_true, Bool.or_self]
    split
    · contradiction
    · split <;> rfl
  obtain ⟨r, hr⟩ := Option.isSome_iff_exists.mp hsome
  refine ⟨r, hr, ?_⟩
  have hpass := reserveAt_pass h q file
  rw [hr] at hpass
  cases hpass with
  | decided hstored _ _ _ _ hanswer =>
      obtain ⟨corrupt, changed, rfl⟩ := hanswer r rfl
      rw [← hstored _ hkept]
      exact ⟨rfl, rfl⟩

/-- A pass at a given time with the default settings. -/
def Storage.at (now : ℚ) : Storage where
  ttl := none
  entryLimit := none
  runtimeSafe := true
  locked := true
  reading := .sound
  now := now
  publication := .done

def stopScope : Scope where
  scopeKey := txt "k"
  projectId := txt "p"
  sessionId := txt "s"
  taskSignature := txt "t"
  branch := txt "main"
  sha := txt "0"

def evidenceA : Text := txt "a"
def evidenceB : Text := txt "b"

def attempt (evidence : Text) (critical : Bool) (now : ℚ) : Label :=
  .enter 0 ⟨stopScope, evidence, critical⟩ (.at now)

def ordinaryRun : List Label := [attempt evidenceA false 0]

/-- The call in the middle is denied and leaves its evidence on record. -/
def driftRun : List Label :=
  [attempt evidenceA true 2, attempt evidenceB false 1, attempt evidenceA false 0]

end RalphVault.Stop
