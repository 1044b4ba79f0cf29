import Mathlib
import RalphVault.Store.Faults
import RalphVault.Store.Steps

/-!
# Implementation store — the system of writers

Any number of calls on any plans, one step at a time. A call enters when
it has its locks and has decided; it then takes the steps of its script,
and returns, fails, or dies between two of them. A call that is rejected
before that changes nothing but malformed files.
-/

namespace RalphVault.Store

structure System where
  files : StoreFiles
  /-- what is left of the script of the call that holds the lock of a plan -/
  writer : Text → Option (List Durable)
  /-- the plan whose registration holds the manifest lock -/
  registering : Option Text

def System.initial : System := ⟨.empty, fun _ => none, none⟩

def System.setFiles (sys : System) (files : StoreFiles) : System := { sys with files := files }

def System.setWriter (sys : System) (p : Text) (script : List Durable) : System :=
  { sys with writer := Function.update sys.writer p (some script) }

/-- The call on a plan is over, and its locks are free again. -/
def System.release (sys : System) (p : Text) : System where
  files := sys.files
  writer := Function.update sys.writer p none
  registering := if sys.registering = some p then none else sys.registering

@[simp] theorem System.setFiles_files (sys : System) (st : StoreFiles) :
    (sys.setFiles st).files = st := rfl

@[simp] theorem System.setFiles_self (sys : System) : sys.setFiles sys.files = sys := rfl

@[simp] theorem System.setFiles_writer (sys : System) (st : StoreFiles) :
    (sys.setFiles st).writer = sys.writer := rfl

@[simp] theorem System.setWriter_files (sys : System) (p : Text) (script : List Durable) :
    (sys.setWriter p script).files = sys.files := rfl

@[simp] theorem System.setWriter_self (sys : System) (p : Text) (script : List Durable) :
    (sys.setWriter p script).writer p = some script :=
  Function.update_self ..

theorem System.setWriter_other (sys : System) {p q : Text} (script : List Durable) (h : q ≠ p) :
    (sys.setWriter p script).writer q = sys.writer q :=
  Function.update_of_ne h ..

@[simp] theorem System.release_files (sys : System) (p : Text) :
    (sys.release p).files = sys.files := rfl

@[simp] theorem System.release_self (sys : System) (p : Text) : (sys.release p).writer p = none :=
  Function.update_self ..

theorem System.release_other (sys : System) {p q : Text} (h : q ≠ p) :
    (sys.release p).writer q = sys.writer q :=
  Function.update_of_ne h ..

def Call.registers : Call → Bool
  | .register _ => true
  | _ => false

/-- What happens in a system. -/
inductive Action where
  | reject (call : Call)
  | enter (call : Call)
  | write (p : Text)
  | raise (p : Text)
  | finish (p : Text)
  | crash (p : Text)

/-- Whether the locks a call needs are free. -/
def System.Free (sys : System) (call : Call) : Prop :=
  sys.writer call.planId = none ∧ (call.registers = true → sys.registering = none)

/-- Whether a step may run: a pointer is published only while no
registration holds the manifest lock. -/
def System.Ready (sys : System) : Durable → Prop
  | .pointer _ => sys.registering = none
  | _ => True

section Steps

variable (env : Env)

/-- One step of a system. -/
inductive Step : System → Action → System → Prop where
  | preview {sys : System} {call : Call} {files : StoreFiles} {err : Fault}
      (hfree : sys.Free call) (h : call.preview env sys.files = (files, .error err)) :
      Step sys (.reject call) (sys.setFiles files)
  | reject {sys : System} {call : Call} {files : StoreFiles} {err : Fault}
      (hfree : sys.Free call) (h : call.locked env sys.files = (files, .error err)) :
      Step sys (.reject call) (sys.setFiles files)
  | enter {sys : System} {call : Call} {files : StoreFiles} {script : List Durable}
      (hfree : sys.Free call) (h : call.locked env sys.files = (files, .ok script)) :
      Step sys (.enter call)
        { (sys.setFiles files).setWriter call.planId script with
          registering := if call.registers then some call.planId else sys.registering }
  | write {sys : System} {p : Text} {d : Durable} {ds : List Durable} {files : StoreFiles}
      (hwriter : sys.writer p = some (d :: ds)) (hready : sys.Ready d)
      (h : d.exec env p sys.files = (files, .ok ())) :
      Step sys (.write p) ((sys.setFiles files).setWriter p ds)
  | raise {sys : System} {p : Text} {d : Durable} {ds : List Durable} {files : StoreFiles}
      {err : Fault} (hwriter : sys.writer p = some (d :: ds)) (hready : sys.Ready d)
      (h : d.exec env p sys.files = (files, .error err)) :
      Step sys (.raise p) ((sys.setFiles files).release p)
  | finish {sys : System} {p : Text} (hwriter : sys.writer p = some []) :
      Step sys (.finish p) (sys.release p)
  | crash {sys : System} {p : Text} {script : List Durable}
      (hwriter : sys.writer p = some script) : Step sys (.crash p) (sys.release p)

/-- The systems that runs lead to whose steps all meet a condition. -/
inductive Run (cond : System → Action → Prop) : System → Prop where
  | initial : Run cond .initial
  | step {sys sys' : System} {a : Action} (h : Run cond sys) (hcond : cond sys a)
      (hstep : Step env sys a sys') : Run cond sys'

/-- The stores that calls lead to, in any interleaving, with failures and
crashes between any two durable steps. -/
def Reachable (st : StoreFiles) : Prop :=
  ∃ sys, Run env (fun _ _ => True) sys ∧ sys.files = st

end Steps

variable {env : Env}

/-! ## Valid files -/

/-- The snapshot of a plan, where there is one, is a validated one. -/
def SnapshotOk (env : Env) (p : Text) (file : Option Json) : Prop :=
  ∀ j, file = some j → ∃ s : State, j = .obj s.toDict ∧ s.Valid env stateHardLimitBytes ∧
    s.planId = p

/-- The manifest, where there is one, is a validated one. -/
def ManifestOk (env : Env) (file : Option Json) : Prop :=
  ∀ j, file = some j → ∃ m : Manifest, j = .obj m.toDict ∧ m.Valid env

/-- No file a reader validates is malformed. -/
structure FilesOk (env : Env) (st : StoreFiles) : Prop where
  manifest : ManifestOk env st.manifest
  snapshot : ∀ p, SnapshotOk env p (st.plans p).snapshot

/-- The snapshots a script publishes are validated ones. -/
def ScriptOk (env : Env) (p : Text) (script : List Durable) : Prop :=
  ∀ s, .snapshot s ∈ script → s.Valid env stateHardLimitBytes ∧ s.planId = p

structure SystemOk (env : Env) (sys : System) : Prop where
  files : FilesOk env sys.files
  scripts : ∀ p script, sys.writer p = some script → ScriptOk env p script

/-! ## Reading valid files -/

theorem SnapshotOk.reads {p : Text} {f : PlanFiles} (h : SnapshotOk env p f.snapshot)
    (label : String) : ∃ o, readSnapshot env p label f = .ok o := by
  unfold readSnapshot readJson
  cases hf : f.snapshot with
  | none => exact ⟨none, rfl⟩
  | some j =>
      obtain ⟨s, rfl, hvalid, hplan⟩ := h j hf
      have hread : validateState env s.toDict (some p) stateHardLimitBytes = .ok s :=
        hvalid.reads env (by simp [hplan])
      refine ⟨some s, ?_⟩
      simp [Nat.not_lt.mpr hvalid.fits.bounded, object, bind, Except.bind, hread]

theorem SnapshotOk.loadPlan {p : Text} {f : PlanFiles} (h : SnapshotOk env p f.snapshot)
    (timestamp : Text) : (loadPlan env p timestamp f).1 = f := by
  obtain ⟨o, ho⟩ := h.reads s!"state for {String.ofList p}"
  simp only [Store.loadPlan, loadStateForWrite, ho]
  rfl

theorem SnapshotOk.lockedRecord {r : RecordRequest} {f : PlanFiles}
    (h : SnapshotOk env r.planId f.snapshot) : (lockedRecord env r f).1 = f :=
  h.loadPlan r.timestamp

theorem validateSequenceAndHashes_error {es : List Event} {m : String} :
    ∀ {n : Nat} {previous : Text},
      validateSequenceAndHashes env n previous es ≠ .error (.corruptRecordError m) := by
  induction es with
  | nil => simp [validateSequenceAndHashes]
  | cons e es ih =>
      intro n previous h
      simp only [validateSequenceAndHashes, bind_eq_error, require_eq_error] at h
      rcases h with ⟨-, h⟩ | ⟨_, -, ⟨-, h⟩ | ⟨_, -, ⟨-, h⟩ | ⟨_, -, h⟩⟩⟩
      · cases h
      · cases h
      · cases h
      · exact ih h

theorem validateStateCursor_error {s : State} {es : List Event} {m : String} :
    validateStateCursor s es ≠ .error (.corruptRecordError m) := by
  intro h
  simp only [validateStateCursor, bind_eq_error, require_eq_error] at h
  rcases h with ⟨-, h⟩ | ⟨_, -, h⟩
  · cases h
  · split at h
    · exact absurd (require_eq_error.mp h).2 (by simp)
    · exact absurd (require_eq_error.mp h).2 (by simp)

/-- A malformed journal is an integrity failure, not a corrupt record. -/
theorem readPlanEvents_error {p : Text} {f : PlanFiles} {b : Bool} {m : String} :
    readPlanEvents env p f b ≠ .error (.corruptRecordError m) := by
  intro h
  simp only [readPlanEvents, bind_eq_error, require_eq_error, validateEventOwnership, pure,
    Except.pure, reduceCtorEq, and_false, exists_false, or_false, false_or] at h
  obtain ⟨_, -, h⟩ := h
  rcases h with h | ⟨es, -, _, -, h⟩
  · cases hr : readRecords env p s!"events for {String.ofList p}" 0 f.journal with
    | ok es => simp [hr, Except.mapError] at h
    | error err =>
        simp only [hr, Except.mapError, Except.error.injEq] at h
        cases err <;> simp [integrity] at h
  · exact validateSequenceAndHashes_error h

theorem SnapshotOk.previewRecord {r : RecordRequest} {f : PlanFiles}
    (h : SnapshotOk env r.planId f.snapshot) : (previewRecord env r f).1 = f := by
  have hread : ∀ m, readState env r.planId f ≠ .error (.corruptRecordError m) := by
    intro m hm
    obtain ⟨o, ho⟩ := h.reads "state"
    simp only [readState, ho, bind, Except.bind] at hm
    cases o with
    | none => cases hm
    | some s =>
        simp only at hm
        cases hes : readPlanEvents env r.planId f false with
        | error err =>
            rw [hes] at hm
            cases hm
            exact readPlanEvents_error hes
        | ok es =>
            rw [hes] at hm
            simp only at hm
            split at hm
            · rename_i err howned
              cases hm
              simp [validateOwnership, require_eq_error] at howned
            · split at hm
              · rename_i err hcursor
                cases hm
                exact validateStateCursor_error hcursor
              · cases hm
  unfold Store.previewRecord
  split
  · rename_i m hm
    exact absurd hm (hread m)
  · rfl
  · rfl
  · rfl

theorem ManifestOk.reads {file : Option Json} (h : ManifestOk env file) :
    (file = none ∧ readManifest env file = .ok none) ∨
      ∃ m : Manifest, file = some (.obj m.toDict) ∧ m.Valid env ∧
        readManifest env file = .ok (some m) := by
  unfold readManifest readJson
  cases hf : file with
  | none => exact .inl ⟨rfl, rfl⟩
  | some j =>
      obtain ⟨m, rfl, hvalid⟩ := h j hf
      refine .inr ⟨m, rfl, hvalid, ?_⟩
      simp [Nat.not_lt.mpr hvalid.bounded, object, bind, Except.bind, hvalid.reads env]

/-- The manifest a writer works on. -/
def currentManifest (env : Env) (m : Option Manifest) : Manifest :=
  m.getD ⟨repoIdentity env, 0, []⟩

theorem ManifestOk.readsLocked {file : Option Json} (h : ManifestOk env file) :
    ∃ o, readManifest env file = .ok o ∧
      readManifestLocked env file = (file, .ok (currentManifest env o)) := by
  unfold readManifestLocked
  rcases h.reads with ⟨-, ho⟩ | ⟨m, -, -, ho⟩
  · rw [ho]
    exact ⟨none, rfl, rfl⟩
  · rw [ho]
    exact ⟨some m, rfl, rfl⟩

theorem FilesOk.preview {st : StoreFiles} (h : FilesOk env st) (call : Call) :
    (call.preview env st).1 = st := by
  cases call with
  | record c =>
      simp only [Call.preview]
      split
      · rfl
      · rename_i r hr
        simp only [(h.snapshot r.planId).previewRecord, StoreFiles.setPlan_self]
  | register c => rfl
  | replay p t => rfl

/-- A call that is rejected leaves valid files as they are, and so does one
that goes on to its script. -/
theorem FilesOk.locked {st : StoreFiles} (h : FilesOk env st) (call : Call) :
    (call.locked env st).1 = st := by
  cases call with
  | record c =>
      simp only [Call.locked]
      split
      · rfl
      · rename_i r hr
        simp only [(h.snapshot r.planId).lockedRecord, StoreFiles.setPlan_self]
  | register c =>
      simp only [Call.locked]
      split
      · rfl
      · rename_i r hr
        obtain ⟨o, -, hread⟩ := h.manifest.readsLocked
        simp only [hread, (h.snapshot r.planId).loadPlan, StoreFiles.setPlan_self]
  | replay p t =>
      simp only [Call.locked]
      split
      · rfl
      · simp only [(h.snapshot p).loadPlan, StoreFiles.setPlan_self]

/-! ## What the steps of a script write -/

theorem stateAfterEvent_valid {s next : State} {e : Event} {timestamp : Text}
    (h : stateAfterEvent env s e timestamp = .ok next) :
    next.Valid env stateHardLimitBytes ∧
      next.planId = if e.planId.isEmpty then s.planId else e.planId := by
  obtain ⟨hvalid, hplan, -⟩ := validateState_sound env h
  exact ⟨hvalid, (hplan _ rfl).symm⟩

/-- The members of a snapshot that `validate_state` reads as they are. -/
theorem validateState_members {d : Dict} {expected : Option Text} {limit : Nat} {s : State}
    (h : validateState env d expected limit = .ok s) :
    d.getD (txt "generation") (.num 0) = natJson s.generation ∧
      d.getD (txt "status") (nameJson Status.planned) = nameJson s.status ∧
      d.getD (txt "last_event_sequence") (.num 0) = natJson s.lastEventSequence := by
  obtain ⟨-, -, t, ht, rfl⟩ := validateState_sound env h
  simp only [decodeState, bind_eq_ok, integer_eq_ok, enum_eq_ok, pure, Except.pure,
    Except.ok.injEq] at ht
  obtain ⟨_, -, _, -, plan, -, _, -, path, -, gen, hgen, status, hstatus, cls, -, ht⟩ := ht
  obtain ⟨phase, -, objective, -, next, -, decision, -, blockers, -, questions, -, ht⟩ := ht
  obtain ⟨gates, -, files, -, op, -, seq, hseq, ehash, -, git, -, writer, -, family, -, ht⟩ := ht
  obtain ⟨source, -, verified, -, origin, -, intent, -, created, -, updated, -, hash, -, rfl⟩ := ht
  exact ⟨hgen.1, hstatus, hseq.1⟩

theorem natJson_inj {m n : Nat} (h : natJson m = natJson n) : m = n :=
  Int.ofNat.inj (Json.num.inj h)

theorem nameJson_inj [Named β] {a b : β} (h : nameJson a = nameJson b) : a = b :=
  Named.distinct a b (Json.str.inj h)

/-- Validating the object of a snapshot keeps its generation, status and
place in the journal. -/
theorem validateState_same {s t : State} {expected : Option Text} {limit : Nat}
    (h : validateState env t.toDict expected limit = .ok s) :
    s.generation = t.generation ∧ s.status = t.status ∧
      s.lastEventSequence = t.lastEventSequence := by
  obtain ⟨hgen, hstatus, hseq⟩ := validateState_members h
  exact ⟨(natJson_inj hgen).symm, (nameJson_inj hstatus).symm, (natJson_inj hseq).symm⟩

/-- The snapshot after an event is one generation later, with the status of
the event, at its place. -/
theorem stateAfterEvent_same {s next : State} {e : Event} {timestamp : Text}
    (h : stateAfterEvent env s e timestamp = .ok next) :
    next.generation = s.generation + 1 ∧ next.status = e.status ∧
      next.lastEventSequence = e.sequence :=
  validateState_same h

/-- The snapshot a recorded event leads to belongs to the plan of the call. -/
theorem recordedEvent_next {r : RecordRequest} {s candidate next : State} {n : Nat}
    {previous : Text} {e : Event} (hc : candidateState env r s = .ok candidate)
    (he : recordedEvent env r s candidate n previous = .ok e)
    (h : stateAfterEvent env candidate e r.timestamp = .ok next) :
    next.Valid env stateHardLimitBytes ∧ next.planId = r.planId := by
  obtain ⟨hvalid, hplan⟩ := stateAfterEvent_valid h
  refine ⟨hvalid, ?_⟩
  have heplan : e.planId = r.planId := by
    rw [(recordedEvent_built (candidateState_valid hc).1.fields he).1]
    rfl
  rw [hplan, heplan]
  split
  · exact (candidateState_valid hc).2
  · rfl

theorem lockedRecord_script {r : RecordRequest} {f f' : PlanFiles} {d : RecordDecision}
    {es : List Event} (h : lockedRecord env r f = (f', .ok (d, es))) :
    ScriptOk env r.planId (d.script env r es.length) := by
  obtain ⟨s, b, hload, hd⟩ := lockedRecord_ok h
  have hs := loadPlan_valid hload
  intro t ht
  cases d with
  | settled u b' res =>
      obtain ⟨rfl, rfl⟩ := decideRecord_settled_state hd
      simp only [RecordDecision.script] at ht
      split at ht
      · rw [List.mem_singleton] at ht
        cases ht
        exact hs
      · simp at ht
  | append before candidate e =>
      obtain ⟨-, hc, -, he⟩ := decideRecord_append hd
      simp only [RecordDecision.script, List.mem_cons, reduceCtorEq, false_or] at ht
      split at ht
      · simp at ht
      · rename_i next hnext
        have ht : t = next := by
          rcases List.mem_cons.mp ht with ht | ht
          · cases ht
            rfl
          · rw [List.mem_singleton] at ht
            split at ht <;> cases ht
        rw [ht]
        exact recordedEvent_next hc he hnext

theorem registerRequest_valid {c : RegisterCall} {r : RegisterRequest}
    (h : registerRequest env c = .ok r) :
    r.initial.Valid env stateHardLimitBytes ∧ r.initial.planId = r.planId := by
  simp only [registerRequest, newState, bind_eq_ok, pure, Except.pure, Except.ok.injEq] at h
  obtain ⟨_, -, op, -, fields, -, initial, hinitial, rfl⟩ := h
  obtain ⟨hvalid, hplan, -⟩ := validateState_sound env hinitial
  exact ⟨hvalid, (hplan _ rfl).symm⟩

theorem registrationEvent_built {r : RegisterRequest} {n : Nat} {previous : Text} {e : Event}
    (hr : r.initial.FieldsOk env) (h : registrationEvent env r n previous = .ok e) :
    e = builtEvent env r.planId r.initial r.operation .started r.narrative r.timestamp n previous
        (fullStatePatch r.initial) (registrationOperationPayload r.initial r.narrative) ∧
      e.Valid env :=
  buildEvent_sound env hr (fullStatePatch_fields hr) h

theorem decideRegister_settled {r : RegisterRequest} {current : Manifest}
    {plan : Option (State × Bool)} {es : List Event} {s : State} {b : Bool} {id : Text}
    (h : decideRegister env r current plan es = .ok (.settled s b id)) : plan = some (s, b) := by
  unfold decideRegister at h
  split at h
  · split at h
    · simp only [bind_eq_ok, pure, Except.pure, Except.ok.injEq,
        RegisterDecision.settled.injEq] at h
      obtain ⟨_, -, _, -, rfl, rfl, -⟩ := h
      rfl
    · simp at h
  · simp [bind_eq_ok, pure, Except.pure] at h

theorem decideRegister_append {r : RegisterRequest} {current : Manifest}
    {plan : Option (State × Bool)} {es : List Event} {next : State} {e : Event}
    (h : decideRegister env r current plan es = .ok (.append next e)) :
    plan = none ∧ registrationEvent env r 1 [] = .ok e ∧
      stateAfterEvent env r.initial e r.timestamp = .ok next ∧
      ∃ m, manifestCandidate env current next true = .ok m := by
  unfold decideRegister at h
  split at h
  · split at h
    · simp [bind_eq_ok, pure, Except.pure] at h
    · simp at h
  · simp only [bind_eq_ok, pure, Except.pure, Except.ok.injEq, RegisterDecision.append.injEq] at h
    obtain ⟨e', he, next', hnext, m, hm, rfl, rfl⟩ := h
    exact ⟨rfl, he, hnext, m, hm⟩

theorem registrationEvent_next {r : RegisterRequest} {n : Nat} {previous : Text} {e : Event}
    {next : State} (hr : r.initial.Valid env stateHardLimitBytes)
    (hplan : r.initial.planId = r.planId) (he : registrationEvent env r n previous = .ok e)
    (h : stateAfterEvent env r.initial e r.timestamp = .ok next) :
    next.Valid env stateHardLimitBytes ∧ next.planId = r.planId := by
  obtain ⟨hvalid, hnext⟩ := stateAfterEvent_valid h
  refine ⟨hvalid, ?_⟩
  have heplan : e.planId = r.planId := by
    rw [(registrationEvent_built hr.fields he).1]
    rfl
  rw [hnext, heplan]
  split
  · exact hplan
  · rfl

/-! ## A registered plan -/

theorem Dict.get?_update_last {k : Text} {v : Json} (e₁ e₂ : Dict) (h : k ∉ Dict.keys e₂) (d : Dict) :
    Dict.get? k (d.update (e₁ ++ (k, v) :: e₂)) = some v := by
  simp only [Dict.update, List.foldl_append, List.foldl_cons]
  have hrest := Dict.get?_update_of_not_mem h (Dict.set k v (e₁.foldl (fun acc m => Dict.set m.1 m.2 acc) d))
  rw [Dict.update] at hrest
  rw [hrest, Dict.get?_set, if_pos rfl]

theorem validateState_git {d : Dict} {expected : Option Text} {limit : Nat} {s : State}
    (h : validateState env d expected limit = .ok s) :
    git env (d.getD (txt "git") (.obj [])) = .ok s.git := by
  obtain ⟨-, -, t, ht, rfl⟩ := validateState_sound env h
  simp only [decodeState, bind_eq_ok, pure, Except.pure, Except.ok.injEq] at ht
  obtain ⟨_, -, _, -, plan, -, _, -, path, -, gen, -, status, -, cls, -, ht⟩ := ht
  obtain ⟨phase, -, objective, -, next, -, decision, -, blockers, -, questions, -, ht⟩ := ht
  obtain ⟨gates, -, files, -, op, -, seq, -, ehash, -, g, hgit, writer, -, family, -, ht⟩ := ht
  obtain ⟨source, -, verified, -, origin, -, intent, -, created, -, updated, -, hash, -, rfl⟩ := ht
  exact hgit

theorem git_repositoryId {d : Dict} {g : Git} (h : git env (.obj d) = .ok g) :
    d.getD (txt "repository_id") noText = .str g.repositoryId := by
  simp only [git, object, bind_eq_ok, identifier_eq_ok, pure, Except.pure, Except.ok.injEq] at h
  obtain ⟨obj, rfl, _, -, commit, -, _, -, branch, -, workspace, -, repository, hrepository, rfl⟩ := h
  exact hrepository.1

/-- The state of a registration belongs to this checkout. -/
theorem registerRequest_owned {c : RegisterCall} {r : RegisterRequest}
    (h : registerRequest env c = .ok r) : Owned env r.initial.git := by
  simp only [registerRequest, newState, provenanceForStore, bind_eq_ok, pure, Except.pure,
    Except.ok.injEq] at h
  obtain ⟨_, -, op, -, fields, ⟨source, -, _, -, _, -, rfl⟩, initial, hinitial, rfl⟩ := h
  have hgit := validateState_git hinitial
  rw [Dict.getD, Dict.get?_update_last _ _
    (by simp only [Dict.keys, List.map_cons, List.map_nil]; decide)] at hgit
  have hid := git_repositoryId hgit
  rw [Dict.getD, Dict.get?_set, if_pos rfl, Option.getD_some, Json.str.injEq] at hid
  simp [Owned, ← hid]

theorem registrationEvent_extends {c : RegisterCall} {r : RegisterRequest} {e : Event}
    (hr : registerRequest env c = .ok r) (h : registrationEvent env r 1 [] = .ok e) :
    Extends env r.planId [] e := by
  obtain ⟨hbuilt, he⟩ := registrationEvent_built (registerRequest_valid hr).1.fields h
  refine ⟨he, ?_, ?_, ?_, ?_⟩ <;> rw [hbuilt]
  · rfl
  · rfl
  · rfl
  · exact registerRequest_owned hr

theorem registrationEvent_timestamp {r : RegisterRequest} {n : Nat} {previous : Text} {e : Event}
    (hr : r.initial.FieldsOk env) (h : registrationEvent env r n previous = .ok e) :
    e.timestamp = r.timestamp ∧ TextOk env 64 true r.timestamp := by
  obtain ⟨hbuilt, he⟩ := registrationEvent_built hr h
  have htime : e.timestamp = r.timestamp := by
    rw [hbuilt]
    rfl
  refine ⟨htime, ?_⟩
  rw [← htime]
  exact he.fields.timestamp.weaken

/-- The snapshot a registration publishes, computed. -/
theorem registrationEvent_next_eq {c : RegisterCall} {r : RegisterRequest} {e : Event}
    {next : State} (hr : registerRequest env c = .ok r)
    (he : registrationEvent env r 1 [] = .ok e)
    (h : stateAfterEvent env r.initial e r.timestamp = .ok next) :
    next = (stateWithEvent r.initial e r.timestamp).rehashed env ∧
      next.Fits env stateHardLimitBytes := by
  have hinitial := registerRequest_valid hr
  have hext := registrationEvent_extends hr he
  refine (stateAfterEvent_eq_ok hinitial.1.fields hext.valid.fields
    (registrationEvent_timestamp hinitial.1.fields he).2 ?_).mp h
  rw [hext.plan, hinitial.2]

/-- **A registration leaves its plan current.** -/
theorem registered_current {c : RegisterCall} {r : RegisterRequest} {f f' : PlanFiles} {e : Event}
    {next : State} (hr : registerRequest env c = .ok r) (hreads : Reads env r.planId f [])
    (he : registrationEvent env r 1 [] = .ok e)
    (hnext : stateAfterEvent env r.initial e r.timestamp = .ok next)
    (happend : appendEvent f e 0 = .ok f') :
    Current env r.planId { f' with snapshot := some (.obj next.toDict) } next [e] := by
  have hinitial := registerRequest_valid hr
  have hext := registrationEvent_extends hr he
  obtain ⟨heq, -⟩ := registrationEvent_next_eq hr he hnext
  obtain ⟨hvalid, hplan⟩ := registrationEvent_next hinitial.1 hinitial.2 he hnext
  refine ⟨rfl, hvalid, hplan, ?_, ?_, ?_, ?_⟩
  · rw [heq]
    exact hext.owned
  · exact (hreads.snoc hext happend).withSnapshot _
  · rw [heq]
    exact hext.sequence
  · rw [heq]
    rfl

/-! ## The scripts of the calls -/

/-- Every call publishes validated snapshots of its own plan only. -/
theorem locked_scriptOk {call : Call} {st st' : StoreFiles} {script : List Durable}
    (h : call.locked env st = (st', .ok script)) : ScriptOk env call.planId script := by
  cases call with
  | record c =>
      simp only [Call.locked] at h
      split at h
      · simp at h
      · rename_i r hr
        rw [Call.planId, ← recordRequest_planId hr]
        cases hlocked : lockedRecord env r (st.plans r.planId) with
        | mk f d =>
            simp only [hlocked, Prod.mk.injEq, map_eq_ok] at h
            obtain ⟨-, ⟨d, es⟩, rfl, rfl⟩ := h
            exact lockedRecord_script hlocked
  | register c =>
      simp only [Call.locked] at h
      split at h
      · simp at h
      · rename_i r hr
        rw [Call.planId, ← registerRequest_planId hr]
        have hinitial := registerRequest_valid hr
        split at h
        · simp at h
        · rename_i file current hm
          cases hload : loadPlan env r.planId r.timestamp (st.plans r.planId) with
          | mk f loaded =>
              simp only [hload, Prod.mk.injEq, bind_eq_ok, pure, Except.pure,
                Except.ok.injEq] at h
              obtain ⟨-, ⟨plan, es⟩, rfl, d, hd, rfl⟩ := h
              intro t ht
              cases d with
              | settled s b id =>
                  have hplan := decideRegister_settled hd
                  subst hplan
                  cases b with
                  | false => simp [RegisterDecision.script] at ht
                  | true =>
                      simp only [RegisterDecision.script, if_true, List.singleton_append,
                        List.mem_cons, reduceCtorEq, List.not_mem_nil, or_false,
                        Durable.snapshot.injEq] at ht
                      rw [ht]
                      exact loadPlan_valid hload
              | append next e =>
                  obtain ⟨-, he, hnext, -⟩ := decideRegister_append hd
                  simp only [RegisterDecision.script, List.mem_cons, reduceCtorEq,
                    List.not_mem_nil, or_false, false_or, Durable.snapshot.injEq] at ht
                  rw [ht]
                  exact registrationEvent_next hinitial.1 hinitial.2 he hnext
  | replay p t =>
      simp only [Call.locked] at h
      split at h
      · simp at h
      · cases hload : loadPlan env p t (st.plans p) with
        | mk f loaded =>
            simp only [hload, Prod.mk.injEq, map_eq_ok] at h
            obtain ⟨-, ⟨plan, es⟩, rfl, rfl⟩ := h
            intro s hs
            split at hs
            · rename_i s' heq
              simp only at heq
              subst heq
              rw [List.mem_singleton, Durable.snapshot.injEq] at hs
              rw [hs]
              exact loadPlan_valid hload
            · simp at hs

/-- What becomes of the manifest when a snapshot is to be published: its
pointer is added, replaced or left, and a pointer is left only when it is
ahead of the snapshot or has its status. -/
theorem manifestCandidate_ok {current m : Manifest} {s : State} {force b : Bool}
    (h : manifestCandidate env current s force = .ok (m, b)) :
    m.Valid env ∧
      ((findPointer s.planId current.plans = none ∧ b = true ∧
          m = { current with
            generation := current.generation + 1
            plans := current.plans ++ [pointerOf s] }) ∨
        (∃ q, findPointer s.planId current.plans = some q ∧ b = true ∧
          q.lastEventSequence ≤ s.lastEventSequence ∧
          m = { current with
            generation := current.generation + 1
            plans := setPointer (pointerOf s) current.plans }) ∨
        (∃ q, findPointer s.planId current.plans = some q ∧ b = false ∧ m = current ∧
          (s.lastEventSequence < q.lastEventSequence ∨ q.status = s.status))) := by
  unfold manifestCandidate at h
  simp only at h
  split at h
  · rename_i hfind
    simp only [bind_eq_ok, pure, Except.pure, Except.ok.injEq, Prod.mk.injEq, if_true] at h
    obtain ⟨m', hm, rfl, rfl⟩ := h
    exact ⟨validateManifest_sound env hm, .inl ⟨hfind, rfl, validateManifest_exact env hm⟩⟩
  · rename_i q hfind
    split at h
    · rename_i hahead
      simp only [bind_eq_ok, pure, Except.pure, Except.ok.injEq, Prod.mk.injEq] at h
      obtain ⟨m', hm, rfl, rfl⟩ := h
      exact ⟨validateManifest_sound env hm,
        .inr (.inr ⟨q, hfind, rfl, validateManifest_exact env hm, .inl hahead⟩)⟩
    · rename_i hbehind
      split at h
      · simp only [bind_eq_ok, pure, Except.pure, Except.ok.injEq, Prod.mk.injEq, if_true] at h
        obtain ⟨m', hm, rfl, rfl⟩ := h
        exact ⟨validateManifest_sound env hm,
          .inr (.inl ⟨q, hfind, rfl, Nat.not_lt.mp hbehind, validateManifest_exact env hm⟩)⟩
      · rename_i hsame
        simp only [bind_eq_ok, pure, Except.pure, Except.ok.injEq, Prod.mk.injEq,
          Bool.false_eq_true, if_false, Nat.add_zero] at h
        obtain ⟨m', hm, rfl, rfl⟩ := h
        have hstatus : q.status = s.status := by
          by_contra hne
          exact hsame (.inl hne)
        exact ⟨validateManifest_sound env hm,
          .inr (.inr ⟨q, hfind, rfl, validateManifest_exact env hm, .inr hstatus⟩)⟩

/-! ## Steps keep the files valid -/

theorem publishManifestPointer_ok {file file' : Option Json} {current m : Manifest} {s : State}
    {force : Bool} (h : publishManifestPointer env file current s force = .ok (file', m)) :
    ∃ b, manifestCandidate env current s force = .ok (m, b) ∧
      file' = if b then some (.obj m.toDict) else file := by
  simp only [publishManifestPointer, bind_eq_ok] at h
  obtain ⟨⟨m', b⟩, hm, h⟩ := h
  cases b with
  | true =>
      simp only [if_true, publishJson, bind_eq_ok, pure, Except.pure, Except.ok.injEq,
        Prod.mk.injEq] at h
      obtain ⟨_, ⟨_, -, rfl⟩, rfl, rfl⟩ := h
      exact ⟨true, hm, rfl⟩
  | false =>
      simp only [Bool.false_eq_true, if_false, pure, Except.pure, Except.ok.injEq,
        Prod.mk.injEq] at h
      obtain ⟨rfl, rfl⟩ := h
      exact ⟨false, hm, rfl⟩

theorem ManifestOk.publish {file file' : Option Json} {current m : Manifest} {s : State}
    {force : Bool} (hfile : ManifestOk env file)
    (h : publishManifestPointer env file current s force = .ok (file', m)) :
    ManifestOk env file' := by
  obtain ⟨b, hm, rfl⟩ := publishManifestPointer_ok h
  cases b with
  | false => exact hfile
  | true =>
      intro j hj
      cases hj
      exact ⟨m, rfl, (manifestCandidate_ok hm).1⟩

/-- The manifest file after a pointer was to be published. -/
theorem pointerStep_manifest {s : State} {force : Bool} {st : StoreFiles}
    (h : ManifestOk env st.manifest) :
    ((pointerStep env s force st).1 = st ∧ ∃ err, (pointerStep env s force st).2 = .error err) ∨
      ∃ o file m, readManifest env st.manifest = .ok o ∧
        publishManifestPointer env st.manifest (currentManifest env o) s force = .ok (file, m) ∧
        pointerStep env s force st = ({ st with manifest := file }, .ok m) := by
  obtain ⟨o, ho, hread⟩ := h.readsLocked
  unfold pointerStep
  rw [hread]
  simp only [bind, Except.bind]
  cases hp : publishManifestPointer env st.manifest (currentManifest env o) s force with
  | error err => exact .inl ⟨rfl, err, rfl⟩
  | ok r => exact .inr ⟨o, r.1, r.2, ho, hp, rfl⟩

theorem lockedPointerStep_manifest (current : Manifest) (s : State) (force : Bool)
    (st : StoreFiles) :
    ((lockedPointerStep env current s force st).1 = st ∧
        ∃ err, (lockedPointerStep env current s force st).2 = .error err) ∨
      ∃ file m, publishManifestPointer env st.manifest current s force = .ok (file, m) ∧
        lockedPointerStep env current s force st = ({ st with manifest := file }, .ok m) := by
  unfold lockedPointerStep
  cases hp : publishManifestPointer env st.manifest current s force with
  | error err => exact .inl ⟨rfl, err, rfl⟩
  | ok r => exact .inr ⟨r.1, r.2, rfl, rfl⟩

theorem FilesOk.setPlan {st : StoreFiles} (h : FilesOk env st) {p : Text} {f : PlanFiles}
    (hf : SnapshotOk env p f.snapshot) : FilesOk env (st.setPlan p f) where
  manifest := h.manifest
  snapshot := by
    intro q
    by_cases hq : q = p
    · subst hq
      rw [StoreFiles.setPlan_plans]
      exact hf
    · rw [StoreFiles.setPlan_other _ _ hq]
      exact h.snapshot q

/-- **A step of a script keeps the files valid.** -/
theorem FilesOk.exec {st : StoreFiles} (h : FilesOk env st) {p : Text} {d : Durable}
    (hd : ∀ s, d = .snapshot s → s.Valid env stateHardLimitBytes ∧ s.planId = p) :
    FilesOk env (d.exec env p st).1 := by
  cases d with
  | append e n =>
      simp only [Durable.exec]
      cases happend : appendStep p e n st with
      | error err => exact h
      | ok st' =>
          obtain ⟨f, hf, rfl⟩ := appendStep_ok happend
          refine h.setPlan ?_
          rw [(appendEvent_ok hf).1]
          exact h.snapshot p
  | snapshot s =>
      simp only [Durable.exec]
      cases hsnap : snapshotStep p s st with
      | error err => exact h
      | ok st' =>
          rw [snapshotStep_ok hsnap]
          refine h.setPlan fun j hj => ?_
          cases hj
          exact ⟨s, rfl, hd s rfl⟩
  | pointer s =>
      rcases @pointerStep_manifest env s false _ h.manifest with
        ⟨hst, -⟩ | ⟨o, file, m, -, hp, hst⟩
      · simp only [Durable.exec, effect, hst]
        exact h
      · simp only [Durable.exec, effect, hst]
        exact ⟨h.manifest.publish hp, h.snapshot⟩
  | lockedPointer current s force =>
      rcases @lockedPointerStep_manifest env current s force st with
        ⟨hst, -⟩ | ⟨file, m, hp, hst⟩
      · simp only [Durable.exec, effect, hst]
        exact h
      · simp only [Durable.exec, effect, hst]
        exact ⟨h.manifest.publish hp, h.snapshot⟩
  | readManifest => exact h
  | raise err => exact h

/-! ## The invariant of a system -/

theorem SystemOk.initial : SystemOk env .initial where
  files := by
    constructor
    · intro j hj
      cases hj
    · intro p j hj
      cases hj
  scripts := by intro p script h; cases h

theorem SystemOk.release {sys : System} (h : SystemOk env sys) (p : Text) :
    SystemOk env (sys.release p) where
  files := h.files
  scripts := by
    intro q script hq
    by_cases hqp : q = p
    · subst hqp
      rw [System.release_self] at hq
      cases hq
    · rw [sys.release_other hqp] at hq
      exact h.scripts q script hq

theorem SystemOk.setWriter {sys : System} (h : SystemOk env sys) {p : Text}
    {script : List Durable} (hscript : ScriptOk env p script) :
    SystemOk env (sys.setWriter p script) where
  files := h.files
  scripts := by
    intro q script' hq
    by_cases hqp : q = p
    · subst hqp
      rw [System.setWriter_self, Option.some.injEq] at hq
      rw [← hq]
      exact hscript
    · rw [sys.setWriter_other _ hqp] at hq
      exact h.scripts q script' hq

theorem SystemOk.setFiles {sys : System} (h : SystemOk env sys) {st : StoreFiles}
    (hst : FilesOk env st) : SystemOk env (sys.setFiles st) :=
  ⟨hst, h.scripts⟩

/-- **Every step of a system keeps the files valid.** -/
theorem SystemOk.step {sys sys' : System} {a : Action} (h : SystemOk env sys)
    (hstep : Step env sys a sys') : SystemOk env sys' := by
  cases hstep with
  | @preview call files err hfree hrun =>
      have hsame := h.files.preview call
      rw [hrun] at hsame
      simp only at hsame
      subst hsame
      exact h.setFiles h.files
  | @reject call files err hfree hrun =>
      have hsame := h.files.locked call
      rw [hrun] at hsame
      simp only at hsame
      subst hsame
      exact h.setFiles h.files
  | @enter call files script hfree hrun =>
      have hsame := h.files.locked call
      rw [hrun] at hsame
      simp only at hsame
      subst hsame
      have hnext := (h.setFiles h.files).setWriter (locked_scriptOk hrun)
      exact ⟨hnext.files, hnext.scripts⟩
  | @write p d ds files hwriter hready hexec =>
      have hscript := h.scripts p _ hwriter
      have hfiles := h.files.exec (d := d) (p := p) fun s hs => hscript s (by simp [hs])
      rw [hexec] at hfiles
      exact (h.setFiles hfiles).setWriter fun s hs => hscript s (List.mem_cons_of_mem _ hs)
  | @raise p d ds files err hwriter hready hexec =>
      have hscript := h.scripts p _ hwriter
      have hfiles := h.files.exec (d := d) (p := p) fun s hs => hscript s (by simp [hs])
      rw [hexec] at hfiles
      exact (h.setFiles hfiles).release p
  | finish hwriter => exact h.release _
  | crash hwriter => exact h.release _

theorem Run.systemOk {cond : System → Action → Prop} {sys : System} (h : Run env cond sys) :
    SystemOk env sys := by
  induction h with
  | initial => exact .initial
  | step _ _ hstep ih => exact ih.step hstep

/-- **Reachable stores have valid files.** -/
theorem Reachable.filesOk {st : StoreFiles} (h : Reachable env st) : FilesOk env st := by
  obtain ⟨sys, hrun, rfl⟩ := h
  exact hrun.systemOk.files

/-! ## Undisturbed calls -/

/-- No call is in progress. -/
def System.Idle (sys : System) : Prop := (∀ p, sys.writer p = none) ∧ sys.registering = none

theorem System.initial_idle : System.initial.Idle := ⟨fun _ => rfl, rfl⟩

/-- The call on a plan has taken all its steps, and no other is in progress. -/
structure System.Done (sys : System) (call : Call) (st : StoreFiles) : Prop where
  writer : sys.writer call.planId = some []
  others : ∀ q, q ≠ call.planId → sys.writer q = none
  registering : sys.registering = if call.registers then some call.planId else none
  files : sys.files = st

/-- A registration publishes with the manifest it holds. -/
theorem locked_pointer {call : Call} {st st' : StoreFiles} {script : List Durable} {s : State}
    (h : call.locked env st = (st', .ok script)) (hs : .pointer s ∈ script) :
    call.registers = false := by
  cases call with
  | register c =>
      simp only [Call.locked] at h
      split at h
      · simp at h
      · split at h
        · simp at h
        · simp only [Prod.mk.injEq, bind_eq_ok, pure, Except.pure, Except.ok.injEq] at h
          obtain ⟨-, ⟨plan, es⟩, -, d, -, rfl⟩ := h
          cases d with
          | settled t b id => cases b <;> simp [RegisterDecision.script] at hs
          | append next e => simp [RegisterDecision.script] at hs
  | record c => rfl
  | replay p t => rfl

theorem Run.script {cond : System → Action → Prop} {call : Call} {script : List Durable}
    (hwrite : ∀ sys, cond sys (.write call.planId)) :
    ∀ {sys : System} {st : StoreFiles}, Run env cond sys →
      sys.writer call.planId = some script → (∀ q, q ≠ call.planId → sys.writer q = none) →
      sys.registering = (if call.registers then some call.planId else none) →
      (∀ s, .pointer s ∈ script → call.registers = false) →
      execScript env call.planId script sys.files = (st, .ok ()) →
      ∃ sys', Run env cond sys' ∧ sys'.Done call st := by
  induction script with
  | nil =>
      intro sys st hrun hwriter hothers hregistering _ hexec
      simp only [execScript_nil, Prod.mk.injEq, and_true] at hexec
      exact ⟨sys, hrun, hwriter, hothers, hregistering, hexec⟩
  | cons d ds ih =>
      intro sys st hrun hwriter hothers hregistering hpointer hexec
      simp only [execScript] at hexec
      split at hexec
      · simp at hexec
      · rename_i st₁ hd
        have hready : sys.Ready d := by
          cases d with
          | pointer s =>
              show sys.registering = none
              rw [hregistering, hpointer s (by simp)]
              rfl
          | append e n => trivial
          | snapshot s => trivial
          | lockedPointer current s force => trivial
          | readManifest => trivial
          | raise err => trivial
        refine ih (hrun.step (hwrite sys) (.write hwriter hready hd)) (System.setWriter_self ..) ?_
          hregistering (fun s hs => hpointer s (List.mem_cons_of_mem _ hs)) hexec
        intro q hq
        rw [System.setWriter_other _ _ hq]
        exact hothers q hq

/-- **An undisturbed call is a run**: a call that succeeds on the files of an
idle system takes all the steps of its script. -/
theorem Run.call {cond : System → Action → Prop} {sys : System} {call : Call} {st : StoreFiles}
    (hrun : Run env cond sys) (hidle : sys.Idle) (henter : cond sys (.enter call))
    (hwrite : ∀ sys, cond sys (.write call.planId))
    (h : call.execute env sys.files = (st, .ok ())) :
    ∃ sys', Run env cond sys' ∧ sys'.Done call st := by
  have hfiles := hrun.systemOk.files
  have hpreview := hfiles.preview call
  have hlocked := hfiles.locked call
  simp only [Call.execute] at h
  split at h
  · simp at h
  · rename_i st₁ hst₁
    rw [hst₁] at hpreview
    simp only at hpreview
    subst hpreview
    split at h
    · simp at h
    · rename_i st₂ script hst₂
      rw [hst₂] at hlocked
      simp only at hlocked
      subst hlocked
      have hfree : sys.Free call := ⟨hidle.1 _, fun _ => hidle.2⟩
      refine Run.script hwrite (hrun.step henter (.enter hfree hst₂)) (System.setWriter_self ..)
        ?_ ?_ (fun s hs => locked_pointer hst₂ hs) h
      · intro q hq
        exact (System.setWriter_other _ _ hq).trans (hidle.1 q)
      · show (if call.registers = true then some call.planId else sys.registering) = _
        rw [hidle.2]

/-- The call returns. -/
theorem System.Done.finish {sys : System} {call : Call} {st : StoreFiles}
    (h : sys.Done call st) :
    Step env sys (.finish call.planId) (sys.release call.planId) ∧
      (sys.release call.planId).Idle ∧ (sys.release call.planId).files = st := by
  refine ⟨.finish h.writer, ⟨?_, ?_⟩, h.files⟩
  · intro q
    by_cases hq : q = call.planId
    · subst hq
      exact sys.release_self _
    · rw [sys.release_other hq]
      exact h.others q hq
  · simp only [System.release, h.registering]
    cases call.registers <;> simp

/-- What a successful first call leaves is a reachable store. -/
theorem Reachable.first {call : Call} {st : StoreFiles}
    (h : call.execute env .empty = (st, .ok ())) : Reachable env st := by
  obtain ⟨sys, hrun, hdone⟩ := @Run.call env (fun _ _ => True) _ _ _ .initial
    System.initial_idle trivial (fun _ => trivial) h
  exact ⟨sys, hrun, hdone.files⟩

end RalphVault.Store
