import RalphVault.Store.Runs

/-!
# Implementation store — durable steps and interleavings

A call takes the lock of its plan, reads the files, decides, and then
writes one file after another. Only those writes, and the end of the
call, can be told apart by other processes: the files of a plan are read
and written under its lock, and the manifest is written under its own. A
call is a *script* of durable steps from the moment of its decision, and
a system is the files together with the rest of the script of each call
in progress.
-/

namespace RalphVault.Store

/-- One step of a call after its decision. -/
inductive Durable where
  | append (e : Event) (existing : Nat)
  | snapshot (s : State)
  /-- publish the pointer under a manifest lock of its own -/
  | pointer (s : State)
  /-- publish the pointer with the manifest lock held since `current` was read -/
  | lockedPointer (current : Manifest) (s : State) (force : Bool)
  | readManifest
  | raise (err : Fault)

section Scripts

variable (env : Env)

/-- The files after a step that is all or nothing. -/
def orUnchanged (st : StoreFiles) : Check StoreFiles → StoreFiles × Check Unit
  | .ok st' => (st', .ok ())
  | .error err => (st, .error err)

/-- The files after a step, and whether it succeeded. -/
def effect (r : StoreFiles × Check α) : StoreFiles × Check Unit := (r.1, (fun _ => ()) <$> r.2)

def Durable.exec (planId : Text) (st : StoreFiles) : Durable → StoreFiles × Check Unit
  | append e existing => orUnchanged st (appendStep planId e existing st)
  | snapshot s => orUnchanged st (snapshotStep planId s st)
  | pointer s => effect (pointerStep env s false st)
  | lockedPointer current s force => effect (lockedPointerStep env current s force st)
  | readManifest => effect (st, Store.readManifest env st.manifest)
  | raise err => (st, .error err)

/-- Run a script to its end or to its first error. -/
def execScript (planId : Text) : List Durable → StoreFiles → StoreFiles × Check Unit
  | [], st => (st, .ok ())
  | d :: ds, st =>
      match d.exec env planId st with
      | (st, .error err) => (st, .error err)
      | (st, .ok ()) => execScript planId ds st

/-! ## The scripts of the calls -/

def RecordDecision.script (r : RecordRequest) (existing : Nat) : RecordDecision → List Durable
  | settled s recovered _ => if recovered then [.snapshot s] else []
  | append before candidate e =>
      .append e existing ::
        match stateAfterEvent env candidate e r.timestamp with
        | .error err => [.raise err]
        | .ok next =>
            [.snapshot next, if next.status = before.status then .readManifest else .pointer next]

def RegisterDecision.script (current : Manifest) : RegisterDecision → List Durable
  | settled s recovered _ =>
      (if recovered then [.snapshot s] else []) ++ [.lockedPointer current s false]
  | append next e => [.append e 0, .snapshot next, .lockedPointer current next true]

/-- What a call does before it writes, on the files it finds under its
locks: the files it leaves, with malformed ones moved aside, and its
script. -/
def Call.locked (call : Call) (st : StoreFiles) : StoreFiles × Check (List Durable) :=
  match call with
  | record c =>
      match recordRequest env c with
      | .error err => (st, .error err)
      | .ok r =>
          let (f, d) := lockedRecord env r (st.plans r.planId)
          (st.setPlan r.planId f, (fun d => d.1.script env r d.2.length) <$> d)
  | register c =>
      match registerRequest env c with
      | .error err => (st, .error err)
      | .ok r =>
          match readManifestLocked env st.manifest with
          | (file, .error err) => ({ st with manifest := file }, .error err)
          | (file, .ok current) =>
              let st := { st with manifest := file }
              let (f, loaded) := loadPlan env r.planId r.timestamp (st.plans r.planId)
              (st.setPlan r.planId f, do
                let (plan, es) ← loaded
                let d ← decideRegister env r current plan es
                pure (d.script current))
  | replay p t =>
      match validatePlanId p with
      | .error err => (st, .error err)
      | .ok () =>
          let (f, loaded) := loadPlan env p t (st.plans p)
          (st.setPlan p f, (fun l => match l.1 with
            | some (s, true) => [.snapshot s]
            | _ => []) <$> loaded)

/-- The unlocked checks of `record_event`, which can only reject a call. -/
def Call.preview (call : Call) (st : StoreFiles) : StoreFiles × Check Unit :=
  match call with
  | record c =>
      match recordRequest env c with
      | .error err => (st, .error err)
      | .ok r =>
          let (f, ok) := previewRecord env r (st.plans r.planId)
          (st.setPlan r.planId f, ok)
  | _ => (st, .ok ())

/-- A call without its result: the preview, the decision and the script. -/
def Call.execute (call : Call) (st : StoreFiles) : StoreFiles × Check Unit :=
  match call.preview env st with
  | (st, .error err) => (st, .error err)
  | (st, .ok ()) =>
      match call.locked env st with
      | (st, .error err) => (st, .error err)
      | (st, .ok script) => execScript env call.planId script st

end Scripts

variable {env : Env}

/-! ## A call runs its script -/

@[simp] theorem effect_error (st : StoreFiles) (err : Fault) :
    effect (st, (.error err : Check α)) = (st, .error err) := rfl

@[simp] theorem effect_ok (st : StoreFiles) (a : α) : effect (st, (.ok a : Check α)) = (st, .ok ()) :=
  rfl

@[simp] theorem effect_map (st : StoreFiles) (f : α → β) (x : Check α) :
    effect (st, f <$> x) = effect (st, x) := by
  cases x <;> rfl

@[simp] theorem execScript_nil (planId : Text) (st : StoreFiles) :
    execScript env planId [] st = (st, .ok ()) := rfl

/-- A script that ends with a step ends as the step does. -/
@[simp] theorem execScript_last (planId : Text) (d : Durable) (st : StoreFiles) :
    execScript env planId [d] st = d.exec env planId st := by
  simp only [execScript]
  split
  · rename_i h
    rw [h]
  · rename_i h
    rw [h]

theorem execScript_append (planId : Text) (e : Event) (n : Nat) (ds : List Durable)
    (st : StoreFiles) :
    execScript env planId (.append e n :: ds) st = match appendStep planId e n st with
      | .error err => (st, .error err)
      | .ok st' => execScript env planId ds st' := by
  simp only [execScript, Durable.exec]
  cases appendStep planId e n st <;> rfl

theorem execScript_snapshot (planId : Text) (s : State) (ds : List Durable) (st : StoreFiles) :
    execScript env planId (.snapshot s :: ds) st = match snapshotStep planId s st with
      | .error err => (st, .error err)
      | .ok st' => execScript env planId ds st' := by
  simp only [execScript, Durable.exec]
  cases snapshotStep planId s st <;> rfl

theorem execScript_recover (planId : Text) (s : State) (b : Bool) (ds : List Durable)
    (st : StoreFiles) :
    execScript env planId ((if b then [.snapshot s] else []) ++ ds) st =
      match recoverStep planId s b st with
      | .error err => (st, .error err)
      | .ok st' => execScript env planId ds st' := by
  unfold recoverStep
  cases b with
  | false => simp only [Bool.false_eq_true, if_false, List.nil_append]
  | true =>
      simp only [if_true, List.singleton_append]
      rw [execScript_snapshot]

theorem effect_manifestAfter (planId : Text) (before next : State) (st : StoreFiles) :
    effect (manifestAfter env before next st) =
      Durable.exec env planId st
        (if next.status = before.status then .readManifest else .pointer next) := by
  unfold manifestAfter
  split
  · rfl
  · exact effect_map _ _ _

theorem effect_commitRecord {r : RecordRequest} {before candidate : State} {e : Event} {n : Nat}
    {st : StoreFiles} :
    effect (commitRecord env r before candidate e n st) =
      execScript env r.planId (RecordDecision.script env r n (.append before candidate e)) st := by
  simp only [commitRecord, RecordDecision.script]
  rw [execScript_append]
  cases appendStep r.planId e n st with
  | error err => simp only [effect_error]
  | ok st₁ =>
      simp only
      cases stateAfterEvent env candidate e r.timestamp with
      | error err => rfl
      | ok next =>
          simp only [bind, Except.bind]
          rw [execScript_snapshot]
          cases snapshotStep r.planId next st₁ with
          | error err => rfl
          | ok st₂ =>
              simp only [execScript_last]
              rw [← effect_manifestAfter]
              exact effect_map _ _ _

theorem effect_commitRegister {r : RegisterRequest} {current : Manifest} {d : RegisterDecision}
    {st : StoreFiles} :
    effect (commitRegister env r current d st) =
      execScript env r.planId (d.script current) st := by
  cases d with
  | settled s b id =>
      simp only [commitRegister, RegisterDecision.script]
      rw [execScript_recover]
      cases recoverStep r.planId s b st with
      | error err => rfl
      | ok st₁ =>
          simp only [execScript_last]
          exact effect_map _ _ _
  | append next e =>
      simp only [commitRegister, RegisterDecision.script]
      rw [execScript_append]
      cases appendStep r.planId e 0 st with
      | error err => rfl
      | ok st₁ =>
          simp only
          rw [execScript_snapshot]
          cases snapshotStep r.planId next st₁ with
          | error err => rfl
          | ok st₂ =>
              simp only [execScript_last]
              exact effect_map _ _ _

theorem recordEvent_effect (c : RecordCall) (st : StoreFiles) :
    effect (recordEvent env c st) = (Call.record c).execute env st := by
  simp only [recordEvent, Call.execute, Call.preview, Call.locked, Call.planId]
  cases hr : recordRequest env c with
  | error err => rfl
  | ok r =>
      simp only
      cases hpreview : previewRecord env r (st.plans r.planId) with
      | mk f ok =>
          cases ok with
          | error err => rfl
          | ok u =>
              simp only [StoreFiles.setPlan_plans, StoreFiles.setPlan_setPlan]
              cases hlocked : lockedRecord env r f with
              | mk f' d =>
                  cases d with
                  | error err => rfl
                  | ok d =>
                      obtain ⟨d, es⟩ := d
                      simp only [Functor.map, Except.map]
                      rw [← recordRequest_planId hr]
                      cases d with
                      | settled s b res =>
                          have hscript := @execScript_recover env r.planId s b []
                            (st.setPlan r.planId f')
                          rw [List.append_nil] at hscript
                          simp only [RecordDecision.script]
                          rw [hscript]
                          cases recoverStep r.planId s b (st.setPlan r.planId f') <;> rfl
                      | append before candidate e => exact effect_commitRecord

theorem registerPlan_effect (c : RegisterCall) (st : StoreFiles) :
    effect (registerPlan env c st) = (Call.register c).execute env st := by
  simp only [registerPlan, Call.execute, Call.preview, Call.locked, Call.planId]
  cases hr : registerRequest env c with
  | error err => rfl
  | ok r =>
      simp only
      cases hm : readManifestLocked env st.manifest with
      | mk file current =>
          cases current with
          | error err => rfl
          | ok current =>
              simp only
              cases hload : loadPlan env r.planId r.timestamp (st.plans r.planId) with
              | mk f loaded =>
                  cases loaded with
                  | error err => rfl
                  | ok loaded =>
                      obtain ⟨plan, es⟩ := loaded
                      simp only [bind, Except.bind, pure, Except.pure]
                      cases decideRegister env r current plan es with
                      | error err => rfl
                      | ok d =>
                          simp only
                          rw [← registerRequest_planId hr]
                          exact effect_commitRegister

theorem replayPlan_effect (p t : Text) (st : StoreFiles) :
    effect (replayPlan env p t st) = (Call.replay p t).execute env st := by
  simp only [replayPlan, Call.execute, Call.preview, Call.locked, Call.planId]
  cases validatePlanId p with
  | error err => rfl
  | ok u =>
      simp only
      cases loadPlan env p t (st.plans p) with
      | mk f loaded =>
          cases loaded with
          | error err => rfl
          | ok loaded =>
              obtain ⟨plan, es⟩ := loaded
              cases plan with
              | none => rfl
              | some sb =>
                  obtain ⟨s, b⟩ := sb
                  cases b with
                  | false => rfl
                  | true =>
                      simp only [Functor.map, Except.map]
                      rw [execScript_snapshot]
                      cases snapshotStep p s (st.setPlan p f) <;> rfl

/-- **A call runs its script**: the atomic calls are the preview, the
decision and the durable steps of their script, one after another. -/
theorem Call.run_effect (call : Call) (st : StoreFiles) :
    effect (call.run env st) = call.execute env st := by
  cases call with
  | register c => exact registerPlan_effect c st
  | record c => exact recordEvent_effect c st
  | replay p t => exact replayPlan_effect p t st

end RalphVault.Store
