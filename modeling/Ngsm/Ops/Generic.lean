/-
# The operations over any backend

Editing, saving a recovery policy and restarting are written once, over a backend whose methods
are programs of any kind.  The registry key with its faults is such a backend, and so is the
clock and the states that a history tells; over these the operations are the ones already
modelled.
-/

import Ngsm.Ops.Recovery
import Ngsm.Ops.Restart

namespace Ngsm.Ops

open Ngsm.Lib Ngsm.Core Ngsm.Registry

/-! ## The configuration -/

/-- `trait ConfigBackend`, with the lock that the operations take. -/
structure ConfigBackend (m : Type → Type) where
  lockServiceConfig : String → m (Result Unit)
  /-- The guard of the lock is dropped. -/
  unlock : String → m Unit
  readManaged : String → m (Result (Option ManagedApplicationConfig))
  writeManaged : String → ManagedApplicationConfig → m (Result Unit)
  updateNative : EditSpec → m (Result Unit)

namespace ConfigBackend

variable {m : Type → Type} [Monad m] (backend : ConfigBackend m) (fold : NameFold)

/-- Work under the lock of a service, and give it back however the work ends. -/
def guarded {α : Type} (name : String) (work : ExceptT Error m α) : ExceptT Error m α := do
  ExceptT.mk (backend.lockServiceConfig name)
  let outcome ← ExceptT.lift work.run
  ExceptT.lift (backend.unlock name)
  liftExcept outcome

/-- What is said about the original configuration once it was written back. -/
def restored : Result Unit → String
  | .ok () => "managed configuration restored"
  | .error rollback => "managed rollback also failed (" ++ rollback.text ++
      "); managed configuration may be partially applied"

def rollbackReport (error : Error) (nativeAttempted : Bool) (outcome : Result Unit) : Error :=
  let phase := if nativeAttempted then "native edit" else "managed edit"
  let nativeStatus := if nativeAttempted then
      "Native SCM fields (including account/password) were not rolled back; " ++
        "inspect native configuration for partial application."
    else "No native SCM changes were attempted."
  .other (phase ++ " failed (" ++ error.text ++ "); " ++ restored outcome ++ ". " ++
    nativeStatus)

def rollbackManaged (spec : EditSpec) (original : ManagedApplicationConfig) (error : Error)
    (nativeAttempted : Bool) : m Error := do
  let outcome ← backend.writeManaged spec.name original
  return rollbackReport error nativeAttempted outcome

def editManaged (spec : EditSpec) (original : ManagedApplicationConfig) :
    ExceptT Error m Unit := do
  let managed ← liftExcept (mergeManagedFields original spec)
  liftExcept (validateManagedConfig fold managed)
  match ← ExceptT.lift (backend.writeManaged spec.name managed) with
  | .ok () => pure ()
  | .error error => do
      let report ← ExceptT.lift (backend.rollbackManaged spec original error false)
      throw report

def editNative (spec : EditSpec) (original : ManagedApplicationConfig) :
    ExceptT Error m Unit := do
  match ← ExceptT.lift (backend.updateNative spec) with
  | .ok () => pure ()
  | .error error =>
      if spec.touchesManaged then do
        let report ← ExceptT.lift (backend.rollbackManaged spec original error true)
        throw report
      else
        throw error

/-- An edit with the lock in hand. -/
def editLocked (spec : EditSpec) : ExceptT Error m String := do
  match ← ExceptT.mk (backend.readManaged spec.name) with
  | none => throw (.other ("'" ++ spec.name ++
      "' is not an NGSM-managed service — refusing to edit it"))
  | some original => do
      (if spec.touchesManaged then backend.editManaged fold spec original else pure ())
      (if spec.touchesNative then backend.editNative spec original else pure ())
      pure ("Edited '" ++ spec.name ++ "'.")

def editWithBackend (spec : EditSpec) : ExceptT Error m String :=
  if spec.hasChanges then do
    liftExcept (validateNativeUpdate spec)
    backend.guarded spec.name (backend.editLocked fold spec)
  else
    throw (.invalidConfig "no edit fields specified")

def writeRecovery (name : String) (original managed : ManagedApplicationConfig) :
    ExceptT Error m String := do
  match ← ExceptT.lift (backend.writeManaged name managed) with
  | .ok () => pure ("Saved recovery policy for '" ++ name ++ "'.")
  | .error error =>
      match ← ExceptT.lift (backend.writeManaged name original) with
      | .ok () => throw (.other ("recovery update failed (" ++ error.text ++
          "); managed configuration restored"))
      | .error rollback => throw (.other ("recovery update failed (" ++ error.text ++
          "); managed rollback also failed (" ++ rollback.text ++
          "); configuration may be partially applied"))

/-- A save with the lock in hand. -/
def saveLocked (spec : RecoverySpec) : ExceptT Error m String := do
  match ← ExceptT.mk (backend.readManaged spec.name) with
  | none => throw (.other ("'" ++ spec.name ++
      "' is not an NGSM-managed service — refusing to edit its recovery policy"))
  | some original => do
      liftExcept (validateManagedConfig fold (applyRecovery original spec))
      backend.writeRecovery spec.name original (applyRecovery original spec)

def saveRecoveryWithBackend (spec : RecoverySpec) : ExceptT Error m String := do
  liftExcept (spec.exitActions.keys.forM validateRecoveryCode)
  backend.guarded spec.name (backend.saveLocked fold spec)

def readRecoveryWithBackend (name : String) : ExceptT Error m RecoverySpec := do
  match ← ExceptT.mk (backend.readManaged name) with
  | none => throw (.other ("'" ++ name ++ "' is not an NGSM-managed service"))
  | some managed => pure (recoveryOf name managed)

end ConfigBackend

/-! ### The registry key as a backend -/

section

variable {fold : NameFold} {σ : Type}

/-- The registry key and its faults; its lock needs no giving back. -/
def keyBackend (fold : NameFold) (σ : Type) : ConfigBackend (StateM (Backend fold σ)) where
  lockServiceConfig _ := ExceptT.run lockServiceConfig
  unlock _ := pure ()
  readManaged name := ExceptT.run (readManagedBackend name)
  writeManaged name cfg := ExceptT.run (writeManagedBackend name cfg)
  updateNative _ := ExceptT.run updateNative

theorem exec_lift {ε α : Type} {τ : Type} (m : Prog τ ε α) (s : τ) :
    Prog.exec (ExceptT.lift m.run : Prog τ ε (Except ε α)) s = (.ok (m.exec s).1, (m.exec s).2) :=
  rfl

theorem exec_attempt {ε α : Type} {τ : Type} (m : Prog τ ε α) (s : τ) :
    m.attempt.exec s = (.ok (m.exec s).1, (m.exec s).2) :=
  rfl

theorem rollbackManaged_key (spec : EditSpec) (original : ManagedApplicationConfig)
    (error : Error) (nativeAttempted : Bool) :
    ExceptT.lift ((keyBackend fold σ).rollbackManaged spec original error nativeAttempted) =
      (rollbackManaged spec original error nativeAttempted : OpM fold σ Error) := by
  funext b
  change (Except.ok (ConfigBackend.rollbackReport error nativeAttempted
    ((writeManagedBackend spec.name original).exec b).1),
    ((writeManagedBackend spec.name original).exec b).2) =
      Prog.exec (Ngsm.Ops.rollbackManaged spec original error nativeAttempted) b
  unfold Ngsm.Ops.rollbackManaged
  rw [Prog.exec_bind, exec_attempt]
  generalize (writeManagedBackend spec.name original).exec b = outcome
  obtain ⟨_ | _, b'⟩ := outcome <;> rfl

theorem editManaged_key (spec : EditSpec) (original : ManagedApplicationConfig) :
    (keyBackend fold σ).editManaged fold spec original = editManaged spec original := by
  unfold ConfigBackend.editManaged editManaged
  refine bind_congr fun managed => bind_congr fun _ => bind_congr fun outcome => ?_
  cases outcome with
  | ok _ => rfl
  | error error => simp only [rollbackManaged_key]

theorem editNative_key (spec : EditSpec) (original : ManagedApplicationConfig) :
    (keyBackend fold σ).editNative spec original = editNative spec original := by
  unfold ConfigBackend.editNative editNative
  refine bind_congr fun outcome => ?_
  cases outcome with
  | ok _ => rfl
  | error error => simp only [rollbackManaged_key]

/-- A lock that needs no giving back is taken, and that is all. -/
theorem guarded_key {α : Type} (name : String) (work : OpM fold σ α) :
    (keyBackend fold σ).guarded name work = lockServiceConfig >>= fun _ => work := by
  unfold ConfigBackend.guarded
  refine bind_congr fun _ => ?_
  funext b
  change Prog.exec (ExceptT.lift work.run >>= fun outcome =>
    ExceptT.lift ((keyBackend fold σ).unlock name) >>= fun _ => liftExcept outcome) b =
      Prog.exec work b
  rw [Prog.exec_bind, exec_lift]
  generalize work.exec b = outcome
  obtain ⟨_ | _, b'⟩ := outcome <;> rfl

/-- Over the registry key, the edit is the one that was modelled before. -/
theorem editWithBackend_key (spec : EditSpec) :
    (keyBackend fold σ).editWithBackend fold spec = editWithBackend spec := by
  unfold ConfigBackend.editWithBackend editWithBackend
  refine if_congr Iff.rfl (bind_congr fun _ => ?_) rfl
  rw [guarded_key]
  refine bind_congr fun _ => ?_
  unfold ConfigBackend.editLocked
  refine bind_congr fun found => ?_
  cases found with
  | none => rfl
  | some original => simp only [editManaged_key, editNative_key]

/-- Over the registry key, saving a policy is what was modelled before. -/
theorem saveRecoveryWithBackend_key (spec : RecoverySpec) :
    (keyBackend fold σ).saveRecoveryWithBackend fold spec = saveRecoveryWithBackend spec := by
  unfold ConfigBackend.saveRecoveryWithBackend saveRecoveryWithBackend
  refine bind_congr fun _ => ?_
  rw [guarded_key]
  refine bind_congr fun _ => ?_
  unfold ConfigBackend.saveLocked
  refine bind_congr fun found => ?_
  cases found with
  | none => rfl
  | some original =>
      refine bind_congr fun _ => ?_
      unfold ConfigBackend.writeRecovery writeRecovery
      refine bind_congr fun outcome => ?_
      cases outcome <;> rfl

theorem readRecoveryWithBackend_key (name : String) :
    (keyBackend fold σ).readRecoveryWithBackend name = readRecoveryWithBackend name := by
  unfold ConfigBackend.readRecoveryWithBackend readRecoveryWithBackend
  refine bind_congr fun found => ?_
  cases found <;> rfl

end

/-! ## The restart -/

namespace Restart

/-- `trait RestartBackend`, over the programs that carry it out. -/
structure Methods (m : Type → Type) where
  ensureManaged : m (Result Unit)
  query : m (Result RestartSnapshot)
  stop : m (Result Unit)
  start : m (Result Unit)
  now : m ℕ
  sleep : ℕ → m Unit

namespace Methods

variable {m : Type → Type} [Monad m] (backend : Methods m)

/-- Pass the error of a method on. -/
def orFail {α : Type} (x : m (Result α)) : ExceptT Stopped m α :=
  ExceptT.mk do
    let outcome ← x
    return outcome.mapError .failed

def subtract (a b : ℕ) : ExceptT Stopped m ℕ :=
  if b ≤ a then pure (a - b) else throw .underflow

def awaitStopped (name : String) (stopTimeoutMs : ℕ) (began : ℕ) : ℕ → ExceptT Stopped m Unit
  | 0 => throw .unfinished
  | rounds + 1 => do
      let snapshot ← orFail backend.query
      if snapshot.state = some .stopped then
        pure ()
      else
        let reading ← ExceptT.lift backend.now
        let elapsed := reading - began
        let timeout := fromMillis stopTimeoutMs
        if timeout ≤ elapsed then
          throw (.failed (didNotStop name stopTimeoutMs))
        else
          let rest ← subtract timeout elapsed
          ExceptT.lift (backend.sleep (min (fromMillis 200) rest))
          awaitStopped name stopTimeoutMs began rounds

def stopService : ExceptT Stopped m Unit := do
  match ← ExceptT.lift backend.stop with
  | .ok () => pure ()
  | .error e => if isServiceNotActiveError e then pure () else throw (.failed e)

def requestStop (snapshot : RestartSnapshot) : ExceptT Stopped m Unit :=
  if snapshot.state = some .stopPending then pure () else backend.stopService

def stopAndWait (name : String) (stopTimeoutMs rounds : ℕ) (snapshot : RestartSnapshot) :
    ExceptT Stopped m Unit :=
  if snapshot.state = some .stopped ∨ snapshot.state = none then
    pure ()
  else do
    backend.requestStop snapshot
    let began ← ExceptT.lift backend.now
    backend.awaitStopped name stopTimeoutMs began rounds
    ExceptT.lift (backend.sleep (fromMillis 250))

def restartUsing (name : String) (stopTimeoutMs : ℕ) (forceNative : Bool) (rounds : ℕ) :
    ExceptT Stopped m String := do
  (if forceNative then pure () else orFail backend.ensureManaged)
  let snapshot ← orFail backend.query
  if snapshot.startup = .disabled then
    throw (.failed (isDisabled name))
  else
    backend.stopAndWait name stopTimeoutMs rounds snapshot
    orFail backend.start
    pure ("Restarted '" ++ name ++ "'.")

end Methods

/-- The answers of an operating system to a history, as methods that extend it. -/
def methods (backend : RestartBackend) : Methods (StateM History) where
  ensureManaged := fun history =>
    (backend.ensureManaged history, history ++ [.ensureManaged (backend.ensureManaged history)])
  query := fun history => (backend.query history, history ++ [.query (backend.query history)])
  stop := fun history => (backend.stop history, history ++ [.stop (backend.stop history)])
  start := fun history => (backend.start history, history ++ [.start (backend.start history)])
  now := fun history => (backend.now history, history ++ [.now (backend.now history)])
  sleep duration := fun history => ((), history ++ [.sleep duration])

theorem awaitStopped_methods (backend : RestartBackend) (name : String)
    (stopTimeoutMs began rounds : ℕ) :
    (methods backend).awaitStopped name stopTimeoutMs began rounds =
      awaitStopped backend name stopTimeoutMs began rounds := by
  induction rounds with
  | zero => rfl
  | succ rounds ih =>
      unfold Methods.awaitStopped awaitStopped
      rw [ih]
      rfl

/-- Over a backend of answers, the restart is the one that was modelled before. -/
theorem restartUsing_methods (backend : RestartBackend) (name : String) (stopTimeoutMs : ℕ)
    (forceNative : Bool) (rounds : ℕ) :
    (methods backend).restartUsing name stopTimeoutMs forceNative rounds =
      restartUsing backend name stopTimeoutMs forceNative rounds := by
  unfold Methods.restartUsing restartUsing Methods.stopAndWait stopAndWait
  simp only [awaitStopped_methods]
  rfl

end Restart

end Ngsm.Ops
