/-
# Changes under the lock of a service

The operations that change a stored configuration as threads over the parameters key.  Each
takes the lock of the service before it looks at the key; the full writer takes it again, and
so does a save inside an update.  How the reads and the writes are divided into calls of the
registry is left open.  What fails, and how, is the operation's own: the lock that cannot be
had in time, the read, each call of each write, the service control manager.

The key is shared.  Everything else an operation keeps is private to it.
-/

import Ngsm.Lib.Script
import Ngsm.Ops.Recovery
import Ngsm.Ops.SingleValue

namespace Ngsm.Ops

open Ngsm.Lib Ngsm.Core Ngsm.Registry

variable {fold : NameFold} {σ : Type}

/-! ## The lock -/

namespace ConfigLock

/-- The bytes of UTF-16 units, the low byte of each first. -/
def unitBytes (units : Name) : List UInt8 :=
  units.flatMap fun unit : UInt16 => [unit.toUInt8, (unit >>> 8).toUInt8]

/-- One round of the 128-bit FNV-1a hash. -/
def hashByte (hash : BitVec 128) (byte : UInt8) : BitVec 128 :=
  (hash ^^^ BitVec.ofNat 128 byte.toNat) * 0x0000000001000000000000000000013b#128

/-- The hash of a normalised name. -/
def hashName (key : Name) : BitVec 128 :=
  (unitBytes key).foldl hashByte 0x6c62272e07bb014262b821756295c58d#128

/-- A number in hexadecimal, with 32 digits at least. -/
def hex32 (n : ℕ) : String :=
  String.ofList (List.leftpad 32 '0' (Nat.toDigits 16 n))

/-- The mutex of a service. -/
def mutexName (fold : NameFold) (service : String) : String :=
  "Global\\NGSM.Config.v1." ++ hex32 (hashName (windowsNameKey fold service)).toNat

/-- Case variants of a name share the mutex. -/
theorem mutexName_congr {service service' : String}
    (hsame : windowsNameKey fold service = windowsNameKey fold service') :
    mutexName fold service = mutexName fold service' :=
  congrArg (fun key => "Global\\NGSM.Config.v1." ++ hex32 (hashName key).toNat) hsame

end ConfigLock

open ConfigLock

/-! ## States -/

/-- What can go wrong in an operation. -/
structure Conditions where
  lockError : Option Error
  readError : Option Error
  writeFaults : ℕ → ℕ → Option Fault
  nativeError : Option Error

/-- The private state of an operation. -/
structure Progress where
  conditions : Conditions
  writes : ℕ := 0
  calls : List Call := []

/-- The schedule of the calls of one write. -/
abbrev Faults : Type :=
  ℕ → Option Fault

/-- A backend is the shared key and what the operation keeps to itself. -/
def backendView : View (Backend fold σ) (Params fold σ) Progress where
  shared := Backend.key
  own b := ⟨⟨b.lockError, b.readError, b.writeFaults, b.nativeError⟩, b.writes, b.calls⟩
  join key p := {
    key
    lockError := p.conditions.lockError
    readError := p.conditions.readError
    writeFaults := p.conditions.writeFaults
    nativeError := p.conditions.nativeError
    writes := p.writes
    calls := p.calls }
  shared_join := fun _ _ => rfl
  own_join := fun _ _ => rfl
  join_eq := fun _ => rfl

def worldView : View (World (Params fold σ)) (Params fold σ) Faults where
  shared := World.node
  own := World.faults
  join := World.mk
  shared_join := fun _ _ => rfl
  own_join := fun _ _ => rfl
  join_eq := fun _ => rfl

/-- An operation among others. -/
abbrev OpScript (fold : NameFold) (σ α : Type) : Type :=
  Script String (Params fold σ) Progress Error α

/-- A function of the registry among others. -/
abbrev RegScript (fold : NameFold) (σ α : Type) : Type :=
  Script String (Params fold σ) Faults Error α

/-! ## Accesses -/

/-- What the full writer does with the lock in hand. -/
def overwrite (service : String) (cfg : ManagedApplicationConfig) :
    RegM (Params fold σ) Unit := do
  liftExcept (requireApplication cfg)
  query (mapRegError ("RegOpenKeyEx(SYSTEM\\CurrentControlSet\\Services\\" ++ service ++
    "\\Parameters)")) fun _ => .ok ()
  requireManagedMarker
  writeIntoKey cfg

/-- What the setter of a single value does with the lock in hand. -/
def setParameter (service name value : String) : RegM (Params fold σ) Unit := do
  SingleValue.openParameters service
  setValueInKey name value

def unsetParameter (service name : String) : RegM (Params fold σ) Unit := do
  SingleValue.openParameters service
  unsetValueInKey name

/-- How reading and writing a key are divided into accesses. -/
structure Division (fold : NameFold) (σ : Type) where
  read : ∀ service, Divided (backendView : View (Backend fold σ) (Params fold σ) Progress) String
    (readManagedBackend service)
  write : ∀ service cfg,
    Divided (worldView : View (World (Params fold σ)) (Params fold σ) Faults) String
      (overwrite service cfg)
  set : ∀ service name value,
    Divided (worldView : View (World (Params fold σ)) (Params fold σ) Faults) String
      (setParameter service name value)
  unset : ∀ service name,
    Divided (worldView : View (World (Params fold σ)) (Params fold σ) Faults) String
      (unsetParameter service name)

/-- The guards of a write as accesses of their own. -/
def Division.guardsFirst : Division fold σ where
  read := fun _ => .whole _ _ _
  write := fun _ _ => .bind (.whole _ _ _) fun _ => .bind (.whole _ _ _) fun _ =>
    .bind (.whole _ _ _) fun _ => .whole _ _ _
  set := fun _ _ _ => .bind (.whole _ _ _) fun _ => .whole _ _ _
  unset := fun _ _ => .bind (.whole _ _ _) fun _ => .whole _ _ _

instance : Inhabited (Division fold σ) :=
  ⟨.guardsFirst⟩

/-! ## The functions of the registry -/

namespace ConfigLock

/-- Acquiring the mutex, as a call that may fail or time out. -/
def lockCall : RegScript fold σ Unit :=
  .own fun faults =>
    match faults 0 with
    | some fault => (.error (.registry ("configuration lock: " ++ fault.text)),
        fun n => faults (n + 1))
    | none => (.ok (), fun n => faults (n + 1))

variable (division : Division fold σ)

def writeManagedConfig (service : String) (cfg : ManagedApplicationConfig) :
    RegScript fold σ Unit := do
  liftExcept (validateServiceName service)
  liftExcept (validateManagedConfig fold cfg)
  lockCall
  (division.write service cfg).script.guarded (mutexName fold service)

def setValue (service name value : String) : RegScript fold σ Unit := do
  liftExcept (validateServiceName service)
  lockCall
  (division.set service name value).script.guarded (mutexName fold service)

def unsetValue (service name : String) : RegScript fold σ Unit := do
  liftExcept (validateServiceName service)
  lockCall
  (division.unset service name).script.guarded (mutexName fold service)

/-! ## The operations -/

def lockServiceConfig : OpScript fold σ Unit :=
  .own fun p =>
    match p.conditions.lockError with
    | some e => (.error e, p)
    | none => (.ok (), p)

/-- The full writer, with the schedule of its turn. -/
def writeManaged (service : String) (cfg : ManagedApplicationConfig) : OpScript fold σ Unit :=
  (writeManagedConfig division service cfg).within
    (fun p => p.conditions.writeFaults p.writes)
    fun outcome _ p => { p with
      writes := p.writes + 1
      calls := p.calls ++ [.write outcome.isOk] }

def updateNative : OpScript fold σ Unit :=
  .own fun p =>
    match p.conditions.nativeError with
    | some e => (.error e, { p with calls := p.calls ++ [.native] })
    | none => (.ok (), { p with calls := p.calls ++ [.native] })

def rollbackManaged (spec : EditSpec) (original : ManagedApplicationConfig) (error : Error)
    (nativeAttempted : Bool) : OpScript fold σ Error := do
  let phase := if nativeAttempted then "native edit" else "managed edit"
  let nativeStatus := if nativeAttempted then
      "Native SCM fields (including account/password) were not rolled back; " ++
        "inspect native configuration for partial application."
    else "No native SCM changes were attempted."
  let restored ← match ← (writeManaged division spec.name original).attempt with
    | .ok () => pure "managed configuration restored"
    | .error rollback => pure ("managed rollback also failed (" ++ rollback.text ++
        "); managed configuration may be partially applied")
  pure (.other (phase ++ " failed (" ++ error.text ++ "); " ++ restored ++ ". " ++
    nativeStatus))

def editManaged (spec : EditSpec) (original : ManagedApplicationConfig) :
    OpScript fold σ Unit := do
  let managed ← liftExcept (mergeManagedFields original spec)
  liftExcept (validateManagedConfig fold managed)
  match ← (writeManaged division spec.name managed).attempt with
  | .ok () => pure ()
  | .error error => do
      let report ← rollbackManaged division spec original error false
      throw report

def editNative (spec : EditSpec) (original : ManagedApplicationConfig) :
    OpScript fold σ Unit := do
  match ← (updateNative : OpScript fold σ Unit).attempt with
  | .ok () => pure ()
  | .error error =>
      if spec.touchesManaged then do
        let report ← rollbackManaged division spec original error true
        throw report
      else
        throw error

/-- An edit with the lock in hand. -/
def editLocked (spec : EditSpec) : OpScript fold σ String := do
  match ← (division.read spec.name).script with
  | none => throw (.other ("'" ++ spec.name ++
      "' is not an NGSM-managed service — refusing to edit it"))
  | some original => do
      (if spec.touchesManaged then editManaged division spec original else pure ())
      (if spec.touchesNative then editNative division spec original else pure ())
      pure ("Edited '" ++ spec.name ++ "'.")

def editWithBackend (spec : EditSpec) : OpScript fold σ String :=
  if spec.hasChanges then do
    liftExcept (validateNativeUpdate spec)
    lockServiceConfig
    (editLocked division spec).guarded (mutexName fold spec.name)
  else
    throw (.invalidConfig "no edit fields specified")

def writeRecovery (name : String) (original managed : ManagedApplicationConfig) :
    OpScript fold σ String := do
  match ← (writeManaged division name managed).attempt with
  | .ok () => pure ("Saved recovery policy for '" ++ name ++ "'.")
  | .error error =>
      match ← (writeManaged division name original).attempt with
      | .ok () => throw (.other ("recovery update failed (" ++ error.text ++
          "); managed configuration restored"))
      | .error rollback => throw (.other ("recovery update failed (" ++ error.text ++
          "); managed rollback also failed (" ++ rollback.text ++
          "); configuration may be partially applied"))

/-- A save with the lock in hand. -/
def saveLocked (spec : RecoverySpec) : OpScript fold σ String := do
  match ← (division.read spec.name).script with
  | none => throw (.other ("'" ++ spec.name ++
      "' is not an NGSM-managed service — refusing to edit its recovery policy"))
  | some original => do
      liftExcept (validateManagedConfig fold (applyRecovery original spec))
      writeRecovery division spec.name original (applyRecovery original spec)

def saveRecoveryWithBackend (spec : RecoverySpec) : OpScript fold σ String := do
  liftExcept (spec.exitActions.keys.forM validateRecoveryCode)
  lockServiceConfig
  (saveLocked division spec).guarded (mutexName fold spec.name)

def readRecoveryWithBackend (name : String) : OpScript fold σ RecoverySpec := do
  match ← (division.read name).script with
  | none => throw (.other ("'" ++ name ++ "' is not an NGSM-managed service"))
  | some managed => pure (recoveryOf name managed)

/-- An update with the lock in hand; the save takes it once more. -/
def updateLocked (name : String) (update : RecoverySpec → Result RecoverySpec) :
    OpScript fold σ String := do
  let current ← readRecoveryWithBackend division name
  let spec ← liftExcept (update current)
  if spec.name ≠ name then
    throw (.other "a recovery update must keep the requested service name")
  else
    saveRecoveryWithBackend division spec

def updateRecoveryWithBackend (name : String) (update : RecoverySpec → Result RecoverySpec) :
    OpScript fold σ String := do
  lockServiceConfig
  (updateLocked division name update).guarded (mutexName fold name)

/-! ## The operations alone -/

theorem program_lockCall :
    worldView.program (lockCall : RegScript fold σ Unit) =
      query (fun fault => .registry ("configuration lock: " ++ fault.text)) fun _ => .ok () := by
  apply View.prog_ext
  intro w
  simp only [lockCall, View.program_own, query, call, Prog.exec_step, worldView]
  cases w.faults 0 <;> rfl

theorem program_writeManagedConfig (service : String) (cfg : ManagedApplicationConfig) :
    worldView.program (writeManagedConfig division service cfg) =
      Ops.writeManagedConfig service cfg := by
  simp only [writeManagedConfig, View.program_bind, View.program_liftExcept, program_lockCall,
    View.program_guarded, (division.write service cfg).program_eq]
  rfl

theorem program_setValue (service name value : String) :
    worldView.program (setValue division service name value) =
      SingleValue.setValue service name value := by
  simp only [setValue, View.program_bind, View.program_liftExcept, program_lockCall,
    View.program_guarded, (division.set service name value).program_eq]
  rfl

theorem program_unsetValue (service name : String) :
    worldView.program (unsetValue division service name) = SingleValue.unsetValue service name := by
  simp only [unsetValue, View.program_bind, View.program_liftExcept, program_lockCall,
    View.program_guarded, (division.unset service name).program_eq]
  rfl

theorem program_lockServiceConfig :
    backendView.program (lockServiceConfig : OpScript fold σ Unit) = Ops.lockServiceConfig := by
  apply View.prog_ext
  rintro ⟨key, lockError, readError, writeFaults, nativeError, writes, calls⟩
  cases lockError <;> rfl

theorem program_updateNative :
    backendView.program (updateNative : OpScript fold σ Unit) = Ops.updateNative := by
  apply View.prog_ext
  rintro ⟨key, lockError, readError, writeFaults, nativeError, writes, calls⟩
  cases nativeError <;> rfl

theorem program_writeManaged (service : String) (cfg : ManagedApplicationConfig) :
    backendView.program (writeManaged division service cfg) = writeManagedBackend service cfg := by
  rw [writeManaged, View.program_within _ worldView, program_writeManagedConfig]
  rfl

theorem program_rollbackManaged (spec : EditSpec) (original : ManagedApplicationConfig)
    (error : Error) (nativeAttempted : Bool) :
    backendView.program (rollbackManaged division spec original error nativeAttempted) =
      Ops.rollbackManaged spec original error nativeAttempted := by
  simp only [rollbackManaged, Ops.rollbackManaged, View.program_bind, View.program_attempt,
    program_writeManaged]
  congr 1
  funext outcome
  cases outcome with
  | ok u => simp only [View.program_bind, View.program_pure]
  | error rollback => simp only [View.program_bind, View.program_pure]

theorem program_editManaged (spec : EditSpec) (original : ManagedApplicationConfig) :
    backendView.program (editManaged division spec original) = Ops.editManaged spec original := by
  simp only [editManaged, Ops.editManaged, View.program_bind, View.program_attempt,
    View.program_liftExcept, program_writeManaged]
  congr 1
  funext managed
  congr 1
  funext _
  congr 1
  funext outcome
  cases outcome with
  | ok u => exact View.program_pure _ _
  | error error =>
      simp only [View.program_bind, program_rollbackManaged, View.program_throw]

theorem program_editNative (spec : EditSpec) (original : ManagedApplicationConfig) :
    backendView.program (editNative division spec original) = Ops.editNative spec original := by
  simp only [editNative, Ops.editNative, View.program_bind, View.program_attempt,
    program_updateNative]
  congr 1
  funext outcome
  cases outcome with
  | ok u => exact View.program_pure _ _
  | error error =>
      cases spec.touchesManaged with
      | true =>
          simp only [if_true, View.program_bind, program_rollbackManaged, View.program_throw]
      | false =>
          simp only [Bool.false_eq_true, if_false, View.program_throw]

theorem program_editWithBackend (spec : EditSpec) :
    backendView.program (editWithBackend division spec) = Ops.editWithBackend spec := by
  unfold editWithBackend Ops.editWithBackend
  cases spec.hasChanges with
  | false => exact View.program_throw _ _
  | true =>
      simp only [if_true, View.program_bind, View.program_liftExcept, View.program_guarded,
        program_lockServiceConfig, editLocked, (division.read spec.name).program_eq]
      congr 1
      funext _
      congr 1
      funext _
      congr 1
      funext found
      cases found with
      | none => exact View.program_throw _ _
      | some original =>
          simp only [View.program_bind, View.program_pure]
          congr 1
          · cases spec.touchesManaged with
            | true => exact program_editManaged division spec original
            | false => exact View.program_pure _ _
          · funext _
            congr 1
            cases spec.touchesNative with
            | true => exact program_editNative division spec original
            | false => exact View.program_pure _ _

theorem program_writeRecovery (name : String) (original managed : ManagedApplicationConfig) :
    backendView.program (writeRecovery division name original managed) =
      Ops.writeRecovery name original managed := by
  simp only [writeRecovery, Ops.writeRecovery, View.program_bind, View.program_attempt,
    program_writeManaged]
  congr 1
  funext outcome
  cases outcome with
  | ok u => exact View.program_pure _ _
  | error error =>
      simp only [View.program_bind, View.program_attempt, program_writeManaged]
      congr 1
      funext restored
      cases restored with
      | ok u => exact View.program_throw _ _
      | error rollback => exact View.program_throw _ _

theorem program_saveRecoveryWithBackend (spec : RecoverySpec) :
    backendView.program (saveRecoveryWithBackend division spec) =
      Ops.saveRecoveryWithBackend spec := by
  simp only [saveRecoveryWithBackend, Ops.saveRecoveryWithBackend, View.program_bind,
    View.program_liftExcept, View.program_guarded, program_lockServiceConfig, saveLocked,
    (division.read spec.name).program_eq]
  congr 1
  funext _
  congr 1
  funext _
  congr 1
  funext found
  cases found with
  | none => exact View.program_throw _ _
  | some original =>
      simp only [View.program_bind, View.program_liftExcept, program_writeRecovery]

theorem program_readRecoveryWithBackend (name : String) :
    backendView.program (readRecoveryWithBackend division name) =
      Ops.readRecoveryWithBackend name := by
  simp only [readRecoveryWithBackend, Ops.readRecoveryWithBackend, View.program_bind,
    (division.read name).program_eq]
  congr 1
  funext found
  cases found with
  | none => exact View.program_throw _ _
  | some managed => exact View.program_pure _ _

theorem program_updateRecoveryWithBackend (name : String)
    (update : RecoverySpec → Result RecoverySpec) :
    backendView.program (updateRecoveryWithBackend division name update) =
      Ops.updateRecoveryWithBackend name update := by
  simp only [updateRecoveryWithBackend, Ops.updateRecoveryWithBackend, View.program_bind,
    View.program_liftExcept, View.program_guarded, program_lockServiceConfig, updateLocked,
    program_readRecoveryWithBackend]
  congr 1
  funext _
  congr 1
  funext current
  congr 1
  funext spec
  by_cases hname : spec.name ≠ name
  · rw [if_pos hname, if_pos hname]
    exact View.program_throw _ _
  · rw [if_neg hname, if_neg hname]
    exact program_saveRecoveryWithBackend division spec

/-! ## The lock -/

section

variable {name : String}

theorem section_setValue {service : String} (value text : String)
    (hname : mutexName fold service = name) :
    Script.Section name (setValue division service value text) := by
  subst hname
  apply (Script.private_liftExcept _).bind_section
  intro _
  apply (Script.private_own _).bind_section
  intro _
  exact (division.set service value text).balanced.guarded_section

theorem section_unsetValue {service : String} (value : String)
    (hname : mutexName fold service = name) :
    Script.Section name (unsetValue division service value) := by
  subst hname
  apply (Script.private_liftExcept _).bind_section
  intro _
  apply (Script.private_own _).bind_section
  intro _
  exact (division.unset service value).balanced.guarded_section

/-- The full writer takes the lock once more and gives it back. -/
theorem balanced_writeManaged {service : String} (cfg : ManagedApplicationConfig)
    (hname : mutexName fold service = name) :
    Script.Balanced name (writeManaged division service cfg) := by
  subst hname
  apply Script.Balanced.within
  apply (Script.private_liftExcept _).balanced.bind
  intro _
  apply (Script.private_liftExcept _).balanced.bind
  intro _
  apply (Script.private_own _).balanced.bind
  intro _
  exact (division.write service cfg).balanced.guarded

theorem balanced_rollbackManaged {spec : EditSpec} (original : ManagedApplicationConfig)
    (error : Error) (nativeAttempted : Bool) (hname : mutexName fold spec.name = name) :
    Script.Balanced name (rollbackManaged division spec original error nativeAttempted) := by
  apply (balanced_writeManaged division original hname).attempt.bind
  intro outcome
  cases outcome with
  | ok u =>
      apply (Script.private_pure _).balanced.bind
      intro _
      exact (Script.private_pure _).balanced
  | error rollback =>
      apply (Script.private_pure _).balanced.bind
      intro _
      exact (Script.private_pure _).balanced

theorem balanced_editManaged {spec : EditSpec} (original : ManagedApplicationConfig)
    (hname : mutexName fold spec.name = name) :
    Script.Balanced name (editManaged division spec original) := by
  apply (Script.private_liftExcept _).balanced.bind
  intro managed
  apply (Script.private_liftExcept _).balanced.bind
  intro _
  apply (balanced_writeManaged division managed hname).attempt.bind
  intro outcome
  cases outcome with
  | ok u => exact (Script.private_pure _).balanced
  | error error =>
      apply (balanced_rollbackManaged division original error false hname).bind
      intro report
      exact (Script.private_throw _).balanced

theorem balanced_editNative {spec : EditSpec} (original : ManagedApplicationConfig)
    (hname : mutexName fold spec.name = name) :
    Script.Balanced name (editNative division spec original) := by
  apply (Script.private_own _).balanced.attempt.bind
  intro outcome
  cases outcome with
  | ok u => exact (Script.private_pure _).balanced
  | error error =>
      simp only
      split
      · apply (balanced_rollbackManaged division original error true hname).bind
        intro report
        exact (Script.private_throw _).balanced
      · exact (Script.private_throw _).balanced

theorem section_editWithBackend {spec : EditSpec} (hname : mutexName fold spec.name = name) :
    Script.Section name (editWithBackend division spec) := by
  unfold editWithBackend
  split
  · apply (Script.private_liftExcept _).bind_section
    intro _
    apply (Script.private_own _).bind_section
    intro _
    rw [hname]
    apply Script.Balanced.guarded_section
    apply (division.read spec.name).balanced.bind
    intro found
    cases found with
    | none => exact (Script.private_throw _).balanced
    | some original =>
        apply Script.Balanced.bind
        · split
          · exact balanced_editManaged division original hname
          · exact (Script.private_pure _).balanced
        · intro _
          apply Script.Balanced.bind
          · split
            · exact balanced_editNative division original hname
            · exact (Script.private_pure _).balanced
          · intro _
            exact (Script.private_pure _).balanced
  · exact (Script.private_throw _).section

theorem balanced_saveLocked {spec : RecoverySpec} (hname : mutexName fold spec.name = name) :
    Script.Balanced name (saveLocked division spec) := by
  apply (division.read spec.name).balanced.bind
  intro found
  cases found with
  | none => exact (Script.private_throw _).balanced
  | some original =>
      apply (Script.private_liftExcept _).balanced.bind
      intro _
      apply (balanced_writeManaged division _ hname).attempt.bind
      intro outcome
      cases outcome with
      | ok u => exact (Script.private_pure _).balanced
      | error error =>
          apply (balanced_writeManaged division original hname).attempt.bind
          intro restored
          cases restored with
          | ok u => exact (Script.private_throw _).balanced
          | error rollback => exact (Script.private_throw _).balanced

theorem section_saveRecoveryWithBackend {spec : RecoverySpec}
    (hname : mutexName fold spec.name = name) :
    Script.Section name (saveRecoveryWithBackend division spec) := by
  apply (Script.private_liftExcept _).bind_section
  intro _
  apply (Script.private_own _).bind_section
  intro _
  rw [hname]
  exact (balanced_saveLocked division hname).guarded_section

theorem balanced_saveRecoveryWithBackend {spec : RecoverySpec}
    (hname : mutexName fold spec.name = name) :
    Script.Balanced name (saveRecoveryWithBackend division spec) := by
  apply (Script.private_liftExcept _).balanced.bind
  intro _
  apply (Script.private_own _).balanced.bind
  intro _
  rw [hname]
  exact (balanced_saveLocked division hname).guarded

/-- An update calls for the service it was asked for, so the save takes the same lock. -/
theorem section_updateRecoveryWithBackend {service : String}
    (update : RecoverySpec → Result RecoverySpec) (hname : mutexName fold service = name) :
    Script.Section name (updateRecoveryWithBackend division service update) := by
  apply (Script.private_own _).bind_section
  intro _
  rw [hname]
  apply Script.Balanced.guarded_section
  apply Script.Balanced.bind
  · apply (division.read service).balanced.bind
    intro found
    cases found with
    | none => exact (Script.private_throw _).balanced
    | some managed => exact (Script.private_pure _).balanced
  · intro current
    apply (Script.private_liftExcept _).balanced.bind
    intro spec
    by_cases hsame : spec.name ≠ service
    · rw [if_pos hsame]
      exact (Script.private_throw _).balanced
    · rw [if_neg hsame]
      apply balanced_saveRecoveryWithBackend
      rw [not_not.mp hsame, hname]

end

end ConfigLock

end Ngsm.Ops
