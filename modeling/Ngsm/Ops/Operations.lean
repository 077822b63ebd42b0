/-
# The operations on the machine

Each operation is the dialogue it holds with the service control manager and the registry.
What the operators know may be stale, so every operation asks again before it acts: whether the
service is managed, whether it is enabled or stopped.  An operation that changes the managed
configuration, or creates or removes a service, holds the lock of the service.
-/

import Ngsm.Ops.Generic
import Ngsm.Ops.Install
import Ngsm.Supervisor.Generations
import Ngsm.Win32.ServiceApi

namespace Ngsm.Ops.Machine

open Ngsm.Lib Ngsm.Core Ngsm.Registry Ngsm.Win32
open Ngsm.Supervisor (hasOnlineRotation)

variable (fold : NameFold)

/-! ## What an operation asks first -/

def definitionOf (native : NativeService) (managed : Option ManagedApplicationConfig) :
    ServiceDefinition where
  native := native.config
  managed := managed
  runtime := native.runtime.map (·.toServiceRuntimeState)

def readManaged (name : String) : Act (Option ManagedApplicationConfig) :=
  Fallible.demand (ask (.readManagedConfig name))

/-- Ask whether a service is managed; `unreadable` is the error when its configuration cannot
be read. -/
def readDefinition (name : String) (native : NativeService) (unreadable : Error → Error) :
    Act ServiceDefinition :=
  Fallible.demand do
    let outcome ← ask (.readManagedConfig name)
    return match outcome with
      | .ok managed => .ok (definitionOf native managed)
      | .error e => .error (unreadable e)

def ownershipUnknown (name consequence : String) (e : Error) : Error :=
  .other ("'" ++ name ++ "': managed ownership cannot be determined — its managed config " ++
    "is unreadable (" ++ e.text ++ ")" ++ consequence)

def ensureNgsmManaged (name : String) : Act Unit := do
  let native ← queryService name
  let service ← readDefinition name native (ownershipUnknown name "")
  if service.isManaged then
    pure ()
  else
    throw (.other ("'" ++ name ++
      "' is not an NGSM-managed service — refusing the lifecycle operation"))

def ensureEnabled (name : String) : Act Unit := do
  let native ← queryService name
  if native.config.startup = .disabled then
    throw (.other ("'" ++ name ++ "' is disabled — enable it before starting"))
  else
    pure ()

/-- The service is reported stopped, or nothing is reported of it. -/
def isStopped (native : NativeService) : Bool :=
  match native.runtime with
  | some runtime => runtime.state == .stopped
  | none => true

/-! ## Controls -/

def start (name : String) : Act String := do
  ensureNgsmManaged name
  ensureEnabled name
  startService name
  return "Start requested for '" ++ name ++ "'."

/-- A control of a managed service, and how the request is reported. -/
def controlManaged (name : String) (signal : ServiceControlSignal) (verb : String) :
    Act String := do
  ensureNgsmManaged name
  let _ ← controlService name signal
  return verb ++ " requested for '" ++ name ++ "'."

def stop (name : String) : Act String :=
  controlManaged name .stop "Stop"

def pause (name : String) : Act String :=
  controlManaged name .pause "Pause"

def continueService (name : String) : Act String :=
  controlManaged name .continue_ "Continue"

def rotate (name : String) : Act String := do
  match ← readManaged name with
  | none => throw (.other ("'" ++ name ++ "' is not an NGSM-managed service"))
  | some cfg =>
      if hasOnlineRotation cfg then do
        let _ ← controlService name (.user serviceControlRotate)
        return "Rotate requested for '" ++ name ++ "'."
      else
        throw (.other ("'" ++ name ++ "' does not use online log rotation — its logs rotate " ++
          "on restart, not on demand"))

/-! ## Restart -/

/-- `ScmRestartBackend`. -/
def restartMethods (name : String) : Restart.Methods Talk where
  ensureManaged := (ensureNgsmManaged name).run
  query := ExceptT.run do
    let snapshot ← queryService name
    return { startup := snapshot.config.startup, state := snapshot.runtime.map (·.state) }
  stop := ExceptT.run do
    let _ ← controlService name .stop
    return ()
  start := (startService name).run
  now := ask .now
  sleep duration := ask (.sleep duration)

/-- The loop of the source ends when the clock has advanced far enough; here it has a number of
rounds at most. -/
def restartWithOptions (rounds : ℕ) (name : String) (stopTimeoutMs : ℕ) (forceNative : Bool) :
    Fallible SystemCall.Answer Restart.Stopped String :=
  (restartMethods name).restartUsing name stopTimeoutMs forceNative rounds

/-! ## The managed configuration -/

/-- `RegistryConfigBackend`. -/
def configBackend : ConfigBackend Talk where
  lockServiceConfig name := ask (.lockServiceConfig name)
  unlock name := ask (.unlockServiceConfig name)
  readManaged name := ask (.readManagedConfig name)
  writeManaged name cfg := ask (.writeManagedConfig name cfg)
  updateNative spec := (updateNativeConfig spec).run

def edit (spec : EditSpec) : Act String :=
  configBackend.editWithBackend fold spec

def saveRecovery (spec : RecoverySpec) : Act String :=
  configBackend.saveRecoveryWithBackend fold spec

def readRecovery (name : String) : Act RecoverySpec :=
  configBackend.readRecoveryWithBackend name

def repairRunner (name : String) : Act String := do
  let native ← queryService name
  let service ← readDefinition name native
    (ownershipUnknown name "; refusing to repair runner binding")
  if !service.isManaged || service.managed.isNone then
    throw (.other ("'" ++ name ++ "' is not an NGSM-managed service with managed " ++
      "configuration — refusing to repair runner binding"))
  else if !isStopped native then
    throw (.other ("'" ++ name ++
      "' is not stopped — stop it before repairing the runner binding"))
  else
    repairServiceRunner name
    return "Repaired runner binding for '" ++ name ++ "'."

/-! ## Removing a service -/

def cannotPreserve : Error :=
  .invalidConfig ("cannot preserve managed config during removal: Windows SCM deletes the " ++
    "service registry subtree, including Parameters. Export or back up the " ++
    "configuration before removing the service; --no-purge-config is unsupported.")

/-- Refuse a service that is not known to be managed. -/
def ensureRemovable (name : String) (native : NativeService) : Act Unit := do
  let service ← readDefinition name native (ownershipUnknown name "; refusing to remove it")
  if service.isManaged then
    pure ()
  else
    throw (.other ("'" ++ name ++ "' is not an NGSM-managed service — refusing to remove it"))

def isManagedForPurge (name : String) : Act Bool := do
  match ← monadLift (ask (.readManagedConfig name)) with
  | .ok managed => return managed.isSome
  | .error _ => return false

def cleanupFailed (e : Error) : Error :=
  .other ("service removed, but managed config cleanup failed: " ++ e.text)

def purgeManagedConfig (name : String) : Act Unit := do
  let managed ← isManagedForPurge name
  if managed then
    Fallible.demand do
      let outcome ← ask (.deleteManagedConfig name)
      return outcome.mapError cleanupFailed
  else
    pure ()

/-- A removal with the lock in hand. -/
def removeLocked (name : String) (forceNative : Bool) : Act String := do
  let native ← queryService name
  (if forceNative then pure () else ensureRemovable name native)
  if !isStopped native then
    throw (.other ("'" ++ name ++ "' is not stopped — stop it before removing it"))
  else
    removeService name
    purgeManagedConfig name
    return "Removed '" ++ name ++ "'."

def remove (name : String) (forceNative purgeManagedConfig : Bool) : Act String :=
  if !purgeManagedConfig then
    throw cannotPreserve
  else
    configBackend.guarded name (removeLocked name forceNative)

/-! ## Installing a service -/

def installOptions (spec : InstallSpec) (binaryPath : String) : InstallOptions where
  name := spec.name
  displayName := spec.displayName.getD spec.name
  description := spec.description
  binaryPath := binaryPath
  startType := spec.startType
  dependencies := spec.dependencies
  account := spec.account
  password := spec.password

/-- How a failed installation is reported, once the service was removed again. -/
def installFailed (e : Error) : Result Unit → Error
  | .ok () => .other ("install failed, service rolled back: " ++ e.text)
  | .error re => .other ("install failed (" ++ e.text ++ "); rollback also failed (" ++
      re.text ++ ")")

/-- An installation with the lock in hand. -/
def installLocked (spec : InstallSpec) (binaryPath : String) : Act String := do
  installService (installOptions spec binaryPath)
  match ← monadLift (ask (.createManagedConfig spec.name (managedConfigFromSpec spec))) with
  | .ok () => return "Installed '" ++ spec.name ++ "'."
  | .error e => do
      let outcome ← monadLift (removeService spec.name).run
      throw (installFailed e outcome)

def install (spec : InstallSpec) : Act String :=
  if (Text.trim spec.application).isEmpty then
    throw (.other "Application path is required.")
  else do
    liftExcept (validateManagedConfig fold (managedConfigFromSpec spec))
    liftExcept (validateInstallConfig (managedConfigFromSpec spec))
    let binaryPath ← Fallible.demand (ask (.buildRunServiceCommand spec.name))
    configBackend.guarded spec.name (installLocked spec binaryPath)

/-! ## Listing the services -/

/-- Read the managed configuration of each service that was enumerated; what cannot be read is a
warning. -/
def annotate : List NativeService → Talk (List ServiceDefinition × List String)
  | [] => return ([], [])
  | s :: rest => do
      let broken := (s.queryError.map fun w => s.config.name ++ ": " ++ w).toList
      match ← ask (.readManagedConfig s.config.name) with
      | .ok managed => do
          let (defs, warnings) ← annotate rest
          return (definitionOf s managed :: defs, broken ++ warnings)
      | .error e => do
          let (defs, warnings) ← annotate rest
          return (definitionOf s none :: defs, broken ++
            (s.config.name ++ ": managed config unreadable (" ++ e.text ++ ")") :: warnings)

/-- `lower` is the mapping to lower case. -/
def listServices (lower : String → String) : Act (List ServiceDefinition × List String) := do
  let services ← Fallible.demand (ask .enumerateServices)
  let (defs, warnings) ← monadLift (annotate services)
  return (defs.mergeSort fun a b => lower a.native.name ≤ lower b.native.name, warnings)

end Ngsm.Ops.Machine
