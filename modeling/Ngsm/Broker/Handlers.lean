/-
# The handlers of the broker

A request that was admitted names an operation and carries its arguments.  Its handler decodes
the arguments, turns them into a request of the operation, and says in the reply what was done.
Passwords do not travel through the broker: a request that carries one is refused unread.

The decoder of the arguments is given from outside.
-/

import Ngsm.Broker.Connection
import Ngsm.Ops.Operations

namespace Ngsm.Broker

open Ngsm.Lib Ngsm.Core Ngsm.Registry Ngsm.Ops Ngsm.Win32
open Ngsm.Ops.Machine (definitionOf listServices readRecovery restartWithOptions)

/-! ## Arguments -/

structure NameArg where
  name : String

structure RemoveArgs where
  name : String
  forceNative : Bool := false

structure LifecycleArgs where
  name : String
  forceNative : Bool := false

inductive ListFilterArg where
  | managed
  | all

structure InstallArgs where
  name : String
  application : String
  appParameters : Option String := none
  appDirectory : Option String := none
  displayName : Option String := none
  description : Option String := none
  startType : String := "manual"
  stdout : Option String := none
  stderr : Option String := none
  hooks : List HookConfig := []
  rotation : LogRotationConfig := {}
  dependOnServices : List String := []
  dependOnGroups : List String := []
  account : Option String := none

structure EditArgs where
  name : String
  application : Option String := none
  appParameters : Option String := none
  appDirectory : Option String := none
  displayName : Option String := none
  description : Option String := none
  startType : Option String := none
  stdout : Option String := none
  stderr : Option String := none
  dependOnServices : List String := []
  dependOnGroups : List String := []
  clearDependencies : Bool := false
  account : Option String := none
  forceNative : Bool := false

structure RecoverySetArgs where
  name : String
  restartDelayMs : Option UInt32 := none
  throttleDelayMs : Option UInt32 := none
  defaultAction : ExitAction
  exitActions : Option (Std.ExtTreeMap String ExitAction) := none

/-- The decoder of arguments: whether they are an object with such a key, and what they are as
the arguments of an operation. -/
structure Wire (Value : Type) where
  hasKey : Value → String → Bool
  nameArg : Value → Except String NameArg
  removeArgs : Value → Except String RemoveArgs
  lifecycleArgs : Value → Except String LifecycleArgs
  listFilter : Value → Except String ListFilterArg
  installArgs : Value → Except String InstallArgs
  editArgs : Value → Except String EditArgs
  recoverySetArgs : Value → Except String RecoverySetArgs

def parseArgs {α : Type} (decoded : Except String α) : Result α :=
  decoded.mapError fun e => .other ("invalid args: " ++ e)

/-! ## Replies -/

inductive Field where
  | null
  | flag (value : Bool)
  | text (value : String)
  | texts (values : List String)
  | pid (value : UInt32)
  | delay (value : Option UInt32)
  | action (value : ExitAction)
  | actions (values : List (String × ExitAction))
  | services (values : List ServiceDefinition)
  | processes (values : List Descendant)

inductive Reply where
  | object (fields : List (String × Field))
  | definition (service : ServiceDefinition)

inductive PostOpState where
  | known (state : String)
  | noRuntime
  | queryFailed (error : String)
  deriving DecidableEq, Repr

def debugState : ServiceState → String
  | .stopped => "Stopped"
  | .startPending => "StartPending"
  | .stopPending => "StopPending"
  | .running => "Running"
  | .continuePending => "ContinuePending"
  | .pausePending => "PausePending"
  | .paused => "Paused"
  | .unknown => "Unknown"

/-- What is added to a reply about the state after an operation. -/
def stateFields : PostOpState → List (String × Field)
  | .known state => [("state", .text state)]
  | .noRuntime => [("state", .text "")]
  | .queryFailed error =>
      [("state", .null), ("warning", .text ("post-op state query failed: " ++ error))]

def postOpState (name : String) : Act PostOpState := do
  match ← monadLift (queryService name).run with
  | .ok snapshot => return match snapshot.runtime with
      | some runtime => .known (debugState runtime.state)
      | none => .noRuntime
  | .error e => return .queryFailed e.text

/-! ## Reading the arguments -/

section

variable {Value : Type} (wire : Wire Value)

def rejectBrokerPasswordFields (args : Value) : Result Unit :=
  if wire.hasKey args "password" || wire.hasKey args "password_stdin" then
    .error (.invalidConfig ("broker requests do not accept service account passwords; " ++
      "use the CLI with --password-stdin"))
  else
    .ok ()

def dependenciesFromArgs (services groups : List String) : Result ServiceDependencies := do
  let dependencies : ServiceDependencies := { services, groups }
  dependencies.validate
  return dependencies

def parseStartType (s : String) : Result InstallStartType :=
  match String.ofList (s.toList.map Text.toAsciiLower) with
  | "manual" => .ok .manual
  | "automatic" => .ok .automatic
  | "disabled" => .ok .disabled
  | other => .error (.other ("unknown start_type '" ++ other ++ "'"))

def installSpec (a : InstallArgs) (startType : InstallStartType)
    (dependencies : ServiceDependencies) : InstallSpec where
  name := a.name
  displayName := a.displayName
  description := a.description
  application := a.application
  appParameters := a.appParameters
  appDirectory := a.appDirectory
  stdout := a.stdout
  stderr := a.stderr
  rotation := a.rotation
  hooks := a.hooks
  startType := startType
  dependencies := dependencies
  account := a.account
  password := none

def editSpec (a : EditArgs) (startType : Option InstallStartType)
    (dependencies : Option ServiceDependencies) : EditSpec where
  name := a.name
  displayName := a.displayName
  description := a.description
  application := a.application
  appParameters := a.appParameters
  appDirectory := a.appDirectory
  stdout := a.stdout
  stderr := a.stderr
  startType := startType
  dependencies := dependencies
  account := a.account
  password := none

/-- The dependencies that an edit asks for; to clear them and to name some is a conflict. -/
def editDependencies (a : EditArgs) : Result (Option ServiceDependencies) :=
  if a.clearDependencies && (!a.dependOnServices.isEmpty || !a.dependOnGroups.isEmpty) then
    .error (.invalidConfig ("clear_dependencies cannot be combined with depend_on_services " ++
      "or depend_on_groups"))
  else if a.clearDependencies then
    .ok (some { services := [], groups := [] })
  else if a.dependOnServices.isEmpty && a.dependOnGroups.isEmpty then
    .ok none
  else
    some <$> dependenciesFromArgs a.dependOnServices a.dependOnGroups

/-- An override is for the fields of the manager alone. -/
def rejectForcedManaged (a : EditArgs) : Result Unit :=
  if a.forceNative && (a.application.isSome || a.appParameters.isSome ||
      a.appDirectory.isSome || a.stdout.isSome || a.stderr.isSome) then
    .error (.other ("--force-native cannot be combined with managed-field flags " ++
      "(application, app_parameters, app_directory, stdout, stderr). " ++
      "Run two separate edit calls — one with force_native for " ++
      "native-only fields, and one without it for managed fields."))
  else
    .ok ()

def wantsNative (a : EditArgs) (dependencies : Option ServiceDependencies) : Bool :=
  a.displayName.isSome || a.description.isSome || a.startType.isSome || dependencies.isSome ||
    a.account.isSome

/-! ## The handlers -/

variable (fold : NameFold) (lower : String → String) (rounds : ℕ) (args : Value)

def ListFilterArg.keeps : ListFilterArg → ServiceDefinition → Bool
  | managed, service => service.isManaged
  | all, _ => true

def opList : Act Reply := do
  let filter ← liftExcept (parseArgs (wire.listFilter args))
  let (defs, warnings) ← listServices lower
  return .object [("services", .services (defs.filter filter.keeps)), ("warnings", .texts warnings)]

def opDump : Act Reply := do
  let a ← liftExcept (parseArgs (wire.nameArg args))
  let native ← queryService a.name
  let managed ← Machine.readManaged a.name
  return .definition (definitionOf native managed)

def opInstall : Act Reply := do
  liftExcept (rejectBrokerPasswordFields wire args)
  let a ← liftExcept (parseArgs (wire.installArgs args))
  let startType ← liftExcept (parseStartType a.startType)
  let dependencies ← liftExcept (dependenciesFromArgs a.dependOnServices a.dependOnGroups)
  let _ ← Machine.install fold (installSpec a startType dependencies)
  return .object [("installed", .text a.name)]

def opRemove : Act Reply := do
  let a ← liftExcept (parseArgs (wire.removeArgs args))
  let _ ← Machine.remove a.name a.forceNative true
  return .object [("removed", .text a.name)]

def opStart : Act Reply := do
  let a ← liftExcept (parseArgs (wire.lifecycleArgs args))
  (if a.forceNative then startService a.name else do
    let _ ← Machine.start a.name
    return ())
  return .object [("started", .text a.name)]

/-- A control, with the check of ownership or without it, and the state that it led to. -/
def opControl (signal : ServiceControlSignal) (managed : String → Act String) (verb : String) :
    Act Reply := do
  let a ← liftExcept (parseArgs (wire.lifecycleArgs args))
  if a.forceNative then do
    let runtime ← controlService a.name signal
    return .object [(verb, .text a.name), ("state", .text (debugState runtime.state))]
  else do
    let _ ← managed a.name
    let after ← postOpState a.name
    return .object ((verb, .text a.name) :: stateFields after)

def opStop : Act Reply :=
  opControl wire args .stop Machine.stop "stopped"

def opPause : Act Reply :=
  opControl wire args .pause Machine.pause "paused"

def opContinue : Act Reply :=
  opControl wire args .continue_ Machine.continueService "continued"

def opRestart : Fallible SystemCall.Answer Restart.Stopped Reply := do
  let a ← liftExcept ((parseArgs (wire.lifecycleArgs args)).mapError Restart.Stopped.failed)
  let _ ← restartWithOptions rounds a.name 30000 a.forceNative
  return .object [("restarted", .text a.name)]

def opEdit : Act Reply := do
  liftExcept (rejectBrokerPasswordFields wire args)
  let a ← liftExcept (parseArgs (wire.editArgs args))
  let dependencies ← liftExcept (editDependencies a)
  liftExcept (rejectForcedManaged a)
  let startType ← liftExcept (a.startType.mapM parseStartType)
  let spec := editSpec a startType dependencies
  (if a.forceNative && wantsNative a dependencies then updateNativeConfig spec else do
    let _ ← Machine.edit fold spec
    return ())
  return .object [("edited", .text a.name)]

def opRepairRunner : Act Reply := do
  let a ← liftExcept (parseArgs (wire.nameArg args))
  let _ ← Machine.repairRunner a.name
  return .object [("repaired", .text a.name), ("runner", .flag true)]

def opRotate : Act Reply := do
  let a ← liftExcept (parseArgs (wire.nameArg args))
  let _ ← Machine.rotate a.name
  let after ← postOpState a.name
  return .object (("rotated", .text a.name) :: stateFields after)

def notRunning (name : String) : Error :=
  .other ("service '" ++ name ++ "' is not running (no PID reported)")

def opProcesses : Act Reply := do
  let a ← liftExcept (parseArgs (wire.nameArg args))
  let snapshot ← queryService a.name
  match snapshot.runtime.bind (·.pid) with
  | none => throw (notRunning a.name)
  | some pid => do
      let descendants ← Fallible.demand (ask (.enumerateDescendants pid))
      return .object [("service", .text a.name), ("root_pid", .pid pid),
        ("processes", .processes descendants)]

def opRecoveryGet : Act Reply := do
  let a ← liftExcept (parseArgs (wire.nameArg args))
  let spec ← readRecovery a.name
  return .object [("service", .text spec.name), ("restart_delay_ms", .delay spec.restartDelayMs),
    ("throttle_delay_ms", .delay spec.throttleDelayMs),
    ("default_action", .action spec.defaultAction),
    ("exit_actions", .actions spec.exitActions.toList)]

def recoverySpec (a : RecoverySetArgs) : RecoverySpec where
  name := a.name
  restartDelayMs := a.restartDelayMs
  throttleDelayMs := a.throttleDelayMs
  defaultAction := a.defaultAction
  exitActions := a.exitActions.getD ∅

def opRecoverySet : Act Reply := do
  let a ← liftExcept (parseArgs (wire.recoverySetArgs args))
  liftExcept ((recoverySpec a).exitActions.keys.forM validateRecoveryCode)
  let message ← Machine.saveRecovery fold (recoverySpec a)
  return .object [("saved", .text a.name), ("message", .text message)]

/-! ## Dispatch -/

/-- A handler that ends with an error of its own. -/
def handle (m : Act Reply) : Fallible SystemCall.Answer Restart.Stopped Reply :=
  Fallible.demand do return (← m.run).mapError .failed

def dispatchInner (req : Request Value) : Fallible SystemCall.Answer Restart.Stopped Reply :=
  match req.op with
  | "ping" => return .object [("pong", .flag true)]
  | "list" => handle (opList wire lower req.args)
  | "dump" => handle (opDump wire req.args)
  | "install" => handle (opInstall wire fold req.args)
  | "remove" => handle (opRemove wire req.args)
  | "start" => handle (opStart wire req.args)
  | "stop" => handle (opStop wire req.args)
  | "restart" => opRestart wire rounds req.args
  | "edit" => handle (opEdit wire fold req.args)
  | "repair_runner" => handle (opRepairRunner wire req.args)
  | "rotate" => handle (opRotate wire req.args)
  | "processes" => handle (opProcesses wire req.args)
  | "pause" => handle (opPause wire req.args)
  | "continue" => handle (opContinue wire req.args)
  | "recovery_get" => handle (opRecoveryGet wire req.args)
  | "recovery_set" => handle (opRecoverySet wire fold req.args)
  | other => throw (.failed (.other ("unknown op '" ++ other ++ "'")))

end

end Ngsm.Broker
