/-
# The service control manager

The operations know the machine only by their calls: those of the service control manager, and
those that read and write the managed configuration of a service under its lock.  The answers
are the machine's.  Each function here is the dialogue that the source holds, from the checks
of the name to the error it reports.

Texts are passed to the manager as they are.  Every one of them was checked for an embedded NUL,
so its encoding carries all of it.
-/

import Ngsm.Core.ImagePath
import Ngsm.Lib.Transcript
import Ngsm.Win32.Dependencies

namespace Ngsm.Win32

open Ngsm.Lib Ngsm.Core Ngsm.Ops

abbrev Handle : Type :=
  ℕ

/-- An error of the system. -/
structure WinError where
  code : UInt32
  message : String
  deriving DecidableEq, Repr

def errorServiceDoesNotExist : UInt32 :=
  1060

def mapWinError (context : String) (e : WinError) : Error :=
  if e.code = errorServiceDoesNotExist then .notFound context
  else .scm (context ++ ": " ++ e.message)

/-! ## Rights and constants -/

def scManagerConnect : UInt32 := 0x1

def scManagerCreateService : UInt32 := 0x2

def serviceChangeConfig : UInt32 := 0x2

def serviceQueryStatus : UInt32 := 0x4

def serviceStart : UInt32 := 0x10

def serviceStop : UInt32 := 0x20

def servicePauseContinue : UInt32 := 0x40

def serviceInterrogate : UInt32 := 0x80

def serviceUserDefinedControl : UInt32 := 0x100

/-- `DELETE_ACCESS`. -/
def deleteAccess : UInt32 := 0x10000

def serviceWin32OwnProcess : UInt32 := 0x10

def serviceErrorNormal : UInt32 := 1

def serviceNoChange : UInt32 := 0xffffffff

inductive ServiceControlSignal where
  | stop
  | pause
  | continue_
  | interrogate
  | user (code : UInt32)
  deriving DecidableEq, Repr

namespace ServiceControlSignal

def toWin32 : ServiceControlSignal → UInt32
  | stop => 1
  | pause => 2
  | continue_ => 3
  | interrogate => 4
  | user code => code

def requiredAccess (signal : ServiceControlSignal) : UInt32 :=
  let base := serviceQueryStatus
  match signal with
  | stop => base ||| serviceStop
  | pause | continue_ => base ||| servicePauseContinue
  | interrogate => base ||| serviceInterrogate
  | user _ => base ||| serviceUserDefinedControl

end ServiceControlSignal

/-- `SERVICE_CONTROL_ROTATE`. -/
def serviceControlRotate : UInt32 :=
  174

/-- The start type as the manager knows it. -/
def startTypeToWin32 : InstallStartType → UInt32
  | .manual => 3
  | .automatic => 2
  | .disabled => 4

/-! ## What is passed and returned -/

structure InstallOptions where
  name : String
  displayName : String
  description : Option String := none
  binaryPath : String
  startType : InstallStartType := .manual
  dependencies : ServiceDependencies := { services := [], groups := [] }
  account : Option String := none
  password : Option String := none
  deriving DecidableEq, Repr

/-- The arguments of `CreateServiceW`. -/
structure NewService where
  name : String
  displayName : String
  access : UInt32
  serviceType : UInt32
  startType : UInt32
  errorControl : UInt32
  binaryPath : String
  dependencies : Option (List UInt16)
  account : Option String
  password : Option String
  deriving DecidableEq, Repr

/-- The arguments of `ChangeServiceConfigW`; what is not given stays. -/
structure ServiceChange where
  serviceType : UInt32 := serviceNoChange
  startType : UInt32 := serviceNoChange
  errorControl : UInt32 := serviceNoChange
  binaryPath : Option String := none
  dependencies : Option (List UInt16) := none
  account : Option String := none
  password : Option String := none
  displayName : Option String := none
  deriving DecidableEq, Repr

/-- `ServiceRuntimeState` with all its fields. -/
structure ServiceRuntime extends ServiceRuntimeState where
  pid : Option UInt32 := none
  exitCode : Option UInt32 := none
  checkpoint : Option UInt32 := none
  waitHintMs : Option UInt32 := none
  deriving DecidableEq, Repr

structure NativeService where
  config : NativeServiceConfig
  runtime : Option ServiceRuntime
  queryError : Option String := none
  deriving DecidableEq, Repr

/-- `SERVICE_STATUS_PROCESS`. -/
structure ProcessStatus where
  currentState : UInt32
  processId : UInt32
  checkPoint : UInt32
  waitHint : UInt32
  deriving DecidableEq, Repr

def classifyState (state : UInt32) : ServiceState :=
  if state = 1 then .stopped
  else if state = 2 then .startPending
  else if state = 3 then .stopPending
  else if state = 4 then .running
  else if state = 5 then .continuePending
  else if state = 6 then .pausePending
  else if state = 7 then .paused
  else .unknown

/-! ## The calls -/

inductive SystemCall where
  | openSCManager (access : UInt32)
  | openService (manager : Handle) (name : String) (access : UInt32)
  | createService (manager : Handle) (service : NewService)
  | deleteService (service : Handle)
  | changeServiceConfig (service : Handle) (change : ServiceChange)
  /-- `ChangeServiceConfig2W` for the description. -/
  | changeDescription (service : Handle) (value : String)
  | startService (service : Handle)
  | controlService (service : Handle) (code : UInt32)
  | queryServiceStatus (service : Handle)
  /-- `query_service_inner`. -/
  | queryService (manager : Handle) (name : String)
  | enumerateServices
  | enumerateDescendants (pid : UInt32)
  /-- `build_run_service_command`. -/
  | buildRunServiceCommand (name : String)
  | lockServiceConfig (name : String)
  /-- The guard of the lock is dropped. -/
  | unlockServiceConfig (name : String)
  | readManagedConfig (name : String)
  | createManagedConfig (name : String) (cfg : ManagedApplicationConfig)
  | writeManagedConfig (name : String) (cfg : ManagedApplicationConfig)
  | deleteManagedConfig (name : String)
  /-- The reading of a clock, in nanoseconds. -/
  | now
  | sleep (duration : ℕ)

/-- A process below the root of a service, with the process it belongs to. -/
structure Descendant where
  pid : UInt32
  parentPid : UInt32
  deriving DecidableEq, Repr

/-- What the calls return. -/
@[reducible]
def SystemCall.Answer : SystemCall → Type
  | .openSCManager _ | .openService _ _ _ | .createService _ _ => Except WinError Handle
  | .deleteService _ | .changeServiceConfig _ _ | .changeDescription _ _ | .startService _
  | .controlService _ _ => Except WinError Unit
  | .queryServiceStatus _ => Except WinError ProcessStatus
  | .queryService _ _ => Result NativeService
  | .enumerateServices => Result (List NativeService)
  | .enumerateDescendants _ => Result (List Descendant)
  | .buildRunServiceCommand _ => Result String
  | .lockServiceConfig _ | .createManagedConfig _ _ | .writeManagedConfig _ _
  | .deleteManagedConfig _ => Result Unit
  | .readManagedConfig _ => Result (Option ManagedApplicationConfig)
  | .unlockServiceConfig _ | .sleep _ => Unit
  | .now => ℕ

abbrev Talk : Type → Type :=
  Dialogue SystemCall SystemCall.Answer

/-- A dialogue with the machine that may end with an error. -/
abbrev Act (α : Type) : Type :=
  Fallible SystemCall.Answer Error α

abbrev Said : Type :=
  Transcript SystemCall.Answer

def ask (c : SystemCall) : Talk c.Answer :=
  Dialogue.ask c

/-- Make a call, and report an error of the system. -/
def call {α : Type} (context : String) (m : Talk (Except WinError α)) : Act α :=
  Fallible.demand do
    let outcome ← m
    return outcome.mapError (mapWinError context)

/-! ## Services -/

def openScm (access : UInt32) : Act Handle :=
  call "OpenSCManager" (ask (.openSCManager access))

def openServiceHandle (scm : Handle) (name : String) (access : UInt32) : Act Handle :=
  call ("OpenService(" ++ name ++ ")") (ask (.openService scm name access))

def queryService (name : String) : Act NativeService := do
  liftExcept (validateServiceName name)
  let scm ← openScm scManagerConnect
  Fallible.demand (ask (.queryService scm name))

def startService (name : String) : Act Unit := do
  liftExcept (validateServiceName name)
  let scm ← openScm scManagerConnect
  let svc ← openServiceHandle scm name serviceStart
  call ("StartService(" ++ name ++ ")") (ask (.startService svc))

def removeService (name : String) : Act Unit := do
  liftExcept (validateServiceName name)
  let scm ← openScm scManagerConnect
  let svc ← openServiceHandle scm name deleteAccess
  call ("DeleteService(" ++ name ++ ")") (ask (.deleteService svc))

def outOfRange (code : UInt32) : Error :=
  .other ("user-defined service control code " ++ toString code.toNat ++
    " is out of range; SCM reserves 128..=255 for user controls")

/-- A control of the user has a code that the manager leaves to it. -/
def checkControl : ServiceControlSignal → Result Unit
  | .user code => if 128 ≤ code ∧ code ≤ 255 then .ok () else .error (outOfRange code)
  | _ => .ok ()

def runtimeOf (status : ProcessStatus) : ServiceRuntime where
  state := classifyState status.currentState
  pid := if status.processId ≠ 0 then some status.processId else none
  checkpoint := some status.checkPoint
  waitHintMs := some status.waitHint

def controlService (name : String) (signal : ServiceControlSignal) : Act ServiceRuntime := do
  liftExcept (checkControl signal)
  liftExcept (validateServiceName name)
  let scm ← openScm scManagerConnect
  let svc ← openServiceHandle scm name signal.requiredAccess
  call ("ControlService(" ++ name ++ ")") (ask (.controlService svc signal.toWin32))
  let status ← call ("QueryServiceStatusEx(" ++ name ++ ")")
    (ask (.queryServiceStatus svc))
  return runtimeOf status

/-! ## Changing a service -/

def changeServiceDescription (svc : Handle) (name value : String) : Act Unit := do
  liftExcept (validateNativeString "description" value)
  call ("ChangeServiceConfig2(description:" ++ name ++ ")")
    (ask (.changeDescription svc value))

/-- The checks that are made once more before a password is passed on. -/
def checkCredentials (account password : Option String) : Result Unit := do
  account.toList.forM validateAccount
  requireAccount account password
  password.toList.forM validatePassword
where
  requireAccount (account password : Option String) : Result Unit :=
    if password.isSome && account.isNone then
      .error (.invalidConfig
        "--password-stdin requires --account so the SCM can apply the password")
    else
      .ok ()

/-- The part of a change that `ChangeServiceConfigW` carries. -/
def serviceChange (spec : EditSpec) : Result ServiceChange := do
  let dependencies ← spec.dependencies.mapM encodeDependencies
  checkCredentials spec.account spec.password
  return {
    startType := (spec.startType.map startTypeToWin32).getD serviceNoChange
    dependencies := dependencies
    account := spec.account
    password := spec.password
    displayName := spec.displayName }

/-- Some field beside the description is given. -/
def changesConfig (spec : EditSpec) : Bool :=
  spec.displayName.isSome || spec.startType.isSome || spec.dependencies.isSome ||
    spec.account.isSome || spec.password.isSome

def descriptionFailed (error : Error) : Error :=
  .scm ("native fields were changed, but description update failed: " ++ error.text ++
    "; no automatic rollback was attempted (prior account passwords are unreadable)")

/-- Change the fields of a service that the manager holds; of the request, its managed fields
are not looked at. -/
def updateNativeConfig (spec : EditSpec) : Act Unit := do
  liftExcept (validateNativeUpdate spec)
  let scm ← openScm scManagerConnect
  let svc ← openServiceHandle scm spec.name serviceChangeConfig
  let change ← liftExcept (serviceChange spec)
  (if changesConfig spec then
    call ("ChangeServiceConfig(" ++ spec.name ++ ")")
      (ask (.changeServiceConfig svc change))
  else pure ())
  match spec.description with
  | none => return
  | some description => do
      match ← monadLift (changeServiceDescription svc spec.name description).run with
      | .ok () => return
      | .error error => throw (if changesConfig spec then descriptionFailed error else error)

/-- Bind a service to the runner that is running, and restore its type. -/
def repairServiceRunner (name : String) : Act Unit := do
  liftExcept (validateServiceName name)
  let binaryPath ← Fallible.demand (ask (.buildRunServiceCommand name))
  let scm ← openScm scManagerConnect
  let svc ← openServiceHandle scm name serviceChangeConfig
  call ("ChangeServiceConfig(repair-runner:" ++ name ++ ")")
    (ask (.changeServiceConfig svc
      { serviceType := serviceWin32OwnProcess, binaryPath := some binaryPath }))

/-! ## Creating a service -/

/-- The fields of an installation that a change has too. -/
def nativeSpec (opts : InstallOptions) : EditSpec where
  name := opts.name
  displayName := some opts.displayName
  description := opts.description
  dependencies := some opts.dependencies
  account := opts.account
  password := opts.password

def validateInstallOptions (opts : InstallOptions) : Result Unit := do
  validateNativeUpdate (nativeSpec opts)
  validateNativeString "binary path" opts.binaryPath

/-- A new service without dependencies gets no list at all. -/
def newDependencies (dependencies : ServiceDependencies) : Result (Option (List UInt16)) :=
  if dependencies.isEmpty then .ok none else some <$> encodeDependencies dependencies

/-- The service as it is created. -/
def newService (opts : InstallOptions) : Result NewService := do
  let dependencies ← newDependencies opts.dependencies
  checkCredentials opts.account opts.password
  return {
    name := opts.name
    displayName := opts.displayName
    access := serviceQueryStatus ||| serviceChangeConfig ||| deleteAccess
    serviceType := serviceWin32OwnProcess
    startType := startTypeToWin32 opts.startType
    errorControl := serviceErrorNormal
    binaryPath := opts.binaryPath
    dependencies
    account := opts.account
    password := opts.password }

def rolledBack (primary : Error) : Error :=
  .scm ("service installation failed and was rolled back: " ++ primary.text)

def rollbackFailed (primary cleanup : Error) : Error :=
  .scm ("service installation failed (" ++ primary.text ++ "); rollback also failed (" ++
    cleanup.text ++ ")")

/-- Configure what was created, and remove it again when that fails. -/
def completeInstall (created : Act Handle) (configure rollback : Handle → Act Unit) :
    Act Unit := do
  let service ← created
  match ← monadLift (configure service).run with
  | .ok () => return
  | .error primary => do
      match ← monadLift (rollback service).run with
      | .ok () => throw (rolledBack primary)
      | .error cleanup => throw (rollbackFailed primary cleanup)

def installValidatedService (opts : InstallOptions) : Act Unit := do
  let scm ← openScm (scManagerConnect ||| scManagerCreateService)
  let service ← liftExcept (newService opts)
  completeInstall
    (call ("CreateService(" ++ opts.name ++ ")") (ask (.createService scm service)))
    (fun svc => match opts.description with
      | some description => changeServiceDescription svc opts.name description
      | none => pure ())
    (fun svc => call "DeleteService(install rollback)" (ask (.deleteService svc)))

def installService (opts : InstallOptions) : Act Unit := do
  liftExcept (validateInstallOptions opts)
  installValidatedService opts

end Ngsm.Win32
