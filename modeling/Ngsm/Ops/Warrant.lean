/-
# What entitles an operation to act

An operation that has been asked for names one service, and says whether ownership may be
skipped.  Each call that changes something needs a warrant: what has been said before shows that
it is the service that was named, that it is managed or ownership is skipped, that it is in a
state that allows the change, and that the configuration is locked where it is changed.
-/

import Ngsm.Ops.Operations

namespace Ngsm.Ops.Machine

open Ngsm.Lib Ngsm.Core Ngsm.Registry Ngsm.Win32
open Ngsm.Supervisor (hasOnlineRotation)

/-- What an operation was asked: which it is, the service it names, and whether it may skip the
check of ownership. -/
structure Errand where
  op : String
  name : String
  forceNative : Bool := false

/-! ## What was found out -/

/-- The calls that give a lock back. -/
def releases : SystemCall → Bool
  | .unlockServiceConfig _ => true
  | _ => false

abbrev Known : Type :=
  Knowledge SystemCall.Answer releases

/-- A call was made, and this is its answer. -/
def Heard (said : Said) (c : SystemCall) (answer : c.Answer) : Prop :=
  ⟨c, answer⟩ ∈ said

section

variable (said : Said) (name : String)

/-- The handle was opened for this service, with this right at least. -/
def Opened (svc : Handle) (right : UInt32) : Prop :=
  ∃ manager access, Heard said (.openService manager name access) (.ok svc) ∧
    access &&& right = right

/-- The service manager and the registry together showed that the service is managed. -/
def Owned : Prop :=
  ∃ manager native managed, Heard said (.queryService manager name) (.ok native) ∧
    Heard said (.readManagedConfig name) (.ok managed) ∧
      (definitionOf native managed).isManaged = true

/-- A managed configuration was read. -/
def Configured (kind : ManagedApplicationConfig → Prop) : Prop :=
  ∃ cfg, Heard said (.readManagedConfig name) (.ok (some cfg)) ∧ kind cfg

/-- The manager reported the service in such a state. -/
def Reported (kind : NativeService → Prop) : Prop :=
  ∃ manager native, Heard said (.queryService manager name) (.ok native) ∧ kind native

def Enabled : Prop :=
  Reported said name fun native => native.config.startup ≠ .disabled

def Stopped : Prop :=
  Reported said name fun native => isStopped native = true

/-- The lock of the configuration was taken and not given back. -/
def Locked : Prop :=
  (Knowledge.since ⟨.lockServiceConfig name, .ok ()⟩ : Known).holds said

/-- The service was created in the course of the operation. -/
def Created (svc : Handle) : Prop :=
  ∃ manager service, Heard said (.createService manager service) (.ok svc) ∧
    service.name = name

def Deleted : Prop :=
  ∃ svc, Opened said name svc deleteAccess ∧ Heard said (.deleteService svc) (.ok ())

def Started : Prop :=
  ∃ svc, Opened said name svc serviceStart ∧ Heard said (.startService svc) (.ok ())

def Controlled (signal : ServiceControlSignal) : Prop :=
  ∃ svc, Opened said name svc signal.requiredAccess ∧
    Heard said (.controlService svc signal.toWin32) (.ok ())

/-- The runner of the service was replaced by the one that was validated. -/
def Repaired : Prop :=
  ∃ svc path, Opened said name svc serviceChangeConfig ∧
    Heard said (.buildRunServiceCommand name) (.ok path) ∧
      Heard said (.changeServiceConfig svc
        { serviceType := serviceWin32OwnProcess, binaryPath := some path }) (.ok ())

/-- The configuration of the service was found once more, after the service was deleted. -/
def LeftBehind : Prop :=
  ∃ before after, said = before ++ after ∧ Deleted before name ∧
    Configured after name fun _ => True

/-- The service was created with these options, and the description that was given was set. -/
def CreatedAs (opts : InstallOptions) : Prop :=
  ∃ manager service svc, newService opts = .ok service ∧
    Heard said (.createService manager service) (.ok svc) ∧
      ∀ text, opts.description = some text → Heard said (.changeDescription svc text) (.ok ())

/-- The service of the spec was created, with the runner that was validated, and its
configuration written. -/
structure Installed (spec : InstallSpec) : Prop where
  created : ∃ path, Heard said (.buildRunServiceCommand name) (.ok path) ∧
    CreatedAs said (installOptions spec path)
  configured : Heard said (.createManagedConfig name (managedConfigFromSpec spec)) (.ok ())

/-- Every native field that was given was changed. -/
structure NativeEdited (spec : EditSpec) : Prop where
  fields : changesConfig spec = true → ∃ svc change, Opened said name svc serviceChangeConfig ∧
    serviceChange spec = .ok change ∧ Heard said (.changeServiceConfig svc change) (.ok ())
  description : ∀ text, spec.description = some text →
    ∃ svc, Opened said name svc serviceChangeConfig ∧
      Heard said (.changeDescription svc text) (.ok ())

/-- A configuration was read, changed in this way, and written. -/
def Rewritten (change : ManagedApplicationConfig → ManagedApplicationConfig → Prop) : Prop :=
  ∃ original cfg, Heard said (.readManagedConfig name) (.ok (some original)) ∧
    change original cfg ∧ Heard said (.writeManagedConfig name cfg) (.ok ())

end

/-! ## Warrants -/

section

variable (fold : NameFold) (errand : Errand) (said : Said)

/-- The service may be acted on: it is managed, or ownership is skipped. -/
def Entitled : Prop :=
  errand.forceNative = true ∨ Owned said errand.name

/-- A service is removed when it was reported stopped, and a new one when its installation
fails. -/
inductive MayDelete (svc : Handle) : Prop where
  | remove (op : errand.op = "remove") (locked : Locked said errand.name)
      (opened : Opened said errand.name svc deleteAccess) (entitled : Entitled errand said)
      (stopped : Stopped said errand.name)
  | undo (op : errand.op = "install") (locked : Locked said errand.name)
      (created : ∃ new, Created said errand.name new ∧
        (svc = new ∨ Opened said errand.name svc deleteAccess))

/-- An edit changes neither the program nor the type of a service, nor its password; a repair
changes these two, to the runner that was validated. -/
inductive MayChange (svc : Handle) (change : ServiceChange) : Prop where
  | edit (op : errand.op = "edit") (opened : Opened said errand.name svc serviceChangeConfig)
      (entitled : errand.forceNative = true ∨
        Locked said errand.name ∧ Configured said errand.name fun _ => True)
      (spared : change.binaryPath = none ∧ change.serviceType = serviceNoChange ∧
        change.errorControl = serviceNoChange ∧ change.password = none)
  | repair (op : errand.op = "repair_runner")
      (opened : Opened said errand.name svc serviceChangeConfig)
      (configured : Configured said errand.name fun _ => True)
      (stopped : Stopped said errand.name)
      (runner : ∃ path, Heard said (.buildRunServiceCommand errand.name) (.ok path) ∧
        change = { serviceType := serviceWin32OwnProcess, binaryPath := some path })

inductive MayDescribe (svc : Handle) : Prop where
  | edit (op : errand.op = "edit") (opened : Opened said errand.name svc serviceChangeConfig)
      (entitled : errand.forceNative = true ∨
        Locked said errand.name ∧ Configured said errand.name fun _ => True)
  | install (op : errand.op = "install") (locked : Locked said errand.name)
      (created : Created said errand.name svc)

/-- A start without an override needs a service that is enabled; a restart needs it always. -/
inductive MayStart (svc : Handle) : Prop where
  | start (op : errand.op = "start") (opened : Opened said errand.name svc serviceStart)
      (entitled : errand.forceNative = true ∨
        Owned said errand.name ∧ Enabled said errand.name)
  | restart (op : errand.op = "restart") (opened : Opened said errand.name svc serviceStart)
      (entitled : Entitled errand said) (enabled : Enabled said errand.name)

/-- The operations that are one control, each with the control. -/
def signalOf : List (String × ServiceControlSignal) :=
  [("stop", .stop), ("pause", .pause), ("continue", .continue_)]

inductive MayControl (svc : Handle) (code : UInt32) : Prop where
  | control (signal : ServiceControlSignal) (op : (errand.op, signal) ∈ signalOf)
      (which : code = signal.toWin32)
      (opened : Opened said errand.name svc signal.requiredAccess)
      (entitled : Entitled errand said)
  | restart (op : errand.op = "restart") (which : code = ServiceControlSignal.stop.toWin32)
      (opened : Opened said errand.name svc ServiceControlSignal.stop.requiredAccess)
      (entitled : Entitled errand said) (enabled : Enabled said errand.name)
  | rotate (op : errand.op = "rotate") (which : code = serviceControlRotate)
      (opened : Opened said errand.name svc
        (ServiceControlSignal.user serviceControlRotate).requiredAccess)
      (configured : Configured said errand.name fun cfg => hasOnlineRotation cfg = true)

/-- What is written over a configuration is valid, or the configuration that was read. -/
structure MayWrite (name : String) (cfg : ManagedApplicationConfig) : Prop where
  op : errand.op = "edit" ∨ errand.op = "recovery_set"
  named : name = errand.name
  locked : Locked said errand.name
  configured : Configured said errand.name fun original =>
    cfg = original ∨ validateManagedConfig fold cfg = .ok ()

structure MayCreateConfig (name : String) (cfg : ManagedApplicationConfig) : Prop where
  op : errand.op = "install"
  named : name = errand.name
  locked : Locked said errand.name
  created : ∃ svc, Created said errand.name svc
  valid : validateManagedConfig fold cfg = .ok ()

/-- A configuration is purged once its service was deleted, and it was read since. -/
structure MayDeleteConfig (name : String) : Prop where
  op : errand.op = "remove"
  named : name = errand.name
  locked : Locked said errand.name
  leftBehind : LeftBehind said errand.name

structure MayCreate (service : NewService) : Prop where
  op : errand.op = "install"
  named : service.name = errand.name
  locked : Locked said errand.name
  runner : Heard said (.buildRunServiceCommand errand.name) (.ok service.binaryPath)
  password : service.password = none

/-- Every call is about the service that was named, unless all are listed, and a call that
changes something has its warrant. -/
def Warranted (x : Exchange SystemCall.Answer) : Prop :=
  match x.call with
  | .openService _ name _ | .queryService _ name | .lockServiceConfig name
  | .unlockServiceConfig name | .buildRunServiceCommand name => name = errand.name
  | .readManagedConfig name => name = errand.name ∨ errand.op = "list"
  | .createService _ service => MayCreate errand said service
  | .deleteService svc => MayDelete errand said svc
  | .changeServiceConfig svc change => MayChange errand said svc change
  | .changeDescription svc _ => MayDescribe errand said svc
  | .startService svc => MayStart errand said svc
  | .controlService svc code => MayControl errand said svc code
  | .createManagedConfig name cfg => MayCreateConfig fold errand said name cfg
  | .writeManagedConfig name cfg => MayWrite fold errand said name cfg
  | .deleteManagedConfig name => MayDeleteConfig errand said name
  | .enumerateDescendants pid => Reported said errand.name fun native =>
      native.runtime.bind (·.pid) = some pid
  | .enumerateServices => errand.op = "list"
  | .openSCManager _ | .queryServiceStatus _ | .now | .sleep _ => True

end

end Ngsm.Ops.Machine
