/-
# Requests of the operators

What the window, the command line and the broker ask for: the service to install and
the recovery policy to store.
-/

import Ngsm.Ops.Edit

namespace Ngsm.Ops

open Ngsm.Core

/-- A recovery policy; every field has been parsed. -/
structure RecoverySpec where
  name : String
  restartDelayMs : Option UInt32 := none
  throttleDelayMs : Option UInt32 := none
  defaultAction : ExitAction
  exitActions : Std.ExtTreeMap String ExitAction := ∅

/-- A service to install. -/
structure InstallSpec where
  name : String
  displayName : Option String := none
  description : Option String := none
  application : String
  appParameters : Option String := none
  appDirectory : Option String := none
  stdout : Option String := none
  stderr : Option String := none
  rotation : LogRotationConfig := {}
  hooks : List HookConfig := []
  startType : InstallStartType := .manual
  dependencies : ServiceDependencies := { services := [], groups := [] }
  account : Option String := none
  password : Option String := none

end Ngsm.Ops
