/-
# The managed configuration

The data model of a managed service: the application, its environment and
redirected streams, the restart, stop and rotation policies, exit actions and
hooks.  Maps and sets that the source keeps ordered are extensional tree maps
and sets here, so equal content means equal values.

`expandableStrings` names the strings that are stored with unexpanded
environment variables; a hook command is named by its place in the registry.
-/

import Std.Data.ExtTreeMap
import Std.Data.ExtTreeSet
import Ngsm.Lib.Text

namespace Ngsm.Core

open Ngsm.Lib

/-- The errors of every operation; the text is the one shown to the operator. -/
inductive Error where
  | notFound (context : String)
  | accessDenied (context : String)
  | invalidConfig (message : String)
  | registry (message : String)
  | scm (message : String)
  | io (message : String)
  | other (message : String)
  deriving DecidableEq, Repr

/-- The text of an error as it is shown. -/
def Error.text : Error → String
  | notFound context => "service not found: " ++ context
  | accessDenied context => "access denied: " ++ context
  | invalidConfig message => "invalid configuration: " ++ message
  | registry message => "registry: " ++ message
  | scm message => "scm: " ++ message
  | io message => "io: " ++ message
  | other message => message

/-- A result of a fallible operation. -/
abbrev Result (α : Type) : Type :=
  Except Error α

/-- What the supervisor does when the application exits. -/
inductive ExitAction where
  | restart
  | ignore
  | exit
  | suicide
  deriving DecidableEq, Repr

structure ExitActionPolicy where
  action : ExitAction
  deriving DecidableEq, Repr

structure RestartPolicy where
  restartDelayMs : Option UInt32 := none
  throttleDelayMs : Option UInt32 := none
  defaultAction : Option ExitAction := none
  deriving DecidableEq, Repr

structure ShutdownPolicy where
  stopMethodSkip : Option UInt32 := none
  killConsoleGraceMs : Option UInt32 := none
  killWindowGraceMs : Option UInt32 := none
  killThreadsGraceMs : Option UInt32 := none
  killProcessTree : Option Bool := none
  deriving DecidableEq, Repr

/-- A redirected standard stream. -/
structure IoStream where
  path : String
  shareMode : Option UInt32 := none
  creationDisposition : Option UInt32 := none
  flagsAndAttributes : Option UInt32 := none
  copyAndTruncate : Option Bool := none
  deriving DecidableEq, Repr

@[ext]
structure IoRedirectionConfig where
  stdin : Option IoStream := none
  stdout : Option IoStream := none
  stderr : Option IoStream := none
  timestampLog : Option Bool := none
  deriving DecidableEq, Repr

structure LogRotationConfig where
  enabled : Option Bool := none
  online : Option UInt32 := none
  seconds : Option UInt32 := none
  bytes : Option UInt64 := none
  delayMs : Option UInt32 := none
  deriving DecidableEq, Repr

/-- A command run at one moment of the service's life. -/
structure HookConfig where
  event : String
  action : String
  command : String
  deriving DecidableEq, Repr

/-- The exit actions of a service by exit code, with the key `default` for every
other code. -/
abbrev ExitActions : Type :=
  Std.ExtTreeMap String ExitActionPolicy

/-- The configuration owned by the service manager. -/
@[ext]
structure ManagedApplicationConfig where
  application : Option String := none
  appParameters : Option String := none
  appDirectory : Option String := none
  environment : List String := []
  environmentExtra : List String := []
  priority : Option UInt32 := none
  affinity : Option String := none
  restart : RestartPolicy := {}
  shutdown : ShutdownPolicy := {}
  io : IoRedirectionConfig := {}
  rotation : LogRotationConfig := {}
  exitActions : ExitActions := ∅
  hooks : List HookConfig := []
  expandableStrings : Std.ExtTreeSet String := ∅

namespace ManagedApplicationConfig

/-- The metadata key of a hook command. -/
def hookExpansionKey (event action : String) : String :=
  "AppEvents\\" ++ event ++ "\\" ++ action

/-- Whether a string is marked as holding unexpanded variables. -/
def isExpandableString (cfg : ManagedApplicationConfig) (name : String) : Bool :=
  cfg.expandableStrings.toList.any fun marked => Text.eqIgnoreAsciiCase marked name

end ManagedApplicationConfig

end Ngsm.Core
