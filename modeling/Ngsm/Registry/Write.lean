/-
# Writing a managed configuration

A write replaces the managed content of a parameters key in a fixed order: every
scalar value of the configuration first, then the exit actions, then the hooks,
and only at the end the removal of owned values the configuration does not have.
Inside the two subtrees the same order holds, new entries before stale ones go.

The scalar values are one table, in the order in which they are written: a value
name with what the configuration puts there, if anything.
-/

import Ngsm.Registry.Preflight
import Ngsm.Registry.Read

namespace Ngsm.Registry

open Ngsm.Lib Ngsm.Core NssmKeys

variable {fold : NameFold} {σ : Type}

/-! ## Scalar values -/

/-- Whether a string is stored for expansion; marks are compared as registry
names. -/
def registryIsExpandable (fold : NameFold) (cfg : ManagedApplicationConfig) (name : String) :
    Bool :=
  cfg.expandableStrings.toList.any fun marked =>
    windowsNameKey fold marked = windowsNameKey fold name

/-- The type a configuration string is stored with. -/
def stringKind (fold : NameFold) (cfg : ManagedApplicationConfig) (name : String) : UInt32 :=
  if registryIsExpandable fold cfg name then regExpandSz else regSz

def writeStringTyped (name value : String) (kind : UInt32) : RegM (Node fold σ) Unit := do
  if Text.contains value '\x00' then
    throw (.registry ("value '" ++ name ++
      "' contains an embedded NUL and cannot be stored as REG_SZ"))
  setValue name (stringValue kind value)

def writeString (name value : String) : RegM (Node fold σ) Unit :=
  writeStringTyped name value regSz

def writeConfigString (cfg : ManagedApplicationConfig) (name value : String) :
    RegM (Node fold σ) Unit :=
  writeStringTyped name value (stringKind fold cfg name)

def writeMultiString (name : String) (values : List String) : RegM (Node fold σ) Unit := do
  if values.any fun v => Text.contains v '\x00' || v.isEmpty then
    throw (.registry ("value '" ++ name ++ "' has an empty or NUL-containing entry and cannot be " ++
      "stored as REG_MULTI_SZ"))
  setValue name (multiValue values)

def writeU32 (name : String) (value : UInt32) : RegM (Node fold σ) Unit :=
  setValue name (dwordValue value)

/-- What is written under a scalar name. -/
inductive Payload where
  | string (value : String)
  | multi (values : List String)
  | dword (value : UInt32)

/-- A scalar name and what the configuration has for it. -/
structure Put where
  name : String
  payload : Option Payload

/-- A list is written only when it has entries. -/
def multiPayload (values : List String) : Option Payload :=
  if values.isEmpty then none else some (.multi values)

/-- A flag is written as zero or one. -/
def boolPayload (flag : Option Bool) : Option Payload :=
  flag.map fun b => .dword (if b then 1 else 0)

/-- The values of one redirected stream. -/
def streamPuts (base : String) (stream : Option IoStream) : List Put :=
  [⟨base, stream.map fun s => .string s.path⟩,
    ⟨base ++ appStdioSharing, stream.bind fun s => s.shareMode.map .dword⟩,
    ⟨base ++ appStdioDisposition, stream.bind fun s => s.creationDisposition.map .dword⟩,
    ⟨base ++ appStdioFlags, stream.bind fun s => s.flagsAndAttributes.map .dword⟩,
    ⟨base ++ appStdioCopyAndTruncate, stream.bind fun s => boolPayload s.copyAndTruncate⟩]

/-- The scalar values of a configuration in the order of writing. -/
def scalarPuts (cfg : ManagedApplicationConfig) : List Put :=
  [⟨application, cfg.application.map .string⟩,
    ⟨appParameters, cfg.appParameters.map .string⟩,
    ⟨appDirectory, cfg.appDirectory.map .string⟩,
    ⟨appPriority, cfg.priority.map .dword⟩,
    ⟨appAffinity, cfg.affinity.map .string⟩,
    ⟨appEnvironment, multiPayload cfg.environment⟩,
    ⟨appEnvironmentExtra, multiPayload cfg.environmentExtra⟩,
    ⟨appRestartDelay, cfg.restart.restartDelayMs.map .dword⟩,
    ⟨appThrottle, cfg.restart.throttleDelayMs.map .dword⟩,
    ⟨appStopMethodSkip, cfg.shutdown.stopMethodSkip.map .dword⟩,
    ⟨appKillConsoleGrace, cfg.shutdown.killConsoleGraceMs.map .dword⟩,
    ⟨appKillWindowGrace, cfg.shutdown.killWindowGraceMs.map .dword⟩,
    ⟨appKillThreadsGrace, cfg.shutdown.killThreadsGraceMs.map .dword⟩,
    ⟨appKillProcessTree, boolPayload cfg.shutdown.killProcessTree⟩,
    ⟨appRotate, boolPayload cfg.rotation.enabled⟩,
    ⟨appRotateOnline, cfg.rotation.online.map .dword⟩,
    ⟨appRotateSeconds, cfg.rotation.seconds.map .dword⟩,
    ⟨appRotateBytesLow, cfg.rotation.bytes.map fun v => .dword v.toUInt32⟩,
    ⟨appRotateBytesHigh, cfg.rotation.bytes.map fun (v : UInt64) => .dword (v >>> 32).toUInt32⟩,
    ⟨appRotateDelay, cfg.rotation.delayMs.map .dword⟩,
    ⟨appTimestampLog, boolPayload cfg.io.timestampLog⟩] ++
  streamPuts appStdin cfg.io.stdin ++
  streamPuts appStdout cfg.io.stdout ++
  streamPuts appStderr cfg.io.stderr

/-- Write one scalar value, if the configuration has it. -/
def writePut (cfg : ManagedApplicationConfig) (put : Put) : RegM (Node fold σ) Unit :=
  match put.payload with
  | none => pure ()
  | some (.string value) => writeConfigString cfg put.name value
  | some (.multi values) => writeMultiString put.name values
  | some (.dword value) => writeU32 put.name value

/-- The scalar names a configuration writes. -/
def writtenNames (cfg : ManagedApplicationConfig) : List String :=
  ((scalarPuts cfg).filter (·.payload.isSome)).map (·.name)

/-! ## Exit actions -/

/-- Write one exit action.  A key other than the default has to be an exit code. -/
def writeExitAction (entry : String × ExitActionPolicy) : RegM (Node fold σ) Unit := do
  let registryName := exitRegistryName entry.1
  if !registryName.isEmpty && (Text.parseI32 registryName).isNone then
    throw (.invalidConfig ("AppExit key '" ++ entry.1 ++
      "' is not a valid i32 exit code — the supervisor would never match it at runtime"))
  writeString registryName (exitActionStr entry.2.action)

/-- Remove the values a predicate does not want. -/
def pruneValues (wanted : String → Bool) : RegM (Node fold σ) Unit := do
  let existing ← enumerateValueNames
  existing.forM fun name =>
    if wanted name then pure () else ignoreMissing (deleteValue name)

def reconcileExitActions (exits : ExitActions) : RegM (Params fold σ) Unit :=
  if exits.isEmpty then
    ignoreMissing (deleteSubtree appExit)
  else do
    createSubkeyUnder appExit
    inSubkey appExit do
      exits.toList.forM writeExitAction
      pruneValues fun name => (exits.toList.map fun entry => exitRegistryName entry.1).contains name

/-! ## Hooks -/

/-- The value of a hook command. -/
def hookValue (fold : NameFold) (cfg : ManagedApplicationConfig) (hook : HookConfig) : RegValue :=
  stringValue
    (stringKind fold cfg (ManagedApplicationConfig.hookExpansionKey hook.event hook.action))
    hook.command

def writeHook (cfg : ManagedApplicationConfig) (hook : HookConfig) :
    RegM (Node fold (Node fold σ)) Unit := do
  createSubkeyUnder hook.event
  inSubkey hook.event
    (writeStringTyped hook.action hook.command
      (stringKind fold cfg (ManagedApplicationConfig.hookExpansionKey hook.event hook.action)))

/-- The actions wanted under an event, if it is wanted at all. -/
def wantedActions (fold : NameFold) (hooks : List HookConfig) (event : Name) :
    Option (List Name) :=
  let actions := (hooks.filter fun hook => windowsNameKey fold hook.event = event).map
    fun hook => windowsNameKey fold hook.action
  if actions.isEmpty then none else some actions

/-- Reconcile one event that exists. -/
def reconcileEvent (hooks : List HookConfig) (event : String) :
    RegM (Node fold (Node fold σ)) Unit :=
  match wantedActions fold hooks (windowsNameKey fold event) with
  | none => ignoreMissing (deleteSubtree event)
  | some actions =>
      openSubkeyOr event (pure ())
        (inSubkey event (pruneValues fun name => actions.contains (windowsNameKey fold name)))

def reconcileHooks (cfg : ManagedApplicationConfig) : RegM (Params fold σ) Unit :=
  if cfg.hooks.isEmpty then
    ignoreMissing (deleteSubtree appEvents)
  else do
    createSubkeyUnder appEvents
    inSubkey appEvents do
      cfg.hooks.forM (writeHook cfg)
      let existing ← enumerateSubkeyNames
      existing.forM (reconcileEvent cfg.hooks)

/-! ## The write -/

/-- Every name of the owned subtrees has to decode before anything is written. -/
def checkExistingNames : RegM (Params fold σ) Unit := do
  openSubkeyOr appExit (pure ())
    (inSubkey appExit do let _ ← enumerateValueNames)
  openSubkeyOr appEvents (pure ())
    (inSubkey appEvents do
      let events ← enumerateSubkeyNames
      events.forM fun event =>
        openSubkeyOr event (pure ()) (inSubkey event do let _ ← enumerateValueNames))

/-- Remove the owned scalar values that were not written. -/
def deleteUnwritten (cfg : ManagedApplicationConfig) : RegM (Node fold σ) Unit :=
  ownedValueNames.forM fun name =>
    if (writtenNames cfg).contains name then pure () else ignoreMissing (deleteValue name)

/-- Write a configuration into an open parameters key. -/
def writeIntoKey (cfg : ManagedApplicationConfig) : RegM (Params fold σ) Unit := do
  let exits ← liftExcept (preflightConfig fold cfg)
  checkExistingNames
  (scalarPuts cfg).forM (writePut cfg)
  reconcileExitActions exits
  reconcileHooks cfg
  deleteUnwritten cfg

end Ngsm.Registry
