/-
# Reading a managed configuration

The reader looks at one key and never changes it, so it is a function of the key.
It collects along the way which strings are stored with unexpanded variables;
`ReadM` carries that set.  A value that is absent is `none`; a value of the wrong
type or with broken data is an error, never absence.
-/

import Ngsm.Registry.Schema

namespace Ngsm.Registry

open Ngsm.Lib Ngsm.Core NssmKeys

variable {fold : NameFold} {σ α : Type}

/-- The parameters key of a service.  Two levels below it matter, for the exit
actions and the hooks; what lies deeper is never looked at. -/
abbrev Params (fold : NameFold) (σ : Type) : Type :=
  Node fold (Node fold (Node fold σ))

/-- A step of the reader, with the expandable strings found so far. -/
abbrev ReadM (α : Type) : Type :=
  Prog (Std.ExtTreeSet String) Error α

/-- Record an expandable string. -/
def mark (name : String) : ReadM Unit :=
  Prog.step fun marked => (.ok (), marked.insert name)

/-! ## Single values -/

/-- The type and the bytes of a value. -/
def queryValueRaw (key : Node fold σ) (name : String) : Result RegValue :=
  match key.value? name with
  | some value => .ok value
  | none => .error (.notFound ("RegQueryValueEx(" ++ name ++ ") size"))

def readTypedString (key : Node fold σ) (name : String) : Result (String × UInt32) := do
  let value ← queryValueRaw key name
  if value.kind ≠ regSz ∧ value.kind ≠ regExpandSz then
    throw (.registry ("value " ++ name ++ " is not REG_SZ"))
  let text ← bytesToWideString value.data
  pure (text, value.kind)

def readMultiString (key : Node fold σ) (name : String) : Result (List String) := do
  let value ← queryValueRaw key name
  if value.kind ≠ regMultiSz then
    throw (.registry ("value " ++ name ++ " is not REG_MULTI_SZ"))
  bytesToWideMulti value.data

def readU32 (key : Node fold σ) (name : String) : Result UInt32 := do
  let value ← queryValueRaw key name
  decodeU32 name value.kind value.data

/-- Absence is `none`; every other failure stays a failure. -/
def optional (read : Result α) : Result (Option α) :=
  match read with
  | .ok v => .ok (some v)
  | .error (.notFound _) => .ok none
  | .error e => .error e

/-- A configuration string; one stored for expansion is marked. -/
def optConfigString (key : Node fold σ) (name : String) : ReadM (Option String) := do
  match ← liftExcept (optional (readTypedString key name)) with
  | none => pure none
  | some (value, kind) =>
      if kind = regExpandSz then
        mark name
      pure (some value)

def optMultiString (key : Node fold σ) (name : String) : ReadM (Option (List String)) :=
  liftExcept (optional (readMultiString key name))

def optU32 (key : Node fold σ) (name : String) : ReadM (Option UInt32) :=
  liftExcept (optional (readU32 key name))

/-- A redirected stream; an empty path means none. -/
def readIoStream (parent : Node fold σ) (valueName : String) : ReadM (Option IoStream) := do
  match ← optConfigString parent valueName with
  | none => pure none
  | some path =>
      if path.isEmpty then
        pure none
      else
        let shareMode ← optU32 parent (valueName ++ appStdioSharing)
        let creationDisposition ← optU32 parent (valueName ++ appStdioDisposition)
        let flagsAndAttributes ← optU32 parent (valueName ++ appStdioFlags)
        let copyAndTruncate ← optU32 parent (valueName ++ appStdioCopyAndTruncate)
        pure (some {
          path
          shareMode
          creationDisposition
          flagsAndAttributes
          copyAndTruncate := copyAndTruncate.map (· != 0) })

/-! ## Subtrees -/

/-- The largest value the enumeration reads, in bytes. -/
def valueCapLimit : Nat :=
  1024 * 1024

/-- One value of an owned subtree.  Both buffers grow together up to their
limits; whatever fits in neither is refused. -/
def readStringEntry (index : Nat) (entry : Name × RegValue) :
    Result (String × String × UInt32) := do
  if entry.1.length + 1 > nameCapLimit ∨ entry.2.data.length > valueCapLimit then
    throw (.registry s!"registry value at index {index} exceeds the supported size")
  let name ← decodeRegistryName entry.1
  if entry.2.kind ≠ regSz ∧ entry.2.kind ≠ regExpandSz then
    throw (.registry (s!"registry value '{name}' (index {index}) is not a string " ++
      s!"(REG type {entry.2.kind})"))
  let text ← bytesToWideString entry.2.data
  pure (name, text, entry.2.kind)

/-- Read entries in order, stopping at the first that cannot be read. -/
def readAll {β γ : Type} (read : Nat → β → Result γ) : Nat → List β → Result (List γ)
  | _, [] => .ok []
  | index, entry :: rest => do
      let x ← read index entry
      let xs ← readAll read (index + 1) rest
      pure (x :: xs)

def enumerateTypedStringValues (key : Node fold σ) :
    Result (List (String × String × UInt32)) :=
  readAll readStringEntry 0 key.values.entries

/-- The names of the subkeys of a key. -/
def subkeyNames (key : Node fold σ) : Result (List String) :=
  readAll (fun index entry =>
    readName s!"registry subkey name at index {index} exceeds the supported size" entry.1)
    0 key.subkeys.entries

def addExitEntry (out : ExitActions) (entry : String × String × UInt32) : Result ExitActions := do
  let actionName ← normalizeExitActionName entry.1
  match parseExitAction entry.2.1 with
  | some action => insertExitAction out actionName action
  | none =>
      throw (.registry ("AppExit entry '" ++ actionName ++
        "' has an unrecognized action '" ++ entry.2.1 ++ "'"))

def readExitActions (parent : Params fold σ) : Result ExitActions :=
  match parent.subkey? appExit with
  | none => .ok ∅
  | some exitKey => do
      let entries ← enumerateTypedStringValues exitKey
      entries.foldlM addExitEntry ∅

/-- One hook of an event. -/
def readHook (event : String) (out : List HookConfig) (entry : String × String × UInt32) :
    ReadM (List HookConfig) := do
  liftExcept (validateHookComponent entry.1 "action")
  if entry.2.2 = regExpandSz then
    mark (ManagedApplicationConfig.hookExpansionKey event entry.1)
  pure (out ++ [⟨event, entry.1, entry.2.1⟩])

/-- The hooks of one event. -/
def readEvent (eventsKey : Node fold (Node fold σ)) (out : List HookConfig) (event : String) :
    ReadM (List HookConfig) := do
  liftExcept (validateHookComponent event "event")
  match eventsKey.subkey? event with
  | none => pure out
  | some eventKey =>
      let entries ← liftExcept (enumerateTypedStringValues eventKey)
      entries.foldlM (readHook event) out

def readHooks (parent : Params fold σ) : ReadM (List HookConfig) :=
  match parent.subkey? appEvents with
  | none => pure []
  | some eventsKey => do
      let events ← liftExcept (subkeyNames eventsKey)
      events.foldlM (readEvent eventsKey) []

/-! ## The configuration -/

/-- The rotation threshold from its two halves. -/
def rotateBytes : Option UInt32 → Option UInt32 → Option UInt64
  | none, none => none
  | low, high => some (((high.getD 0).toUInt64 <<< 32) ||| (low.getD 0).toUInt64)

/-- The fields of a managed configuration, once its application is known. -/
def readFields (key : Params fold σ) (application : String) : ReadM ManagedApplicationConfig := do
  let rotateLow ← optU32 key appRotateBytesLow
  let rotateHigh ← optU32 key appRotateBytesHigh
  let exitActions ← liftExcept (readExitActions key)
  let appParameters ← optConfigString key NssmKeys.appParameters
  let appDirectory ← optConfigString key NssmKeys.appDirectory
  let environment ← optMultiString key appEnvironment
  let environmentExtra ← optMultiString key appEnvironmentExtra
  let priority ← optU32 key appPriority
  let affinity ← optConfigString key appAffinity
  let restartDelayMs ← optU32 key appRestartDelay
  let throttleDelayMs ← optU32 key appThrottle
  let stopMethodSkip ← optU32 key appStopMethodSkip
  let killConsoleGraceMs ← optU32 key appKillConsoleGrace
  let killWindowGraceMs ← optU32 key appKillWindowGrace
  let killThreadsGraceMs ← optU32 key appKillThreadsGrace
  let killProcessTree ← optU32 key appKillProcessTree
  let stdin ← readIoStream key appStdin
  let stdout ← readIoStream key appStdout
  let stderr ← readIoStream key appStderr
  let timestampLog ← optU32 key appTimestampLog
  let enabled ← optU32 key appRotate
  let online ← optU32 key appRotateOnline
  let seconds ← optU32 key appRotateSeconds
  let delayMs ← optU32 key appRotateDelay
  let hooks ← readHooks key
  pure {
    application := some application
    appParameters
    appDirectory
    environment := environment.getD []
    environmentExtra := environmentExtra.getD []
    priority
    affinity
    restart := {
      restartDelayMs
      throttleDelayMs
      defaultAction := exitActions["default"]?.map (·.action) }
    shutdown := {
      stopMethodSkip
      killConsoleGraceMs
      killWindowGraceMs
      killThreadsGraceMs
      killProcessTree := killProcessTree.map (· != 0) }
    io := { stdin, stdout, stderr, timestampLog := timestampLog.map (· != 0) }
    rotation := {
      enabled := enabled.map (· != 0)
      online
      seconds
      bytes := rotateBytes rotateLow rotateHigh
      delayMs }
    exitActions
    hooks }

/-- The reader without the final collection of the marks.  Without an
`Application` value the service is native; an empty one is a broken managed
configuration. -/
def readManaged (key : Params fold σ) (service : String) :
    ReadM (Option ManagedApplicationConfig) := do
  match ← optConfigString key NssmKeys.application with
  | none => pure none
  | some application =>
      if (Text.trim application).isEmpty then
        throw (.invalidConfig ("service '" ++ service ++
          "' has an empty `Application` value — its managed configuration is corrupt"))
      else
        some <$> readFields key application

/-- Read the configuration of a service from its parameters key. -/
def readManagedFromKey (key : Params fold σ) (service : String) :
    Result (Option ManagedApplicationConfig) :=
  match (readManaged key service).exec ∅ with
  | (.ok cfg, marked) => .ok (cfg.map fun cfg => { cfg with expandableStrings := marked })
  | (.error e, _) => .error e

end Ngsm.Registry
