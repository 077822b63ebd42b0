/-
# Single values

Reading, setting and clearing one value of a managed configuration by name.  Names are
looked up in a table, whatever their case and the spaces around them; the table also says
which kind of value a name has.  Setting and clearing ask for the marker of a managed
service, so neither makes one out of a native service.
-/

import Ngsm.Ops.Edit

namespace Ngsm.Ops

open Ngsm.Lib Ngsm.Core Ngsm.Registry NssmKeys

/-! ## Names -/

/-- The kinds of values. -/
inductive ManagedValueKind where
  | string
  | multiString
  | number
  deriving DecidableEq, Repr

/-- The table of the names. -/
def managedValueKinds : List (String × ManagedValueKind) :=
  [(application, .string), (appParameters, .string), (appDirectory, .string),
    (appEnvironment, .multiString), (appEnvironmentExtra, .multiString), (appPriority, .number),
    (appAffinity, .string), (appRestartDelay, .number), (appThrottle, .number),
    (appStopMethodSkip, .number), (appKillConsoleGrace, .number), (appKillWindowGrace, .number),
    (appKillThreadsGrace, .number), (appKillProcessTree, .number), (appStdin, .string),
    (appStdout, .string), (appStderr, .string), (appRotate, .number), (appRotateOnline, .number),
    (appRotateSeconds, .number), (appRotateBytesLow, .number), (appRotateBytesHigh, .number),
    (appRotateDelay, .number), (appTimestampLog, .number)]

/-- The attributes of a stream. -/
def stdioAttributeNames (base : String) : List String :=
  [base ++ appStdioSharing, base ++ appStdioDisposition, base ++ appStdioFlags,
    base ++ appStdioCopyAndTruncate]

/-- All names with their kinds; the attributes of the streams come last. -/
def knownValues : List (String × ManagedValueKind) :=
  managedValueKinds ++
    [appStdin, appStdout, appStderr].flatMap fun base =>
      (stdioAttributeNames base).map fun name => (name, .number)

/-- The canonical name and the kind of a name. -/
@[irreducible]
def lookupKind (name : String) : Result (String × ManagedValueKind) :=
  match knownValues.find? fun known => Text.eqIgnoreAsciiCase (Text.trim name) known.1 with
  | some known => .ok known
  | none => .error (.invalidConfig ("unknown managed value '" ++ name ++ "'"))

/-- The names of paths. -/
def isPathValue (canonical : String) : Bool :=
  [application, appDirectory, appStdin, appStdout, appStderr].contains canonical

/-- The names of paths with attributes. -/
def isStdioPathValue (canonical : String) : Bool :=
  [appStdin, appStdout, appStderr].contains canonical

/-! ## Lists as text -/

def replaceChar (c : Char) (replacement : List Char) (cs : List Char) : List Char :=
  cs.flatMap fun d => if d = c then replacement else [d]

/-- The entries joined by commas; a comma or a backslash of an entry is escaped. -/
def joinMultiValue (entries : List String) : String :=
  String.intercalate "," (entries.map fun entry => String.ofList
    (replaceChar ',' ['\\', ','] (replaceChar '\\' ['\\', '\\'] entry.toList)))

/-- The entries of a text, with `current` the entry being read. -/
def splitEntries (current : List Char) : List Char → List String
  | [] => [String.ofList current]
  | '\\' :: ',' :: rest => splitEntries (current ++ [',']) rest
  | '\\' :: '\\' :: rest => splitEntries (current ++ ['\\']) rest
  | '\\' :: rest => splitEntries (current ++ ['\\']) rest
  | ',' :: rest => String.ofList current :: splitEntries [] rest
  | c :: rest => splitEntries (current ++ [c]) rest

/-- The entries of a text; empty ones are dropped. -/
def splitMultiValue (value : String) : List String :=
  (splitEntries [] value.toList).filter fun entry => !entry.isEmpty

/-! ## The operations -/

/-- A value as it is shown. -/
structure ValueRecord where
  kind : ManagedValueKind
  value : String
  deriving DecidableEq, Repr

variable {fold : NameFold} {σ : Type}

/-- The value is absent when there is nothing under the name. -/
def getValueInKey (key : Params fold σ) (name : String) : Result (Option ValueRecord) := do
  let (canonical, kind) ← lookupKind name
  match kind with
  | .string => do
      let read ← Registry.optional (readTypedString key canonical)
      pure (read.map fun value => ⟨kind, value.1⟩)
  | .multiString => do
      let read ← Registry.optional (readMultiString key canonical)
      pure (read.map fun value => ⟨kind, joinMultiValue value⟩)
  | .number => do
      let read ← Registry.optional (readU32 key canonical)
      pure (read.map fun value => ⟨kind, toString value.toNat⟩)

/-- What is checked before the key is looked at: the marker is not set to nothing, and a
path that is set is absolute. -/
def checkSetValue (canonical value : String) : Result Unit :=
  if canonical = application ∧ (Text.trim value).isEmpty then
    .error (.invalidConfig ("Application must not be set to an empty value — it is the " ++
      "managed-service marker"))
  else if isPathValue canonical && !(Text.trim value).isEmpty then
    validateAbsolutePath canonical value
  else
    .ok ()

/-- Remove a path, and the attributes of its stream. -/
def clearPathValue (canonical : String) : RegM (Params fold σ) Unit := do
  ignoreMissing (deleteValue canonical)
  if isStdioPathValue canonical then
    (stdioAttributeNames canonical).forM fun name => ignoreMissing (deleteValue name)
  else
    pure ()

/-- Write a value of a known kind. -/
def putValue (canonical value : String) : ManagedValueKind → RegM (Params fold σ) Unit
  | .string =>
      if isPathValue canonical && canonical != application && (Text.trim value).isEmpty then
        clearPathValue canonical
      else
        writeString canonical value
  | .multiString => writeMultiString canonical (splitMultiValue value)
  | .number =>
      match Text.parseU32 value with
      | none => throw (.invalidConfig (canonical ++ " expects a numeric value, got '" ++
          value ++ "'"))
      | some parsed => writeU32 canonical (UInt32.ofNat parsed)

def setValueInKey (name value : String) : RegM (Params fold σ) Unit := do
  let (canonical, kind) ← liftExcept (lookupKind name)
  liftExcept (checkSetValue canonical value)
  requireManagedMarker
  putValue canonical value kind

def unsetValueInKey (name : String) : RegM (Params fold σ) Unit := do
  let (canonical, _) ← liftExcept (lookupKind name)
  if canonical = application then
    throw (.invalidConfig ("refusing to unset Application — it is the managed-service " ++
      "marker; remove the whole managed config instead"))
  else do
    requireManagedMarker
    if isStdioPathValue canonical then
      clearPathValue canonical
    else
      ignoreMissing (deleteValue canonical)

/-! ## The calls -/

namespace SingleValue

/-- Opening the parameters key of a service. -/
def openParameters (service : String) : RegM (Params fold σ) Unit :=
  query (mapRegError ("RegOpenKeyEx(SYSTEM\\CurrentControlSet\\Services\\" ++ service ++
    "\\Parameters)")) fun _ => .ok ()

/-- Taking the lock on the configuration of a service. -/
def lockConfiguration : RegM (Params fold σ) Unit :=
  query (fun fault => .registry ("configuration lock: " ++ fault.text)) fun _ => .ok ()

def setValue (service name value : String) : RegM (Params fold σ) Unit := do
  liftExcept (validateServiceName service)
  lockConfiguration
  openParameters service
  setValueInKey name value

def unsetValue (service name : String) : RegM (Params fold σ) Unit := do
  liftExcept (validateServiceName service)
  lockConfiguration
  openParameters service
  unsetValueInKey name

/-- A service without a parameters key has no values. -/
def getValue (service name : String) : Option (Params fold σ) → Result (Option ValueRecord)
  | none => do
      validateServiceName service
      let _ ← lookupKind name
      pure none
  | some key => do
      validateServiceName service
      getValueInKey key name

end SingleValue

end Ngsm.Ops
