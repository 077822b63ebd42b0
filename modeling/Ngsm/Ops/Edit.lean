/-
# Editing a managed service

The edit operation reads the stored configuration, merges the requested fields,
writes the result and then updates the native service.  When the write or the
native update fails, it writes the original configuration back.

`Backend` is the registry key of the service together with everything that can
go wrong: the lock, the read, each system call of each write, and the answer of
the service control manager.  It also logs the calls, as the recording backend of
the source's tests does.
-/

import Ngsm.Registry.Recovery

namespace Ngsm.Ops

open Ngsm.Lib Ngsm.Core Ngsm.Registry

/-! ## Requests -/

structure ServiceDependencies where
  services : List String
  groups : List String
  deriving DecidableEq, Repr

inductive InstallStartType where
  | manual
  | automatic
  | disabled
  deriving DecidableEq, Repr

/-- A change to a service; only the fields that are given are written. -/
structure EditSpec where
  name : String
  displayName : Option String := none
  description : Option String := none
  application : Option String := none
  appParameters : Option String := none
  appDirectory : Option String := none
  stdout : Option String := none
  stderr : Option String := none
  startType : Option InstallStartType := none
  dependencies : Option ServiceDependencies := none
  account : Option String := none
  password : Option String := none
  deriving DecidableEq, Repr

namespace EditSpec

/-- Some field of the managed configuration is given. -/
def touchesManaged (spec : EditSpec) : Bool :=
  spec.application.isSome || spec.appParameters.isSome || spec.appDirectory.isSome ||
    spec.stdout.isSome || spec.stderr.isSome

/-- Some field of the native service is given. -/
def touchesNative (spec : EditSpec) : Bool :=
  spec.displayName.isSome || spec.description.isSome || spec.startType.isSome ||
    spec.dependencies.isSome || spec.account.isSome || spec.password.isSome

def hasChanges (spec : EditSpec) : Bool :=
  spec.displayName.isSome || spec.description.isSome || spec.application.isSome ||
    spec.appParameters.isSome || spec.appDirectory.isSome || spec.stdout.isSome ||
    spec.stderr.isSome || spec.startType.isSome || spec.dependencies.isSome ||
    spec.account.isSome || spec.password.isSome

end EditSpec

/-! ## Validation of the native fields -/

def validateServiceDependencyName (value : String) : Result Unit :=
  if value.toList.head? = some '+' then
    .error (.invalidConfig
      "service dependency must not begin with '+'; use a group dependency instead")
  else
    match validateServiceName value with
    | .ok () => .ok ()
    | .error _ => .error (.invalidConfig ("service dependency entry must be a valid service " ++
        "name (non-empty, at most 256 UTF-16 code units, and no path separators or " ++
        "control characters)"))

def isGroupDependencyPathChar (c : Char) : Bool :=
  c == '\\' || c == '/' || c == ':'

def validateGroupDependencyName (value : String) : Result Unit :=
  if value.isEmpty then
    .error (.invalidConfig "group dependency entry must not be empty")
  else if value.toList.any Text.isControl then
    .error (.invalidConfig "group dependency entry must not contain NUL or control characters")
  else if value = "." ∨ value = ".." ∨ value.toList.any isGroupDependencyPathChar = true then
    .error (.invalidConfig ("group dependency entry must not contain path separators or " ++
      "path-like characters"))
  else
    .ok ()

def ServiceDependencies.isEmpty (dependencies : ServiceDependencies) : Bool :=
  dependencies.services.isEmpty && dependencies.groups.isEmpty

def ServiceDependencies.validate (dependencies : ServiceDependencies) : Result Unit := do
  dependencies.services.forM validateServiceDependencyName
  dependencies.groups.forM validateGroupDependencyName

def validateAccount (account : String) : Result Unit :=
  if account.toList.any Text.isControl then
    .error (.invalidConfig "service account must not contain NUL or control characters")
  else
    .ok ()

def validatePassword (password : String) : Result Unit :=
  if Text.contains password '\x00' then
    .error (.invalidConfig
      "password contains an embedded NUL, which cannot be passed to the SCM")
  else
    .ok ()

def validateNativeString (field value : String) : Result Unit :=
  if Text.contains value '\x00' then
    .error (.invalidConfig (field ++ " must not contain an embedded NUL"))
  else
    .ok ()

def validateDisplayName (display : String) : Result Unit := do
  validateNativeString "display name" display
  if (Utf16.encode display).length > 256 then
    .error (.invalidConfig "display name exceeds 256 UTF-16 code units")
  else
    .ok ()

def validateCredentials (account : Option String) (password : String) : Result Unit := do
  validatePassword password
  if account.isNone then
    .error (.invalidConfig
      "--password-stdin requires --account so the SCM can apply the password")
  else
    .ok ()

/-- The preflight of the native fields; it looks at nothing but the request. -/
def validateNativeUpdate (spec : EditSpec) : Result Unit := do
  validateServiceName spec.name
  spec.displayName.toList.forM validateDisplayName
  spec.description.toList.forM (validateNativeString "description")
  spec.dependencies.toList.forM ServiceDependencies.validate
  spec.account.toList.forM validateAccount
  spec.password.toList.forM (validateCredentials spec.account)

/-! ## Merging -/

/-- A plain stream with all options left to the supervisor. -/
def ioStream (path : String) : IoStream :=
  { path }

/-- An empty path removes the stream; a new path keeps the options. -/
def mergeStreamPath (stream : Option IoStream) : Option String → Option IoStream
  | none => stream
  | some path =>
      if path.isEmpty then
        none
      else
        match stream with
        | some stream => some { stream with path }
        | none => some (ioStream path)

/-- Drop the expansion mark of a stream that is removed. -/
def dropMark (path : Option String) (key : String) (marked : Std.ExtTreeSet String) :
    Std.ExtTreeSet String :=
  if path = some "" then
    marked.filter fun mark => !Text.eqIgnoreAsciiCase mark key
  else
    marked

/-- The configuration with the requested fields replaced. -/
def mergeManagedFields (managed : ManagedApplicationConfig) (spec : EditSpec) :
    Result ManagedApplicationConfig :=
  if spec.application.any fun v => (Text.trim v).isEmpty then
    .error (.other "Application path must not be empty.")
  else
    .ok { managed with
      application := spec.application.or managed.application
      appParameters := spec.appParameters.or managed.appParameters
      appDirectory := spec.appDirectory.or managed.appDirectory
      io := { managed.io with
        stdout := mergeStreamPath managed.io.stdout spec.stdout
        stderr := mergeStreamPath managed.io.stderr spec.stderr }
      expandableStrings := dropMark spec.stderr "AppStderr"
        (dropMark spec.stdout "AppStdout" managed.expandableStrings) }

/-! ## The backend -/

/-- A call the backend received; a write with whether it succeeded. -/
inductive Call where
  | read
  | write (succeeded : Bool)
  | native
  deriving DecidableEq, Repr

/-- The stored service and the failures that lie ahead. -/
structure Backend (fold : NameFold) (σ : Type) where
  key : Params fold σ
  lockError : Option Error
  readError : Option Error
  /-- The schedule of each write, counted from zero. -/
  writeFaults : Nat → Nat → Option Fault
  nativeError : Option Error
  writes : Nat := 0
  calls : List Call := []

/-- A step of an operation on the service. -/
abbrev OpM (fold : NameFold) (σ α : Type) : Type :=
  Prog (Backend fold σ) Error α

variable {fold : NameFold} {σ : Type}

/-- Only a key with an application that is not blank may be overwritten. -/
def requireManagedMarker : RegM (Params fold σ) Unit :=
  query (mapRegError "RegQueryValueEx(Application) size") fun node =>
    match Registry.optional (readTypedString node NssmKeys.application) with
    | .error e => .error e
    | .ok (some (value, _)) =>
        if (Text.trim value).isEmpty then
          .error (.invalidConfig ("a valid nonempty Application marker is required; native " ++
            "services cannot be modified"))
        else
          .ok ()
    | .ok none => .error (.invalidConfig ("a valid nonempty Application marker is required; " ++
        "native services cannot be modified"))

/-- Overwrite the managed configuration of a service whose parameters key exists.
Taking the lock and opening the key are calls that may fail like the rest. -/
def writeManagedConfig (service : String) (cfg : ManagedApplicationConfig) :
    RegM (Params fold σ) Unit := do
  liftExcept (validateServiceName service)
  liftExcept (validateManagedConfig fold cfg)
  query (fun fault => .registry ("configuration lock: " ++ fault.text)) fun _ => .ok ()
  liftExcept (requireApplication cfg)
  query (mapRegError ("RegOpenKeyEx(SYSTEM\\CurrentControlSet\\Services\\" ++ service ++
    "\\Parameters)")) fun _ => .ok ()
  requireManagedMarker
  writeIntoKey cfg

def lockServiceConfig : OpM fold σ Unit :=
  Prog.step fun b =>
    match b.lockError with
    | some e => (.error e, b)
    | none => (.ok (), b)

def readManagedBackend (service : String) : OpM fold σ (Option ManagedApplicationConfig) :=
  Prog.step fun b =>
    match b.readError with
    | some e => (.error e, { b with calls := b.calls ++ [.read] })
    | none => (readManagedFromKey b.key service, { b with calls := b.calls ++ [.read] })

def writeManagedBackend (service : String) (cfg : ManagedApplicationConfig) : OpM fold σ Unit :=
  Prog.step fun b =>
    let (outcome, w) := (writeManagedConfig service cfg).exec ⟨b.key, b.writeFaults b.writes⟩
    (outcome, { b with
      key := w.node
      writes := b.writes + 1
      calls := b.calls ++ [.write outcome.isOk] })

def updateNative : OpM fold σ Unit :=
  Prog.step fun b =>
    match b.nativeError with
    | some e => (.error e, { b with calls := b.calls ++ [.native] })
    | none => (.ok (), { b with calls := b.calls ++ [.native] })

/-! ## The operation -/

/-- Write the original configuration back and describe what happened. -/
def rollbackManaged (spec : EditSpec) (original : ManagedApplicationConfig) (error : Error)
    (nativeAttempted : Bool) : OpM fold σ Error := do
  let phase := if nativeAttempted then "native edit" else "managed edit"
  let nativeStatus := if nativeAttempted then
      "Native SCM fields (including account/password) were not rolled back; " ++
        "inspect native configuration for partial application."
    else "No native SCM changes were attempted."
  let restored ← match ← (writeManagedBackend spec.name original).attempt with
    | .ok () => pure "managed configuration restored"
    | .error rollback => pure ("managed rollback also failed (" ++ rollback.text ++
        "); managed configuration may be partially applied")
  pure (.other (phase ++ " failed (" ++ error.text ++ "); " ++ restored ++ ". " ++
    nativeStatus))

/-- The managed part of an edit. -/
def editManaged (spec : EditSpec) (original : ManagedApplicationConfig) : OpM fold σ Unit := do
  let managed ← liftExcept (mergeManagedFields original spec)
  liftExcept (validateManagedConfig fold managed)
  match ← (writeManagedBackend spec.name managed).attempt with
  | .ok () => pure ()
  | .error error => do
      let report ← rollbackManaged spec original error false
      throw report

/-- The native part of an edit. -/
def editNative (spec : EditSpec) (original : ManagedApplicationConfig) : OpM fold σ Unit := do
  match ← (updateNative : OpM fold σ Unit).attempt with
  | .ok () => pure ()
  | .error error =>
      if spec.touchesManaged then do
        let report ← rollbackManaged spec original error true
        throw report
      else
        throw error

/-- Edit an existing managed service. -/
def editWithBackend (spec : EditSpec) : OpM fold σ String :=
  if spec.hasChanges then do
    liftExcept (validateNativeUpdate spec)
    lockServiceConfig
    match ← readManagedBackend spec.name with
    | none => throw (.other ("'" ++ spec.name ++
        "' is not an NGSM-managed service — refusing to edit it"))
    | some original => do
        (if spec.touchesManaged then editManaged spec original else pure ())
        (if spec.touchesNative then editNative spec original else pure ())
        pure ("Edited '" ++ spec.name ++ "'.")
  else
    throw (.invalidConfig "no edit fields specified")

end Ngsm.Ops
