/-
# Preparing a launch

Before each start the supervisor builds the environment of the application, expands the
marked strings with it, and refuses what it does not support.  Environment variables of
the process are wide strings that need not be text; how two names compare is decided by
the system.
-/

import Ngsm.Core.Expansion
import Ngsm.Core.Validate
import Ngsm.Supervisor.World

namespace Ngsm.Supervisor.Launch

open Ngsm.Lib
open Ngsm.Core

abbrev OsString : Type :=
  List UInt16

abbrev Environment : Type :=
  List (OsString × OsString)

def invalid (message : String) : SupervisorError :=
  .core (.invalidConfig message)

/-! ## The environment -/

def parseEnvEntry (entry : String) : Except SupervisorError (String × String) :=
  match entry.toList.dropWhile (· != '=') with
  | [] => .error (invalid "environment entry must be NAME=VALUE")
  | _ :: value =>
      let name := entry.toList.takeWhile (· != '=')
      if name.isEmpty || name.contains '\x00' || value.contains '\x00' then
        .error (invalid "environment entry has an empty name or embedded NUL")
      else
        .ok (String.ofList name, String.ofList value)

section

variable (envNameEq : OsString → OsString → Bool)

def setEnvironment (environment : Environment) (name value : String) : Environment :=
  environment.filter (fun entry => !envNameEq entry.1 (Utf16.encode name)) ++
    [(Utf16.encode name, Utf16.encode value)]

def lookupEnvironment (environment : Environment) (name : String) : Option String :=
  (environment.find? fun entry => envNameEq entry.1 (Utf16.encode name)).bind fun entry =>
    Utf16.decode entry.2

/-- The configured environment replaces that of the process; the extra entries are
added to either. -/
def effectiveEnvironment (vars : Environment) (cfg : ManagedApplicationConfig) :
    Except SupervisorError Environment :=
  (cfg.environment ++ cfg.environmentExtra).foldlM
    (fun environment entry => do
      let (name, value) ← parseEnvEntry entry
      pure (setEnvironment envNameEq environment name value))
    (if cfg.environment.isEmpty then vars else [])

end

/-! ## Streams -/

/-- The flags that a stream must not have. -/
def unsupportedFlags : UInt32 :=
  0x40000000 ||| 0x20000000 ||| 0x04000000 ||| 0x00200000

def validateOpenOptions (stream : IoStream) : Except SupervisorError Unit :=
  if stream.shareMode.any fun mode => mode &&& ~~~7 != 0 then
    .error (.io "unsupported stream sharing bits")
  else if stream.flagsAndAttributes.getD 0 &&& unsupportedFlags != 0 then
    .error (.io ("overlapped, unbuffered, delete-on-close and open-reparse-point stream " ++
      "flags are unsupported"))
  else
    .ok ()

/-- What follows the drive of a path, or the whole path. -/
def afterDrive (path : String) : List Char :=
  let path := (path.toList.dropPrefix? ['\\', '\\', '?', '\\']).getD path.toList
  match path with
  | drive :: ':' :: rest => if drive.utf8Size = 1 then rest else path
  | _ => path

/-- Refuse what is not supported. -/
def refuse (unsupported : Bool) (error : SupervisorError) : Except SupervisorError Unit :=
  if unsupported then .error error else .ok ()

def validateOutput (stream : IoStream) (rotation : LogRotationConfig) :
    Except SupervisorError Unit := do
  refuse ((afterDrive stream.path).contains ':')
    (.io "alternate data stream log paths are unsupported; use a regular file")
  validateOpenOptions stream
  refuse (stream.creationDisposition.any fun mode => !(1 ≤ mode && mode ≤ 5))
    (.io "invalid output creation disposition")
  refuse ((stream.creationDisposition == some 2 || stream.creationDisposition == some 5) &&
      (rotation.enabled == some true || stream.copyAndTruncate == some true))
    (.io ("destructive creation dispositions cannot be combined with log " ++
      "rotation/CopyAndTruncate"))

def validateInput (stream : IoStream) : Except SupervisorError Unit := do
  validateOpenOptions stream
  refuse ((stream.creationDisposition.any fun mode => mode != 3) ||
      stream.copyAndTruncate == some true)
    (.io "stdin supports only read-only OPEN_EXISTING, without CopyAndTruncate")

/-! ## The launch -/

/-- A hook command is expanded when the hook runs. -/
def isHookMark (name : String) : Bool :=
  (name.toList.take 10).map Text.toAsciiLower == "appevents\\".toList

def validatePath (label path : String) : Except SupervisorError Unit :=
  (validateAbsolutePath label path).mapError .core

/-- What is checked about a stream before it is opened. -/
def validateStream (label : String) (rotation : LogRotationConfig) :
    Option IoStream → Except SupervisorError Unit
  | none => .ok ()
  | some stream => do
      validatePath label stream.path
      if label = "stdin" then validateInput stream else validateOutput stream rotation

/-- The application is configured, and its path is absolute. -/
def validateApplication : Option String → Except SupervisorError Unit
  | some application => validatePath "application" application
  | none => .error .missingApplication

def validateDirectory : Option String → Except SupervisorError Unit
  | some directory =>
      if directory.isEmpty then .ok () else validatePath "app_directory" directory
  | none => .ok ()

/-- The configuration that is launched, with its strings expanded. -/
def resolveLaunch (envNameEq : OsString → OsString → Bool) (environment : Environment)
    (cfg : ManagedApplicationConfig) : Except SupervisorError ManagedApplicationConfig :=
  let launch := { cfg with expandableStrings := cfg.expandableStrings.filter (!isHookMark ·) }
  let lookup : Lookup Unit := fun name => pure (lookupEnvironment envNameEq environment name)
  ((resolveExpandableStrings launch lookup).exec ()).1.mapError .core

/-- What is refused about an expanded configuration. -/
def checkLaunch (cfg : ManagedApplicationConfig) : Except SupervisorError Unit := do
  refuse (cfg.io.timestampLog == some true)
    (invalid "AppTimestampLog is unsupported; the application must timestamp its output")
  refuse (cfg.rotation.delayMs.any (· != 0))
    (invalid ("nonzero AppRotateDelay is unsupported; rotation does not add an " ++
      "artificial delay"))
  validateApplication cfg.application
  validateDirectory cfg.appDirectory
  validateStream "stdin" cfg.rotation cfg.io.stdin
  validateStream "stdout" cfg.rotation cfg.io.stdout
  validateStream "stderr" cfg.rotation cfg.io.stderr

/-- The environment and the configuration of the next start. -/
def prepareLaunch (envNameEq : OsString → OsString → Bool) (vars : Environment)
    (cfg : ManagedApplicationConfig) :
    Except SupervisorError (Environment × ManagedApplicationConfig) := do
  let environment ← effectiveEnvironment envNameEq vars cfg
  let cfg ← resolveLaunch envNameEq environment cfg
  checkLaunch cfg
  pure (environment, cfg)

/-! ## What is launched -/

section

variable {cfg : ManagedApplicationConfig}

theorem refuse_eq_ok {unsupported : Bool} {error : SupervisorError} :
    refuse unsupported error = .ok () ↔ unsupported = false := by
  cases unsupported with
  | true => exact iff_of_false (by simp [refuse]) (by simp)
  | false => exact iff_of_true rfl rfl

/-- A check followed by something else. -/
theorem seq_eq_ok {ε β : Type} {x : Except ε Unit} {f : Unit → Except ε β} {b : β} :
    (x >>= f) = .ok b ↔ x = .ok () ∧ f () = .ok b := by
  rw [Check.bind_eq_ok]
  constructor
  · rintro ⟨⟨⟩, hcheck, hrest⟩
    exact ⟨hcheck, hrest⟩
  · rintro ⟨hcheck, hrest⟩
    exact ⟨(), hcheck, hrest⟩

theorem validatePath_eq_ok {label path : String} :
    validatePath label path = .ok () ↔
      path.toList.any Text.isControl = false ∧ isUnambiguouslyAbsoluteWindows path = true := by
  unfold validatePath validateAbsolutePath
  cases path.toList.any Text.isControl <;> cases isUnambiguouslyAbsoluteWindows path <;>
    simp [Except.mapError]

/-- Without marks nothing is expanded. -/
theorem resolve_no_marks {σ : Type} (lookup : Lookup σ) (s : σ)
    (hmarks : cfg.expandableStrings = ∅) :
    (resolveExpandableStrings cfg lookup).exec s = (.ok cfg, s) := by
  have hmarked : ∀ name text, expandMarked cfg lookup name text = pure text := by
    intro name text
    have hnone : cfg.isExpandableString name = false := by
      simp [ManagedApplicationConfig.isExpandableString, hmarks]
    rw [expandMarked, hnone, if_neg (by simp)]
  have hfield : ∀ name value, expandField cfg lookup name value = pure value := by
    intro name value
    cases value with
    | none => rfl
    | some text =>
        change some <$> expandMarked cfg lookup name text = _
        rw [hmarked]
        rfl
  have hstream : ∀ name stream, expandStream cfg lookup name stream = pure stream := by
    intro name stream
    cases stream with
    | none => rfl
    | some stream =>
        change _ <$> expandMarked cfg lookup name stream.path = _
        rw [hmarked]
        rfl
  have hhooks : ∀ hooks : List HookConfig, hooks.mapM (expandHook cfg lookup) = pure hooks := by
    intro hooks
    induction hooks with
    | nil => rfl
    | cons hook hooks ih =>
        have hhook : expandHook cfg lookup hook = pure hook := by
          rw [expandHook, hmarked]
          rfl
        rw [List.mapM_cons, hhook, ih]
        rfl
  unfold resolveExpandableStrings
  simp only [hfield, hstream, hhooks]
  rw [← hmarks]
  rfl

/-- A stream without options of its own. -/
def plainStream (path : String) : IoStream :=
  { path }

theorem validateOutput_plain (path : String) (rotation : LogRotationConfig) :
    validateOutput (plainStream path) rotation = .ok () ↔
      (afterDrive path).contains ':' = false := by
  unfold validateOutput
  rw [seq_eq_ok, refuse_eq_ok]
  exact and_iff_left (by simp [validateOpenOptions, plainStream, refuse, seq_eq_ok])

theorem validateStream_plain {label : String} (hlabel : label ≠ "stdin")
    (rotation : LogRotationConfig) (path : Option String) :
    validateStream label rotation (path.map plainStream) = .ok () ↔
      ∀ p ∈ path, validatePath label p = .ok () ∧ (afterDrive p).contains ':' = false := by
  cases path with
  | none => exact iff_of_true rfl (by simp)
  | some path =>
      have hstream : validateStream label rotation (some (plainStream path)) = (do
          validatePath label path
          validateOutput (plainStream path) rotation : Except SupervisorError Unit) := by
        rw [validateStream, if_neg hlabel]
        rfl
      rw [Option.map_some, hstream, seq_eq_ok, validateOutput_plain]
      simp

/-- When a configuration without marks and without an environment of its own can be
launched. -/
theorem prepareLaunch_plain (envNameEq : OsString → OsString → Bool) (vars : Environment)
    (hmarks : cfg.expandableStrings = ∅) (henvironment : cfg.environment = [])
    (hextra : cfg.environmentExtra = []) :
    (∃ launch, prepareLaunch envNameEq vars cfg = .ok launch) ↔
      (cfg.io.timestampLog == some true) = false ∧
        cfg.rotation.delayMs.any (· != 0) = false ∧
        validateApplication cfg.application = .ok () ∧
        validateDirectory cfg.appDirectory = .ok () ∧
        validateStream "stdin" cfg.rotation cfg.io.stdin = .ok () ∧
        validateStream "stdout" cfg.rotation cfg.io.stdout = .ok () ∧
        validateStream "stderr" cfg.rotation cfg.io.stderr = .ok () := by
  have hvars : effectiveEnvironment envNameEq vars cfg = .ok vars := by
    rw [effectiveEnvironment, henvironment, hextra]
    rfl
  have hlaunch : resolveLaunch envNameEq vars cfg = .ok cfg := by
    have hsame : { cfg with
        expandableStrings := cfg.expandableStrings.filter (!isHookMark ·) } = cfg := by
      have hnone : cfg.expandableStrings.filter (!isHookMark ·) = ∅ := by
        rw [Std.ExtTreeSet.filter_eq_empty_iff, hmarks]
        exact fun name hname => absurd hname Std.ExtTreeSet.not_mem_empty
      rw [hnone, ← hmarks]
    unfold resolveLaunch
    rw [hsame]
    dsimp only
    rw [resolve_no_marks _ _ hmarks]
    rfl
  have hchecks : prepareLaunch envNameEq vars cfg = (do
      checkLaunch cfg
      pure (vars, cfg) : Except SupervisorError (Environment × ManagedApplicationConfig)) := by
    unfold prepareLaunch
    rw [hvars]
    change (resolveLaunch envNameEq vars cfg >>= _) = _
    rw [hlaunch]
    rfl
  rw [hchecks]
  simp only [checkLaunch, seq_eq_ok, refuse_eq_ok, exists_and_left]
  exact and_iff_left ⟨_, rfl⟩

end

end Ngsm.Supervisor.Launch
