/-
# Installing a service

The configuration that a request becomes, and the checks before the service is created.
The supervisor checks the configuration again when it launches the application; the
second part compares the two.
-/

import Ngsm.Ops.EditAtomic
import Ngsm.Ops.Specs
import Ngsm.Supervisor.Launch

namespace Ngsm.Ops

open Ngsm.Lib Ngsm.Core Ngsm.Registry Ngsm.Supervisor.Launch

/-! ## The operation's checks -/

/-- The managed configuration that is installed. -/
def managedConfigFromSpec (spec : InstallSpec) : ManagedApplicationConfig :=
  { application := some spec.application
    appParameters := spec.appParameters
    appDirectory := spec.appDirectory
    io := { stdout := spec.stdout.map ioStream, stderr := spec.stderr.map ioStream }
    rotation := spec.rotation
    hooks := spec.hooks }

def installRotationRequested (rotation : LogRotationConfig) : Bool :=
  rotation.enabled == some true || rotation.seconds.isSome || rotation.bytes.isSome ||
    rotation.delayMs.isSome || rotation.online.any (· != 0)

/-- The moments at which the supervisor runs a hook. -/
def supportedHookPoints : List (String × String) :=
  [("Start", "Pre"), ("Start", "Post"), ("Stop", "Pre"), ("Exit", "Post"), ("Rotate", "Pre"),
    ("Rotate", "Post"), ("Power", "Change"), ("Power", "Resume")]

def isSupportedHookPoint (event action : String) : Bool :=
  supportedHookPoints.any fun point =>
    Text.eqIgnoreAsciiCase event point.1 && Text.eqIgnoreAsciiCase action point.2

def supportedHookPointsPretty : String :=
  String.intercalate ", " (supportedHookPoints.map fun point => point.1 ++ "/" ++ point.2)

def validateInstallHook (hook : HookConfig) : Result Unit :=
  if !isSupportedHookPoint hook.event hook.action then
    .error (.other ("hook uses unsupported event/action '" ++ hook.event ++ "/" ++
      hook.action ++ "'; supported points are: " ++ supportedHookPointsPretty))
  else if (Text.trim hook.command).isEmpty then
    .error (.other ("hook " ++ hook.event ++ "/" ++ hook.action ++
      " has an empty command — provide a command to run"))
  else
    .ok ()

def validateInstallOnline : Option UInt32 → Result Unit
  | some online =>
      if 2 < online then
        .error (.other ("rotation online mode must be 0 (offline), 1 (online), or 2 " ++
          "(online-asap); got " ++ toString online.toNat))
      else
        .ok ()
  | none => .ok ()

/-- What installing asks beyond the preflight of the registry. -/
def validateInstallConfig (cfg : ManagedApplicationConfig) : Result Unit := do
  if installRotationRequested cfg.rotation && cfg.io.stdout.isNone && cfg.io.stderr.isNone then
    throw (.other ("rotation flags (--rotate-bytes, --rotate-seconds, --rotate-online) " ++
      "require --stdout and/or --stderr; rotation cannot operate without a redirected log " ++
      "stream"))
  validateInstallOnline cfg.rotation.online
  cfg.hooks.forM validateInstallHook

/-! ## What can be launched -/

section

variable {fold : NameFold} {spec : InstallSpec}

/-- The paths of an accepted request are absolute in the sense of the launch. -/
theorem validatePath_of_valid
    (hvalid : validateManagedConfig fold (managedConfigFromSpec spec) = .ok ())
    (name : String) {path : String}
    (hentry : (name, path) ∈ configuredPaths (managedConfigFromSpec spec)) (label : String) : validatePath label path = .ok () := by
  obtain ⟨exits, hpreflight⟩ := exists_exits_of_valid hvalid
  simp only [preflightConfig, Check.bind_eq_ok] at hpreflight
  obtain ⟨⟨⟩, -, ⟨⟩, -, ⟨⟩, -, ⟨⟩, -, seen, -, ⟨⟩, hpaths, -⟩ := hpreflight
  have hraw := Check.forM_eq_ok.mp hpaths (name, path) hentry
  have hnomark : (managedConfigFromSpec spec).isExpandableString name = false := by
    simp [ManagedApplicationConfig.isExpandableString, managedConfigFromSpec]
  rw [validateRawPath, hnomark, if_neg Bool.false_ne_true] at hraw
  have hchecked : validatePath name path = .ok () := by
    rw [validatePath, hraw]
    rfl
  exact validatePath_eq_ok.mpr (validatePath_eq_ok.mp hchecked)

/-- The logs that the launch supports: no delay between rotations, and no alternate data
stream of a file. -/
def SupportedLogs (spec : InstallSpec) : Prop :=
  spec.rotation.delayMs.any (· != 0) = false ∧
    (∀ path ∈ spec.stdout, (afterDrive path).contains ':' = false) ∧
    ∀ path ∈ spec.stderr, (afterDrive path).contains ':' = false

/-- An accepted request leads to a service that can be launched exactly when its logs are
supported, whatever the environment of the supervisor. -/
theorem install_launchable (envNameEq : OsString → OsString → Bool) (vars : Environment)
    (hvalid : validateManagedConfig fold (managedConfigFromSpec spec) = .ok ()) :
    (∃ launch, prepareLaunch envNameEq vars (managedConfigFromSpec spec) = .ok launch) ↔
      SupportedLogs spec := by
  have hpath := @validatePath_of_valid fold spec hvalid
  have happlication : validateApplication (some spec.application) = .ok () :=
    hpath "Application" (by simp [configuredPaths, managedConfigFromSpec]) "application"
  have hdirectory : validateDirectory spec.appDirectory = .ok () := by
    cases hset : spec.appDirectory with
    | none => rfl
    | some directory =>
        cases hempty : directory.isEmpty with
        | true => simp [validateDirectory, hempty]
        | false =>
            have hchecked : validatePath "app_directory" directory = .ok () :=
              hpath "AppDirectory" (by simp [configuredPaths, managedConfigFromSpec, hset, hempty])
                "app_directory"
            simpa [validateDirectory, hempty] using hchecked
  have hstdout : ∀ path ∈ spec.stdout, validatePath "stdout" path = .ok () := by
    intro path hset
    exact hpath "AppStdout" (by simp [configuredPaths, managedConfigFromSpec,
      Option.mem_def.mp hset, ioStream]) "stdout"
  have hstderr : ∀ path ∈ spec.stderr, validatePath "stderr" path = .ok () := by
    intro path hset
    exact hpath "AppStderr" (by simp [configuredPaths, managedConfigFromSpec,
      Option.mem_def.mp hset, ioStream]) "stderr"
  rw [prepareLaunch_plain envNameEq vars rfl rfl rfl]
  change (false = false ∧ spec.rotation.delayMs.any (· != 0) = false ∧
    validateApplication (some spec.application) = .ok () ∧
    validateDirectory spec.appDirectory = .ok () ∧ validateStream "stdin" spec.rotation none = .ok () ∧
    validateStream "stdout" spec.rotation (spec.stdout.map plainStream) = .ok () ∧
    validateStream "stderr" spec.rotation (spec.stderr.map plainStream) = .ok ()) ↔ _
  rw [validateStream_plain (by decide), validateStream_plain (by decide)]
  constructor
  · rintro ⟨-, hdelay, -, -, -, hout, herr⟩
    exact ⟨hdelay, fun path hset => (hout path hset).2, fun path hset => (herr path hset).2⟩
  · rintro ⟨hdelay, hout, herr⟩
    exact ⟨rfl, hdelay, happlication, hdirectory, rfl,
      fun path hset => ⟨hstdout path hset, hout path hset⟩,
      fun path hset => ⟨hstderr path hset, herr path hset⟩⟩

end

/-! ## An installed service that cannot be launched -/

/-- A service with a log that is rotated with the given delay. -/
def loggedSpec (delayMs : Option UInt32) : InstallSpec :=
  { name := "svc"
    application := "C:\\app.exe"
    stdout := some "C:\\app.log"
    rotation := { bytes := some 1024, delayMs } }

/-- The configuration of that service. -/
def loggedConfig (delayMs : Option UInt32) : ManagedApplicationConfig :=
  { application := some "C:\\app.exe"
    io := { stdout := some { path := "C:\\app.log" } }
    rotation := { bytes := some 1024, delayMs } }

theorem managedConfig_loggedSpec (delayMs : Option UInt32) :
    managedConfigFromSpec (loggedSpec delayMs) = loggedConfig delayMs :=
  rfl

theorem preflight_loggedConfig (delayMs : Option UInt32) :
    preflightConfig asciiFold (loggedConfig delayMs) = .ok ∅ := by
  refine Check.bind_eq_ok.mpr ⟨(), rfl, Check.bind_eq_ok.mpr ⟨(), rfl, ?_⟩⟩
  refine Check.bind_eq_ok.mpr ⟨(), rfl, Check.bind_eq_ok.mpr ⟨(), rfl, ?_⟩⟩
  exact Check.bind_eq_ok.mpr ⟨_, rfl, Check.bind_eq_ok.mpr ⟨(), rfl, rfl⟩⟩

theorem valid_loggedSpec (delayMs : Option UInt32) :
    validateManagedConfig asciiFold (managedConfigFromSpec (loggedSpec delayMs)) = .ok () := by
  rw [managedConfig_loggedSpec, validateManagedConfig, preflight_loggedConfig]
  rfl

theorem supportedLogs_loggedSpec : SupportedLogs (loggedSpec none) := by
  refine ⟨rfl, ?_, ?_⟩
  · intro path hpath
    cases hpath
    have hchars : "C:\\app.log".toList =
        ['C', ':', '\\', 'a', 'p', 'p', '.', 'l', 'o', 'g'] := by
      simp
    change (afterDrive "C:\\app.log").contains ':' = false
    rw [afterDrive, hchars]
    rfl
  · intro path hpath
    cases hpath

/-- Without a delay the service can be launched. -/
theorem loggedSpec_launchable :
    validateManagedConfig asciiFold (managedConfigFromSpec (loggedSpec none)) = .ok () ∧
      ∃ launch, prepareLaunch (fun name other => name == other) []
        (managedConfigFromSpec (loggedSpec none)) = .ok launch :=
  ⟨valid_loggedSpec none, (install_launchable (fun name other => name == other) []
    (valid_loggedSpec none)).mpr supportedLogs_loggedSpec⟩

/-- A service whose rotation has a delay is installed, but no launch accepts it. -/
theorem delayed_not_launchable :
    validateManagedConfig asciiFold (managedConfigFromSpec (loggedSpec (some 1))) = .ok () ∧
      validateInstallConfig (managedConfigFromSpec (loggedSpec (some 1))) = .ok () ∧
      ∀ envNameEq vars, ¬ ∃ launch, prepareLaunch envNameEq vars
        (managedConfigFromSpec (loggedSpec (some 1))) = .ok launch := by
  refine ⟨valid_loggedSpec _, rfl, ?_⟩
  intro envNameEq vars hlaunch
  have hchecks := (prepareLaunch_plain envNameEq vars rfl rfl rfl).mp hlaunch
  exact Bool.noConfusion hchecks.2.1

end Ngsm.Ops
