/-
# Preflight of a managed write

The checks a configuration passes before the first registry call of a write.
They return the exit actions under their normalised keys, with the typed mirror
of the default action merged in.  `Accepted` collects what the writer relies on.
-/

import Ngsm.Registry.Schema

namespace Ngsm.Registry

open Ngsm.Lib Ngsm.Core NssmKeys

variable (fold : NameFold)

/-! ## The checks -/

/-- A managed configuration needs an application. -/
def requireApplication (cfg : ManagedApplicationConfig) : Result Unit :=
  match cfg.application with
  | some app =>
      if (Text.trim app).isEmpty then
        .error (.invalidConfig "managed config requires a non-empty Application value")
      else
        .ok ()
  | none => .error (.invalidConfig "managed config requires a non-empty Application value")

/-- The string values that can be marked for expansion. -/
def expandableNames : List String :=
  ["Application", "AppParameters", "AppDirectory", "AppAffinity", "AppStdin", "AppStdout",
    "AppStderr"]

/-- An expansion mark names a string value or a hook. -/
def checkMark (marked : String) : Result Unit :=
  if expandableNames.any fun name => Text.eqIgnoreAsciiCase marked name then
    .ok ()
  else
    match Text.split marked '\\' with
    | [root, event, action] =>
        if Text.eqIgnoreAsciiCase root "AppEvents" then do
          validateHookComponent event "event"
          validateHookComponent action "action"
        else
          .error (.invalidConfig "unknown expandable string metadata key")
    | _ => .error (.invalidConfig "unknown expandable string metadata key")

/-- The strings of a configuration that reach the registry, with the field each
of them is reported under. -/
def registryStrings (cfg : ManagedApplicationConfig) : List (String × String) :=
  cfg.application.toList.map (("Application", ·)) ++
  cfg.appParameters.toList.map (("AppParameters", ·)) ++
  cfg.appDirectory.toList.map (("AppDirectory", ·)) ++
  cfg.affinity.toList.map (("AppAffinity", ·)) ++
  cfg.environment.zipIdx.map (fun (v, i) => (s!"AppEnvironment[{i}]", v)) ++
  cfg.environmentExtra.zipIdx.map (fun (v, i) => (s!"AppEnvironmentExtra[{i}]", v)) ++
  cfg.io.stdin.toList.map (fun s => ("AppStdin", s.path)) ++
  cfg.io.stdout.toList.map (fun s => ("AppStdout", s.path)) ++
  cfg.io.stderr.toList.map (fun s => ("AppStderr", s.path)) ++
  cfg.exitActions.keys.map (fun name => ("AppExit\\" ++ name, name)) ++
  cfg.hooks.flatMap fun hook =>
    [("AppEvents\\" ++ hook.event, hook.event),
      ("AppEvents\\" ++ hook.event ++ "\\" ++ hook.action, hook.action),
      ("AppEvents\\" ++ hook.event ++ "\\" ++ hook.action ++ " (command)", hook.command)]

def checkNoNul (entry : String × String) : Result Unit :=
  if Text.contains entry.2 '\x00' then
    .error (.invalidConfig (entry.1 ++
      " contains an embedded NUL — registry strings cannot " ++
      "carry NULs (the value would be silently truncated or split)"))
  else
    .ok ()

def precheckNoEmbeddedNuls (cfg : ManagedApplicationConfig) : Result Unit :=
  (registryStrings cfg).forM checkNoNul

/-- A string list cannot hold an empty entry. -/
def checkMulti (entry : String × List String) : Result Unit :=
  if entry.2.any String.isEmpty then
    .error (.invalidConfig (entry.1 ++ " cannot contain an empty REG_MULTI_SZ entry"))
  else
    .ok ()

/-- The identity of a hook, up to the case of its names. -/
def hookIdentity (hook : HookConfig) : Name × Name :=
  (windowsNameKey fold hook.event, windowsNameKey fold hook.action)

/-- Check one hook against those before it: the same identity needs the same
command. -/
def checkHook (seen : List ((Name × Name) × String)) (hook : HookConfig) :
    Result (List ((Name × Name) × String)) := do
  validateHookComponent hook.event "event"
  validateHookComponent hook.action "action"
  match seen.lookup (hookIdentity fold hook) with
  | some previous =>
      if previous ≠ hook.command then
        throw (.invalidConfig "conflicting case-insensitive hook definitions")
      else
        pure ((hookIdentity fold hook, hook.command) :: seen)
  | none => pure ((hookIdentity fold hook, hook.command) :: seen)

/-- A path may start with an environment variable when it is stored for
expansion; otherwise it is absolute. -/
def validateRawPath (cfg : ManagedApplicationConfig) (name value : String) : Result Unit :=
  if cfg.isExpandableString name then
    if value.toList.any Text.isControl then
      .error (.invalidConfig (name ++ " contains a control character"))
    else if ((Text.split value '%').zipIdx.any fun (part, index) =>
        index % 2 == 1 && !part.isEmpty) && 2 ≤ value.toList.count '%' then
      .ok ()
    else
      validateAbsolutePath name value
  else
    validateAbsolutePath name value

/-- The paths of a configuration, with their fields. -/
def configuredPaths (cfg : ManagedApplicationConfig) : List (String × String) :=
  cfg.application.toList.map (("Application", ·)) ++
  (cfg.appDirectory.toList.filter (!·.isEmpty)).map (("AppDirectory", ·)) ++
  cfg.io.stdin.toList.map (fun s => ("AppStdin", s.path)) ++
  cfg.io.stdout.toList.map (fun s => ("AppStdout", s.path)) ++
  cfg.io.stderr.toList.map (fun s => ("AppStderr", s.path))

/-- The exit actions under their normalised keys. -/
def normalizedExitActions (cfg : ManagedApplicationConfig) : Result ExitActions := do
  let out ← cfg.exitActions.toList.foldlM
    (fun out entry => insertExitAction out entry.1 entry.2.action) ∅
  match cfg.restart.defaultAction with
  | some action => insertExitAction out "default" action
  | none => pure out

def preflightConfig (cfg : ManagedApplicationConfig) : Result ExitActions := do
  requireApplication cfg
  cfg.expandableStrings.toList.forM checkMark
  precheckNoEmbeddedNuls cfg
  [(appEnvironment, cfg.environment), (appEnvironmentExtra, cfg.environmentExtra)].forM checkMulti
  let _ ← cfg.hooks.foldlM (checkHook fold) []
  (configuredPaths cfg).forM fun entry => validateRawPath cfg entry.1 entry.2
  normalizedExitActions cfg

/-- The preflight without its result, for callers that only want the verdict. -/
def validateManagedConfig (cfg : ManagedApplicationConfig) : Result Unit :=
  (preflightConfig fold cfg).map fun _ => ()

/-! ## What an accepted configuration satisfies -/

/-- The facts about an accepted configuration that the writer and the reader
depend on; `exits` is what the preflight returned. -/
structure Accepted (cfg : ManagedApplicationConfig) (exits : ExitActions) : Prop where
  application : ∃ app, cfg.application = some app ∧ (Text.trim app).isEmpty = false
  noNul : ∀ entry ∈ registryStrings cfg, Text.contains entry.2 '\x00' = false
  environment : ∀ v ∈ cfg.environment, v ≠ ""
  environmentExtra : ∀ v ∈ cfg.environmentExtra, v ≠ ""
  hookEvent : ∀ hook ∈ cfg.hooks, validateHookComponent hook.event "event" = .ok ()
  hookAction : ∀ hook ∈ cfg.hooks, validateHookComponent hook.action "action" = .ok ()
  hookAgree : ∀ hook ∈ cfg.hooks, ∀ other ∈ cfg.hooks,
    hookIdentity fold hook = hookIdentity fold other → hook.command = other.command
  paths : ∀ entry ∈ configuredPaths cfg, entry.2 ≠ ""
  normalized : normalizedExitActions cfg = .ok exits
  exitKeys : ∀ key ∈ exits, IsExitKey key

theorem ne_empty_of_validateRawPath {cfg : ManagedApplicationConfig} {name value : String}
    (hpath : validateRawPath cfg name value = .ok ()) : value ≠ "" := by
  rintro rfl
  unfold validateRawPath at hpath
  split at hpath
  · exact absurd hpath (by simp [Text.split, validateAbsolutePath, isUnambiguouslyAbsoluteWindows])
  · exact absurd hpath (by simp [validateAbsolutePath, isUnambiguouslyAbsoluteWindows])

theorem insertExitAction_keys {out out' : ExitActions} {name : String} {action : ExitAction}
    (hinsert : insertExitAction out name action = .ok out')
    (hkeys : ∀ key ∈ out, IsExitKey key) : ∀ key ∈ out', IsExitKey key := by
  rw [insertExitAction, Check.bind_eq_ok] at hinsert
  obtain ⟨canonical, hcanonical, hinsert⟩ := hinsert
  split at hinsert
  · split at hinsert
    · cases hinsert
    · cases hinsert
      exact hkeys
  · cases hinsert
    intro key hkey
    rw [Std.ExtTreeMap.mem_insert] at hkey
    rcases hkey with hnew | hold
    · have hequal : canonical = key := by simpa using hnew
      rw [← hequal]
      exact isExitKey_of_normalize hcanonical
    · exact hkeys key hold

theorem normalizedExitActions_keys {cfg : ManagedApplicationConfig} {exits : ExitActions}
    (hexits : normalizedExitActions cfg = .ok exits) : ∀ key ∈ exits, IsExitKey key := by
  rw [normalizedExitActions, Check.bind_eq_ok] at hexits
  obtain ⟨out, hout, hexits⟩ := hexits
  have hkeys : ∀ key ∈ out, IsExitKey key := by
    refine Check.foldlM_invariant (fun _ out => ∀ key ∈ out, IsExitKey key) ?_ ?_ hout
    · intro key hkey
      simp at hkey
    · intro _ entry before after _ hbefore hstep
      exact insertExitAction_keys hstep hbefore
  split at hexits
  · exact insertExitAction_keys hexits hkeys
  · cases hexits
    exact hkeys

/-- The hooks seen so far, with the invariant of the loop over them: each one is
valid, and its identity is recorded with its command. -/
def HooksSeen (done : List HookConfig) (seen : List ((Name × Name) × String)) : Prop :=
  ∀ hook ∈ done,
    validateHookComponent hook.event "event" = .ok () ∧
    validateHookComponent hook.action "action" = .ok () ∧
    seen.lookup (hookIdentity fold hook) = some hook.command

theorem checkHook_step {done : List HookConfig} {seen seen' : List ((Name × Name) × String)}
    {hook : HookConfig} (hseen : HooksSeen fold done seen)
    (hcheck : checkHook fold seen hook = .ok seen') : HooksSeen fold (done ++ [hook]) seen' := by
  rw [checkHook, Check.bind_eq_ok] at hcheck
  obtain ⟨⟨⟩, hevent, hcheck⟩ := hcheck
  rw [Check.bind_eq_ok] at hcheck
  obtain ⟨⟨⟩, haction, hcheck⟩ := hcheck
  have hagree : ∀ previous, seen.lookup (hookIdentity fold hook) = some previous →
      previous = hook.command := by
    intro previous hprevious
    rw [hprevious] at hcheck
    by_contra hne
    simp [hne] at hcheck
  have hseen' : seen' = (hookIdentity fold hook, hook.command) :: seen := by
    split at hcheck
    · split at hcheck <;> cases hcheck
      rfl
    · cases hcheck
      rfl
  subst hseen'
  intro other hother
  rcases List.mem_append.mp hother with hold | hnew
  · obtain ⟨hvalid, hvalid', hlookup⟩ := hseen other hold
    refine ⟨hvalid, hvalid', ?_⟩
    by_cases hsame : hookIdentity fold other = hookIdentity fold hook
    · rw [hsame] at hlookup ⊢
      rw [List.lookup_cons_self, hagree _ hlookup]
    · rw [List.lookup_cons, beq_false_of_ne hsame]
      exact hlookup
  · rw [List.mem_singleton] at hnew
    subst hnew
    exact ⟨hevent, haction, List.lookup_cons_self⟩

theorem accepted_of_preflightConfig {cfg : ManagedApplicationConfig} {exits : ExitActions}
    (hpreflight : preflightConfig fold cfg = .ok exits) : Accepted fold cfg exits := by
  simp only [preflightConfig, Check.bind_eq_ok] at hpreflight
  obtain ⟨⟨⟩, hrequire, ⟨⟩, -, ⟨⟩, hnul, ⟨⟩, hmulti, seen, hhooks, ⟨⟩, hpaths, hexits⟩ := hpreflight
  rw [precheckNoEmbeddedNuls, Check.forM_eq_ok] at hnul
  rw [Check.forM_eq_ok] at hmulti hpaths
  have hseen : HooksSeen fold cfg.hooks seen := by
    refine Check.foldlM_invariant (HooksSeen fold) (by simp [HooksSeen]) ?_ hhooks
    intro done hook before after _ hdone hstep
    exact checkHook_step fold hdone hstep
  refine ⟨?_, ?_, ?_, ?_, ?_, ?_, ?_, ?_, hexits, normalizedExitActions_keys hexits⟩
  · unfold requireApplication at hrequire
    split at hrequire
    · rename_i app happ
      split at hrequire
      · cases hrequire
      · rename_i hnonblank
        exact ⟨app, happ, by simpa using hnonblank⟩
    · cases hrequire
  · intro entry hentry
    have hcheck := hnul entry hentry
    unfold checkNoNul at hcheck
    split at hcheck
    · cases hcheck
    · rename_i hclean
      simpa using hclean
  · intro v hv hempty
    have hcheck := hmulti (appEnvironment, cfg.environment) (by simp)
    have hany : cfg.environment.any String.isEmpty = true :=
      List.any_eq_true.mpr ⟨v, hv, by simp [hempty]⟩
    simp [checkMulti, hany] at hcheck
  · intro v hv hempty
    have hcheck := hmulti (appEnvironmentExtra, cfg.environmentExtra) (by simp)
    have hany : cfg.environmentExtra.any String.isEmpty = true :=
      List.any_eq_true.mpr ⟨v, hv, by simp [hempty]⟩
    simp [checkMulti, hany] at hcheck
  · exact fun hook hmem => (hseen hook hmem).1
  · exact fun hook hmem => (hseen hook hmem).2.1
  · intro hook hhook other hother hsame
    have hlookup := (hseen hook hhook).2.2
    rw [hsame, (hseen other hother).2.2] at hlookup
    exact (Option.some.inj hlookup).symm
  · intro entry hentry
    exact ne_empty_of_validateRawPath (hpaths entry hentry)

end Ngsm.Registry
