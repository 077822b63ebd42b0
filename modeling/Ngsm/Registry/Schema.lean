/-
# The names of the managed schema

The value names under a service's parameters key, which of them the manager
owns, and the naming of exit actions.  An exit action has one internal key but
several spellings in the registry: the default action may be the unnamed value
or a value named `Default` in any case, and an exit code may carry a sign,
leading zeros, or its unsigned form.  `normalizeExitActionName` maps all of them
to one key, and is the identity on the keys it produces.
-/

import Ngsm.Registry.Codec

namespace Ngsm.Registry

open Ngsm.Lib Ngsm.Core

namespace NssmKeys

def application : String := "Application"
def appParameters : String := "AppParameters"
def appDirectory : String := "AppDirectory"
def appEnvironment : String := "AppEnvironment"
def appEnvironmentExtra : String := "AppEnvironmentExtra"
def appExit : String := "AppExit"
def appRestartDelay : String := "AppRestartDelay"
def appThrottle : String := "AppThrottle"
def appStopMethodSkip : String := "AppStopMethodSkip"
def appKillConsoleGrace : String := "AppStopMethodConsole"
def appKillWindowGrace : String := "AppStopMethodWindow"
def appKillThreadsGrace : String := "AppStopMethodThreads"
def appKillProcessTree : String := "AppKillProcessTree"
def appStdin : String := "AppStdin"
def appStdout : String := "AppStdout"
def appStderr : String := "AppStderr"
def appStdioSharing : String := "ShareMode"
def appStdioDisposition : String := "CreationDisposition"
def appStdioFlags : String := "FlagsAndAttributes"
def appStdioCopyAndTruncate : String := "CopyAndTruncate"
def appRotate : String := "AppRotateFiles"
def appRotateOnline : String := "AppRotateOnline"
def appRotateSeconds : String := "AppRotateSeconds"
def appRotateBytesLow : String := "AppRotateBytes"
def appRotateBytesHigh : String := "AppRotateBytesHigh"
def appRotateDelay : String := "AppRotateDelay"
def appTimestampLog : String := "AppTimestampLog"
def appPriority : String := "AppPriority"
def appAffinity : String := "AppAffinity"
def appEvents : String := "AppEvents"

end NssmKeys

open NssmKeys

/-- The values the manager owns directly under the parameters key, apart from
the attributes of the streams. -/
def managedValueNames : List String :=
  [application, appParameters, appDirectory, appEnvironment, appEnvironmentExtra,
    appPriority, appAffinity, appRestartDelay, appThrottle, appStopMethodSkip,
    appKillConsoleGrace, appKillWindowGrace, appKillThreadsGrace, appKillProcessTree,
    appStdin, appStdout, appStderr, appRotate, appRotateOnline, appRotateSeconds,
    appRotateBytesLow, appRotateBytesHigh, appRotateDelay, appTimestampLog]

/-- Every value the manager may have written under the parameters key. -/
def ownedValueNames : List String :=
  managedValueNames ++
    [appStdin, appStdout, appStderr].flatMap fun base =>
      [appStdioSharing, appStdioDisposition, appStdioFlags, appStdioCopyAndTruncate].map
        fun suffix => base ++ suffix

/-! ## Exit actions -/

/-- The text of an exit action in the registry. -/
def exitActionStr : ExitAction → String
  | .restart => "Restart"
  | .ignore => "Ignore"
  | .exit => "Exit"
  | .suicide => "Suicide"

def parseExitAction (value : String) : Option ExitAction :=
  match Text.toAsciiLowercase (Text.trim value) with
  | "restart" => some .restart
  | "ignore" => some .ignore
  | "exit" => some .exit
  | "suicide" => some .suicide
  | _ => none

theorem parseExitAction_exitActionStr (action : ExitAction) :
    parseExitAction (exitActionStr action) = some action := by
  cases action <;> decide

/-- The internal key of an exit-action name. -/
def normalizeExitActionName (name : String) : Result String :=
  if name.isEmpty || Text.eqIgnoreAsciiCase name "default" then
    .ok "default"
  else
    match (Text.parseI32 name).or ((Text.parseU32 name).map Text.wrapI32) with
    | some code => .ok (toString code)
    | none => .error (.invalidConfig ("AppExit key '" ++ name ++ "' is not a 32-bit exit code"))

/-- Add an exit action; two spellings of one key must agree. -/
def insertExitAction (out : ExitActions) (name : String) (action : ExitAction) :
    Result ExitActions := do
  let canonical ← normalizeExitActionName name
  match out[canonical]? with
  | some previous =>
      if previous.action ≠ action then
        .error (.invalidConfig ("conflicting AppExit aliases for '" ++ canonical ++ "'"))
      else
        .ok out
  | none => .ok (out.insert canonical ⟨action⟩)

/-- The keys that exit-action names are normalised to. -/
def IsExitKey (key : String) : Prop :=
  key = "default" ∨ ∃ code : Int, Text.IsI32 code ∧ key = toString code

theorem isExitKey_of_normalize {name key : String}
    (hnormal : normalizeExitActionName name = .ok key) : IsExitKey key := by
  unfold normalizeExitActionName at hnormal
  split at hnormal
  · cases hnormal
    exact .inl rfl
  · split at hnormal
    · rename_i code hcode
      cases hnormal
      refine .inr ⟨code, ?_, rfl⟩
      rcases hsigned : Text.parseI32 name with _ | signed
      · rw [hsigned, Option.none_or] at hcode
        obtain ⟨n, hn, rfl⟩ := Option.map_eq_some_iff.mp hcode
        exact Text.isI32_wrapI32 hn
      · rw [hsigned, Option.some_or] at hcode
        cases hcode
        exact Text.isI32_of_parseI32 hsigned
    · cases hnormal

/-- The value name an exit action is written under. -/
def exitRegistryName (key : String) : String :=
  if key = "default" then "" else key

theorem toString_int_ne_default (code : Int) :
    Text.eqIgnoreAsciiCase (toString code) "default" = false := by
  cases hequal : Text.eqIgnoreAsciiCase (toString code) "default" with
  | false => rfl
  | true =>
      rw [Text.eqIgnoreAsciiCase, beq_iff_eq] at hequal
      rcases hchars : (toString code).toList with _ | ⟨c, rest⟩
      · rw [hchars] at hequal
        cases hequal
      · rw [hchars, List.map_cons] at hequal
        have hlower : Text.toAsciiLower c = 'd' := by
          have hhead := congrArg List.head? hequal
          exact Option.some.inj hhead
        have hmem : c ∈ (toString code).toList := by
          rw [hchars]
          exact List.mem_cons_self
        rcases Text.mem_toString_int hmem with rfl | hdigit
        · exact absurd hlower (by decide)
        · rw [Char.isDigit_iff_toNat] at hdigit
          change 48 ≤ c.toNat ∧ c.toNat ≤ 57 at hdigit
          unfold Text.toAsciiLower at hlower
          rw [if_neg (by rintro ⟨h, -⟩; change 65 ≤ c.toNat at h; omega)] at hlower
          subst hlower
          exact absurd hdigit (by decide)

/-- Normalisation is the identity on the keys it produces. -/
theorem normalize_of_isExitKey {key : String} (hkey : IsExitKey key) :
    normalizeExitActionName key = .ok key := by
  rcases hkey with rfl | ⟨code, hcode, rfl⟩
  · rfl
  · have hempty : (toString code).isEmpty = false := by
      have hnonempty := Text.toString_int_ne_empty code
      rwa [← Bool.not_eq_true, String.isEmpty_iff]
    rw [normalizeExitActionName, hempty, toString_int_ne_default code,
      Text.parseI32_toString hcode]
    rfl

/-- The name an exit action is written under reads back as its key. -/
theorem normalize_exitRegistryName {key : String} (hkey : IsExitKey key) :
    normalizeExitActionName (exitRegistryName key) = .ok key := by
  unfold exitRegistryName
  split
  · rename_i hdefault
    rw [hdefault]
    rfl
  · exact normalize_of_isExitKey hkey

/-- A written exit code passes the writer's own numeric check. -/
theorem parseI32_of_isExitKey {key : String} (hkey : IsExitKey key) (hnamed : key ≠ "default") :
    ∃ code, Text.parseI32 key = some code := by
  rcases hkey with hdefault | ⟨code, hcode, rfl⟩
  · exact absurd hdefault hnamed
  · exact ⟨code, Text.parseI32_toString hcode⟩

end Ngsm.Registry
