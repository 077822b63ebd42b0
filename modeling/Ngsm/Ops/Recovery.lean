/-
# The recovery policy of a service

What the application's exit codes lead to, as the operators see it: the policy is read
from the stored configuration, and saving one replaces that part of the configuration and
nothing else.  A save that fails writes the original configuration back.
-/

import Ngsm.Ops.Specs

namespace Ngsm.Ops

open Ngsm.Lib Ngsm.Core Ngsm.Registry

/-- The codes are spelled as the supervisor looks them up. -/
def validateExitActionKey (s : String) : Result Unit :=
  if (Text.trim s).isEmpty then
    .error (.other "exit-action key must not be empty")
  else if Text.eqIgnoreAsciiCase (Text.trim s) "default" then
    .error (.other "'default' is not a per-exit-code key; set the default action separately")
  else if s.toList.any fun c => Text.isWhitespace c || Text.isControl c then
    .error (.other "exit-action key must not contain whitespace or control characters")
  else if Text.contains s '=' then
    .error (.other "exit-action key must not contain '='")
  else if Text.contains s '\x00' then
    .error (.other "exit-action key must not contain NUL")
  else
    match Text.parseI32 s with
    | none => .error (.other
        "exit-action key must be an i32 exit code (e.g. -1, 0, 1, 2147483647)")
    | some code =>
        if s ≠ toString code then
          .error (.other ("exit-action key must use canonical signed decimal spelling; use '" ++
            toString code ++ "'"))
        else
          .ok ()

/-- The check of one entry of a request. -/
def validateRecoveryCode (code : String) : Result Unit :=
  match validateExitActionKey code with
  | .ok () => .ok ()
  | .error e => .error (.other ("exit-action code '" ++ code ++ "': " ++ e.text))

/-- The configuration with the policy replaced; the default action becomes explicit. -/
def applyRecovery (original : ManagedApplicationConfig) (spec : RecoverySpec) :
    ManagedApplicationConfig :=
  { original with
    restart := { original.restart with
      restartDelayMs := spec.restartDelayMs
      throttleDelayMs := spec.throttleDelayMs
      defaultAction := some spec.defaultAction }
    exitActions := spec.exitActions.map fun _ action => ⟨action⟩ }

/-- The policy of a configuration; the default action is not listed among the codes. -/
def recoveryOf (name : String) (managed : ManagedApplicationConfig) : RecoverySpec :=
  { name
    restartDelayMs := managed.restart.restartDelayMs
    throttleDelayMs := managed.restart.throttleDelayMs
    defaultAction := managed.restart.defaultAction.getD .restart
    exitActions := (managed.exitActions.filter fun code _ => code != "default").map
      fun _ policy => policy.action }

variable {fold : NameFold} {σ : Type}

/-- Write the policy, and the original configuration when that fails. -/
def writeRecovery (name : String) (original managed : ManagedApplicationConfig) :
    OpM fold σ String := do
  match ← (writeManagedBackend name managed).attempt with
  | .ok () => pure ("Saved recovery policy for '" ++ name ++ "'.")
  | .error error =>
      match ← (writeManagedBackend name original).attempt with
      | .ok () => throw (.other ("recovery update failed (" ++ error.text ++
          "); managed configuration restored"))
      | .error rollback => throw (.other ("recovery update failed (" ++ error.text ++
          "); managed rollback also failed (" ++ rollback.text ++
          "); configuration may be partially applied"))

def saveRecoveryWithBackend (spec : RecoverySpec) : OpM fold σ String := do
  liftExcept (spec.exitActions.keys.forM validateRecoveryCode)
  lockServiceConfig
  match ← readManagedBackend spec.name with
  | none => throw (.other ("'" ++ spec.name ++
      "' is not an NGSM-managed service — refusing to edit its recovery policy"))
  | some original => do
      liftExcept (validateManagedConfig fold (applyRecovery original spec))
      writeRecovery spec.name original (applyRecovery original spec)

def readRecoveryWithBackend (name : String) : OpM fold σ RecoverySpec := do
  match ← readManagedBackend name with
  | none => throw (.other ("'" ++ name ++ "' is not an NGSM-managed service"))
  | some managed => pure (recoveryOf name managed)

/-- Compute a change of the stored policy and save it, under one lock. -/
def updateRecoveryWithBackend (name : String) (update : RecoverySpec → Result RecoverySpec) :
    OpM fold σ String := do
  lockServiceConfig
  let current ← readRecoveryWithBackend name
  let spec ← liftExcept (update current)
  if spec.name ≠ name then
    throw (.other "a recovery update must keep the requested service name")
  else
    saveRecoveryWithBackend spec

end Ngsm.Ops
