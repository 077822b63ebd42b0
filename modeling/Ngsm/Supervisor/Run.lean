/-
# The run of a supervisor

`run` starts generation after generation as the restart policy says, until a stop
request, a failure or the policy itself ends it.  Then it cleans up, hands the
decision over to the runner, and answers the requests that are still queued.
-/

import Ngsm.Supervisor.Generations

namespace Ngsm.Supervisor

open Ngsm.Core Ngsm.Lib

/-! ## The policy -/

def defaultAction (config : ManagedApplicationConfig) : ExitAction :=
  config.restart.defaultAction.getD .restart

/-- The wait after a failed start. -/
def startRetryDelay (config : ManagedApplicationConfig) : Nat :=
  (config.restart.throttleDelayMs.getD 1500).toNat

def restartDelay (config : ManagedApplicationConfig) (lived : Nat) : Nat :=
  let mandatory := (config.restart.restartDelayMs.getD 0).toNat
  let throttle :=
    if lived < throttleThreshold then (config.restart.throttleDelayMs.getD 1500).toNat else 0
  max mandatory throttle

def exitAction (config : ManagedApplicationConfig) (code : Int32) : ExitAction :=
  (config.exitActions[toString code]?.map (·.action)).getD (defaultAction config)

/-! ## One generation after the other -/

/-- Wait for the exit of the child; false when a stop is seen. -/
def awaitExit : Nat → SupM Bool
  | 0 => do
      if ← stopping then
        return false
      if (← get).generation.any (·.exit.isSome) then
        return true
      throw .unfinished
  | rounds + 1 => do
      if ← stopping then
        return false
      if (← get).generation.any (·.exit.isSome) then
        return true
      receiveControl controlPoll
      awaitExit rounds

/-- What a round of the loop over the generations comes to: the values of `first`
and `last_delay` for the next one, or the end. -/
inductive Next where
  | again (first : Bool) (lastDelay : Nat)
  | finished (reason : ExitReason)
deriving DecidableEq, Repr

/-- A `sleep_or_stop` of the policy before the next generation. -/
def backOff (delay rounds : Nat) (next : Next) : SupM Next := do
  let start ← now
  if ← sleepUntil (start + delay) rounds then
    modify fun s => s.emit (.waited delay (s.plant.clock - start))
    return next
  else
    return .finished .stopped

def afterFailure (error : SupervisorError) (first : Bool) (lastDelay rounds : Nat) :
    SupM Next := do
  emit (.startFailed error)
  reportThat "startup/spawn" (.error error)
  cleanupGeneration
  if ← stopping then
    return .finished .stopped
  let config := (← get).config
  match defaultAction config with
  | .suicide => return .finished (.suicide (-1))
  | .exit => fail error
  | _ => backOff (startRetryDelay config) rounds (.again first lastDelay)

def afterExit (code : Int32) (lived rounds : Nat) : SupM Next := do
  cleanupGeneration
  if ← stopping then
    return .finished .stopped
  let config := (← get).config
  match exitAction config code with
  | .restart =>
      let lastDelay := restartDelay config lived
      onlyIf (lastDelay ≠ 0) do emit (.throttled lastDelay)
      backOff lastDelay rounds (.again false lastDelay)
  | .ignore =>
      confirmStartup .quiesced
      return .finished (← waitForStopQuiesced rounds)
  | .exit => return .finished .childExited
  | .suicide => return .finished (.suicide code)

/-- The exit that ended the wait. -/
def observedExit : SupM (Int32 × Nat) := do
  match (← get).generation with
  | some generation =>
      match generation.exit with
      | some exit => return (exit.code, generation.lived exit)
      | none => throw .panicked
  | none => throw .panicked

def attemptStart (first : Bool) (lastDelay : Nat) : SupM (Except SupervisorError Bool) := do
  modify fun s => { s with
    nextGeneration := s.nextGeneration + 1
    trace := s.trace ++ [.attempt] }
  settle (startGeneration first lastDelay)

def runGeneration (first : Bool) (lastDelay rounds : Nat) : SupM Next := do
  if !(← sleepOrStop 0 rounds) then
    return .finished .stopped
  match ← attemptStart first lastDelay with
  | .error error => afterFailure error first lastDelay rounds
  | .ok false => return .finished .stopped
  | .ok true =>
      if !(← awaitExit rounds) then
        return .finished .stopped
      let (code, lived) ← observedExit
      afterExit code lived rounds

def runGenerations : Nat → Bool → Nat → SupM ExitReason
  | 0, _, _ => do
      if ← stopping then
        return .stopped
      throw .unfinished
  | rounds + 1, first, lastDelay => do
      match ← runGeneration first lastDelay rounds with
      | .again first lastDelay => runGenerations rounds first lastDelay
      | .finished reason => return reason

/-! ## The end of the run -/

abbrev Outcome : Type :=
  Except SupervisorError ExitReason

def checkStop : SupM Bool := do
  let answer ← stopping
  emit .check
  return answer

/-- The first check: a stop, or the cleanup of what the policy left. -/
def conclude (result : Outcome) : SupM Outcome := do
  if ← checkStop then
    settle finishStop
  else
    match ← settle cleanupGeneration with
    | .error error => return .error error
    | .ok () => return result

/-- A stop that came after the last check. -/
def recheck (result : Outcome) : SupM Outcome := do
  let stop ← checkStop
  if stop && !(← get).stoppedRecorded then
    settle finishStop
  else
    return result

def awaitRelease (deadline : Nat) : Nat → SupM Unit
  | 0 => return
  | rounds + 1 => do
      let time ← now
      onlyIf (!(← get).terminal.any (·.released) && time < deadline) do
        sleep controlPoll
        awaitRelease deadline rounds

/-- The runner commits its decision while the supervisor still waits. -/
def handOff (result : Outcome) : SupM Outcome := do
  if (← get).terminal.isSome then
    modify fun s => { s with terminal := s.terminal.map fun t => { t with ready := true } }
    let deadline := (← now) + 5000
    awaitRelease deadline (deadline - (← get).plant.clock + 1)
    let _ ← turn
    onlyIf (!(← get).terminal.any (·.released)) do
      report "terminal handoff" "runner did not commit within the bounded handoff deadline"
    recheck result
  else
    return result

/-- The requests still queued are rejected, at most so many messages. -/
def drain : Nat → SupM Unit
  | 0 => return
  | receives + 1 => do
      match ← tryRecv with
      | none => modify fun s => { s with draining := some 0 }
      | some message =>
          modify fun s => { s with draining := some receives }
          message.request.toList.forM (reject · "supervisor has stopped")
          drain receives

def drainLimit : Nat :=
  1024

def finalDrain : SupM Unit := do
  modify fun s => { s with
    draining := some drainLimit
    trace := s.trace ++ [.draining s.queue] }
  drain drainLimit

/-- The supervisor goes, and its receiver with it. -/
def dropReceiver : SupM Unit := do
  let _ ← turn
  modify fun s => { s with receiving := false, queue := [] }

/-- The run up to the moment when its result is certain. -/
def supervise (rounds : Nat) : SupM Outcome := do
  let result ← settle (runGenerations rounds true 0)
  let result ← conclude result
  let result ← recheck result
  handOff result

def run (rounds : Nat) : SupM ExitReason := do
  let result ← supervise rounds
  finalDrain
  match result with
  | .error error =>
      reportThat "terminal failure" (.error error)
      dropReceiver
      fail error
  | .ok reason =>
      dropReceiver
      return reason

/-- A supervisor as `run` finds it: its signals may have been used before. -/
def Sup.start (config : ManagedApplicationConfig) (script : Nat → Turn) (gate : Bool)
    (before : List Move) : Sup :=
  before.foldl Sup.apply { config, script, terminal := if gate then some {} else none }

end Ngsm.Supervisor
