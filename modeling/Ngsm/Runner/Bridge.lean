/-
# The bridge to the service control manager

While the supervisor runs in a thread of its own, the bridge keeps the service control manager
informed.  In one loop it takes the controls of the service, watches for the start, for the end
of the supervisor and for the outcome of a pause or a continue, and reports the status that
follows.  When the supervisor is ready to end, the bridge claims the terminal decision and lets
it go.  `finish` reports how it all ended.

The bridge is a dialogue: it knows the context of the service, the signals, the supervisor's
thread and the clock only by its calls.  Times are in milliseconds.
-/

import Ngsm.Lib.Dialogue
import Ngsm.Supervisor.World
import Ngsm.Win32.ControlChannel

namespace Ngsm.Runner

open Ngsm.Lib
open Ngsm.Supervisor (ExitReason StartupStatus SupervisorError TransitionOutcome)
open Ngsm.Win32.ControlChannel (ServiceControl RecvError)

def suicideFallbackExitCode : UInt32 :=
  1

def supervisorErrorExitCode : UInt32 :=
  2

/-- `SERVICE_CONTROL_ROTATE`. -/
def serviceControlRotate : UInt32 :=
  174

def serviceExitCodeFor : ExitReason → UInt32
  | .stopped | .childExited => 0
  | .spawnFailed => supervisorErrorExitCode
  | .suicide exitCode => if exitCode > 0 then exitCode.toUInt32 else suicideFallbackExitCode

inductive Terminal where
  | stopped (code : UInt32)
  /-- The host exits without the report that it has stopped. -/
  | crash (code : UInt32)
deriving DecidableEq, Repr

def terminalFor (reason : Except Unit ExitReason) (explicitStop : Bool) : Terminal :=
  if explicitStop then .stopped 0
  else
    match reason with
    | .ok (.suicide exitCode) => .crash (serviceExitCodeFor (.suicide exitCode))
    | .ok reason => .stopped (serviceExitCodeFor reason)
    | .error () => .stopped supervisorErrorExitCode

inductive Status where
  | startPending
  | running
  | pausePending
  | paused
  | continuePending
  | stopPending
  | stopped (code : UInt32)
deriving DecidableEq, Repr

/-! ## The calls -/

/-- What a report to the diagnostics says. -/
inductive Diagnostic where
  | text (message : String)
  | failure (error : SupervisorError)
  /-- The manager refused a status, with this error. -/
  | refused (status : Status) (error : String)
  /-- The outcome, and that the previous state is restored. -/
  | restored (outcome : TransitionOutcome)
deriving DecidableEq, Repr

/-- The calls of the bridge.  A transition is known by the number of its request. -/
inductive Call where
  | now
  | tryRecv
  | recvTimeout (timeout : ℕ)
  | stopRequested
  | claimTerminal
  | report (status : Status)
  /-- `startup.try_recv()`. -/
  | startup
  | isFinished
  | join
  /-- `StopSignal::stop`. -/
  | stop
  | rotate
  | powerEvent (event : UInt32)
  /-- `request_pause` or `request_resume`. -/
  | request (pause : Bool)
  | cancel (request : ℕ)
  | outcome (request : ℕ)
  /-- `TerminalGate::is_ready`. -/
  | isReady
  /-- `TerminalGate::release`. -/
  | release
  | diagnose (operation : String) (message : Diagnostic)
  | flush
  | terminateCurrentProcess (code : UInt32)
deriving DecidableEq, Repr

/-- How the supervisor's thread ended; `none` is a panic. -/
abbrev Joined : Type :=
  Option (Except SupervisorError ExitReason)

/-- What the calls return.  The answer to a report is the error of a refused status. -/
@[reducible]
def Call.Answer : Call → Type
  | .now => ℕ
  | .tryRecv | .recvTimeout _ => Except RecvError ServiceControl
  | .stopRequested | .claimTerminal | .isFinished | .isReady => Bool
  | .report _ => Option String
  | .startup => Option StartupStatus
  | .join => Joined
  | .request _ => ℕ
  | .outcome _ => Option TransitionOutcome
  | _ => Unit

abbrev Talk : Type → Type :=
  Dialogue Call Call.Answer

def ask (call : Call) : Talk call.Answer :=
  Dialogue.ask call

def now : Talk ℕ :=
  ask .now

/-- A call without an answer, when the condition holds. -/
def onlyIf (condition : Bool) (m : Talk Unit) : Talk Unit :=
  if condition then m else pure ()

def stop : Talk Unit :=
  ask .stop

def diagnose (operation message : String) : Talk Unit :=
  ask (.diagnose operation (.text message))

def report (status : Status) : Talk Unit := do
  match ← ask (.report status) with
  | some error => ask (.diagnose "SCM status" (.refused status error))
  | none => return

/-! ## The state of the loop -/

structure Timing where
  poll : ℕ := 250
  checkpoint : ℕ := 2000
  startup : ℕ := 60000
  transition : ℕ := 15000
  stop : ℕ := 120000

structure Pending where
  request : ℕ
  pause : Bool
  started : ℕ
deriving DecidableEq, Repr

/-- The variables of `bridge`; `stopping` holds since when. -/
structure Flags where
  started : ℕ
  checkpoint : ℕ
  running : Bool := false
  paused : Bool := false
  stopping : Option ℕ := none
  explicitStop : Bool := false
  failureCode : Option UInt32 := none
  pending : Option Pending := none
  deferred : Option Bool := none
  firstControl : Option ServiceControl := none
  terminalClaimed : Bool := false
deriving DecidableEq

structure BridgeExit where
  terminal : Terminal
  forceExit : Bool
deriving DecidableEq, Repr

/-! ## A round of the loop -/

/-- The controls that wait, at most so many; a closed channel counts as a stop. -/
def drainControls : ℕ → List ServiceControl → Flags → Talk (List ServiceControl × Flags)
  | 0, controls, flags => return (controls, flags)
  | left + 1, controls, flags => do
      match ← ask .tryRecv with
      | .ok control => drainControls left (controls ++ [control]) flags
      | .error .disconnected => return (controls, { flags with explicitStop := true })
      | .error _ => return (controls, flags)

def readControls (flags : Flags) : Talk (List ServiceControl × Flags) := do
  let (controls, flags) ←
    drainControls 32 flags.firstControl.toList { flags with firstControl := none }
  let requested : Bool ← ask .stopRequested
  return (controls, { flags with
    explicitStop := flags.explicitStop || requested || controls.any (·.isTerminal) })

/-- Cancel the transition that runs and forget the next one. -/
def dropTransition (flags : Flags) : Talk Flags := do
  match flags.pending with
  | some transition => ask (.cancel transition.request)
  | none => pure ()
  return { flags with pending := none, deferred := none }

def claimTerminal (flags : Flags) : Talk Flags := do
  if flags.terminalClaimed then
    return flags
  let ready : Bool ← ask .isReady
  if !ready then
    return flags
  let claimed : Bool ← ask .claimTerminal
  let flags := { flags with explicitStop := flags.explicitStop || claimed }
  onlyIf flags.explicitStop stop
  -- the stop is published first: the supervisor looks for it again once it is released
  ask .release
  let flags ← dropTransition { flags with terminalClaimed := true }
  if flags.stopping.isSome then
    return flags
  let time ← now
  report .stopPending
  return { flags with stopping := some time, checkpoint := ← now }

def beginStop (flags : Flags) : Talk Flags := do
  if !flags.explicitStop || flags.stopping.isSome then
    return flags
  let time ← now
  stop
  let flags ← dropTransition { flags with stopping := some time }
  report .stopPending
  return { flags with checkpoint := ← now }

/-- A stop was accepted; the flag spares the call. -/
def acceptedStop (flags : Flags) : Talk Bool :=
  if flags.explicitStop then return true
  else ask .stopRequested

/-- The result of the supervisor's thread, with the trouble reported. -/
def joinSupervisor : Talk (Except Unit ExitReason) := do
  match ← ask .join with
  | some (.ok reason) => return .ok reason
  | some (.error error) =>
      ask (.diagnose "supervisor terminal failure" (.failure error))
      return .error ()
  | none =>
      diagnose "supervisor terminal failure" "thread panicked"
      return .error ()

/-- The end of the supervisor ends the loop. -/
def complete (flags : Flags) : Talk (Option BridgeExit) := do
  let finished : Bool ← ask .isFinished
  if !finished then
    return none
  let result ← joinSupervisor
  let accepted ← acceptedStop flags
  let terminal :=
    if accepted then .stopped 0
    else
      match flags.failureCode with
      | some code => .stopped code
      | none => terminalFor result false
  return some { terminal, forceExit := !result.isOk }

def observeStartup (timing : Timing) (flags : Flags) : Talk Flags := do
  if flags.running || flags.stopping.isSome then
    return flags
  match ← ask .startup with
  | some status =>
      onlyIf (status = .quiesced) <| diagnose "startup"
        "initial Ignore policy: host is intentionally quiesced without a child"
      report .running
      return { flags with running := true, checkpoint := ← now }
  | none =>
      let time ← now
      if time - flags.started < timing.startup then
        return flags
      diagnose "startup" "no confirmed live/quiesced startup before deadline"
      let time ← now
      stop
      report .stopPending
      return { flags with
        failureCode := some 3
        stopping := some time
        checkpoint := ← now }

def applyControl (flags : Flags) : ServiceControl → Talk Flags
  | .pause => return if flags.running then { flags with deferred := some true } else flags
  | .continue_ => return if flags.running then { flags with deferred := some false } else flags
  | .powerEvent event => do
      ask (.powerEvent event)
      return flags
  | .other code => do
      onlyIf (code = serviceControlRotate) (ask .rotate)
      return flags
  | _ => return flags

def applyControls : List ServiceControl → Flags → Talk Flags
  | [], flags => return flags
  | control :: controls, flags => do applyControls controls (← applyControl flags control)

/-- What an outcome means for the state of the service. -/
def applyOutcome (transition : Pending) (flags : Flags) : TransitionOutcome → Talk Flags
  | .applied => return { flags with paused := transition.pause }
  | .degraded error => do
      diagnose "pause/continue" s!"fail-stop: {error}"
      return { flags with
        failureCode := some supervisorErrorExitCode
        stopping := some (← now) }
  | outcome => do
      ask (.diagnose "pause/continue" (.restored outcome))
      return flags

/-- The status after a transition has ended. -/
def Flags.settled (flags : Flags) : Status :=
  if flags.stopping.isSome then .stopPending
  else if flags.paused then .paused
  else .running

def followTransition (timing : Timing) (flags : Flags) : Talk Flags := do
  match flags.pending with
  | none => return flags
  | some transition =>
      let time ← now
      onlyIf (timing.transition ≤ time - transition.started)
        (ask (.cancel transition.request))
      match ← ask (.outcome transition.request) with
      | some outcome =>
          let flags ← applyOutcome transition flags outcome
          report flags.settled
          return { flags with pending := none, checkpoint := ← now }
      | none =>
          let time ← now
          if time - transition.started < timing.stop then
            return flags
          diagnose "pause/continue" "executing transition exceeded the hard deadline"
          let time ← now
          stop
          report .stopPending
          return { flags with
            failureCode := some supervisorErrorExitCode
            stopping := some time }

def startTransition (flags : Flags) : Talk Flags := do
  if flags.pending.isSome || flags.stopping.isSome then
    return flags
  match flags.deferred with
  | none => return flags
  | some pause =>
      let request : ℕ ← ask (.request pause)
      let started ← now
      report (if pause then .pausePending else .continuePending)
      return { flags with
        deferred := none
        pending := some { request, pause, started }
        checkpoint := ← now }

def serve (timing : Timing) (controls : List ServiceControl) (flags : Flags) : Talk Flags := do
  if flags.stopping.isSome then
    return flags
  let flags ← applyControls controls flags
  let flags ← followTransition timing flags
  startTransition flags

/-- A supervisor that does not finish in time is given up. -/
def checkStopDeadline (timing : Timing) (flags : Flags) : Talk (Option BridgeExit) := do
  match flags.stopping with
  | none => return none
  | some stoppedAt =>
      let time ← now
      if time - stoppedAt < timing.stop then
        return none
      diagnose "stop" "supervisor did not finish; terminating the service host"
      let accepted ← acceptedStop flags
      return some {
        terminal := .stopped
          (if accepted then 0 else flags.failureCode.getD supervisorErrorExitCode)
        forceExit := true }

/-- The status that is reported again and again. -/
def Flags.lasting (flags : Flags) : Option Status :=
  if flags.stopping.isSome then some .stopPending
  else
    match flags.pending with
    | some transition => some (if transition.pause then .pausePending else .continuePending)
    | none => if flags.running then none else some .startPending

def reportCheckpoint (timing : Timing) (flags : Flags) : Talk Flags := do
  let time ← now
  if time - flags.checkpoint < timing.checkpoint then
    return flags
  match flags.lasting with
  | some status => report status
  | none => pure ()
  return { flags with checkpoint := ← now }

def awaitControl (timing : Timing) (flags : Flags) : Talk Flags := do
  match ← ask (.recvTimeout timing.poll) with
  | .ok control => return { flags with firstControl := some control }
  | .error .disconnected => return { flags with explicitStop := true }
  | .error _ => return flags

def round (timing : Timing) (flags : Flags) : Talk (BridgeExit ⊕ Flags) := do
  let (controls, flags) ← readControls flags
  let flags ← claimTerminal flags
  let flags ← beginStop flags
  match ← complete flags with
  | some outcome => return .inl outcome
  | none =>
      let flags ← observeStartup timing flags
      let flags ← serve timing controls flags
      match ← checkStopDeadline timing flags with
      | some outcome => return .inl outcome
      | none =>
          let flags ← reportCheckpoint timing flags
          return .inr (← awaitControl timing flags)

/-! ## The bridge and the end -/

/-- At most so many rounds. -/
def bridge (timing : Timing) (rounds : ℕ) : Talk (Option BridgeExit) := do
  let started ← now
  report .startPending
  let outcome ← Dialogue.repeatUpTo (round timing) rounds { started, checkpoint := started }
  match outcome with
  -- the gate goes with the other signals, and releases
  | some _ => ask .release
  | none => pure ()
  return outcome

def finish (outcome : BridgeExit) : Talk Unit := do
  let claimed : Bool ← ask .claimTerminal
  match if claimed then .stopped 0 else outcome.terminal with
  | .stopped code =>
      report (.stopped code)
      onlyIf outcome.forceExit (ask (.terminateCurrentProcess code))
  | .crash code =>
      diagnose "Suicide" s!"deliberate crash-style host exit {code} after cleanup"
      ask .flush
      ask (.terminateCurrentProcess code)

/-- The last steps of `service_main`; false when the rounds do not suffice. -/
def bridgeAndFinish (timing : Timing) (rounds : ℕ) : Talk Bool := do
  match ← bridge timing rounds with
  | some outcome =>
      finish outcome
      return true
  | none => return false

end Ngsm.Runner
