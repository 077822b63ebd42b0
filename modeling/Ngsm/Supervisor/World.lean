/-
# The supervisor and its surroundings

The supervisor is one thread among many: the holders of its signals, the thread
that waits for the child, the readers of the output, the runner that releases the
terminal gate.  Everything they do to it is a `Move`, and the script of a run says
which moves fall between any two steps of the supervisor, together with what the
system answers to the call the step makes.  Every order of events is a script.

The trace of a run holds the records of the event log, the hook points that were
reached and the startup status, in their order, and between them the moments the
properties speak about: a stop request, a control that was applied, an attempt to
start, the end of a wait.
-/

import Ngsm.Core.Config
import Ngsm.Lib.Keeps
import Ngsm.Supervisor.PauseState

namespace Ngsm.Supervisor

open Ngsm.Core Ngsm.Lib

/-! ## Data -/

inductive SupervisorError where
  | missingApplication
  | spawn (path : String) (error : String)
  | openLog (path : String) (error : String)
  | openStdin (path : String) (error : String)
  | io (error : String)
  | core (error : Error)
  | degraded (message : String)
deriving DecidableEq, Repr

inductive ExitReason where
  | stopped
  | childExited
  | spawnFailed
  | suicide (exitCode : Int32)
deriving DecidableEq, Repr

inductive StartupStatus where
  | running
  | quiesced
deriving DecidableEq, Repr

inductive HookPoint where
  | startPre
  | startPost
  | stopPre
  | exitPost
  | rotatePre
  | rotatePost
  | powerChange
  | powerResume
deriving DecidableEq, Repr

namespace HookPoint

def event : HookPoint → String
  | .startPre | .startPost => "Start"
  | .stopPre => "Stop"
  | .exitPost => "Exit"
  | .rotatePre | .rotatePost => "Rotate"
  | .powerChange | .powerResume => "Power"

def action : HookPoint → String
  | .startPre | .rotatePre | .stopPre => "Pre"
  | .startPost | .rotatePost | .exitPost => "Post"
  | .powerChange => "Change"
  | .powerResume => "Resume"

/-- The hooks that belong to the shutdown itself. -/
def shutdown : HookPoint → Bool
  | .stopPre | .exitPost => true
  | _ => false

end HookPoint

/-- `PBT_APMRESUMECRITICAL`, `…SUSPEND`, `…STANDBY` and `…AUTOMATIC`. -/
def isResumeEvent (event : UInt32) : Bool :=
  event == 18 || event == 6 || event == 8 || event == 7

def findHook (hooks : List HookConfig) (point : HookPoint) : Option HookConfig :=
  hooks.find? fun hook =>
    Text.eqIgnoreAsciiCase hook.event point.event &&
      Text.eqIgnoreAsciiCase hook.action point.action

/-- The point of a hook and what its environment is given. -/
structure HookCall where
  point : HookPoint
  pid : Option UInt32 := none
  exit : Option Int32 := none
  power : Option UInt32 := none
deriving DecidableEq, Repr

/-- The messages of the supervisor's queue.  A request is known by its number. -/
inductive SupervisorMessage where
  | stop
  | rotate
  | pause (request : Nat)
  | continue (request : Nat)
  | powerEvent (event : UInt32)
  | childExited (generation : UInt64)
  | autoRotate (generation : UInt64)
  | readerFailed (generation : UInt64)
deriving DecidableEq, Repr

/-- The request a message carries. -/
def SupervisorMessage.request : SupervisorMessage → Option Nat
  | .pause request | .continue request => some request
  | _ => none

structure ObservedExit where
  code : Int32
  observed : Nat
  error : Option String
deriving DecidableEq, Repr

/-- `watched` says that the thread waiting for the child exists, `watcher` that
the generation holds its handle. -/
structure Generation where
  id : UInt64
  pid : UInt32
  started : Nat
  exit : Option ObservedExit := none
  watched : Bool := false
  watcher : Bool := false
  recorded : Bool := false
deriving DecidableEq, Repr

/-- `saturating_duration_since`, in milliseconds. -/
def Generation.lived (generation : Generation) (exit : ObservedExit) : Nat :=
  exit.observed - generation.started

structure TerminalState where
  ready : Bool := false
  released : Bool := false
deriving DecidableEq, Repr

/-- A request as its holder sees it. -/
structure Request where
  phase : Transition.Phase := .queued
  cancelled : Bool := false
deriving DecidableEq, Repr

/-! ## The trace -/

/-- Where an error was reported. -/
inductive Source where
  | pause
  | rotation
  | reader
  | control
  | cleanup
  | shutdown
deriving DecidableEq, Repr

def SupervisorMessage.source : SupervisorMessage → Source
  | .pause _ | .continue _ => .pause
  | .rotate | .autoRotate _ => .rotation
  | .readerFailed _ => .reader
  | _ => .control

inductive Event where
  /-- The stop flag turns true, with the pause flag of that moment. -/
  | stopRequested (paused : Bool)
  /-- A pause or a continue request was applied. -/
  | applied (pause : Bool)
  /-- A request was sent behind so many messages, with so many receives of the
  final drain left. -/
  | requested (ahead : Nat) (left : Option Nat)
  /-- `run` looks at the stop flag. -/
  | check
  /-- The final drain begins. -/
  | draining (queue : List SupervisorMessage)
  /-- `start_generation` is called. -/
  | attempt
  /-- A child is spawned, with the pause flag of that moment. -/
  | spawned (paused : Bool)
  | started (pid : UInt32)
  | restarted (pid : UInt32) (delay : Nat)
  /-- `start_generation` failed. -/
  | startFailed (error : SupervisorError)
  | childExited (code : Int32) (lived : Nat)
  | throttled (delay : Nat)
  | stopped
  /-- The startup status is sent, with what the last look at the child has found. -/
  | startup (status : StartupStatus) (childUp : Bool)
  /-- A wait between two generations is over, after so much time. -/
  | waited (delay elapsed : Nat)
  | hook (call : HookCall)
  /-- A control, a cleanup or the shutdown of the child reports an error. -/
  | trouble (source : Source) (error : SupervisorError)
deriving DecidableEq, Repr

/-! ## The script -/

/-- What another thread does to the supervisor. -/
inductive Move where
  /-- The store of `StopSignal::stop`; its message is sent apart. -/
  | stop
  | send (message : SupervisorMessage)
  | request (pause : Bool)
  | cancel (request : Nat)
  /-- The watcher publishes the exit of the child. -/
  | exit (code : Int32) (error : Option String)
  | release
  | tick (time : Nat)
deriving DecidableEq, Repr

/-- What `try_lock` of a sink comes to within its two seconds. -/
inductive Lock where
  | acquired
  | busy
  | poisoned
deriving DecidableEq, Repr

/-- What falls on one step of the supervisor: the moves of the others, and what
the system answers to the call that is made. -/
structure Turn where
  moves : List Move := []
  fault : Option String := none
  /-- A worker thread that is to be created is not. -/
  worker : Option String := none
  error : Option SupervisorError := none
  flag : Bool := false
  lock : Lock := .acquired
  /-- A worker thread ends before its cancellation runs out. -/
  finished : Bool := true
  members : List Nat := []
  pid : UInt32 := 0
  code : Int32 := 0
  /-- The expansion of the environment variables in a string. -/
  expand : String → String := id

/-- What a report to the diagnostics says. -/
inductive Diagnostic where
  | text (message : String)
  | error (error : SupervisorError)
deriving DecidableEq, Repr

/-- What only the supervisor's thread uses: the job, the log files with their
readers and workers, the deadline of a shutdown, the diagnostics and the clock.  The
last three fields are read by no step and tell a run's progress. -/
structure Plant where
  job : Bool := false
  sinks : Nat := 0
  readers : Nat := 0
  openTask : Bool := false
  rotationTask : Bool := false
  shutdownDeadline : Option Nat := none
  lastExitCode : Option Int32 := none
  diagnostics : List (String × Diagnostic) := []
  clock : Nat := 0
  /-- The expansion of the launch configuration. -/
  expand : String → String := id
  /-- The controls that were taken up. -/
  served : Nat := 0
  /-- The rounds of a wait that the pause flag has prolonged. -/
  held : Nat := 0
  /-- What the last look at the child has found. -/
  childUp : Bool := false

structure Sup where
  config : ManagedApplicationConfig
  script : Nat → Turn
  turns : Nat := 0
  queue : List SupervisorMessage := []
  /-- The receiver exists. -/
  receiving : Bool := true
  /-- The receives that the final drain has left. -/
  draining : Option Nat := none
  requests : List Request := []
  stopRequested : Bool := false
  pause : PauseState := {}
  generation : Option Generation := none
  nextGeneration : UInt64 := 0
  startupReported : Bool := false
  terminal : Option TerminalState := none
  stopHookFired : Bool := false
  stoppedRecorded : Bool := false
  plant : Plant := {}
  trace : List Event := []

namespace Sup

def emit (event : Event) (s : Sup) : Sup :=
  { s with trace := s.trace ++ [event] }

def setStop (s : Sup) : Sup :=
  if s.stopRequested then s
  else { s with
    stopRequested := true
    trace := s.trace ++ [.stopRequested s.pause.paused] }

/-- `PauseContinueSignal::request`: a send that fails rejects the request. -/
def request (pause : Bool) (s : Sup) : Sup :=
  if s.receiving then
    { s with
      requests := s.requests ++ [{}]
      queue := s.queue ++ [if pause then .pause s.requests.length
        else .continue s.requests.length]
      trace := s.trace ++ [.requested s.queue.length s.draining] }
  else
    { s with
      requests := s.requests ++ [
        { phase := .finished (.rejected "supervisor is no longer running") }] }

/-- `Transition::cancel`. -/
def cancelRequest (request : Nat) (s : Sup) : Sup :=
  { s with
    requests := s.requests.modify request fun r =>
      { phase := if r.phase = .queued then .finished .cancelled else r.phase
        cancelled := true } }

def phase (s : Sup) (request : Nat) : Option Transition.Phase :=
  s.requests[request]?.map (·.phase)

def setPhase (request : Nat) (phase : Transition.Phase) (s : Sup) : Sup :=
  { s with requests := s.requests.modify request fun r => { r with phase } }

/-- Publish an exit, unless there is one. -/
def publishExit (code : Int32) (error : Option String) (s : Sup) : Sup :=
  { s with
    generation := s.generation.map fun generation =>
      if generation.exit.isSome then generation
      else { generation with exit := some { code, observed := s.plant.clock, error } } }

def apply (s : Sup) : Move → Sup
  | .stop => s.setStop
  | .send message =>
      if s.receiving && message.request.isNone then { s with queue := s.queue ++ [message] }
      else s
  | .request pause => s.request pause
  | .cancel request => s.cancelRequest request
  | .exit code error =>
      if s.generation.any (·.watched) then s.publishExit code error else s
  | .release => { s with terminal := s.terminal.map fun t => { t with released := true } }
  | .tick time => { s with plant := { s.plant with clock := s.plant.clock + time } }

/-- The others move, and the next answer of the system is there. -/
def next (s : Sup) : Turn × Sup :=
  let turn := s.script s.turns
  (turn, turn.moves.foldl apply { s with turns := s.turns + 1 })

end Sup

/-! ## Steps

How a run can leave the code: with an error, by an `unwrap` of nothing, or because
the given number of rounds was too small for it. -/

inductive Halt where
  | failed (error : SupervisorError)
  | panicked
  | unfinished
deriving DecidableEq, Repr

abbrev SupM : Type → Type :=
  Prog Sup Halt

def turn : SupM Turn :=
  Prog.step fun s =>
    let (turn, s) := s.next
    (.ok turn, s)

def fail {α : Type} (error : SupervisorError) : SupM α :=
  throw (.failed error)

def emit (event : Event) : SupM Unit :=
  modify (Sup.emit event)

def onPlant (f : Plant → Plant) : SupM Unit :=
  modify fun s => { s with plant := f s.plant }

def reportThat (operation : String) (diagnostic : Diagnostic) : SupM Unit :=
  onPlant fun plant =>
    { plant with diagnostics := plant.diagnostics ++ [(operation, diagnostic)] }

def report (operation message : String) : SupM Unit :=
  reportThat operation (.text message)

/-- A conditional step. -/
def onlyIf (condition : Bool) (m : SupM Unit) : SupM Unit :=
  if condition then m else pure ()

def stopping : SupM Bool := do
  let _ ← turn
  return (← get).stopRequested

def now : SupM Nat := do
  let _ ← turn
  return (← get).plant.clock

def sleep (time : Nat) : SupM Unit := do
  let _ ← turn
  onPlant fun plant => { plant with clock := plant.clock + time }

/-- A call of the system that may fail. -/
def call (wrap : String → SupervisorError) : SupM Turn := do
  let answer ← turn
  match answer.fault with
  | some message => fail (wrap message)
  | none => return answer

/-- An error of the process interface. -/
def coreError (message : String) : SupervisorError :=
  .core (.other message)

/-- `rx.try_recv()`; the supervisor holds a sender, so the channel stays connected. -/
def tryRecv : SupM (Option SupervisorMessage) := do
  let _ ← turn
  match (← get).queue with
  | [] => return none
  | message :: rest =>
      modify fun s => { s with queue := rest }
      return some message

/-- `rx.recv_timeout(delay)`: an empty queue lets the time pass. -/
def recvTimeout (delay : Nat) : SupM (Option SupervisorMessage) := do
  match ← tryRecv with
  | some message => return some message
  | none =>
      onPlant fun plant => { plant with clock := plant.clock + delay }
      return none

/-- Run a step and note its error in the trace. -/
def noting {α : Type} (source : Source) (m : SupM α) : SupM α := do
  match ← m.attempt with
  | .ok a => return a
  | .error (.failed error) =>
      emit (.trouble source error)
      fail error
  | .error halt => throw halt

/-- Hand the error of a step over as a value. -/
def settle {α : Type} (m : SupM α) : SupM (Except SupervisorError α) := do
  match ← m.attempt with
  | .ok a => return .ok a
  | .error (.failed error) => return .error error
  | .error halt => throw halt

end Ngsm.Supervisor
