/-
# Starting, controlling and ending generations

The functions of the supervisor, in the order of their use: the rotation of the
log files, the controls, the start of a generation, the waits, and the cleanup that
ends it.  Loops that wait for the outside world take a number of rounds; a wait
with a deadline takes as many as can pass before it, and the loops that only a stop
request or the child ends stop as `unfinished` when the rounds run out.
-/

import Ngsm.Supervisor.World

namespace Ngsm.Supervisor

open Ngsm.Core Ngsm.Lib

/-- Milliseconds between two looks at the controls. -/
def controlPoll : Nat :=
  25

def shutdownBudget : Nat :=
  90000

def throttleThreshold : Nat :=
  1500

/-! ## Hooks -/

/-- Whether the child of the generation runs. -/
def alive : SupM Bool := do
  let answer ← turn
  let up := (← get).generation.any fun generation => generation.exit.isNone && answer.flag
  onPlant fun plant => { plant with childUp := up }
  return up

def currentPid : SupM (Option UInt32) := do
  let answer ← turn
  return (← get).generation.bind fun generation =>
    if generation.exit.isNone && answer.flag then some generation.pid else none

/-- Hooks that do not belong to the shutdown are skipped once it is requested.  The
command itself runs in one turn: whatever it comes to, the supervisor goes on. -/
def fireHook (hook : HookCall) : SupM Unit := do
  if (← stopping) && !hook.point.shutdown then
    return
  emit (.hook hook)
  match findHook (← get).config.hooks hook.point with
  | none => return
  | some _ =>
      let _ ← turn

/-! ## Log rotation -/

/-- `sink.has_data()` or `sink.due(offline)`.  Both take the lock of the sink; only
the offline question reads the metadata of the file. -/
def sinkDue (force offline : Bool) : SupM Bool := do
  let answer ← turn
  match answer.lock with
  | .poisoned => fail (.io "log sink state poisoned")
  | .busy => fail (.io "log sink is busy")
  | .acquired =>
      match if !force && offline then answer.fault else none with
      | some message => fail (.io message)
      | none => return answer.flag

/-- `IoTask::spawn`. -/
def spawnTask : SupM Unit := do
  match (← turn).worker with
  | some message => fail (.io message)
  | none => return

/-- `IoTask::wait`, which gives up on a worker that ignores its cancellation. -/
def waitTask : SupM Turn := do
  let answer ← turn
  if answer.finished then
    return answer
  else
    fail (.degraded "filesystem I/O did not cancel; host exit is required before log reuse")

/-- One sink of `rotate_sinks`; false ends the loop over the sinks. -/
def rotateSink (force offline : Bool) : SupM Bool := do
  if ← stopping then
    return false
  if !(← sinkDue force offline) then
    return true
  fireHook { point := .rotatePre, pid := ← currentPid }
  if ← stopping then
    return false
  spawnTask
  onPlant fun plant => { plant with rotationTask := true }
  let rotated ← waitTask
  onPlant fun plant => { plant with rotationTask := false }
  match rotated.fault with
  | some error => report "log rotation" error
  | none => onlyIf rotated.flag do fireHook { point := .rotatePost, pid := ← currentPid }
  return true

def rotateSinks (force offline : Bool) : Nat → SupM Unit
  | 0 => return
  | sinks + 1 => do
      if ← rotateSink force offline then
        rotateSinks force offline sinks

def finishFilesystemTasks : SupM Unit := do
  onlyIf (← get).plant.openTask do
    let _ ← waitTask
    onPlant fun plant => { plant with openTask := false }
  onlyIf (← get).plant.rotationTask do
    let _ ← waitTask
    onPlant fun plant => { plant with rotationTask := false }

def hasOnlineRotation (config : ManagedApplicationConfig) : Bool :=
  config.rotation.enabled == some true && config.rotation.online.any (· != 0) &&
    (config.io.stdout.isSome || config.io.stderr.isSome)

/-! ## Pause and continue -/

/-- A control of a process, which may fail. -/
def Sup.control : Prog Sup String Bool :=
  Prog.step fun s =>
    let (answer, s) := s.next
    match answer.fault with
    | some message => (.error message, s)
    | none => (.ok answer.flag, s)

def Sup.members : Prog Sup String (List Nat) :=
  Prog.step fun s =>
    if s.plant.job then
      let (answer, s) := s.next
      match answer.fault with
      | some message => (.error message, s)
      | none => (.ok answer.members, s)
    else
      (.ok [], s)

/-- The job of the supervisor as `PauseState` sees it.  A request is cancelled by
its holder or by a stop; the resume of a shutdown is not. -/
def Sup.processes (request : Option Nat) : Control Sup where
  members := Sup.members
  running _ := Sup.control
  suspend _ := Sup.control
  resume _ := Sup.control
  cancelled s :=
    let (_, s) := s.next
    (request.any fun id => s.stopRequested || s.requests[id]?.any (·.cancelled), s)
  now s :=
    let (_, s) := s.next
    (s.plant.clock, s)

/-- `PauseState::change` under its lock. -/
def changeState (request : Option Nat) (pause : Bool) : SupM TransitionOutcome :=
  Prog.step fun s =>
    match (PauseState.change (Sup.processes request) pause).exec
      { world := s, state := s.pause } with
    | (.ok outcome, p) => (.ok outcome, { p.world with pause := p.state })
    | (.error _, p) => (.error .panicked, { p.world with pause := p.state })

/-- `Transition::execute`. -/
def execute (request : Nat) (operation : SupM TransitionOutcome) : SupM TransitionOutcome := do
  let _ ← turn
  match (← get).phase request with
  | some .executing => return .degraded "control executed twice"
  | some (.finished outcome) => return outcome
  | _ =>
      modify (Sup.setPhase request .executing)
      let outcome ← operation
      modify (Sup.setPhase request (.finished outcome))
      return outcome

def reject (request : Nat) (message : String) : SupM Unit := do
  let _ ← execute request (pure (.rejected message))

def changePause (pause : Bool) (request : Nat) : SupM Unit := do
  let outcome ← execute request do
    let outcome ← changeState (some request) pause
    onlyIf (outcome = .applied) do emit (.applied pause)
    return outcome
  match outcome with
  | .degraded error => fail (.degraded error)
  | _ => return

/-! ## Controls -/

def isCurrent (id : UInt64) : SupM Bool := do
  return (← get).generation.any (·.id == id)

def handleMessage : SupervisorMessage → SupM Unit
  | .stop => modify Sup.setStop
  | .pause request => changePause true request
  | .continue request => changePause false request
  | .rotate => do
      if hasOnlineRotation (← get).config then
        rotateSinks true false (← get).plant.sinks
      else
        report "rotate" "no online log sinks; offline rotation occurs at startup"
  | .autoRotate id => do
      if ← isCurrent id then
        rotateSinks false false (← get).plant.sinks
  | .readerFailed id => do
      if ← isCurrent id then
        fail (.io "generation output reader failed")
  | .powerEvent event => do
      let point := if isResumeEvent event then HookPoint.powerResume else .powerChange
      fireHook { point, pid := ← currentPid, power := some event }
  | .childExited _ => return

/-- Once a stop is requested, a request is cancelled and any other message dropped. -/
def dispatch (message : SupervisorMessage) : SupM Unit := do
  if ← stopping then
    match message.request with
    | some request => modify (Sup.cancelRequest request)
    | none => return
  else
    handleMessage message

/-- A control has been taken up. -/
def Sup.taken (s : Sup) : Sup :=
  { s with plant := { s.plant with served := s.plant.served + 1 } }

def handleControl (message : SupervisorMessage) : SupM Unit := do
  modify Sup.taken
  noting message.source (dispatch message)

def receiveControl (delay : Nat) : SupM Unit := do
  if ← stopping then
    return
  match ← recvTimeout delay with
  | some message => handleControl message
  | none => return

/-! ## Waits between generations -/

/-- The batch of messages that a round of `sleep_or_stop` takes; false when a stop
is seen. -/
def takeBatch : Nat → SupM Bool
  | 0 => return true
  | batch + 1 => do
      match ← tryRecv with
      | none => return true
      | some message =>
          handleControl message
          if ← stopping then
            return false
          takeBatch batch

def paused : SupM Bool := do
  return (← get).pause.paused

/-- Count the round of a wait that the pause flag prolongs. -/
def noteHeld : SupM Unit :=
  modify fun s => { s with plant := { s.plant with held := s.plant.held + s.pause.paused.toNat } }

def sleepUntil (deadline : Nat) : Nat → SupM Bool
  | 0 => do
      if ← stopping then
        return false
      throw .unfinished
  | rounds + 1 => do
      if ← stopping then
        return false
      if !(← takeBatch 32) then
        return false
      if ← paused then
        noteHeld
        receiveControl controlPoll
        sleepUntil deadline rounds
      else if deadline ≤ (← now) then
        return true
      else
        let remaining := min (deadline - (← now)) controlPoll
        receiveControl remaining
        sleepUntil deadline rounds

def sleepOrStop (delay rounds : Nat) : SupM Bool := do
  let start ← now
  sleepUntil (start + delay) rounds

def waitForStopQuiesced : Nat → SupM ExitReason
  | 0 => do
      if ← stopping then
        return .stopped
      throw .unfinished
  | rounds + 1 => do
      if ← stopping then
        return .stopped
      receiveControl controlPoll
      waitForStopQuiesced rounds

/-! ## The start of a generation -/

def confirmStartup (status : StartupStatus) : SupM Unit := do
  onlyIf (!(← get).startupReported && !(← stopping)) do
    modify fun s => { s with
      startupReported := true
      trace := s.trace ++ [.startup status s.plant.childUp] }

/-- The environment, the expansion of the configured strings and their checks. -/
def prepareLaunch : SupM Unit := do
  let answer ← turn
  match answer.error with
  | some error => fail error
  | none =>
      onlyIf (← get).config.application.isNone do fail .missingApplication
      onPlant fun plant => { plant with expand := answer.expand }

/-- `dedup_sinks` in a worker: one sink for each file. -/
def openSinks : SupM Unit := do
  spawnTask
  onPlant fun plant => { plant with openTask := true }
  let opened ← waitTask
  onPlant fun plant => { plant with openTask := false }
  match opened.error with
  | some error => fail error
  | none =>
      let io := (← get).config.io
      let sinks := io.stdout.toList.length + io.stderr.toList.length
      onPlant fun plant => { plant with sinks := if opened.flag then min sinks 1 else sinks }

/-- A pipe with its reader, or the file itself. -/
def attachStream (stream : Option IoStream) : SupM Unit := do
  if stream.isSome then
    let rotation := (← get).config.rotation
    if rotation.enabled == some true && rotation.online.any (· != 0) then
      let _ ← call .io
      let _ ← call .io
      onPlant fun plant => { plant with readers := plant.readers + 1 }
    else
      let _ ← call .io

def attachStreams : SupM Unit := do
  let io := (← get).config.io
  attachStream io.stdout
  attachStream io.stderr
  match io.stdin with
  | some stream =>
      let _ ← call (.openStdin ((← get).plant.expand stream.path))
  | none => return

/-- Kill the child that is not a generation yet, and wait for it. -/
def killOwnedChild : SupM Unit := do
  let _ ← turn

/-- Spawn the child suspended, contain it and resume it.  No child when a stop is
seen. -/
def launchChild : SupM (Option (UInt32 × Nat)) := do
  let s ← get
  let child ← call (.spawn (s.plant.expand (s.config.application.getD "")))
  modify fun s => s.emit (.spawned s.pause.paused)
  match (← turn).fault with
  | some message =>
      killOwnedChild
      fail (coreError message)
  | none =>
      if ← stopping then
        killOwnedChild
        return none
      let started ← now
      let resumed ← turn
      match resumed.fault with
      | some message =>
          killOwnedChild
          fail (coreError message)
      | none =>
          if resumed.flag then
            return some (child.pid, started)
          else
            killOwnedChild
            fail (.core (.invalidConfig "child exited before its initial resume"))

/-- The generation with its watcher, and the start record. -/
def recordStart (first : Bool) (lastDelay : Nat) (pid : UInt32) (started : Nat) : SupM Unit := do
  let watcher ← turn
  modify fun s => { s with
    generation := some
      { id := s.nextGeneration, pid, started, watched := watcher.fault.isNone }
    trace := s.trace ++ [if first then .started pid else .restarted pid lastDelay] }
  match watcher.fault with
  | some message => fail (.io message)
  | none =>
      modify fun s => { s with
        generation := s.generation.map fun generation => { generation with watcher := true } }

/-- Everything that comes before the child; false when a stop is seen. -/
def prepareGeneration : SupM Bool := do
  if ← stopping then
    return false
  prepareLaunch
  fireHook { point := .startPre }
  if ← stopping then
    return false
  let _ ← call coreError
  onPlant fun plant => { plant with job := true }
  openSinks
  rotateSinks false true (← get).plant.sinks
  if ← stopping then
    return false
  attachStreams
  return !(← stopping)

/-- The child is there: its generation, its record, its hook, the startup status. -/
def beginGeneration (first : Bool) (lastDelay : Nat) (pid : UInt32) (started : Nat) :
    SupM Bool := do
  recordStart first lastDelay pid started
  if ← stopping then
    return false
  fireHook { point := .startPost, pid := some pid }
  if ← stopping then
    return false
  onlyIf (← alive) do confirmStartup .running
  return true

def startGeneration (first : Bool) (lastDelay : Nat) : SupM Bool := do
  if ← prepareGeneration then
    match ← launchChild with
    | some (pid, started) => beginGeneration first lastDelay pid started
    | none => return false
  else
    return false

/-! ## The end of a generation -/

def observeUnwatchedChild : SupM Unit := do
  let answer ← turn
  modify fun s =>
    if s.generation.any fun generation => !generation.watcher && !generation.watched then
      match answer.fault with
      | some message => s.publishExit (-1) (some message)
      | none => if answer.flag then s.publishExit answer.code none else s
    else
      s

def exitObservedAndTreeEmpty : SupM Bool := do
  let answer ← turn
  let s ← get
  return s.generation.any (·.exit.isSome) && (!s.plant.job || answer.flag)

def pollExit (deadline : Nat) : Nat → SupM Bool
  | 0 => exitObservedAndTreeEmpty
  | rounds + 1 => do
      if deadline ≤ (← now) then
        exitObservedAndTreeEmpty
      else
        observeUnwatchedChild
        if ← exitObservedAndTreeEmpty then
          return true
        sleep (min controlPoll (deadline - (← now)))
        pollExit deadline rounds

/-- Every round lets the clock go on, so the rounds until the deadline are enough. -/
def waitForExitUntil (deadline : Nat) : SupM Bool := do
  pollExit deadline (deadline - (← get).plant.clock + 1)

/-- A part of the shutdown budget is reserved for the cleanup. -/
def waitForExit (duration : Nat) : SupM Bool := do
  let deadline := (← now) + duration
  match (← get).plant.shutdownDeadline with
  | some stop => waitForExitUntil (min deadline (if 40000 ≤ stop then stop - 40000 else stop))
  | none => waitForExitUntil deadline

/-- The messages to the windows or threads of the job's members. -/
def postToMembers : SupM Unit := do
  onlyIf (← get).plant.job do
    let answer ← call coreError
    answer.members.forM fun _ => do
      (← turn).fault.toList.forM (report "graceful window/thread control")

/-- Close the windows or end the threads, unless it is configured away; true when
the child has gone. -/
def stopByMessages (skip : UInt32) (bit : UInt32) (grace : UInt32) : SupM Bool := do
  if skip &&& bit != 0 then
    return false
  postToMembers
  waitForExit grace.toNat

def stopByConsole (skip : UInt32) (grace : UInt32) : SupM Bool := do
  if skip &&& 0x1 == 0 then
    if ← alive then
      match (← turn).fault with
      | some error =>
          report "CTRL+BREAK" error
          return false
      | none => waitForExit grace.toNat
    else
      return false
  else
    return false

def stopByTermination (skip : UInt32) (tree : Bool) : SupM Unit := do
  onlyIf (skip &&& 0x8 == 0 && (!tree || (← get).plant.job)) do
    let _ ← call coreError

/-- Console, windows, threads, termination: each as configured, until the child has
gone. -/
def stopByEscalation : SupM Unit := do
  let policy := (← get).config.shutdown
  let skip := policy.stopMethodSkip.getD 0
  if ← stopByConsole skip (policy.killConsoleGraceMs.getD 1500) then
    return
  if ← stopByMessages skip 0x2 (policy.killWindowGraceMs.getD 1500) then
    return
  if ← stopByMessages skip 0x4 (policy.killThreadsGraceMs.getD 1500) then
    return
  stopByTermination skip (policy.killProcessTree.getD true)
  let _ ← waitForExit 2000

def stopChildGracefully : SupM Unit := do
  let _ ← turn
  match (← get).generation with
  | none => return
  | some generation =>
      match generation.exit with
      | some exit => onPlant fun plant => { plant with lastExitCode := some exit.code }
      | none =>
          match ← changeState none false with
          | .degraded _ | .rejected _ =>
              report "stop" "could not restore the suspended tree; forcing contained cleanup"
          | _ => stopByEscalation

/-- The exit is recorded once, with its hook. -/
def recordChildExit : SupM Unit := do
  let _ ← turn
  match (← get).generation with
  | none => return
  | some generation =>
      if generation.recorded then
        return
      match generation.exit with
      | none => return
      | some exit =>
          modify fun s => { s with
            generation := some { generation with recorded := true }
            trace := s.trace ++ [.childExited exit.code (generation.lived exit)] }
          onPlant fun plant => { plant with lastExitCode := some exit.code }
          exit.error.toList.forM (report "child wait")
          fireHook { point := .exitPost, pid := some generation.pid, exit := some exit.code }

def terminateJob : SupM Unit := do
  onlyIf (← get).plant.job do
    onPlant fun plant => { plant with job := false }
    match (← turn).fault with
    | some message =>
        report "generation tree cleanup" message
        fail (.degraded message)
    | none => return

/-- The watcher has published, so it is about to end. -/
def joinWatcher : SupM Unit := do
  onlyIf ((← get).generation.any (·.watcher)) do
    modify fun s => { s with
      generation := s.generation.map fun generation => { generation with watcher := false } }
    let answer ← turn
    onlyIf (!answer.finished) do
      fail (.degraded "exit watcher did not finish after publishing exit")
    onlyIf answer.fault.isSome do fail (.degraded "exit watcher panicked")

/-- Let the readers drain; the last failure counts. -/
def finishReaders : Nat → Option String → SupM (Option String)
  | 0, failure => return failure
  | readers + 1, failure => do
      match (← turn).fault with
      | some error => finishReaders readers (some error)
      | none => finishReaders readers failure

/-- The child ends within two seconds of its termination. -/
def awaitChild : SupM Unit := do
  if ← waitForExitUntil ((← now) + 2000) then
    return
  else
    fail (.degraded "contained child did not finish before cleanup deadline")

def clearGeneration : SupM Unit := do
  onPlant fun plant => { plant with readers := 0, sinks := 0 }
  modify fun s => { s with generation := none, pause := s.pause.clearGeneration }

def cleanupGeneration : SupM Unit :=
  noting .cleanup do
    terminateJob
    finishFilesystemTasks
    onlyIf (← get).generation.isSome awaitChild
    joinWatcher
    let failure ← finishReaders (← get).plant.readers none
    onlyIf (failure.isNone && !(← stopping) && hasOnlineRotation (← get).config) do
      rotateSinks false false (← get).plant.sinks
    recordChildExit
    match failure with
    | some error =>
        report "output drain" error
        fail (.io error)
    | none => clearGeneration

def fireStopHook : SupM Unit := do
  onlyIf (!(← get).stopHookFired) do
    modify fun s => { s with stopHookFired := true }
    fireHook { point := .stopPre, pid := ← currentPid }

def recordStopped : SupM Unit := do
  onlyIf (!(← get).stoppedRecorded) do
    modify fun s => { s with stoppedRecorded := true, trace := s.trace ++ [.stopped] }

def finishStop : SupM ExitReason := do
  let time ← now
  onPlant fun plant => { plant with
    shutdownDeadline := some (plant.shutdownDeadline.getD (time + shutdownBudget)) }
  fireStopHook
  let graceful ← settle (noting .shutdown stopChildGracefully)
  let cleanup ← settle cleanupGeneration
  recordStopped
  match graceful, cleanup with
  | .error error, _ => fail error
  | _, .error error => fail error
  | .ok (), .ok () => return .stopped

end Ngsm.Supervisor
