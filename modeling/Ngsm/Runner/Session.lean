/-
# A session of the service host

A session is the bridge among the others: the calls of the control handler, the receives and
claims on the channel of the controls, and the supervisor, which confirms its start, settles
transitions and ends.  A moment is one step of one of them.  Every order of moments in which
the answers to the bridge are those of its surroundings is a run.
-/

import Ngsm.Runner.Conduct
import Ngsm.Win32.ControlContract

namespace Ngsm.Runner

open Ngsm.Lib
open Ngsm.Supervisor (ExitReason StartupStatus SupervisorError TransitionOutcome)
open Ngsm.Win32.ControlChannel (Channel Dispatch Event Ledger Method Receive RecvError
  ServiceControl controlChannel ledgerOf stopRequested)

/-- What a request asks for, and how it was settled. -/
structure Asked where
  pause : Bool
  outcome : Option TransitionOutcome := none
deriving DecidableEq, Repr

/-- What the bridge finds at the supervisor. -/
structure Surroundings where
  /-- The confirmations that were sent and not yet received. -/
  startup : List StartupStatus := []
  requests : List Asked := []
  /-- How the thread of the supervisor ended. -/
  ended : Option Joined := none

structure Session (ι : Type) where
  channel : Channel ι
  bridge : Talk Bool
  around : Surroundings

inductive Moment (ι : Type) where
  /-- A step of a call of the control handler. -/
  | handler (thread : ι) (step : Dispatch)
  /-- A step inside a receive of the bridge. -/
  | receiver (step : Receive)
  /-- A call of the bridge returns. -/
  | bridge (said : Exchange Call.Answer)
  /-- The supervisor confirms its start. -/
  | confirmed (status : StartupStatus)
  /-- A transition gets its outcome. -/
  | settled (request : ℕ) (outcome : TransitionOutcome)
  /-- The thread of the supervisor ends. -/
  | ended (result : Joined)

section

variable {ι : Type}

/-- A moment as a step of the channel. -/
def Moment.onChannel : Moment ι → Option (Event ι)
  | .handler thread step => some (.dispatch thread step)
  | .receiver step => some (.receive step)
  | .bridge ⟨.tryRecv, result⟩ => some (.receive (.returned .tryRecv result))
  | .bridge ⟨.recvTimeout _, result⟩ => some (.receive (.returned .recvTimeout result))
  | .bridge ⟨.claimTerminal, claimed⟩ => some (.claimed claimed)
  | _ => none

/-- The receive that the bridge is in. -/
def Session.receiving (session : Session ι) : Option Method :=
  match session.bridge with
  | .call .tryRecv _ => some .tryRecv
  | .call (.recvTimeout _) _ => some .recvTimeout
  | _ => none

/-- The answers that the surroundings decide. -/
def Session.permitsAnswer (session : Session ι) : Exchange Call.Answer → Bool
  | ⟨.stopRequested, answer⟩ => answer = decide (session.channel.decision &&& stopRequested ≠ 0)
  | ⟨.startup, answer⟩ => answer = session.around.startup.head?
  | ⟨.request _, answer⟩ => answer = session.around.requests.length
  | ⟨.outcome request, answer⟩ => answer = session.around.requests[request]?.bind (·.outcome)
  | ⟨.isFinished, answer⟩ => answer = session.around.ended.isSome
  | ⟨.join, answer⟩ => session.around.ended = some answer
  | _ => true

def Session.permits (session : Session ι) : Moment ι → Bool
  | .receiver (.began method) => session.receiving = some method
  | .receiver (.returned _ _) | .receiver .closing | .receiver .dropped => false
  | .bridge said => session.permitsAnswer said
  | .settled request _ => session.around.requests[request]?.any (·.outcome.isNone)
  | .confirmed _ | .ended _ => session.around.ended.isNone
  | _ => true

/-- The surroundings after a moment. -/
def Surroundings.note (around : Surroundings) : Moment ι → Surroundings
  | .bridge ⟨.startup, _⟩ => { around with startup := around.startup.tail }
  | .bridge ⟨.request pause, _⟩ => { around with requests := around.requests ++ [{ pause }] }
  | .confirmed status => { around with startup := around.startup ++ [status] }
  | .settled request outcome =>
      { around with
        requests := around.requests.modify request fun asked =>
          { asked with outcome := some outcome } }
  | .ended result => { around with ended := some result }
  | _ => around

section

variable [DecidableEq ι]

/-- The step of the channel in a moment, if there is one. -/
def Session.stepChannel (session : Session ι) (moment : Moment ι) : Option (Channel ι) :=
  match moment.onChannel with
  | some event => Win32.ControlChannel.step session.channel event
  | none => some session.channel

def Session.stepBridge (session : Session ι) : Moment ι → Option (Talk Bool)
  | .bridge said => session.bridge.resume said
  | _ => some session.bridge

def Session.step (session : Session ι) (moment : Moment ι) : Option (Session ι) :=
  if session.permits moment then do
    let channel ← session.stepChannel moment
    let bridge ← session.stepBridge moment
    return { channel, bridge, around := session.around.note moment }
  else none

/-- What a step of a session does. -/
structure Stepped (session : Session ι) (moment : Moment ι) (session' : Session ι) : Prop where
  permitted : session.permits moment = true
  channel : session.stepChannel moment = some session'.channel
  bridge : session.stepBridge moment = some session'.bridge
  around : session'.around = session.around.note moment

theorem step_cases {session session' : Session ι} {moment : Moment ι}
    (h : session.step moment = some session') : Stepped session moment session' := by
  unfold Session.step at h
  split at h
  · rename_i hpermitted
    obtain ⟨channel, hchannel, h⟩ := Option.bind_eq_some_iff.mp h
    obtain ⟨bridge, hbridge, h⟩ := Option.bind_eq_some_iff.mp h
    cases h
    exact ⟨hpermitted, hchannel, hbridge, rfl⟩
  · cases h

end

/-- The session begins with the bridge. -/
def Session.start (timing : Timing) (rounds : ℕ) : Session ι where
  channel := controlChannel
  bridge := bridgeAndFinish timing rounds
  around := {}

end

end Ngsm.Runner
