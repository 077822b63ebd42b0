/-
# The channel of service controls

The handler that the service control manager calls hands the controls of a service to one
receiver.  Ordinary controls go through a bounded queue.  A stop or a shutdown sets a bit
instead, so that a full queue cannot refuse it, and wakes the receiver; several of them
count as one.  Before the service reports how it ended, the receiver claims the decision:
a stop that was accepted before makes the end a clean one, and none is accepted after.

A call of the handler and a receive are sequences of atomic steps, which interleave.  An
event is one such step with what it read.
-/

import Mathlib.Data.List.Induction
import Mathlib.Logic.Function.Basic

namespace Ngsm.Win32.ControlChannel

inductive ServiceControl where
  | stop
  | shutdown
  | pause
  | continue_
  | interrogate
  | powerEvent (eventType : UInt32)
  | other (code : UInt32)
deriving DecidableEq, Repr

/-- The controls that end the service. -/
def ServiceControl.isTerminal : ServiceControl → Bool
  | .stop | .shutdown => true
  | _ => false

inductive ControlMessage where
  | ordinary (control : ServiceControl)
  | wake
deriving DecidableEq, Repr

def stopRequested : UInt8 :=
  1

def terminalCommitted : UInt8 :=
  2

def errorServiceNotActive : UInt32 :=
  1062

def errorRetry : UInt32 :=
  1237

/-- The messages that the queue holds at most. -/
def queueBound : ℕ :=
  8

/-- The three receive methods. -/
inductive Method where
  | recv
  | recvTimeout
  | tryRecv
deriving DecidableEq, Repr

inductive RecvError where
  | empty
  | timeout
  | disconnected
deriving DecidableEq, Repr

/-- Where a call of `dispatch_control` stands: each constructor is named after the step that
comes next. -/
inductive SenderPc where
  | idle
  | loadAlive (control : ServiceControl)
  | loadDecision (control : ServiceControl)
  | fetchUpdate (control : ServiceControl)
  | fetchOr (control : ServiceControl)
  | trySend (control : ServiceControl)
  | answer (control : ServiceControl) (code : UInt32)
deriving DecidableEq, Repr

/-- Where the receiver stands. -/
inductive ReceiverPc where
  | idle
  /-- `ready`: the terminal bits are swapped. -/
  | ready (method : Method)
  /-- `ready`: the deferred control is taken. -/
  | deferred (method : Method)
  | receive (method : Method)
  | deliver (method : Method) (control : ServiceControl)
  /-- The queue had no message. -/
  | failing (method : Method) (error : RecvError)
  | answer (method : Method) (result : Except RecvError ServiceControl)
  /-- `drop` has stored that the receiver is not alive. -/
  | dropping
  | dropped
deriving DecidableEq

/-- The channel with all who use it. -/
structure Channel (ι : Type) where
  terminal : UInt8
  decision : UInt8
  alive : Bool
  queue : List ControlMessage
  deferred : Option ServiceControl
  senders : ι → SenderPc
  receiver : ReceiverPc

/-- `control_channel`. -/
def controlChannel {ι : Type} : Channel ι where
  terminal := 0
  decision := 0
  alive := true
  queue := []
  deferred := none
  senders := fun _ => .idle
  receiver := .idle

/-- The steps of a call of `dispatch_control`. -/
inductive Dispatch where
  | called (control : ServiceControl)
  | loadedAlive
  | loadedDecision
  /-- `fetch_update` of the decision, which a claim defeats. -/
  | updated (won : Bool)
  /-- `fetch_or` of the terminal bits. -/
  | posted (shutdown : Bool)
  | sent (message : ControlMessage) (accepted : Bool)
  | answered (control : ServiceControl) (code : UInt32)
deriving DecidableEq, Repr

/-- The steps of the receiver. -/
inductive Receive where
  | began (method : Method)
  /-- The terminal bits were swapped with 0. -/
  | swapped (taken : Option ServiceControl)
  | tookDeferred
  | popped (message : ControlMessage)
  /-- The queue was found empty. -/
  | emptied (error : RecvError)
  | returned (method : Method) (result : Except RecvError ServiceControl)
  | closing
  | dropped
deriving DecidableEq

inductive Event (ι : Type) where
  | dispatch (thread : ι) (step : Dispatch)
  | receive (step : Receive)
  /-- `claim_terminal`, and its answer. -/
  | claimed (result : Bool)
deriving DecidableEq

/-- What the terminal bits ask for. -/
def terminalOf (bits : UInt8) : Option ServiceControl :=
  if bits = 0 then none
  else if bits &&& 2 ≠ 0 then some .shutdown
  else some .stop

/-- The message for a control that is accepted. -/
def messageOf (control : ServiceControl) : ControlMessage :=
  if control.isTerminal then .wake else .ordinary control

/-- The errors that a receive method reports. -/
def Method.reports : Method → RecvError → Bool
  | _, .disconnected => true
  | .recvTimeout, .timeout => true
  | .tryRecv, .empty => true
  | _, _ => false

section

variable {ι : Type} {channel channel' : Channel ι}

/-! ## The receiver -/

/-- What a swap of the terminal bits with 0 leads to. -/
def swapped (channel : Channel ι) (taken : Option ServiceControl) : Option (Channel ι) :=
  match channel.receiver, taken with
  | .ready method, some terminal =>
      some { channel with terminal := 0, receiver := .answer method (.ok terminal) }
  | .ready method, none =>
      some { channel with terminal := 0, receiver := .deferred method }
  | .deliver method control, some terminal =>
      some { channel with
        terminal := 0
        deferred := some control
        receiver := .answer method (.ok terminal) }
  | .deliver method control, none =>
      some { channel with terminal := 0, receiver := .answer method (.ok control) }
  | .failing method _, some terminal =>
      some { channel with terminal := 0, receiver := .answer method (.ok terminal) }
  | .failing method error, none =>
      some { channel with terminal := 0, receiver := .answer method (.error error) }
  | _, _ => none

def receiveStep (channel : Channel ι) : Receive → Option (Channel ι)
  | .began method =>
      if channel.receiver = .idle then some { channel with receiver := .ready method } else none
  | .swapped taken =>
      if taken = terminalOf channel.terminal then swapped channel taken else none
  | .tookDeferred =>
      match channel.receiver, channel.deferred with
      | .deferred method, some control =>
          some { channel with deferred := none, receiver := .answer method (.ok control) }
      | .deferred method, none => some { channel with receiver := .receive method }
      | _, _ => none
  | .popped message =>
      match channel.receiver, channel.queue with
      | .receive method, first :: queue =>
          if first = message then
            match message with
            | .ordinary control => some { channel with queue, receiver := .deliver method control }
            | .wake => some { channel with queue, receiver := .ready method }
          else none
      | _, _ => none
  | .emptied error =>
      match channel.receiver, channel.queue with
      | .receive method, [] =>
          if method.reports error then some { channel with receiver := .failing method error }
          else none
      | _, _ => none
  | .returned method result =>
      if channel.receiver = .answer method result then some { channel with receiver := .idle }
      else none
  | .closing =>
      if channel.receiver = .idle then some { channel with alive := false, receiver := .dropping }
      else none
  | .dropped =>
      if channel.receiver = .dropping then some { channel with receiver := .dropped } else none

/-- The steps of the receiver, each with what made it possible. -/
inductive Received (channel : Channel ι) : Receive → Channel ι → Prop
  | began (method : Method) (hpc : channel.receiver = .idle) :
      Received channel (.began method) { channel with receiver := .ready method }
  | readyTerminal (method : Method) (terminal : ServiceControl)
      (hpc : channel.receiver = .ready method)
      (htaken : some terminal = terminalOf channel.terminal) :
      Received channel (.swapped (some terminal))
        { channel with terminal := 0, receiver := .answer method (.ok terminal) }
  | readyNone (method : Method) (hpc : channel.receiver = .ready method)
      (htaken : none = terminalOf channel.terminal) :
      Received channel (.swapped none)
        { channel with terminal := 0, receiver := .deferred method }
  | deliverTerminal (method : Method) (control terminal : ServiceControl)
      (hpc : channel.receiver = .deliver method control)
      (htaken : some terminal = terminalOf channel.terminal) :
      Received channel (.swapped (some terminal))
        { channel with
          terminal := 0
          deferred := some control
          receiver := .answer method (.ok terminal) }
  | deliverNone (method : Method) (control : ServiceControl)
      (hpc : channel.receiver = .deliver method control)
      (htaken : none = terminalOf channel.terminal) :
      Received channel (.swapped none)
        { channel with terminal := 0, receiver := .answer method (.ok control) }
  | failingTerminal (method : Method) (error : RecvError) (terminal : ServiceControl)
      (hpc : channel.receiver = .failing method error)
      (htaken : some terminal = terminalOf channel.terminal) :
      Received channel (.swapped (some terminal))
        { channel with terminal := 0, receiver := .answer method (.ok terminal) }
  | failingNone (method : Method) (error : RecvError)
      (hpc : channel.receiver = .failing method error)
      (htaken : none = terminalOf channel.terminal) :
      Received channel (.swapped none)
        { channel with terminal := 0, receiver := .answer method (.error error) }
  | tookDeferred (method : Method) (control : ServiceControl)
      (hpc : channel.receiver = .deferred method) (hdeferred : channel.deferred = some control) :
      Received channel .tookDeferred
        { channel with deferred := none, receiver := .answer method (.ok control) }
  | noDeferred (method : Method) (hpc : channel.receiver = .deferred method)
      (hdeferred : channel.deferred = none) :
      Received channel .tookDeferred { channel with receiver := .receive method }
  | poppedOrdinary (method : Method) (control : ServiceControl) (queue : List ControlMessage)
      (hpc : channel.receiver = .receive method)
      (hqueue : channel.queue = .ordinary control :: queue) :
      Received channel (.popped (.ordinary control))
        { channel with queue, receiver := .deliver method control }
  | poppedWake (method : Method) (queue : List ControlMessage)
      (hpc : channel.receiver = .receive method) (hqueue : channel.queue = .wake :: queue) :
      Received channel (.popped .wake) { channel with queue, receiver := .ready method }
  | emptied (method : Method) (error : RecvError) (hpc : channel.receiver = .receive method)
      (hqueue : channel.queue = []) :
      Received channel (.emptied error) { channel with receiver := .failing method error }
  | returned (method : Method) (result : Except RecvError ServiceControl)
      (hpc : channel.receiver = .answer method result) :
      Received channel (.returned method result) { channel with receiver := .idle }
  | closing (hpc : channel.receiver = .idle) :
      Received channel .closing { channel with alive := false, receiver := .dropping }
  | dropped (hpc : channel.receiver = .dropping) :
      Received channel .dropped { channel with receiver := .dropped }

theorem swapped_cases {taken : Option ServiceControl} (h : swapped channel taken = some channel')
    (htaken : taken = terminalOf channel.terminal) :
    Received channel (.swapped taken) channel' := by
  unfold swapped at h
  split at h
  · rename_i method terminal hpc
    cases h
    exact .readyTerminal method terminal hpc htaken
  · rename_i method hpc
    cases h
    exact .readyNone method hpc htaken
  · rename_i method control terminal hpc
    cases h
    exact .deliverTerminal method control terminal hpc htaken
  · rename_i method control hpc
    cases h
    exact .deliverNone method control hpc htaken
  · rename_i method error terminal hpc
    cases h
    exact .failingTerminal method error terminal hpc htaken
  · rename_i method error hpc
    cases h
    exact .failingNone method error hpc htaken
  · cases h

theorem receiveStep_cases {r : Receive} (h : receiveStep channel r = some channel') :
    Received channel r channel' := by
  cases r with
  | began method =>
      simp only [receiveStep] at h
      split at h
      · rename_i hpc
        cases h
        exact .began method hpc
      · cases h
  | swapped taken =>
      simp only [receiveStep] at h
      split at h
      · rename_i htaken
        exact swapped_cases h htaken
      · cases h
  | tookDeferred =>
      simp only [receiveStep] at h
      split at h
      · rename_i method control hpc hdeferred
        cases h
        exact .tookDeferred method control hpc hdeferred
      · rename_i method hpc hdeferred
        cases h
        exact .noDeferred method hpc hdeferred
      · cases h
  | popped message =>
      simp only [receiveStep] at h
      split at h
      · rename_i method first queue hpc hqueue
        split at h
        · rename_i hfirst
          rw [hfirst] at hqueue
          split at h
          · rename_i control
            cases h
            exact .poppedOrdinary method control queue hpc hqueue
          · cases h
            exact .poppedWake method queue hpc hqueue
        · cases h
      · cases h
  | emptied error =>
      simp only [receiveStep] at h
      split at h
      · rename_i method hpc hqueue
        split at h
        · cases h
          exact .emptied method error hpc hqueue
        · cases h
      · cases h
  | returned method result =>
      simp only [receiveStep] at h
      split at h
      · rename_i hpc
        cases h
        exact .returned method result hpc
      · cases h
  | closing =>
      simp only [receiveStep] at h
      split at h
      · rename_i hpc
        cases h
        exact .closing hpc
      · cases h
  | dropped =>
      simp only [receiveStep] at h
      split at h
      · rename_i hpc
        cases h
        exact .dropped hpc
      · cases h

end

/-! ## The handler -/

/-- `try_send` at the end of a call: the code that is returned, unless the queue takes the
message. -/
def refusal {ι : Type} (channel : Channel ι) (message : ControlMessage) : Option UInt32 :=
  if channel.receiver = .dropped then some errorServiceNotActive
  else if channel.queue.length < queueBound then none
  else
    match message with
    | .wake => some 0
    | .ordinary _ => some errorRetry

section

variable {ι : Type} [DecidableEq ι]

/-- A call of the handler goes on. -/
def goto (channel : Channel ι) (thread : ι) (pc : SenderPc) : Channel ι :=
  { channel with senders := Function.update channel.senders thread pc }

def dispatchStep (channel : Channel ι) (thread : ι) : Dispatch → Option (Channel ι)
  | .called control =>
      match channel.senders thread with
      | .idle =>
          if control = .interrogate then some (goto channel thread (.answer control 0))
          else some (goto channel thread (.loadAlive control))
      | _ => none
  | .loadedAlive =>
      match channel.senders thread with
      | .loadAlive control =>
          if channel.alive then some (goto channel thread (.loadDecision control))
          else some (goto channel thread (.answer control errorServiceNotActive))
      | _ => none
  | .loadedDecision =>
      match channel.senders thread with
      | .loadDecision control =>
          if channel.decision &&& terminalCommitted ≠ 0 then
            some (goto channel thread (.answer control errorServiceNotActive))
          else if control.isTerminal then some (goto channel thread (.fetchUpdate control))
          else some (goto channel thread (.trySend control))
      | _ => none
  | .updated won =>
      match channel.senders thread with
      | .fetchUpdate control =>
          if channel.decision &&& terminalCommitted = 0 then
            if won then
              some { goto channel thread (.fetchOr control) with
                decision := channel.decision ||| stopRequested }
            else none
          else if won then none
          else some (goto channel thread (.answer control errorServiceNotActive))
      | _ => none
  | .posted shutdown =>
      match channel.senders thread with
      | .fetchOr control =>
          if shutdown = decide (control = .shutdown) then
            some { goto channel thread (.trySend control) with
              terminal := channel.terminal ||| if control = .shutdown then 2 else 1 }
          else none
      | _ => none
  | .sent message accepted =>
      match channel.senders thread with
      | .trySend control =>
          if message = messageOf control then
            match refusal channel message, accepted with
            | none, true =>
                some { goto channel thread (.answer control 0) with
                  queue := channel.queue ++ [message] }
            | some code, false => some (goto channel thread (.answer control code))
            | _, _ => none
          else none
      | _ => none
  | .answered control code =>
      if channel.senders thread = .answer control code then some (goto channel thread .idle)
      else none

/-- One step of the channel, with what it read. -/
def step (channel : Channel ι) : Event ι → Option (Channel ι)
  | .dispatch thread d => dispatchStep channel thread d
  | .receive r => receiveStep channel r
  | .claimed result =>
      -- the receiver claims while it is there, in the middle of a receive or not
      if channel.receiver = .dropping ∨ channel.receiver = .dropped then none
      else if result = decide (channel.decision &&& stopRequested ≠ 0) then
        some { channel with decision := channel.decision ||| terminalCommitted }
      else none

/-- The steps of a call of the handler, each with what made it possible. -/
inductive Dispatched (channel : Channel ι) (thread : ι) : Dispatch → Channel ι → Prop
  | interrogate (hpc : channel.senders thread = .idle) :
      Dispatched channel thread (.called .interrogate)
        (goto channel thread (.answer .interrogate 0))
  | called (control : ServiceControl) (hpc : channel.senders thread = .idle) :
      Dispatched channel thread (.called control) (goto channel thread (.loadAlive control))
  | alive (control : ServiceControl) (hpc : channel.senders thread = .loadAlive control) :
      Dispatched channel thread .loadedAlive (goto channel thread (.loadDecision control))
  | notAlive (control : ServiceControl) (hpc : channel.senders thread = .loadAlive control)
      (halive : channel.alive = false) :
      Dispatched channel thread .loadedAlive
        (goto channel thread (.answer control errorServiceNotActive))
  | committed (control : ServiceControl) (hpc : channel.senders thread = .loadDecision control)
      (hdecision : channel.decision &&& terminalCommitted ≠ 0) :
      Dispatched channel thread .loadedDecision
        (goto channel thread (.answer control errorServiceNotActive))
  | terminal (control : ServiceControl) (hpc : channel.senders thread = .loadDecision control)
      (hterminal : control.isTerminal = true) :
      Dispatched channel thread .loadedDecision (goto channel thread (.fetchUpdate control))
  | ordinary (control : ServiceControl) (hpc : channel.senders thread = .loadDecision control)
      (hterminal : control.isTerminal = false) :
      Dispatched channel thread .loadedDecision (goto channel thread (.trySend control))
  | won (control : ServiceControl) (hpc : channel.senders thread = .fetchUpdate control)
      (hdecision : channel.decision &&& terminalCommitted = 0) :
      Dispatched channel thread (.updated true)
        { goto channel thread (.fetchOr control) with
          decision := channel.decision ||| stopRequested }
  | lost (control : ServiceControl) (hpc : channel.senders thread = .fetchUpdate control)
      (hdecision : channel.decision &&& terminalCommitted ≠ 0) :
      Dispatched channel thread (.updated false)
        (goto channel thread (.answer control errorServiceNotActive))
  | posted (control : ServiceControl) (hpc : channel.senders thread = .fetchOr control) :
      Dispatched channel thread (.posted (decide (control = .shutdown)))
        { goto channel thread (.trySend control) with
          terminal := channel.terminal ||| if control = .shutdown then 2 else 1 }
  | accepted (control : ServiceControl) (hpc : channel.senders thread = .trySend control) :
      Dispatched channel thread (.sent (messageOf control) true)
        { goto channel thread (.answer control 0) with
          queue := channel.queue ++ [messageOf control] }
  | refused (control : ServiceControl) (code : UInt32)
      (hpc : channel.senders thread = .trySend control)
      (hrefusal : refusal channel (messageOf control) = some code) :
      Dispatched channel thread (.sent (messageOf control) false)
        (goto channel thread (.answer control code))
  | answered (control : ServiceControl) (code : UInt32)
      (hpc : channel.senders thread = .answer control code) :
      Dispatched channel thread (.answered control code) (goto channel thread .idle)

variable {channel channel' : Channel ι} {thread : ι}

theorem dispatchStep_cases {d : Dispatch} (h : dispatchStep channel thread d = some channel') :
    Dispatched channel thread d channel' := by
  cases d with
  | called control =>
      simp only [dispatchStep] at h
      split at h
      · rename_i hpc
        split at h
        · rename_i hcontrol
          cases h
          rw [hcontrol]
          exact .interrogate hpc
        · cases h
          exact .called control hpc
      · cases h
  | loadedAlive =>
      simp only [dispatchStep] at h
      split at h
      · rename_i control hpc
        split at h
        · cases h
          exact .alive control hpc
        · rename_i halive
          cases h
          exact .notAlive control hpc (Bool.eq_false_iff.mpr halive)
      · cases h
  | loadedDecision =>
      simp only [dispatchStep] at h
      split at h
      · rename_i control hpc
        split at h
        · rename_i hdecision
          cases h
          exact .committed control hpc hdecision
        · split at h
          · rename_i hterminal
            cases h
            exact .terminal control hpc hterminal
          · rename_i hterminal
            cases h
            exact .ordinary control hpc (Bool.eq_false_iff.mpr hterminal)
      · cases h
  | updated won =>
      simp only [dispatchStep] at h
      split at h
      · rename_i control hpc
        split at h
        · rename_i hdecision
          split at h
          · rename_i hwon
            cases h
            rw [hwon]
            exact .won control hpc hdecision
          · cases h
        · rename_i hdecision
          split at h
          · cases h
          · rename_i hwon
            cases h
            rw [Bool.eq_false_iff.mpr hwon]
            exact .lost control hpc hdecision
      · cases h
  | posted shutdown =>
      simp only [dispatchStep] at h
      split at h
      · rename_i control hpc
        split at h
        · rename_i hshutdown
          cases h
          rw [hshutdown]
          exact .posted control hpc
        · cases h
      · cases h
  | sent message accepted =>
      simp only [dispatchStep] at h
      split at h
      · rename_i control hpc
        split at h
        · rename_i hmessage
          rw [hmessage] at h ⊢
          split at h
          · cases h
            exact .accepted control hpc
          · rename_i code hrefusal
            cases h
            exact .refused control code hpc hrefusal
          · cases h
        · cases h
      · cases h
  | answered control code =>
      simp only [dispatchStep] at h
      split at h
      · rename_i hpc
        cases h
        exact .answered control code hpc
      · cases h

end

end Ngsm.Win32.ControlChannel
