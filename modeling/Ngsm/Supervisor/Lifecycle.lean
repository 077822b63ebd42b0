/-
# The life of a service

What a supervisor is for, said without queues, threads and clocks: generations are
started one after the other, each start and each exit is recorded, and what follows
the end of a generation is the restart policy's decision.  `Lifecycle.after` reads a
trace and says where the service stands, or that no service behaves so.

The laws of the records are consequences of that reading alone.
-/

import Mathlib.Data.List.Induction
import Ngsm.Supervisor.Run

namespace Ngsm.Supervisor

open Ngsm.Core

/-- The events that the machine does not see. -/
def Event.silent : Event → Bool
  | .stopRequested _ | .applied _ | .requested _ _ | .check | .draining _ | .spawned _
  | .trouble _ _ => true
  | .hook call => !call.point.shutdown
  | _ => false

/-! ## The policy -/

/-- How a generation ended. -/
inductive GenerationEnd where
  | failed (error : SupervisorError)
  | exited (code : Int32) (lived : Nat)
deriving DecidableEq, Repr

inductive Decision where
  | again (delay : Nat)
  | quiesce
  | finish (reason : ExitReason)
  | giveUp (error : SupervisorError)
deriving DecidableEq, Repr

/-- What follows the end of a generation. -/
def policy (config : ManagedApplicationConfig) : GenerationEnd → Decision
  | .failed error =>
      match defaultAction config with
      | .exit => .giveUp error
      | .suicide => .finish (.suicide (-1))
      | .restart | .ignore => .again (startRetryDelay config)
  | .exited code lived =>
      match exitAction config code with
      | .restart => .again (restartDelay config lived)
      | .ignore => .quiesce
      | .exit => .finish .childExited
      | .suicide => .finish (.suicide code)

/-! ## The machine -/

inductive Phase where
  /-- The next generation may be attempted. -/
  | ready
  | starting
  | up
  | over (ending : GenerationEnd)
  /-- A throttled wait is announced. -/
  | backOff (delay : Nat)
  | stopped
deriving DecidableEq, Repr

/-- Where the service stands.  `attempts` counts the starts that were attempted,
`unexited` is a start record without its exit record, `exitHook` an exit record whose
hook is still to be fired. -/
structure Lifecycle where
  phase : Phase := .ready
  attempts : Nat := 0
  first : Bool := true
  lastDelay : Nat := 0
  unexited : Bool := false
  exitHook : Bool := false
  stopHook : Bool := false
  reported : Bool := false
deriving DecidableEq, Repr

namespace Lifecycle

def attempt (l : Lifecycle) : Lifecycle :=
  { l with phase := .starting, attempts := l.attempts + 1 }

def begin (l : Lifecycle) : Lifecycle :=
  { l with phase := .up, unexited := true }

/-- A recorded exit ends the generation that was up; after a failed start it only
closes the record. -/
def exit (l : Lifecycle) (code : Int32) (lived : Nat) : Lifecycle :=
  if l.phase = .up then
    { l with
      phase := .over (.exited code lived), first := false, unexited := false, exitHook := true }
  else
    { l with unexited := false, exitHook := true }

def again (l : Lifecycle) (delay : Nat) : Lifecycle :=
  { l with phase := .ready, lastDelay := delay }

/-- The exit record may be written. -/
def MayExit (l : Lifecycle) : Prop :=
  l.unexited = true ∧ l.exitHook = false ∧ l.phase ≠ .stopped

instance (l : Lifecycle) : Decidable l.MayExit :=
  inferInstanceAs (Decidable (_ ∧ _))

/-- What an event does to the service, and which events there are. -/
def step (config : ManagedApplicationConfig) (l : Lifecycle) : Event → Option Lifecycle
  | .attempt =>
      if l.phase = .ready ∧ l.unexited = false ∧ l.stopHook = false then
        some l.attempt
      else none
  | .started _ =>
      if l.phase = .starting ∧ l.unexited = false ∧ l.first = true then some l.begin else none
  | .restarted _ delay =>
      if l.phase = .starting ∧ l.unexited = false ∧ l.first = false ∧ delay = l.lastDelay then
        some l.begin
      else none
  | .startFailed error =>
      if l.phase = .starting ∨ l.phase = .up then
        some { l with phase := .over (.failed error) }
      else none
  | .childExited code lived => if l.MayExit then some (l.exit code lived) else none
  | .throttled delay =>
      match l.phase with
      | .over (.exited code lived) =>
          if policy config (.exited code lived) = .again delay ∧ delay ≠ 0 then
            some { l with phase := .backOff delay }
          else none
      | _ => none
  | .waited delay elapsed =>
      match l.phase with
      | .backOff announced =>
          if announced = delay ∧ delay ≤ elapsed then some (l.again delay) else none
      | .over (.exited code lived) =>
          if policy config (.exited code lived) = .again 0 ∧ delay = 0 then some (l.again 0) else none
      | .over (.failed error) =>
          if policy config (.failed error) = .again delay ∧ delay ≤ elapsed then
            some { l with phase := .ready }
          else none
      | _ => none
  | .startup .running childUp =>
      if l.phase = .up ∧ l.reported = false ∧ childUp = true then
        some { l with reported := true }
      else none
  | .startup .quiesced _ =>
      match l.phase with
      | .over (.exited code lived) =>
          if policy config (.exited code lived) = .quiesce ∧ l.reported = false then
            some { l with reported := true }
          else none
      | _ => none
  | .hook call =>
      match call.point with
      | .stopPre =>
          if l.phase ≠ .stopped ∧ l.stopHook = false then some { l with stopHook := true } else none
      | .exitPost =>
          if l.phase ≠ .stopped ∧ l.exitHook = true then some { l with exitHook := false } else none
      | _ => some l
  | .stopped =>
      if l.phase ≠ .stopped ∧ l.stopHook = true ∧ l.exitHook = false then
        some { l with phase := .stopped }
      else none
  | .stopRequested _ | .applied _ | .requested .. | .check | .draining _ | .spawned _ | .trouble .. =>
      some l

/-- Where a trace leads, when it is one of a service. -/
def after (config : ManagedApplicationConfig) (trace : List Event) : Option Lifecycle :=
  trace.foldlM (step config) {}

variable {config : ManagedApplicationConfig} {l l' : Lifecycle} {trace : List Event}
  {event : Event}

theorem step_silent (h : event.silent = true) : step config l event = some l := by
  cases event with
  | hook call =>
      rcases call with ⟨point, pid, exit, power⟩
      cases point <;> first | rfl | cases h
  | _ => first | rfl | cases h

/-- All that a step can be. -/
inductive Step (config : ManagedApplicationConfig) (l : Lifecycle) : Event → Lifecycle → Prop
  | attempt (hphase : l.phase = .ready) (hunexited : l.unexited = false)
      (hhook : l.stopHook = false) : Step config l .attempt l.attempt
  | started (pid : UInt32) (hphase : l.phase = .starting) (hunexited : l.unexited = false)
      (hfirst : l.first = true) : Step config l (.started pid) l.begin
  | restarted (pid : UInt32) (hphase : l.phase = .starting) (hunexited : l.unexited = false)
      (hfirst : l.first = false) : Step config l (.restarted pid l.lastDelay) l.begin
  | startFailed (error : SupervisorError) (hphase : l.phase = .starting ∨ l.phase = .up) :
      Step config l (.startFailed error) { l with phase := .over (.failed error) }
  | childExited (code : Int32) (lived : Nat) (hexit : l.MayExit) :
      Step config l (.childExited code lived) (l.exit code lived)
  | throttled (code : Int32) (lived delay : Nat) (hphase : l.phase = .over (.exited code lived))
      (hpolicy : policy config (.exited code lived) = .again delay) (hdelay : delay ≠ 0) :
      Step config l (.throttled delay) { l with phase := .backOff delay }
  | waited (delay elapsed : Nat) (hphase : l.phase = .backOff delay) (helapsed : delay ≤ elapsed) :
      Step config l (.waited delay elapsed) (l.again delay)
  | skipped (code : Int32) (lived elapsed : Nat) (hphase : l.phase = .over (.exited code lived))
      (hpolicy : policy config (.exited code lived) = .again 0) :
      Step config l (.waited 0 elapsed) (l.again 0)
  | retried (error : SupervisorError) (delay elapsed : Nat)
      (hphase : l.phase = .over (.failed error))
      (hpolicy : policy config (.failed error) = .again delay) (helapsed : delay ≤ elapsed) :
      Step config l (.waited delay elapsed) { l with phase := .ready }
  | running (hphase : l.phase = .up) (hreported : l.reported = false) :
      Step config l (.startup .running true) { l with reported := true }
  | quiesced (code : Int32) (lived : Nat) (childUp : Bool)
      (hphase : l.phase = .over (.exited code lived))
      (hpolicy : policy config (.exited code lived) = .quiesce) (hreported : l.reported = false) :
      Step config l (.startup .quiesced childUp) { l with reported := true }
  | stopHook (call : HookCall) (hpoint : call.point = .stopPre) (hphase : l.phase ≠ .stopped)
      (hhook : l.stopHook = false) : Step config l (.hook call) { l with stopHook := true }
  | exitHook (call : HookCall) (hpoint : call.point = .exitPost) (hphase : l.phase ≠ .stopped)
      (hhook : l.exitHook = true) : Step config l (.hook call) { l with exitHook := false }
  | stopped (hphase : l.phase ≠ .stopped) (hstop : l.stopHook = true)
      (hexit : l.exitHook = false) : Step config l .stopped { l with phase := .stopped }
  | silent (event : Event) (hsilent : event.silent = true) : Step config l event l

theorem Step.of_step (h : step config l event = some l') : Step config l event l' := by
  cases event with
  | attempt =>
      obtain ⟨⟨hphase, hunexited, hhook⟩, ⟨⟩⟩ := Option.ite_none_right_eq_some.mp h
      exact .attempt hphase hunexited hhook
  | started pid =>
      obtain ⟨⟨hphase, hunexited, hfirst⟩, ⟨⟩⟩ := Option.ite_none_right_eq_some.mp h
      exact .started pid hphase hunexited hfirst
  | restarted pid delay =>
      obtain ⟨⟨hphase, hunexited, hfirst, rfl⟩, ⟨⟩⟩ := Option.ite_none_right_eq_some.mp h
      exact .restarted pid hphase hunexited hfirst
  | startFailed error =>
      obtain ⟨hphase, ⟨⟩⟩ := Option.ite_none_right_eq_some.mp h
      exact .startFailed error hphase
  | childExited code lived =>
      obtain ⟨hexit, ⟨⟩⟩ := Option.ite_none_right_eq_some.mp h
      exact .childExited code lived hexit
  | throttled delay =>
      simp only [step] at h
      split at h
      · rename_i code lived hphase
        obtain ⟨⟨hpolicy, hdelay⟩, ⟨⟩⟩ := Option.ite_none_right_eq_some.mp h
        exact .throttled code lived delay hphase hpolicy hdelay
      · cases h
  | waited delay elapsed =>
      simp only [step] at h
      split at h
      · rename_i announced hphase
        obtain ⟨⟨rfl, helapsed⟩, ⟨⟩⟩ := Option.ite_none_right_eq_some.mp h
        exact .waited _ elapsed hphase helapsed
      · rename_i code lived hphase
        obtain ⟨⟨hpolicy, rfl⟩, ⟨⟩⟩ := Option.ite_none_right_eq_some.mp h
        exact .skipped code lived elapsed hphase hpolicy
      · rename_i error hphase
        obtain ⟨⟨hpolicy, helapsed⟩, ⟨⟩⟩ := Option.ite_none_right_eq_some.mp h
        exact .retried error delay elapsed hphase hpolicy helapsed
      · cases h
  | startup status childUp =>
      cases status with
      | running =>
          obtain ⟨⟨hphase, hreported, rfl⟩, ⟨⟩⟩ := Option.ite_none_right_eq_some.mp h
          exact .running hphase hreported
      | quiesced =>
          simp only [step] at h
          split at h
          · rename_i code lived hphase
            obtain ⟨⟨hpolicy, hreported⟩, ⟨⟩⟩ := Option.ite_none_right_eq_some.mp h
            exact .quiesced code lived childUp hphase hpolicy hreported
          · cases h
  | hook call =>
      simp only [step] at h
      split at h
      · rename_i hpoint
        obtain ⟨⟨hphase, hhook⟩, ⟨⟩⟩ := Option.ite_none_right_eq_some.mp h
        exact .stopHook call hpoint hphase hhook
      · rename_i hpoint
        obtain ⟨⟨hphase, hhook⟩, ⟨⟩⟩ := Option.ite_none_right_eq_some.mp h
        exact .exitHook call hpoint hphase hhook
      · rename_i hstop hexit
        cases h
        refine .silent _ ?_
        cases hpoint : call.point <;> simp_all [Event.silent, HookPoint.shutdown]
  | stopped =>
      obtain ⟨⟨hphase, hstop, hexit⟩, ⟨⟩⟩ := Option.ite_none_right_eq_some.mp h
      exact .stopped hphase hstop hexit
  | stopRequested paused =>
      cases h
      exact .silent _ rfl
  | applied pause =>
      cases h
      exact .silent _ rfl
  | requested ahead left =>
      cases h
      exact .silent _ rfl
  | check =>
      cases h
      exact .silent _ rfl
  | draining queue =>
      cases h
      exact .silent _ rfl
  | spawned paused =>
      cases h
      exact .silent _ rfl
  | trouble source error =>
      cases h
      exact .silent _ rfl

theorem after_append (trace : List Event) (event : Event) :
    after config (trace ++ [event]) = (after config trace).bind fun l => step config l event := by
  simp only [after, List.foldlM_append, List.foldlM_cons, List.foldlM_nil]
  cases trace.foldlM (step config) {} with
  | none => rfl
  | some l =>
      cases hstep : step config l event with
      | none => simp [hstep]
      | some l' => simp [hstep]

theorem after_append_eq_some :
    after config (trace ++ [event]) = some l' ↔
      ∃ l, after config trace = some l ∧ step config l event = some l' := by
  rw [after_append, Option.bind_eq_some_iff]

/-- What holds at the start and is kept by every step holds after every trace. -/
theorem after_induction {P : List Event → Lifecycle → Prop} (hstart : P [] {})
    (hstep : ∀ trace event l l', Step config l event l' → P trace l → P (trace ++ [event]) l')
    (h : after config trace = some l) : P trace l := by
  induction trace using List.reverseRecOn generalizing l with
  | nil =>
      cases h
      exact hstart
  | append_singleton trace event ih =>
      obtain ⟨l', h', hevent⟩ := after_append_eq_some.mp h
      exact hstep trace event l' l (.of_step hevent) (ih h')

/-- A prefix of a service's trace is one. -/
theorem after_prefix {front : List Event} (h : after config trace = some l)
    (hfront : front <+: trace) : ∃ l', after config front = some l' := by
  obtain ⟨rest, rfl⟩ := hfront
  induction rest using List.reverseRecOn generalizing l with
  | nil => exact ⟨l, by simpa using h⟩
  | append_singleton rest event ih =>
      rw [← List.append_assoc] at h
      obtain ⟨l', h', -⟩ := after_append_eq_some.mp h
      exact ih h'

end Lifecycle

end Ngsm.Supervisor
