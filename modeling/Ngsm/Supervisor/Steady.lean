/-
# What the supervisor leaves alone

Most of the supervisor's code neither writes a record nor touches the generation:
it waits, rotates log files, runs hooks and looks at the stop flag, while the other
threads go on.  An assertion that survives the moves of the others and the hooks of
that code is steady, and every function of this kind keeps it.  Controls change the
pause state and the requests as well; what has to be known about them is said in
`Governed`, and the loops that serve the queue rest on `Serves` alone.
-/

import Mathlib.Order.Basic
import Ngsm.Supervisor.Run

namespace Ngsm.Supervisor

open Ngsm.Core Ngsm.Lib Ngsm.Lib.Prog

/-- The errors that the code reports as such. -/
def Failed (halt : Halt) : Prop :=
  ∃ error, halt = .failed error

theorem failed_failed (error : SupervisorError) : Failed (.failed error) :=
  ⟨error, rfl⟩

/-- The clock and the numbers of a run's progress, which never go back. -/
def Plant.progress (plant : Plant) : Nat × Nat × Nat :=
  (plant.clock, plant.served, plant.held)

/-- An assertion that survives each of the others' moves, the supervisor's own tools and
the hooks of a running generation. -/
structure Yielding (I : Sup → Prop) : Prop where
  turn : ∀ s, I s → I { s with turns := s.turns + 1 }
  plant : ∀ s plant, s.plant.progress ≤ plant.progress → I s → I { s with plant }
  stop : ∀ s : Sup, I s → I s.setStop
  send : ∀ s message, message.request = none → I s → I { s with queue := s.queue ++ [message] }
  request : ∀ (s : Sup) pause, I s → I (s.request pause)
  cancel : ∀ (s : Sup) request, I s → I (s.cancelRequest request)
  exit : ∀ (s : Sup) code error, I s → I (s.publishExit code error)
  terminal : ∀ s terminal, I s → I { s with terminal }
  hook : ∀ (s : Sup) call, call.point.shutdown = false → I s → I (s.emit (.hook call))

/-- An assertion that survives the others' moves turn by turn: in the middle of a turn it may
be broken. -/
structure Steady (I : Sup → Prop) : Prop where
  next : ∀ {s : Sup}, I s → I s.next.2
  plant : ∀ s plant, s.plant.progress ≤ plant.progress → I s → I { s with plant }
  stop : ∀ s : Sup, I s → I s.setStop
  cancel : ∀ (s : Sup) request, I s → I (s.cancelRequest request)
  exit : ∀ (s : Sup) code error, I s → I (s.publishExit code error)
  ready : ∀ s : Sup, I s →
    I { s with terminal := s.terminal.map fun t => { t with ready := true } }
  hook : ∀ (s : Sup) call, call.point.shutdown = false → I s → I (s.emit (.hook call))

namespace Yielding

variable {I : Sup → Prop} {s : Sup}

theorem apply (h : Yielding I) (move : Move) (hs : I s) : I (s.apply move) := by
  cases move with
  | stop => exact h.stop s hs
  | send message =>
      simp only [Sup.apply]
      split
      · rename_i hsend
        simp only [Bool.and_eq_true, Option.isNone_iff_eq_none] at hsend
        exact h.send s message hsend.2 hs
      · exact hs
  | request pause => exact h.request s pause hs
  | cancel request => exact h.cancel s request hs
  | exit code error =>
      simp only [Sup.apply]
      split
      · exact h.exit s code error hs
      · exact hs
  | release => exact h.terminal s _ hs
  | tick time =>
      exact h.plant s _ ⟨Nat.le_add_right _ _, le_rfl⟩ hs

theorem moves (h : Yielding I) (moves : List Move) (hs : I s) :
    I (moves.foldl Sup.apply s) := by
  induction moves generalizing s with
  | nil => exact hs
  | cons move moves ih => exact ih (h.apply move hs)

theorem steady (h : Yielding I) : Steady I where
  next hs := h.moves _ (h.turn _ hs)
  plant := h.plant
  stop := h.stop
  cancel := h.cancel
  exit := h.exit
  ready s hs := h.terminal s _ hs
  hook := h.hook

/-- Two such assertions hold together. -/
theorem and {J : Sup → Prop} (h : Yielding I) (h' : Yielding J) :
    Yielding fun s => I s ∧ J s where
  turn s hs := ⟨h.turn s hs.1, h'.turn s hs.2⟩
  plant s plant hgrown hs := ⟨h.plant s plant hgrown hs.1, h'.plant s plant hgrown hs.2⟩
  stop s hs := ⟨h.stop s hs.1, h'.stop s hs.2⟩
  send s message hm hs := ⟨h.send s message hm hs.1, h'.send s message hm hs.2⟩
  request s pause hs := ⟨h.request s pause hs.1, h'.request s pause hs.2⟩
  cancel s request hs := ⟨h.cancel s request hs.1, h'.cancel s request hs.2⟩
  exit s code error hs := ⟨h.exit s code error hs.1, h'.exit s code error hs.2⟩
  terminal s terminal hs := ⟨h.terminal s terminal hs.1, h'.terminal s terminal hs.2⟩
  hook s call hc hs := ⟨h.hook s call hc hs.1, h'.hook s call hc hs.2⟩

end Yielding

/-- Two steady assertions are steady together. -/
theorem Steady.and {I J : Sup → Prop} (h : Steady I) (h' : Steady J) :
    Steady fun s => I s ∧ J s where
  next hs := ⟨h.next hs.1, h'.next hs.2⟩
  plant s plant hgrown hs := ⟨h.plant s plant hgrown hs.1, h'.plant s plant hgrown hs.2⟩
  stop s hs := ⟨h.stop s hs.1, h'.stop s hs.2⟩
  cancel s request hs := ⟨h.cancel s request hs.1, h'.cancel s request hs.2⟩
  exit s code error hs := ⟨h.exit s code error hs.1, h'.exit s code error hs.2⟩
  ready s hs := ⟨h.ready s hs.1, h'.ready s hs.2⟩
  hook s call hc hs := ⟨h.hook s call hc hs.1, h'.hook s call hc hs.2⟩

/-- The fields that no other thread writes. -/
structure Frame where
  config : ManagedApplicationConfig
  pause : PauseState
  startupReported : Bool
  stopHookFired : Bool
  stoppedRecorded : Bool

def Sup.frame (s : Sup) : Frame where
  config := s.config
  pause := s.pause
  startupReported := s.startupReported
  stopHookFired := s.stopHookFired
  stoppedRecorded := s.stoppedRecorded

theorem yielding_frame (P : Frame → Prop) : Yielding fun s => P s.frame where
  turn _ h := h
  plant _ _ _ h := h
  stop s h := by
    unfold Sup.setStop
    split
    · exact h
    · exact h
  send _ _ _ h := h
  request s pause h := by
    unfold Sup.request
    split
    · exact h
    · exact h
  cancel _ _ h := h
  exit _ _ _ h := h
  terminal _ _ h := h
  hook _ _ _ h := h

theorem steady_frame (P : Frame → Prop) : Steady fun s => P s.frame :=
  (yielding_frame P).steady

theorem steady_pause (P : PauseState → Prop) : Steady fun s => P s.pause :=
  steady_frame fun frame => P frame.pause

/-- The others take no turn, and they do not look at the child for the supervisor. -/
theorem Sup.apply_own (s : Sup) (move : Move) :
    (s.apply move).turns = s.turns ∧ (s.apply move).plant.childUp = s.plant.childUp := by
  cases move with
  | stop =>
      simp only [Sup.apply, Sup.setStop]
      split <;> exact ⟨rfl, rfl⟩
  | send message =>
      simp only [Sup.apply]
      split <;> exact ⟨rfl, rfl⟩
  | request pause =>
      simp only [Sup.apply, Sup.request]
      split <;> exact ⟨rfl, rfl⟩
  | exit code error =>
      simp only [Sup.apply]
      split <;> exact ⟨rfl, rfl⟩
  | _ => exact ⟨rfl, rfl⟩

theorem Sup.moves_own (moves : List Move) (s : Sup) :
    (moves.foldl Sup.apply s).turns = s.turns ∧
      (moves.foldl Sup.apply s).plant.childUp = s.plant.childUp := by
  induction moves generalizing s with
  | nil => exact ⟨rfl, rfl⟩
  | cons move moves ih =>
      obtain ⟨hturns, hup⟩ := ih (s.apply move)
      exact ⟨hturns.trans (s.apply_own move).1, hup.trans (s.apply_own move).2⟩

theorem Sup.next_turns (s : Sup) : s.next.2.turns = s.turns + 1 :=
  (Sup.moves_own _ _).1

theorem Sup.next_childUp (s : Sup) : s.next.2.plant.childUp = s.plant.childUp :=
  (Sup.moves_own _ _).2

theorem wp_turn_iff {s : Sup} {Q : Turn → Sup → Prop} {R : Halt → Sup → Prop} :
    turn.wp Q R s ↔ Q s.next.1 s.next.2 :=
  Iff.rfl

theorem wp_stopping_eq {s : Sup} {Q : Bool → Sup → Prop} {R : Halt → Sup → Prop} :
    stopping.wp Q R s ↔ Q s.next.2.stopRequested s.next.2 :=
  Iff.rfl

section Rules

variable {I : Sup → Prop} {E : Halt → Prop} {α : Type}

/-! ## Single steps -/

theorem keeps_turn (h : Steady I) : Keeps I E turn :=
  fun _ hs => h.next hs

theorem keeps_onPlant (h : Steady I) (f : Plant → Plant)
    (hf : ∀ plant : Plant, plant.progress ≤ (f plant).progress) : Keeps I E (onPlant f) :=
  Keeps.modify fun s hs => h.plant s _ (hf s.plant) hs

theorem keeps_reportThat (h : Steady I) (operation : String) (diagnostic : Diagnostic) :
    Keeps I E (reportThat operation diagnostic) :=
  keeps_onPlant h _ fun _ => le_rfl

theorem keeps_report (h : Steady I) (operation message : String) :
    Keeps I E (report operation message) :=
  keeps_reportThat h operation _

theorem keeps_fail (error : SupervisorError) : Keeps I Failed (fail error : SupM α) :=
  Keeps.throw (failed_failed error)

theorem keeps_stopping (h : Steady I) : Keeps I E stopping :=
  Keeps.bind (keeps_turn h) fun _ => Keeps.bind Keeps.get fun _ => Keeps.pure _

theorem keeps_now (h : Steady I) : Keeps I E now :=
  Keeps.bind (keeps_turn h) fun _ => Keeps.bind Keeps.get fun _ => Keeps.pure _

theorem keeps_sleep (h : Steady I) (time : Nat) : Keeps I E (sleep time) :=
  Keeps.bind (keeps_turn h) fun _ => keeps_onPlant h _ fun _ => ⟨Nat.le_add_right _ _, le_rfl⟩

theorem keeps_call (h : Steady I) (wrap : String → SupervisorError) :
    Keeps I Failed (call wrap) := by
  refine Keeps.bind (keeps_turn h) fun answer => ?_
  cases answer.fault with
  | some message => exact keeps_fail _
  | none => exact Keeps.pure _

theorem keeps_alive (h : Steady I) : Keeps I E alive := by
  refine Keeps.bind (keeps_turn h) fun _ => Keeps.bind Keeps.get fun _ => ?_
  exact Keeps.bind (keeps_onPlant h _ fun _ => le_rfl) fun _ => Keeps.pure _

theorem keeps_currentPid (h : Steady I) : Keeps I E currentPid :=
  Keeps.bind (keeps_turn h) fun _ => Keeps.bind Keeps.get fun _ => Keeps.pure _

/-- A hook that the assertion allows, whether or not it belongs to the shutdown. -/
theorem keeps_fireHook_of (h : Steady I) (hook : HookCall)
    (hemit : ∀ s, I s → I (s.emit (.hook hook))) : Keeps I E (fireHook hook) := by
  refine Keeps.bind (keeps_stopping h) fun _ => Keeps.ite (Keeps.pure _) ?_
  refine Keeps.bind (Keeps.modify hemit) fun _ => Keeps.bind Keeps.get fun s => ?_
  cases findHook s.config.hooks hook.point with
  | none => exact Keeps.pure _
  | some _ => exact Keeps.bind (keeps_turn h) fun _ => Keeps.pure _

theorem keeps_fireHook (h : Steady I) (hook : HookCall) (hpoint : hook.point.shutdown = false) :
    Keeps I E (fireHook hook) :=
  keeps_fireHook_of h hook fun s hs => h.hook s hook hpoint hs

/-! ## Log rotation -/

theorem keeps_sinkDue (h : Steady I) (force offline : Bool) :
    Keeps I Failed (sinkDue force offline) := by
  refine Keeps.bind (keeps_turn h) fun answer => ?_
  cases answer.lock with
  | busy => exact keeps_fail _
  | poisoned => exact keeps_fail _
  | acquired =>
      simp only
      split
      · exact keeps_fail _
      · exact Keeps.pure _

theorem keeps_spawnTask (h : Steady I) : Keeps I Failed spawnTask := by
  refine Keeps.bind (keeps_turn h) fun answer => ?_
  cases answer.worker with
  | some message => exact keeps_fail _
  | none => exact Keeps.pure _

theorem keeps_waitTask (h : Steady I) : Keeps I Failed waitTask :=
  Keeps.bind (keeps_turn h) fun _ => Keeps.ite (Keeps.pure _) (keeps_fail _)

theorem keeps_onlyIf {m : SupM Unit} (condition : Bool) (hm : Keeps I E m) :
    Keeps I E (onlyIf condition m) :=
  Keeps.ite hm (Keeps.pure _)

theorem keeps_rotateSink (h : Steady I) (force offline : Bool) :
    Keeps I Failed (rotateSink force offline) := by
  have hpost : Keeps I Failed (do fireHook { point := .rotatePost, pid := ← currentPid }) :=
    Keeps.bind (keeps_currentPid h) fun _ => keeps_fireHook h _ rfl
  refine Keeps.bind (keeps_stopping h) fun _ => Keeps.ite (Keeps.pure _) ?_
  refine Keeps.bind (keeps_sinkDue h force offline) fun _ => Keeps.ite (Keeps.pure _) ?_
  refine Keeps.bind (keeps_currentPid h) fun _ => ?_
  refine Keeps.bind (keeps_fireHook h _ rfl) fun _ => ?_
  refine Keeps.bind (keeps_stopping h) fun _ => Keeps.ite (Keeps.pure _) ?_
  refine Keeps.bind (keeps_spawnTask h) fun _ => ?_
  refine Keeps.bind (keeps_onPlant h _ fun _ => le_rfl) fun _ => ?_
  refine Keeps.bind (keeps_waitTask h) fun rotated => ?_
  refine Keeps.bind (keeps_onPlant h _ fun _ => le_rfl) fun _ => ?_
  cases rotated.fault with
  | some error => exact Keeps.bind (keeps_report h _ _) fun _ => Keeps.pure _
  | none => exact Keeps.bind (keeps_onlyIf _ hpost) fun _ => Keeps.pure _

theorem keeps_rotateSinks (h : Steady I) (force offline : Bool) (sinks : Nat) :
    Keeps I Failed (rotateSinks force offline sinks) := by
  induction sinks with
  | zero => exact Keeps.pure _
  | succ sinks ih =>
      exact Keeps.bind (keeps_rotateSink h force offline) fun _ => Keeps.ite ih (Keeps.pure _)

theorem keeps_finishFilesystemTasks (h : Steady I) : Keeps I Failed finishFilesystemTasks := by
  refine Keeps.bind Keeps.get fun _ => Keeps.bind (keeps_onlyIf _ ?_) fun _ =>
    Keeps.bind Keeps.get fun _ => keeps_onlyIf _ ?_
  · exact Keeps.bind (keeps_waitTask h) fun _ => keeps_onPlant h _ fun _ => le_rfl
  · exact Keeps.bind (keeps_waitTask h) fun _ => keeps_onPlant h _ fun _ => le_rfl

/-! ## The steps of a start that leave no record -/

theorem keeps_prepareLaunch (h : Steady I) : Keeps I Failed prepareLaunch := by
  refine Keeps.bind (keeps_turn h) fun answer => ?_
  cases answer.error with
  | some error => exact keeps_fail _
  | none =>
      refine Keeps.bind Keeps.get fun _ => ?_
      exact Keeps.bind (keeps_onlyIf _ (keeps_fail _)) fun _ => keeps_onPlant h _ fun _ => le_rfl

theorem keeps_openSinks (h : Steady I) : Keeps I Failed openSinks := by
  refine Keeps.bind (keeps_spawnTask h) fun _ => ?_
  refine Keeps.bind (keeps_onPlant h _ fun _ => le_rfl) fun _ => ?_
  refine Keeps.bind (keeps_waitTask h) fun opened => ?_
  refine Keeps.bind (keeps_onPlant h _ fun _ => le_rfl) fun _ => ?_
  cases opened.error with
  | some error => exact keeps_fail _
  | none => exact Keeps.bind Keeps.get fun _ => keeps_onPlant h _ fun _ => le_rfl

theorem keeps_attachStream (h : Steady I) (stream : Option IoStream) :
    Keeps I Failed (attachStream stream) := by
  refine Keeps.ite (Keeps.bind Keeps.get fun _ => Keeps.ite ?_ ?_) (Keeps.pure _)
  · refine Keeps.bind (keeps_call h _) fun _ => ?_
    exact Keeps.bind (keeps_call h _) fun _ => keeps_onPlant h _ fun _ => le_rfl
  · exact Keeps.bind (keeps_call h _) fun _ => Keeps.pure _

theorem keeps_attachStreams (h : Steady I) : Keeps I Failed attachStreams := by
  refine Keeps.bind Keeps.get fun s => Keeps.bind (keeps_attachStream h _) fun _ => ?_
  refine Keeps.bind (keeps_attachStream h _) fun _ => ?_
  cases s.config.io.stdin with
  | some stream =>
      exact Keeps.bind Keeps.get fun _ => Keeps.bind (keeps_call h _) fun _ => Keeps.pure _
  | none => exact Keeps.pure _

theorem keeps_prepareGeneration (h : Steady I) : Keeps I Failed prepareGeneration := by
  refine Keeps.bind (keeps_stopping h) fun _ => Keeps.ite (Keeps.pure _) ?_
  refine Keeps.bind (keeps_prepareLaunch h) fun _ => ?_
  refine Keeps.bind (keeps_fireHook h _ rfl) fun _ => ?_
  refine Keeps.bind (keeps_stopping h) fun _ => Keeps.ite (Keeps.pure _) ?_
  refine Keeps.bind (keeps_call h _) fun _ => ?_
  refine Keeps.bind (keeps_onPlant h _ fun _ => le_rfl) fun _ => ?_
  refine Keeps.bind (keeps_openSinks h) fun _ => Keeps.bind Keeps.get fun _ => ?_
  refine Keeps.bind (keeps_rotateSinks h _ _ _) fun _ => ?_
  refine Keeps.bind (keeps_stopping h) fun _ => Keeps.ite (Keeps.pure _) ?_
  refine Keeps.bind (keeps_attachStreams h) fun _ => ?_
  exact Keeps.bind (keeps_stopping h) fun _ => Keeps.pure _

theorem keeps_killOwnedChild (h : Steady I) : Keeps I E killOwnedChild :=
  Keeps.bind (keeps_turn h) fun _ => Keeps.pure _

theorem keeps_launchChild (h : Steady I)
    (hspawn : ∀ s : Sup, I s → I (s.emit (.spawned s.pause.paused))) :
    Keeps I Failed launchChild := by
  refine Keeps.bind Keeps.get fun s => Keeps.bind (keeps_call h _) fun child => ?_
  refine Keeps.bind (Keeps.modify hspawn) fun _ => ?_
  refine Keeps.bind (keeps_turn h) fun contained => ?_
  cases contained.fault with
  | some message => exact Keeps.bind (keeps_killOwnedChild h) fun _ => keeps_fail _
  | none =>
      refine Keeps.bind (keeps_stopping h) fun _ => Keeps.ite ?_ ?_
      · exact Keeps.bind (keeps_killOwnedChild h) fun _ => Keeps.pure _
      · refine Keeps.bind (keeps_now h) fun _ => Keeps.bind (keeps_turn h) fun resumed => ?_
        cases resumed.fault with
        | some message => exact Keeps.bind (keeps_killOwnedChild h) fun _ => keeps_fail _
        | none =>
            refine Keeps.ite (Keeps.pure _) ?_
            exact Keeps.bind (keeps_killOwnedChild h) fun _ => keeps_fail _

/-! ## Waiting for an exit -/

theorem keeps_observeUnwatchedChild (h : Steady I) : Keeps I E observeUnwatchedChild := by
  refine Keeps.bind (keeps_turn h) fun answer => Keeps.modify fun s hs => ?_
  split
  · cases answer.fault with
    | some message => exact h.exit s _ _ hs
    | none =>
        simp only
        split
        · exact h.exit s _ _ hs
        · exact hs
  · exact hs

theorem keeps_exitObservedAndTreeEmpty (h : Steady I) : Keeps I E exitObservedAndTreeEmpty :=
  Keeps.bind (keeps_turn h) fun _ => Keeps.bind Keeps.get fun _ => Keeps.pure _

theorem keeps_pollExit (h : Steady I) (deadline rounds : Nat) :
    Keeps I E (pollExit deadline rounds) := by
  induction rounds with
  | zero => exact keeps_exitObservedAndTreeEmpty h
  | succ rounds ih =>
      refine Keeps.bind (keeps_now h) fun _ => Keeps.ite (keeps_exitObservedAndTreeEmpty h) ?_
      refine Keeps.bind (keeps_observeUnwatchedChild h) fun _ => ?_
      refine Keeps.bind (keeps_exitObservedAndTreeEmpty h) fun _ => Keeps.ite (Keeps.pure _) ?_
      refine Keeps.bind (keeps_now h) fun _ => ?_
      exact Keeps.bind (keeps_sleep h _) fun _ => ih

theorem keeps_waitForExitUntil (h : Steady I) (deadline : Nat) :
    Keeps I E (waitForExitUntil deadline) :=
  Keeps.bind Keeps.get fun _ => keeps_pollExit h deadline _

theorem keeps_waitForExit (h : Steady I) (duration : Nat) : Keeps I E (waitForExit duration) := by
  refine Keeps.bind (keeps_now h) fun _ => Keeps.bind Keeps.get fun s => ?_
  cases s.plant.shutdownDeadline with
  | some stop => exact keeps_waitForExitUntil h _
  | none => exact keeps_waitForExitUntil h _

theorem keeps_postToMembers (h : Steady I) : Keeps I Failed postToMembers := by
  refine Keeps.bind Keeps.get fun _ => keeps_onlyIf _ ?_
  refine Keeps.bind (keeps_call h _) fun _ => Keeps.forM fun _ _ => ?_
  exact Keeps.bind (keeps_turn h) fun _ => Keeps.forM fun _ _ => keeps_report h _ _

theorem keeps_stopByMessages (h : Steady I) (skip bit grace : UInt32) :
    Keeps I Failed (stopByMessages skip bit grace) := by
  refine Keeps.ite (Keeps.pure _) ?_
  exact Keeps.bind (keeps_postToMembers h) fun _ => keeps_waitForExit h _

theorem keeps_stopByConsole (h : Steady I) (skip grace : UInt32) :
    Keeps I Failed (stopByConsole skip grace) := by
  refine Keeps.ite (Keeps.bind (keeps_alive h) fun _ => Keeps.ite ?_ (Keeps.pure _)) (Keeps.pure _)
  refine Keeps.bind (keeps_turn h) fun answer => ?_
  cases answer.fault with
  | some error => exact Keeps.bind (keeps_report h _ _) fun _ => Keeps.pure _
  | none => exact keeps_waitForExit h _

theorem keeps_stopByTermination (h : Steady I) (skip : UInt32) (tree : Bool) :
    Keeps I Failed (stopByTermination skip tree) := by
  refine Keeps.bind Keeps.get fun _ => keeps_onlyIf _ ?_
  exact Keeps.bind (keeps_call h _) fun _ => Keeps.pure _

theorem keeps_stopByEscalation (h : Steady I) : Keeps I Failed stopByEscalation := by
  refine Keeps.bind Keeps.get fun _ => ?_
  refine Keeps.bind (keeps_stopByConsole h _ _) fun _ => Keeps.ite (Keeps.pure _) ?_
  refine Keeps.bind (keeps_stopByMessages h _ _ _) fun _ => Keeps.ite (Keeps.pure _) ?_
  refine Keeps.bind (keeps_stopByMessages h _ _ _) fun _ => Keeps.ite (Keeps.pure _) ?_
  refine Keeps.bind (keeps_stopByTermination h _ _) fun _ => ?_
  exact Keeps.bind (keeps_waitForExit h _) fun _ => Keeps.pure _

theorem keeps_terminateJob (h : Steady I) : Keeps I Failed terminateJob := by
  refine Keeps.bind Keeps.get fun _ => keeps_onlyIf _ ?_
  refine Keeps.bind (keeps_onPlant h _ fun _ => le_rfl) fun _ => ?_
  refine Keeps.bind (keeps_turn h) fun answer => ?_
  cases answer.fault with
  | some message => exact Keeps.bind (keeps_report h _ _) fun _ => keeps_fail _
  | none => exact Keeps.pure _

theorem keeps_finishReaders (h : Steady I) (readers : Nat) (failure : Option String) :
    Keeps I E (finishReaders readers failure) := by
  induction readers generalizing failure with
  | zero => exact Keeps.pure _
  | succ readers ih =>
      refine Keeps.bind (keeps_turn h) fun answer => ?_
      cases answer.fault with
      | some error => exact ih _
      | none => exact ih _

theorem keeps_awaitRelease (h : Steady I) (deadline rounds : Nat) :
    Keeps I E (awaitRelease deadline rounds) := by
  induction rounds with
  | zero => exact Keeps.pure _
  | succ rounds ih =>
      refine Keeps.bind (keeps_now h) fun _ => Keeps.bind Keeps.get fun _ => keeps_onlyIf _ ?_
      exact Keeps.bind (keeps_sleep h _) fun _ => ih

end Rules

end Ngsm.Supervisor
