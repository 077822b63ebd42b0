/-
# The files behind the hooks of a rotation

The loop over the sinks knows of a rotation what its worker meets: which call failed, what
each look at the cancellation found.  Here this is read off the sink itself, call by call.
Then the worker of the loop gives what the sink gives, and a hook behind a rotation follows
an archive that is complete on the volume.
-/

import Ngsm.Supervisor.RotationHooks
import Ngsm.Supervisor.RotationRuns

namespace Ngsm.Supervisor.RotationFiles

open Ngsm.Lib (EachEvent Prog)
open Ngsm.Supervisor.RotationHooks (RotateAnswers Outside)
open Ngsm.Supervisor.RotationSink (Sink SinkM IoError)

/-! ## What the worker meets -/

/-- What a program of the sink comes to, with its error as text. -/
def outcome {α : Type} (text : IoError → String) (p : SinkM α) (s : Sink) : Except String α :=
  (p.exec s).1.mapError text

/-- The sink behind a program. -/
def after {α : Type} (p : SinkM α) (s : Sink) : Sink :=
  (p.exec s).2

def fault {α : Type} : Except String α → Option String
  | .ok _ => none
  | .error message => some message

/-- The name that a rotation builds for its archive. -/
def built (text : IoError → String) (locked : Sink) : String :=
  (outcome text (RotationSink.buildRotatedName locked.path) locked).toOption.getD ""

def named (locked : Sink) : Sink :=
  after (RotationSink.buildRotatedName locked.path) locked

/-- The handle is given up. -/
def closed (locked : Sink) : Sink :=
  { after RotationSink.syncFile (after RotationSink.checkCancelled (named locked)) with
    file := none }

/-- The program that empties a log which has been copied. -/
def emptyLog (path : String) : SinkM Unit := do
  let file ← RotationSink.openExisting path
  RotationSink.setLengthZero file

/-- What the worker meets while it rotates a sink.  Once the log is open again only its
metadata can fail. -/
def met (text : IoError → String) (s : Sink) : RotateAnswers :=
  let locked := after RotationSink.lock s
  let rotated := built text locked
  let closed := closed locked
  let byCopy : Bool := closed.copyAndTruncate = some true
  let copied := after (RotationSink.copyArchive closed.path rotated) closed
  let aside := after (RotationSink.moveAside rotated) closed
  let again := after RotationSink.checkCancelled aside
  { lock := fault (outcome text RotationSink.lock s)
    bytesInCurrent := locked.bytesInCurrent
    cancelled := fun
      | 0 => ((named locked).ahead 0).cancelled
      | 1 => ((if byCopy then copied else closed).ahead 0).cancelled
      | _ => (aside.ahead 0).cancelled
    syncAll := fault (outcome text RotationSink.syncFile
      (after RotationSink.checkCancelled (named locked)))
    copyAndTruncate := byCopy
    copyArchive := fault (outcome text (RotationSink.copyArchive closed.path rotated) closed)
    truncate := fault (outcome text (emptyLog closed.path)
      (after RotationSink.checkCancelled copied))
    rename := fault (outcome text (RotationSink.rename closed.path rotated)
      (after RotationSink.checkCancelled closed))
    reopen := fault (outcome text (RotationSink.reopen again.path) again)
    metadata := fault (outcome text RotationSink.reopenFile again)
    rotated }

section

variable {α β : Type} {text : IoError → String} {s : Sink}

theorem step_fault (result : Except String Unit) :
    RotationHooks.step (fault result) = result := by
  cases result <;> rfl

theorem outcome_bind (p : SinkM α) (f : α → SinkM β) :
    outcome text (p >>= f) s =
      outcome text p s >>= fun a => outcome text (f a) (after p s) := by
  unfold outcome after
  rw [Prog.exec_bind]
  rcases p.exec s with ⟨result, s'⟩
  cases result <;> rfl

theorem outcome_currentSink_bind (f : Sink → SinkM β) :
    outcome text (RotationSink.currentSink >>= f) s = outcome text (f s) s := by
  rw [outcome_bind]
  rfl

theorem outcome_modify_bind (f : Sink → Sink) (g : Unit → SinkM β) :
    outcome text (modify f >>= g) s = outcome text (g ()) (f s) := by
  rw [outcome_bind]
  rfl

theorem outcome_attempt_bind (p : SinkM α) (f : Except IoError α → SinkM β) :
    outcome text (p.attempt >>= f) s = outcome text (f (p.exec s).1) (after p s) := by
  rw [outcome_bind]
  rfl

theorem outcome_checkCancelled (htext : text .interrupted = RotationHooks.interrupted) :
    outcome text RotationSink.checkCancelled s =
      RotationHooks.unlessCancelled (s.ahead 0).cancelled (.ok ()) := by
  unfold RotationSink.checkCancelled RotationHooks.unlessCancelled
  rw [outcome_bind, ← htext]
  change outcome text (if (s.ahead 0).cancelled then throw .interrupted else pure ()) _ = _
  cases (s.ahead 0).cancelled <;> rfl

/-- A check and the step behind it. -/
theorem outcome_check_bind (htext : text .interrupted = RotationHooks.interrupted)
    (f : Unit → SinkM Unit) :
    outcome text (RotationSink.checkCancelled >>= f) s =
      RotationHooks.unlessCancelled (s.ahead 0).cancelled
        (outcome text (f ()) (after RotationSink.checkCancelled s)) := by
  rw [outcome_bind, outcome_checkCancelled htext]
  unfold RotationHooks.unlessCancelled
  cases (s.ahead 0).cancelled <;> rfl

theorem wp_firstFree (otherwise : String) (candidates : List String) (s : Sink) :
    (RotationSink.firstFree otherwise candidates).wp (fun _ _ => True) (fun _ _ => False) s := by
  induction candidates generalizing s with
  | nil => trivial
  | cons candidate candidates ih =>
      unfold RotationSink.firstFree RotationSink.pathExists
      rw [Prog.wp_bind, Prog.wp_bind, RotationSink.wp_ask, Prog.wp_bind]
      change Prog.wp (if _ then _ else _) _ _ _
      split
      · exact ih _
      · trivial

/-- A name is built whatever the file system answers. -/
theorem outcome_built (text : IoError → String) (s : Sink) :
    outcome text (RotationSink.buildRotatedName s.path) s = .ok (built text s) := by
  have hname : (RotationSink.buildRotatedName s.path).wp (fun _ _ => True) (fun _ _ => False)
      s := by
    unfold RotationSink.buildRotatedName
    rw [Prog.wp_bind, RotationSink.wp_ask]
    exact wp_firstFree _ _ _
  obtain ⟨rotated, s', hexec, -⟩ := Prog.exists_ok_of_wp _ hname
  rw [built, outcome, hexec]
  rfl

theorem outcome_moveAside (htext : text .interrupted = RotationHooks.interrupted)
    (rotated : String) :
    outcome text (RotationSink.moveAside rotated) s =
      if s.copyAndTruncate = some true then do
        outcome text (RotationSink.copyArchive s.path rotated) s
        let copied := after (RotationSink.copyArchive s.path rotated) s
        RotationHooks.unlessCancelled (copied.ahead 0).cancelled
          (outcome text (emptyLog s.path) (after RotationSink.checkCancelled copied))
      else
        RotationHooks.unlessCancelled (s.ahead 0).cancelled
          (outcome text (RotationSink.rename s.path rotated)
            (after RotationSink.checkCancelled s)) := by
  unfold RotationSink.moveAside
  rw [outcome_currentSink_bind]
  split
  · unfold RotationSink.copyAndTruncate
    rw [outcome_bind]
    congr 1
    funext _
    exact outcome_check_bind htext _
  · exact outcome_check_bind htext _

/-- Opening the log again fails with the error of the open, or of the metadata. -/
theorem outcome_reopenFile_of_error {message : String}
    (hreopen : outcome text (RotationSink.reopen s.path) s = .error message) :
    outcome text RotationSink.reopenFile s = .error message := by
  unfold RotationSink.reopenFile
  rw [outcome_currentSink_bind, outcome_bind, hreopen]
  rfl

/-- The log is opened again and its metadata read; what was put aside is given at the end. -/
theorem outcome_reopened (htext : text .interrupted = RotationHooks.interrupted)
    {again : Sink} (hagain : after RotationSink.checkCancelled s = again)
    (rotateResult : Except IoError Unit) (rotated : String) :
    outcome text (do
        RotationSink.checkCancelled
        let _ ← RotationSink.reopenFile
        match rotateResult with
        | .ok () => pure (some rotated)
        | .error error => throw error) s =
      (do
        RotationHooks.unlessCancelled (s.ahead 0).cancelled
          (RotationHooks.step (fault (outcome text (RotationSink.reopen again.path) again)))
        RotationHooks.step (fault (outcome text RotationSink.reopenFile again))
        (rotateResult.mapError text).map fun _ => some rotated) := by
  rw [outcome_bind, outcome_checkCancelled htext]
  unfold RotationHooks.unlessCancelled
  cases (s.ahead 0).cancelled with
  | true => rfl
  | false =>
      change outcome text (RotationSink.reopenFile >>= _) _ = _
      rw [outcome_bind, hagain]
      cases hreopen : outcome text (RotationSink.reopen again.path) again with
      | error message =>
          rw [outcome_reopenFile_of_error hreopen]
          rfl
      | ok file =>
          cases outcome text RotationSink.reopenFile again with
          | error message => rfl
          | ok file =>
              cases rotateResult <;> rfl

/-- Putting the log aside comes to what the worker says of the archive. -/
theorem archive_met (htext : text .interrupted = RotationHooks.interrupted) (s : Sink) :
    RotationHooks.archive (met text s) =
      outcome text (RotationSink.moveAside (met text s).rotated)
        (closed (after RotationSink.lock s)) := by
  have hcopyArchive : RotationHooks.step (met text s).copyArchive = _ := step_fault _
  have htruncate : RotationHooks.step (met text s).truncate = _ := step_fault _
  have hrename : RotationHooks.step (met text s).rename = _ := step_fault _
  unfold RotationHooks.archive
  rw [outcome_moveAside htext, hcopyArchive, htruncate, hrename]
  by_cases hmode : (closed (after RotationSink.lock s)).copyAndTruncate = some true
  · rw [if_pos (show (met text s).copyAndTruncate = true from decide_eq_true hmode),
      if_pos hmode]
    simp only [met, hmode, decide_true, if_true]
  · rw [if_neg (show ¬(met text s).copyAndTruncate = true by simpa [met] using hmode),
      if_neg hmode]
    simp only [met, hmode, decide_false, Bool.false_eq_true, if_false]

theorem rotateState_met (htext : text .interrupted = RotationHooks.interrupted) (s : Sink) :
    outcome text RotationSink.rotateState (after RotationSink.lock s) =
      RotationHooks.rotateState (met text s) := by
  have hsync : RotationHooks.step (met text s).syncAll = _ := step_fault _
  unfold RotationSink.rotateState RotationHooks.rotateState
  rw [outcome_currentSink_bind, outcome_bind, outcome_built, hsync]
  change outcome text (RotationSink.checkCancelled >>= _) (named (after RotationSink.lock s)) = _
  rw [outcome_bind, outcome_checkCancelled htext]
  unfold RotationHooks.unlessCancelled
  change _ = ((if ((named (after RotationSink.lock s)).ahead 0).cancelled then _ else _) >>= _)
  cases ((named (after RotationSink.lock s)).ahead 0).cancelled with
  | true => rfl
  | false =>
      change outcome text (RotationSink.syncFile >>= _) _ = _
      rw [outcome_bind]
      congr 1
      funext _
      rw [outcome_modify_bind, outcome_attempt_bind]
      refine (outcome_reopened htext rfl _ _).trans ?_
      rw [archive_met htext]
      rfl

/-- What the sink makes of a rotation is what the worker says of the answers it met. -/
theorem rotate_met (htext : text .interrupted = RotationHooks.interrupted) (s : Sink) :
    outcome text RotationSink.rotate s = RotationHooks.rotateSinkFile (met text s) := by
  unfold RotationSink.rotate RotationHooks.rotateSinkFile
  rw [outcome_bind]
  have hlock : RotationHooks.step (met text s).lock = outcome text RotationSink.lock s :=
    step_fault _
  rw [hlock]
  congr 1
  funext _
  rw [outcome_currentSink_bind]
  change outcome text (if (met text s).bytesInCurrent = 0 then _ else _) _ = _
  split
  · rfl
  · rw [outcome_attempt_bind, ← rotateState_met htext, outcome_bind]
    unfold outcome
    cases (RotationSink.rotateState.exec (after RotationSink.lock s)).1 <;> rfl

/-- The worker finds the sink as it was before its lock was taken. -/
theorem met_bytesInCurrent (text : IoError → String) (s : Sink) :
    (met text s).bytesInCurrent = s.bytesInCurrent := by
  have hkept : RotationSink.lock.wp (fun _ s' => s'.bytesInCurrent = s.bytesInCurrent)
      (fun _ s' => s'.bytesInCurrent = s.bytesInCurrent) s :=
    (RotationSink.keeps_lock (I := fun s' => s'.bytesInCurrent = s.bytesInCurrent)
      fun _ _ h => h).wp rfl (fun _ _ h => h) fun _ _ _ h => h
  change (after RotationSink.lock s).bytesInCurrent = s.bytesInCurrent
  unfold after
  rcases hrun : RotationSink.lock.exec s with ⟨result, s'⟩
  cases result with
  | ok _ => exact Prog.wp_ok _ hkept hrun
  | error e => exact Prog.wp_error _ hkept hrun

/-! ## The archive of a rotation -/

def Complete (archive : String) (s : Sink) : Prop :=
  archive ∈ s.volume.now.completed

theorem blind_complete (archive : String) : RotationSink.Blind (Complete archive) :=
  fun _ _ h => h

theorem keeps_reopenFile (archive : String) :
    RotationSink.reopenFile.Keeps (Complete archive) fun _ => True := by
  have hblind := blind_complete archive
  refine Prog.Keeps.bind RotationSink.keeps_currentSink fun sink => ?_
  refine Prog.Keeps.bind ?_ fun file => Prog.Keeps.bind ?_ fun length => ?_
  · refine Prog.Keeps.bind (RotationSink.keeps_tryCall hblind) fun _ => ?_
    refine Prog.Keeps.bind RotationSink.keeps_currentVolume fun volume => ?_
    cases volume.entries sink.path with
    | some file => exact Prog.Keeps.pure _
    | none => exact Prog.Keeps.bind (Prog.Keeps.modify fun _ h => h) fun _ => Prog.Keeps.pure _
  · refine Prog.Keeps.bind (RotationSink.keeps_tryCall hblind) fun _ => ?_
    exact Prog.Keeps.bind RotationSink.keeps_currentVolume fun volume => Prog.Keeps.pure _
  · exact Prog.Keeps.bind (Prog.Keeps.modify fun _ h => h) fun _ => Prog.Keeps.pure _

theorem wp_copyArchive_complete (path archive : String) (s : Sink) :
    (RotationSink.copyArchive path archive).wp (fun _ => Complete archive) (fun _ _ => True)
      s := by
  unfold RotationSink.copyArchive
  rw [Prog.wp_bind]
  refine Prog.wp_of_forall _ (fun source s => ?_) fun _ _ => trivial
  rw [Prog.wp_bind]
  refine Prog.wp_of_forall _ (fun destination s => ?_) fun _ _ => trivial
  rw [Prog.wp_bind]
  refine Prog.wp_of_forall _ (fun volume s => ?_) fun _ _ => trivial
  rw [Prog.wp_bind]
  refine Prog.wp_of_forall _ (fun copied s => ?_) fun _ _ => trivial
  cases copied with
  | error error =>
      simp only [Prog.wp_bind]
      exact Prog.wp_of_forall _ (fun _ _ => trivial) fun _ _ => trivial
  | ok _ => exact List.mem_append_right _ List.mem_cons_self

theorem wp_moveAside_complete (rotated : String) (s : Sink) :
    (RotationSink.moveAside rotated).wp (fun _ => Complete rotated) (fun _ _ => True) s := by
  have hblind := blind_complete rotated
  unfold RotationSink.moveAside
  rw [Prog.wp_bind, RotationSink.currentSink, Prog.wp_step]
  simp only
  split
  · unfold RotationSink.copyAndTruncate
    rw [Prog.wp_bind]
    refine Prog.wp_mono _ (fun _ s h => ?_) (fun _ _ _ => trivial)
      (wp_copyArchive_complete _ rotated s)
    rw [Prog.wp_bind]
    refine (RotationSink.keeps_checkCancelled hblind).wp h (fun _ s h => ?_) fun _ _ _ _ => trivial
    rw [Prog.wp_bind]
    refine Prog.wp_mono _ (fun file s h => ?_) (fun _ _ _ => trivial)
      (RotationSink.wp_openExisting hblind h _)
    have hemptied : (RotationSink.setLengthZero file).Keeps (Complete rotated) fun _ => True :=
      Prog.Keeps.bind (RotationSink.keeps_tryCall hblind) fun _ =>
        Prog.Keeps.modify fun _ h => h
    exact hemptied.wp h.1 (fun _ _ h => h) fun _ _ _ _ => trivial
  · rw [Prog.wp_bind]
    refine Prog.wp_of_forall _ (fun _ s => ?_) fun _ _ => trivial
    unfold RotationSink.rename
    rw [Prog.wp_bind]
    refine Prog.wp_of_forall _ (fun _ s => ?_) fun _ _ => trivial
    rw [Prog.wp_bind]
    refine Prog.wp_of_forall _ (fun volume s => ?_) fun _ _ => trivial
    split
    · trivial
    · split
      · trivial
      · exact List.mem_append_right _ List.mem_cons_self

/-- A rotation that gives a name has completed the archive of this name. -/
theorem wp_rotateState_complete (s : Sink) :
    RotationSink.rotateState.wp
      (fun result s' => ∀ archive, result = some archive → Complete archive s')
      (fun _ _ => True) s := by
  unfold RotationSink.rotateState
  rw [Prog.wp_bind]
  refine Prog.wp_of_forall _ (fun sink s => ?_) fun _ _ => trivial
  rw [Prog.wp_bind]
  refine Prog.wp_of_forall _ (fun rotated s => ?_) fun _ _ => trivial
  have hblind := blind_complete rotated
  rw [Prog.wp_bind]
  refine Prog.wp_of_forall _ (fun _ s => ?_) fun _ _ => trivial
  rw [Prog.wp_bind]
  refine Prog.wp_of_forall _ (fun _ s => ?_) fun _ _ => trivial
  rw [Prog.wp_bind, Prog.wp_modify, Prog.wp_bind, Prog.wp_attempt]
  refine Prog.wp_mono _ (fun _ s h => ?_) (fun error s _ => ?_) (wp_moveAside_complete rotated _)
  · rw [Prog.wp_bind]
    refine (RotationSink.keeps_checkCancelled hblind).wp h (fun _ s h => ?_) fun _ _ _ _ => trivial
    rw [Prog.wp_bind]
    refine (keeps_reopenFile rotated).wp h (fun _ s h => ?_) fun _ _ _ _ => trivial
    intro archive harchive
    cases harchive
    exact h
  · rw [Prog.wp_bind]
    refine Prog.wp_of_forall _ (fun _ s => ?_) fun _ _ => trivial
    rw [Prog.wp_bind]
    exact Prog.wp_of_forall _ (fun _ s => trivial) fun _ _ => trivial

theorem wp_rotate_complete (s : Sink) :
    RotationSink.rotate.wp
      (fun result s' => ∀ archive, result = some archive → Complete archive s')
      (fun _ _ => True) s := by
  unfold RotationSink.rotate
  rw [Prog.wp_bind]
  refine Prog.wp_of_forall _ (fun _ s => ?_) fun _ _ => trivial
  rw [Prog.wp_bind, RotationSink.currentSink, Prog.wp_step]
  simp only
  split
  · intro archive harchive
    cases harchive
  · rw [Prog.wp_bind, Prog.wp_attempt]
    refine Prog.wp_mono _ (fun result s h => ?_) (fun _ _ _ => trivial) (wp_rotateState_complete s)
    rw [Prog.wp_bind, Prog.wp_modify, Prog.wp_liftExcept]
    exact h

/-- An archive that the worker reports is complete on the volume. -/
theorem complete_of_rotated (htext : text .interrupted = RotationHooks.interrupted)
    {s : Sink} {archive : String}
    (hrotated : RotationHooks.rotateSinkFile (met text s) = .ok (some archive)) :
    Complete archive (after RotationSink.rotate s) := by
  have hcomplete := wp_rotate_complete s
  rw [← rotate_met htext] at hrotated
  rcases hrun : RotationSink.rotate.exec s with ⟨result, s'⟩
  rw [outcome, hrun] at hrotated
  rw [after, hrun]
  cases result with
  | error e => cases hrotated
  | ok result =>
      cases hrotated
      exact Prog.wp_ok _ hcomplete hrun archive rfl

end

/-! ## The hooks and the files -/

section

variable {ι : Type} {outside : Outside ι} {history : List (RotationHooks.Event ι)}
  {event : RotationHooks.Event ι} {force offline : Bool} {sink : ι}

/-- What a worker has met came from outside. -/
def Worked (outside : Outside ι) (history : List (RotationHooks.Event ι)) : Prop :=
  ∀ sink answers, .worked sink answers ∈ history →
    ∃ earlier, answers = outside.work earlier sink

theorem Worked.note (h : Worked outside history)
    (hevent : ∀ sink answers, event = .worked sink answers →
      ∃ earlier, answers = outside.work earlier sink) : Worked outside (history ++ [event]) := by
  intro sink answers hmem
  rcases List.mem_append.mp hmem with hmem | hmem
  · exact h sink answers hmem
  · exact hevent sink answers (List.mem_singleton.mp hmem).symm

theorem Worked.arrive (h : Worked outside history) :
    Worked outside (RotationHooks.arrive outside history) := by
  unfold RotationHooks.arrive
  split
  · exact h.note fun _ _ heq => by cases heq
  · exact h

theorem keeps_stopping_worked :
    (RotationHooks.stopping outside).Keeps (Worked outside) fun _ => True :=
  Prog.Keeps.step fun _ h => h.arrive

theorem keeps_log_worked (hevent : ∀ sink answers, event ≠ .worked sink answers) :
    (RotationHooks.log event).Keeps (Worked outside) fun _ => True :=
  Prog.Keeps.modify fun _ h => h.note fun sink answers heq => absurd heq (hevent sink answers)

theorem keeps_fireHook_worked (point : HookPoint) :
    (RotationHooks.fireHook outside point).Keeps (Worked outside) fun _ => True := by
  refine Prog.Keeps.step fun history h => ?_
  change Worked outside (if _ then _ else _)
  split
  · exact h.arrive
  · exact h.arrive.note fun _ _ heq => by cases heq

theorem keeps_ask_worked (sink : ι) (asked : RotationHooks.Question) :
    (RotationHooks.ask outside sink asked).Keeps (Worked outside) fun _ => True :=
  Prog.Keeps.step fun _ h => h.arrive.note fun _ _ heq => by cases heq

theorem keeps_spawn_worked (sink : ι) :
    (RotationHooks.spawn outside sink).Keeps (Worked outside) fun _ => True := by
  refine Prog.Keeps.step fun history h => ?_
  simp only
  split
  · exact h.arrive.note fun _ _ heq => by cases heq
  · exact h.arrive

theorem keeps_wait_worked (sink : ι) :
    (RotationHooks.wait outside sink).Keeps (Worked outside) fun _ => True := by
  refine Prog.Keeps.step fun history h => ?_
  simp only
  split
  · exact h.arrive.note fun _ _ heq => by cases heq
  · refine h.arrive.note fun other answers heq => ?_
    cases heq
    exact ⟨_, rfl⟩

theorem keeps_settle_worked (rotated : Except String (Option String)) :
    (RotationHooks.settle outside rotated).Keeps (Worked outside) fun _ => True := by
  cases rotated with
  | error message => exact keeps_log_worked fun _ _ heq => by cases heq
  | ok archive =>
      cases archive with
      | none => exact Prog.Keeps.pure _
      | some archive => exact keeps_fireHook_worked _

theorem keeps_rotateSink_worked (force offline : Bool) (sink : ι) :
    (RotationHooks.rotateSink outside force offline sink).Keeps (Worked outside)
      fun _ => True := by
  refine Prog.Keeps.bind keeps_stopping_worked fun _ => Prog.Keeps.ite (Prog.Keeps.pure _) ?_
  refine Prog.Keeps.bind (keeps_ask_worked sink _) fun _ => Prog.Keeps.ite ?_ ?_
  · refine Prog.Keeps.bind (keeps_fireHook_worked _) fun _ => ?_
    refine Prog.Keeps.bind keeps_stopping_worked fun _ => Prog.Keeps.ite (Prog.Keeps.pure _) ?_
    refine Prog.Keeps.bind (keeps_spawn_worked sink) fun _ => ?_
    refine Prog.Keeps.bind (keeps_wait_worked sink) fun rotated => ?_
    refine Prog.Keeps.bind (keeps_settle_worked rotated) fun _ => ?_
    exact Prog.Keeps.bind (keeps_log_worked fun _ _ heq => by cases heq) fun _ => Prog.Keeps.pure _
  · exact Prog.Keeps.bind (keeps_log_worked fun _ _ heq => by cases heq) fun _ => Prog.Keeps.pure _

theorem keeps_rotateSinks_worked (force offline : Bool) (sinks : List ι) :
    (RotationHooks.rotateSinks outside force offline sinks).Keeps (Worked outside)
      fun _ => True := by
  induction sinks with
  | nil => exact Prog.Keeps.pure _
  | cons sink sinks ih =>
      refine Prog.Keeps.bind (keeps_rotateSink_worked force offline sink) fun _ => ?_
      exact Prog.Keeps.ite ih (Prog.Keeps.pure _)

theorem worked_of_run (outside : Outside ι) (force offline : Bool) (sinks : List ι) :
    Worked outside ((RotationHooks.rotateSinks outside force offline sinks).exec []).2 := by
  have hkept : (RotationHooks.rotateSinks outside force offline sinks).wp
      (fun _ => Worked outside) (fun _ history => True ∧ Worked outside history) [] :=
    keeps_rotateSinks_worked force offline sinks [] fun _ _ hmem => by cases hmem
  rcases hrun : (RotationHooks.rotateSinks outside force offline sinks).exec []
    with ⟨result, history⟩
  cases result with
  | ok _ => exact Prog.wp_ok _ hkept hrun
  | error e => exact (Prog.wp_error _ hkept hrun).2

/-- A hook behind a rotation follows one whose archive is complete on the volume. -/
def BehindArchive (text : IoError → String) (disk : List (RotationHooks.Event ι) → ι → Sink)
    (sink : ι) (before : List (RotationHooks.Event ι)) : RotationHooks.Event ι → Prop
  | .hook .rotatePost _ => ∃ earlier archive,
      .worked sink (met text (disk earlier sink)) ∈ before ∧
        Complete archive (after RotationSink.rotate (disk earlier sink))
  | _ => True

/-- Where the workers rotate the files of the sinks, a hook behind a rotation runs in the turn
of a sink whose archive is complete. -/
theorem hooks_behind_archives {text : IoError → String}
    (htext : text .interrupted = RotationHooks.interrupted)
    {disk : List (RotationHooks.Event ι) → ι → Sink}
    (hdisk : ∀ history sink, outside.work history sink = met text (disk history sink))
    (force offline : Bool) (sinks : List ι) :
    ∃ turns : List (ι × List (RotationHooks.Event ι)),
      ((RotationHooks.rotateSinks outside force offline sinks).exec []).2 =
        turns.flatMap Prod.snd ∧
      turns.map Prod.fst <+: sinks ∧
      ∀ turn ∈ turns, EachEvent (BehindArchive text disk turn.1) turn.2 := by
  obtain ⟨-, turns, hhistory, hsinks, hturns⟩ :=
    RotationHooks.turns_of_run outside sinks force offline
  refine ⟨turns, hhistory, hsinks, fun turn hturn before event later hsplit => ?_⟩
  have hallowed := (hturns turn hturn).allowed before event later hsplit
  unfold BehindArchive
  split
  · rename_i pid
    rcases hallowed with ⟨hpre, -⟩ | ⟨-, answers, hworked, -, hrotated⟩
    · cases hpre
    · have hmem : RotationHooks.Event.worked turn.1 answers ∈
          ((RotationHooks.rotateSinks outside force offline sinks).exec []).2 := by
        rw [hhistory]
        refine List.mem_flatMap.mpr ⟨turn, hturn, ?_⟩
        rw [hsplit]
        exact List.mem_append_left _ hworked
      obtain ⟨earlier, rfl⟩ := worked_of_run outside force offline sinks turn.1 answers hmem
      rw [hdisk] at hworked hrotated
      exact ⟨earlier, _, hworked, complete_of_rotated htext hrotated⟩
  · trivial

end

end Ngsm.Supervisor.RotationFiles
