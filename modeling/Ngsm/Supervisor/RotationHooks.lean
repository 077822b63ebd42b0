/-
# The hooks of a rotation

`rotate_sinks` asks each sink whether it is due, runs the hook before the rotation, lets
a worker rotate the sink, and runs the hook behind it.  What the sinks answer, what the
worker meets and the moment at which a stop is requested come from outside and may depend
on everything that has happened.

The history of a call falls into one turn for each sink, in their order, until a stop or
a failure ends the loop.
-/

import Ngsm.Lib.History
import Ngsm.Lib.Program
import Ngsm.Supervisor.World

namespace Ngsm.Supervisor.RotationHooks

open Ngsm.Lib
open Ngsm.Core

/-! ## The rotation of a sink -/

/-- What the worker meets while it rotates a sink: the errors of its steps, and what each of
its looks at the cancellation finds. -/
structure RotateAnswers where
  lock : Option String := none
  bytesInCurrent : ℕ
  cancelled : ℕ → Bool := fun _ => false
  syncAll : Option String := none
  copyAndTruncate : Bool := false
  copyArchive : Option String := none
  truncate : Option String := none
  rename : Option String := none
  reopen : Option String := none
  metadata : Option String := none
  rotated : String

def interrupted : String :=
  "operation interrupted"

/-- A step that fails with an error or not at all. -/
def step : Option String → Except String Unit
  | some error => .error error
  | none => .ok ()

def unlessCancelled (cancelled : Bool) (next : Except String Unit) : Except String Unit :=
  if cancelled then .error interrupted else next

/-- Copy the log or move it away. -/
def archive (answers : RotateAnswers) : Except String Unit :=
  if answers.copyAndTruncate then do
    step answers.copyArchive
    unlessCancelled (answers.cancelled 1) (step answers.truncate)
  else
    unlessCancelled (answers.cancelled 1) (step answers.rename)

/-- `RotationState::rotate`: the log is opened again before the result of the archive is
given. -/
def rotateState (answers : RotateAnswers) : Except String (Option String) := do
  unlessCancelled (answers.cancelled 0) (step answers.syncAll)
  let rotateResult := archive answers
  unlessCancelled (answers.cancelled 2) (step answers.reopen)
  step answers.metadata
  rotateResult.map fun _ => some answers.rotated

/-- `RotationSink::rotate`; an empty log is left alone. -/
def rotateSinkFile (answers : RotateAnswers) : Except String (Option String) := do
  step answers.lock
  if answers.bytesInCurrent = 0 then pure none else rotateState answers

/-- A rotation with an archive has made it. -/
theorem archive_of_rotated {answers : RotateAnswers} {path : String}
    (hrotated : rotateSinkFile answers = .ok (some path)) :
    answers.bytesInCurrent ≠ 0 ∧ archive answers = .ok () ∧ path = answers.rotated := by
  unfold rotateSinkFile at hrotated
  obtain ⟨-, -, hrotated⟩ := Check.bind_eq_ok.mp hrotated
  split at hrotated
  · cases hrotated
  · rename_i hbytes
    unfold rotateState at hrotated
    obtain ⟨-, -, hrotated⟩ := Check.bind_eq_ok.mp hrotated
    obtain ⟨-, -, hrotated⟩ := Check.bind_eq_ok.mp hrotated
    obtain ⟨-, -, hrotated⟩ := Check.bind_eq_ok.mp hrotated
    cases harchive : archive answers with
    | error e =>
        rw [harchive] at hrotated
        cases hrotated
    | ok done =>
        rw [harchive] at hrotated
        cases hrotated
        exact ⟨hbytes, rfl, rfl⟩

/-! ## The loop -/

/-- What a sink is asked. -/
inductive Question where
  | hasData
  | due (offline : Bool)
deriving DecidableEq, Repr

def question (force offline : Bool) : Question :=
  if force then .hasData else .due offline

inductive Event (ι : Type) where
  /-- A stop is requested. -/
  | stop
  | asked (sink : ι) (question : Question) (answer : Except String Bool)
  /-- A hook passes the stop gate. -/
  | hook (point : HookPoint) (pid : Option UInt32)
  | spawnFailed (sink : ι) (error : String)
  /-- The worker has finished with a sink. -/
  | worked (sink : ι) (answers : RotateAnswers)
  /-- The worker did not finish, or panicked. -/
  | lost (sink : ι) (error : String)
  | reported (error : String)
  | handled (sink : ι)

/-- What comes from outside, after what has happened. -/
structure Outside (ι : Type) where
  stops : List (Event ι) → Bool
  answer : List (Event ι) → ι → Question → Except String Bool
  pid : List (Event ι) → Option UInt32
  spawn : List (Event ι) → ι → Option String
  work : List (Event ι) → ι → RotateAnswers
  lost : List (Event ι) → ι → Option String

abbrev RotM (ι : Type) (α : Type) : Type :=
  Prog (List (Event ι)) SupervisorError α

section

variable {ι : Type} (outside : Outside ι)

def Event.isStop : Event ι → Bool
  | .stop => true
  | _ => false

/-- What has happened when a step looks at it: a stop may have been requested meanwhile. -/
def arrive (history : List (Event ι)) : List (Event ι) :=
  if outside.stops history then history ++ [.stop] else history

def stopping : RotM ι Bool :=
  Prog.step fun history =>
    (.ok ((arrive outside history).any Event.isStop), arrive outside history)

def log (event : Event ι) : RotM ι Unit :=
  modify (· ++ [event])

/-- `fire_hook` of a hook that is not terminal, up to its stop gate. -/
def fireHook (point : HookPoint) : RotM ι Unit :=
  Prog.step fun history =>
    let pid := outside.pid history
    let history := arrive outside history
    (.ok (), if history.any Event.isStop then history else history ++ [.hook point pid])

/-- `sink.has_data()?` or `sink.due(offline)?`. -/
def ask (sink : ι) (asked : Question) : RotM ι Bool :=
  Prog.step fun history =>
    let history := arrive outside history
    let answer := outside.answer history sink asked
    (answer.mapError .io, history ++ [.asked sink asked answer])

def spawn (sink : ι) : RotM ι Unit :=
  Prog.step fun history =>
    let history := arrive outside history
    match outside.spawn history sink with
    | some error => (.error (.io error), history ++ [.spawnFailed sink error])
    | none => (.ok (), history)

/-- Wait for the worker and take what it returns. -/
def wait (sink : ι) : RotM ι (Except String (Option String)) :=
  Prog.step fun history =>
    let history := arrive outside history
    match outside.lost history sink with
    | some error => (.error (.degraded error), history ++ [.lost sink error])
    | none =>
        let answers := outside.work history sink
        (.ok (rotateSinkFile answers), history ++ [.worked sink answers])

/-- What follows a rotation: the hook behind an archive, or the report of an error. -/
def settle : Except String (Option String) → RotM ι Unit
  | .ok (some _) => fireHook outside .rotatePost
  | .ok none => pure ()
  | .error error => log (.reported error)

/-- A sink that is due, up to the end of its turn. -/
def rotateDue (sink : ι) : RotM ι Bool := do
  fireHook outside .rotatePre
  if ← stopping outside then
    pure false
  else
    spawn outside sink
    let rotated ← wait outside sink
    settle outside rotated
    log (.handled sink)
    pure true

/-- The turn of one sink; false ends the loop. -/
def rotateSink (force offline : Bool) (sink : ι) : RotM ι Bool := do
  if ← stopping outside then
    pure false
  else
    let due ← ask outside sink (question force offline)
    if due then
      rotateDue outside sink
    else
      log (.handled sink)
      pure true

def rotateSinks (force offline : Bool) : List ι → RotM ι Unit
  | [] => pure ()
  | sink :: sinks => do
      if ← rotateSink outside force offline sink then
        rotateSinks force offline sinks
      else
        pure ()

end

/-! ## Turns -/

section

variable {ι : Type}

def Event.isHook : Event ι → Bool
  | .hook _ _ => true
  | _ => false

/-- The points of the hooks in a history. -/
def hookPoints (history : List (Event ι)) : List HookPoint :=
  history.filterMap fun event =>
    match event with
    | .hook point _ => some point
    | _ => none

/-- A hook in the turn of a sink: the one before the rotation follows a sink that said it is
due, and the one behind it an archive of this sink. -/
def TurnAllows (force offline : Bool) (sink : ι) (before : List (Event ι)) : Event ι → Prop
  | .hook point _ =>
      (point = .rotatePre ∧ .asked sink (question force offline) (.ok true) ∈ before) ∨
      (point = .rotatePost ∧ ∃ answers, .worked sink answers ∈ before ∧
        archive answers = .ok () ∧ rotateSinkFile answers = .ok (some answers.rotated))
  | _ => True

/-- What happens in the turn of one sink. -/
structure Turn (force offline : Bool) (sink : ι) (part : List (Event ι)) : Prop where
  cycle : hookPoints part = [] ∨ hookPoints part = [.rotatePre] ∨
    hookPoints part = [.rotatePre, .rotatePost]
  allowed : EachEvent (TurnAllows force offline sink) part

/-- No hook passes its gate after a stop has been requested. -/
def Gated : List (Event ι) → Prop :=
  EachEvent fun before event => event.isHook = true → before.any Event.isStop = false

/-- The turns of the sinks in their order, up to one at which the loop may have ended. -/
structure Turns (force offline : Bool) (sinks : List ι) (history : List (Event ι)) : Prop where
  parts : ∃ turns : List (ι × List (Event ι)), history = turns.flatMap Prod.snd ∧
    turns.map Prod.fst <+: sinks ∧ ∀ turn ∈ turns, Turn force offline turn.1 turn.2

/-! ## One turn -/

/-- A turn on the way: it began after `start`, and has run hooks at `points`. -/
structure InTurn (force offline : Bool) (sink : ι) (start : List (Event ι))
    (points : List HookPoint) (evidence : List (Event ι)) (history : List (Event ι)) : Prop where
  gated : Gated history
  parts : ∃ part, history = start ++ part ∧ hookPoints part = points ∧
    EachEvent (TurnAllows force offline sink) part ∧ ∀ event ∈ evidence, event ∈ part

variable {force offline : Bool} {sink : ι} {start history evidence : List (Event ι)}
  {points : List HookPoint} {event : Event ι} {outside : Outside ι}

theorem hookPoints_append (history more : List (Event ι)) :
    hookPoints (history ++ more) = hookPoints history ++ hookPoints more :=
  List.filterMap_append

theorem hookPoints_quiet (hquiet : event.isHook = false) : hookPoints [event] = [] := by
  cases event with
  | hook point pid => cases hquiet
  | _ => rfl

theorem InTurn.begin (hgated : Gated start) : InTurn force offline sink start [] [] start :=
  ⟨hgated, [], by simp, rfl, EachEvent.nil, nofun⟩

/-- An event that is no hook, kept as evidence. -/
theorem InTurn.seen (h : InTurn force offline sink start points evidence history)
    (hquiet : event.isHook = false) :
    InTurn force offline sink start points (event :: evidence) (history ++ [event]) := by
  obtain ⟨part, hpart, hpoints, hallowed, hevidence⟩ := h.parts
  have hfree : TurnAllows force offline sink part event := by
    cases event with
    | hook point pid => cases hquiet
    | _ => trivial
  constructor
  · apply h.gated.concat
    rw [hquiet]
    nofun
  · refine ⟨part ++ [event], by rw [hpart, List.append_assoc], ?_, hallowed.concat hfree, ?_⟩
    · rw [hookPoints_append, hookPoints_quiet hquiet, hpoints, List.append_nil]
    · intro other hother
      rcases List.mem_cons.mp hother with rfl | hother
      · exact List.mem_append_right part List.mem_cons_self
      · exact List.mem_append_left _ (hevidence other hother)

theorem InTurn.forget {more : List (Event ι)}
    (h : InTurn force offline sink start points evidence history)
    (hmore : ∀ event ∈ more, event ∈ evidence) :
    InTurn force offline sink start points more history := by
  obtain ⟨part, hpart, hpoints, hallowed, hevidence⟩ := h.parts
  exact ⟨h.gated, part, hpart, hpoints, hallowed, fun event hevent =>
    hevidence event (hmore event hevent)⟩

theorem InTurn.quiet (h : InTurn force offline sink start points evidence history)
    (hquiet : event.isHook = false) :
    InTurn force offline sink start points evidence (history ++ [event]) :=
  (h.seen hquiet).forget fun _ hevent => List.mem_cons_of_mem event hevent

theorem InTurn.arrive (h : InTurn force offline sink start points evidence history) :
    InTurn force offline sink start points evidence (arrive outside history) := by
  unfold RotationHooks.arrive
  split
  · exact h.quiet rfl
  · exact h

/-- A hook that the evidence of its turn allows, before any stop. -/
theorem InTurn.hook {point : HookPoint} {pid : Option UInt32}
    (h : InTurn force offline sink start points evidence history)
    (hstop : history.any Event.isStop = false)
    (hallows : ∀ part : List (Event ι), (∀ event ∈ evidence, event ∈ part) →
      TurnAllows force offline sink part (.hook point pid)) :
    InTurn force offline sink start (points ++ [point]) evidence
      (history ++ [.hook point pid]) := by
  obtain ⟨part, hpart, hpoints, hallowed, hevidence⟩ := h.parts
  constructor
  · exact h.gated.concat fun _ => hstop
  · refine ⟨part ++ [.hook point pid], by rw [hpart, List.append_assoc], ?_,
      hallowed.concat (hallows part hevidence), ?_⟩
    · rw [hookPoints_append, hpoints]
      rfl
    · intro other hother
      exact List.mem_append_left _ (hevidence other hother)

/-- A turn that has ended, in a history that began at `start`. -/
def Ended (force offline : Bool) (sink : ι) (start history : List (Event ι)) : Prop :=
  Gated history ∧ ∃ part, history = start ++ part ∧ Turn force offline sink part

theorem InTurn.ended (h : InTurn force offline sink start points evidence history)
    (hcycle : points = [] ∨ points = [.rotatePre] ∨ points = [.rotatePre, .rotatePost]) :
    Ended force offline sink start history := by
  obtain ⟨part, hpart, hpoints, hallowed, -⟩ := h.parts
  refine ⟨h.gated, part, hpart, ?_, hallowed⟩
  rw [hpoints]
  exact hcycle

/-! ## The steps of a turn -/

section

variable {R : SupervisorError → List (Event ι) → Prop}

theorem arrive_stop (hstop : history.any Event.isStop = true) :
    (arrive outside history).any Event.isStop = true := by
  unfold arrive
  split
  · rw [List.any_append, hstop, Bool.true_or]
  · exact hstop

/-- A hook passes its gate, or a stop has been requested. -/
theorem wp_fireHook {point : HookPoint}
    (h : InTurn force offline sink start points evidence history)
    (hallows : ∀ part : List (Event ι), ∀ pid, (∀ event ∈ evidence, event ∈ part) →
      TurnAllows force offline sink part (.hook point pid)) :
    Prog.wp (fireHook outside point)
      (fun _ history' => InTurn force offline sink start (points ++ [point]) evidence history' ∨
        InTurn force offline sink start points evidence history' ∧
          history'.any Event.isStop = true) R history := by
  change (_ ∨ _)
  cases hstop : (arrive outside history).any Event.isStop with
  | true =>
      right
      rw [if_pos rfl]
      exact ⟨h.arrive, hstop⟩
  | false =>
      left
      rw [if_neg Bool.false_ne_true]
      exact h.arrive.hook hstop fun part hpart => hallows part _ hpart

theorem wp_ask {asked : Question}
    (h : InTurn force offline sink start points evidence history) :
    Prog.wp (ask outside sink asked)
      (fun due => InTurn force offline sink start points
        (.asked sink asked (.ok due) :: evidence))
      (fun _ => InTurn force offline sink start points evidence) history := by
  unfold ask
  rw [Prog.wp_step]
  dsimp only
  cases outside.answer (arrive outside history) sink asked with
  | ok due => exact h.arrive.seen rfl
  | error e => exact h.arrive.quiet rfl

theorem wp_spawn (h : InTurn force offline sink start points evidence history) :
    Prog.wp (spawn outside sink)
      (fun _ => InTurn force offline sink start points evidence)
      (fun _ => InTurn force offline sink start points evidence) history := by
  unfold spawn
  rw [Prog.wp_step]
  dsimp only
  cases outside.spawn (arrive outside history) sink with
  | none => exact h.arrive
  | some e => exact h.arrive.quiet rfl

/-- What the worker returns is what it has met. -/
theorem wp_wait (h : InTurn force offline sink start points evidence history) :
    Prog.wp (wait outside sink)
      (fun rotated history' => ∃ answers, rotated = rotateSinkFile answers ∧
        InTurn force offline sink start points (.worked sink answers :: evidence) history')
      (fun _ => InTurn force offline sink start points evidence) history := by
  unfold wait
  rw [Prog.wp_step]
  dsimp only
  cases outside.lost (arrive outside history) sink with
  | some e => exact h.arrive.quiet rfl
  | none => exact ⟨_, rfl, h.arrive.seen rfl⟩

theorem wp_settle (h : InTurn force offline sink start [.rotatePre] evidence history)
    {answers : RotateAnswers} (hworked : .worked sink answers ∈ evidence) :
    Prog.wp (settle outside (rotateSinkFile answers))
      (fun _ history' => ∃ points', (points' = [HookPoint.rotatePre] ∨
        points' = [HookPoint.rotatePre, .rotatePost]) ∧
          InTurn force offline sink start points' evidence history') R history := by
  cases hrotated : rotateSinkFile answers with
  | error e => exact ⟨_, .inl rfl, h.quiet rfl⟩
  | ok path =>
      cases path with
      | none => exact ⟨_, .inl rfl, h⟩
      | some path =>
          obtain ⟨-, harchive, rfl⟩ := archive_of_rotated hrotated
          refine Prog.wp_mono _ ?_ (fun _ _ hfalse => hfalse) (wp_fireHook h ?_)
          · rintro _ history' (hpassed | ⟨hheld, -⟩)
            · exact ⟨_, .inr rfl, hpassed⟩
            · exact ⟨_, .inl rfl, hheld⟩
          · intro part pid hpart
            exact .inr ⟨rfl, answers, hpart _ hworked, harchive, hrotated⟩

end

/-- A sink that is due has its hook, its rotation, and the hook behind an archive. -/
theorem wp_rotateDue
    (h : InTurn force offline sink start []
      [.asked sink (question force offline) (.ok true)] history) :
    Prog.wp (rotateDue outside sink) (fun _ => Ended force offline sink start)
      (fun _ => Ended force offline sink start) history := by
  unfold rotateDue
  rw [Prog.wp_bind]
  refine Prog.wp_mono _ ?_ (fun _ _ hended => hended) (wp_fireHook h fun part pid hpart =>
    .inl ⟨rfl, hpart _ List.mem_cons_self⟩)
  intro _ fired hfired
  rw [Prog.wp_bind]
  change Prog.wp (if (arrive outside fired).any Event.isStop = true then _ else _) _ _ _
  rw [Prog.wp_ite]
  split
  · rcases hfired with hpassed | ⟨hheld, -⟩
    · exact hpassed.arrive.ended (.inr (.inl rfl))
    · exact hheld.arrive.ended (.inl rfl)
  · rename_i hstop
    have hpassed : InTurn force offline sink start [.rotatePre]
        [.asked sink (question force offline) (.ok true)] (arrive outside fired) := by
      rcases hfired with hpassed | ⟨-, hstopped⟩
      · exact hpassed.arrive
      · exact absurd (arrive_stop hstopped) hstop
    have hcycle : [HookPoint.rotatePre] = [] ∨ [HookPoint.rotatePre] = [.rotatePre] ∨
        [HookPoint.rotatePre] = [.rotatePre, .rotatePost] := .inr (.inl rfl)
    rw [Prog.wp_bind]
    refine Prog.wp_mono _ ?_ (fun _ _ hfailed => hfailed.ended hcycle) (wp_spawn hpassed)
    intro _ spawned hspawned
    rw [Prog.wp_bind]
    refine Prog.wp_mono _ ?_ (fun _ _ hfailed => hfailed.ended hcycle) (wp_wait hspawned)
    rintro _ worked ⟨answers, rfl, hworked⟩
    rw [Prog.wp_bind]
    refine Prog.wp_mono _ ?_ (fun _ _ hended => hended)
      (wp_settle hworked List.mem_cons_self)
    rintro _ settled ⟨points', hpoints', hsettled⟩
    exact (hsettled.quiet rfl).ended (.inr hpoints')

theorem wp_rotateSink (hgated : Gated start) :
    Prog.wp (rotateSink outside force offline sink) (fun _ => Ended force offline sink start)
      (fun _ => Ended force offline sink start) start := by
  have hbegin : InTurn force offline sink start [] [] start := .begin hgated
  unfold rotateSink
  rw [Prog.wp_bind]
  change Prog.wp (if (arrive outside start).any Event.isStop = true then _ else _) _ _ _
  rw [Prog.wp_ite]
  split
  · exact hbegin.arrive.ended (.inl rfl)
  · rw [Prog.wp_bind]
    refine Prog.wp_mono _ ?_ (fun _ _ hfailed => hfailed.ended (.inl rfl)) (wp_ask hbegin.arrive)
    intro due asked hasked
    cases due with
    | true => exact wp_rotateDue hasked
    | false => exact (hasked.quiet rfl).ended (.inl rfl)

/-! ## The turns of the sinks -/

theorem wp_rotateSinks (sinks : List ι) (hgated : Gated start) :
    Prog.wp (rotateSinks outside force offline sinks)
      (fun _ history' => Gated history' ∧ ∃ more, history' = start ++ more ∧
        Turns force offline sinks more)
      (fun _ history' => Gated history' ∧ ∃ more, history' = start ++ more ∧
        Turns force offline sinks more) start := by
  induction sinks generalizing start with
  | nil => exact ⟨hgated, [], by simp, [], rfl, List.prefix_refl _, nofun⟩
  | cons sink sinks ih =>
      -- the loop ends with the turn of this sink
      have hlast : ∀ history', Ended force offline sink start history' →
          Gated history' ∧ ∃ more, history' = start ++ more ∧
            Turns force offline (sink :: sinks) more := by
        rintro history' ⟨hgated', part, hpart, hturn⟩
        refine ⟨hgated', part, hpart, [(sink, part)], by simp, ?_, ?_⟩
        · exact List.prefix_append [sink] sinks
        · intro turn hmem
          rw [List.mem_singleton.mp hmem]
          exact hturn
      -- or it goes on with the others
      have hmore : ∀ turned, Ended force offline sink start turned → ∀ history',
          (Gated history' ∧ ∃ more, history' = turned ++ more ∧ Turns force offline sinks more) →
          Gated history' ∧ ∃ more, history' = start ++ more ∧
            Turns force offline (sink :: sinks) more := by
        rintro turned ⟨-, part, rfl, hturn⟩ history' ⟨hgated', more, rfl, turns, rfl, hsinks,
          hturns⟩
        refine ⟨hgated', part ++ turns.flatMap Prod.snd, by rw [List.append_assoc],
          (sink, part) :: turns, by simp, ?_, ?_⟩
        · exact List.cons_prefix_cons.mpr ⟨rfl, hsinks⟩
        · intro turn hmem
          rcases List.mem_cons.mp hmem with rfl | hmem
          · exact hturn
          · exact hturns turn hmem
      rw [rotateSinks, Prog.wp_bind]
      refine Prog.wp_mono _ ?_ (fun _ history' hended => hlast history' hended)
        (wp_rotateSink hgated)
      intro continues turned hended
      cases continues with
      | false => exact hlast turned hended
      | true =>
          exact Prog.wp_mono _ (fun _ history' h => hmore turned hended history' h)
            (fun _ history' h => hmore turned hended history' h) (ih hended.1)

/-- A run of the loop is one turn for each sink, up to the end of the loop, and no hook
passes its gate after a stop. -/
theorem turns_of_run (outside : Outside ι) (sinks : List ι) (force offline : Bool) :
    Gated ((rotateSinks outside force offline sinks).exec []).2 ∧
      Turns force offline sinks ((rotateSinks outside force offline sinks).exec []).2 := by
  have hgated : Gated ([] : List (Event ι)) := EachEvent.nil
  have hends : Prog.wp (rotateSinks outside force offline sinks) _ _ [] :=
    wp_rotateSinks sinks hgated
  have hall : Gated ((rotateSinks outside force offline sinks).exec []).2 ∧
      ∃ more, ((rotateSinks outside force offline sinks).exec []).2 = [] ++ more ∧
        Turns force offline sinks more := by
    rcases hrun : (rotateSinks outside force offline sinks).exec [] with ⟨outcome, history⟩
    cases outcome with
    | ok done => exact Prog.wp_ok _ hends hrun
    | error e => exact Prog.wp_error _ hends hrun
  obtain ⟨hgated, more, hmore, hturns⟩ := hall
  refine ⟨hgated, ?_⟩
  rw [hmore]
  exact hturns

/-- Whatever the sinks answer, whatever the worker meets and whenever a stop is requested:
the history of a rotation is one turn for each sink, in their order, until the loop ends.  In
a turn no hook runs, or the one before the rotation of a sink that said it is due, or also the
one behind it when the archive was made.  No hook passes its gate once a stop is requested. -/
theorem rotation_hooks (outside : Outside ι) (sinks : List ι) (force offline : Bool) :
    Turns force offline sinks ((rotateSinks outside force offline sinks).exec []).2 ∧
      Gated ((rotateSinks outside force offline sinks).exec []).2 := by
  obtain ⟨hgated, hturns⟩ := turns_of_run outside sinks force offline
  exact ⟨hturns, hgated⟩

end

end Ngsm.Supervisor.RotationHooks
