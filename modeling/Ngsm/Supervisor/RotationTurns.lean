/-
# The turns of the supervisor behind a rotation

The loop over the sinks says which hooks a rotation runs, whatever comes from outside.  The
supervisor says what becomes of the service, turn by turn of its script.  Here every rotation
of the supervisor is a run of the loop: what came from outside is read off the turns.  It is
a finite table with an entry for each length of the history, since the loop never looks
twice, with different answers, at one history.
-/

import Ngsm.Supervisor.Controls
import Ngsm.Supervisor.RotationHooks

namespace Ngsm.Supervisor.RotationTurns

open Ngsm.Lib (Prog)
open Ngsm.Supervisor.RotationHooks (RotateAnswers Outside question)

/-! ## The history and the trace -/

/-- The hooks in the trace of a supervisor. -/
def hookCalls (trace : List Supervisor.Event) : List (HookPoint × Option UInt32) :=
  trace.filterMap fun event =>
    match event with
    | .hook call => some (call.point, call.pid)
    | _ => none

section

variable {ι : Type}

/-- The hooks in a history of the loop. -/
def hooksIn (history : List (RotationHooks.Event ι)) : List (HookPoint × Option UInt32) :=
  history.filterMap fun event =>
    match event with
    | .hook point pid => some (point, pid)
    | _ => none

/-- The errors that the loop hands to the diagnostics. -/
def reportsIn (history : List (RotationHooks.Event ι)) : List (String × Diagnostic) :=
  history.filterMap fun event =>
    match event with
    | .reported error => some ("log rotation", .text error)
    | _ => none

/-- A history of the loop tells what the supervisor has done since `start`. -/
structure Tells (start : Sup) (history : List (RotationHooks.Event ι)) (s : Sup) : Prop where
  hooks : hookCalls s.trace = hookCalls start.trace ++ hooksIn history
  reports : s.plant.diagnostics = start.plant.diagnostics ++ reportsIn history
  stop : history.any RotationHooks.Event.isStop = true → s.stopRequested = true

variable {start s : Sup} {history : List (RotationHooks.Event ι)}
  {event : RotationHooks.Event ι}

theorem hookCalls_append (trace more : List Supervisor.Event) :
    hookCalls (trace ++ more) = hookCalls trace ++ hookCalls more :=
  List.filterMap_append

theorem hooksIn_append (history more : List (RotationHooks.Event ι)) :
    hooksIn (history ++ more) = hooksIn history ++ hooksIn more :=
  List.filterMap_append

theorem hookPoints_eq (history : List (RotationHooks.Event ι)) :
    RotationHooks.hookPoints history = (hooksIn history).map Prod.fst := by
  unfold RotationHooks.hookPoints hooksIn
  rw [List.map_filterMap]
  congr 1
  funext event
  cases event <;> rfl

theorem hookPoints_flatMap (turns : List (ι × List (RotationHooks.Event ι))) :
    RotationHooks.hookPoints (turns.flatMap Prod.snd) =
      (turns.map fun turn => RotationHooks.hookPoints turn.2).flatten := by
  induction turns with
  | nil => rfl
  | cons turn turns ih =>
      rw [List.flatMap_cons, RotationHooks.hookPoints_append, ih]
      rfl

theorem reportsIn_append (history more : List (RotationHooks.Event ι)) :
    reportsIn (history ++ more) = reportsIn history ++ reportsIn more :=
  List.filterMap_append

/-- The others run no hook, report nothing, and take no stop back. -/
theorem apply_quiet (s : Sup) (move : Move) :
    hookCalls (s.apply move).trace = hookCalls s.trace ∧
      (s.apply move).plant.diagnostics = s.plant.diagnostics ∧
      (s.stopRequested = true → (s.apply move).stopRequested = true) := by
  cases move with
  | stop =>
      simp only [Sup.apply, Sup.setStop]
      split
      · exact ⟨rfl, rfl, id⟩
      · exact ⟨by rw [hookCalls_append]; exact List.append_nil _, rfl, fun _ => rfl⟩
  | send message =>
      simp only [Sup.apply]
      split <;> exact ⟨rfl, rfl, id⟩
  | request pause =>
      simp only [Sup.apply, Sup.request]
      split
      · exact ⟨by rw [hookCalls_append]; exact List.append_nil _, rfl, id⟩
      · exact ⟨rfl, rfl, id⟩
  | exit code error =>
      simp only [Sup.apply]
      split <;> exact ⟨rfl, rfl, id⟩
  | _ => exact ⟨rfl, rfl, id⟩

theorem moves_quiet (moves : List Move) (s : Sup) :
    hookCalls (moves.foldl Sup.apply s).trace = hookCalls s.trace ∧
      (moves.foldl Sup.apply s).plant.diagnostics = s.plant.diagnostics ∧
      (s.stopRequested = true → (moves.foldl Sup.apply s).stopRequested = true) := by
  induction moves generalizing s with
  | nil => exact ⟨rfl, rfl, id⟩
  | cons move moves ih =>
      obtain ⟨hhooks, hreports, hstop⟩ := ih (s.apply move)
      obtain ⟨hhooks', hreports', hstop'⟩ := apply_quiet s move
      exact ⟨hhooks.trans hhooks', hreports.trans hreports', fun h => hstop (hstop' h)⟩

theorem next_stop (h : s.stopRequested = true) : s.next.2.stopRequested = true :=
  (moves_quiet _ _).2.2 h

theorem Tells.begin (start : Sup) : Tells start ([] : List (RotationHooks.Event ι)) start :=
  ⟨(List.append_nil _).symm, (List.append_nil _).symm, nofun⟩

theorem Tells.next (h : Tells start history s) : Tells start history s.next.2 := by
  obtain ⟨hhooks, hreports, hstop⟩ :=
    moves_quiet (s.script s.turns).moves { s with turns := s.turns + 1 }
  exact ⟨hhooks.trans h.hooks, hreports.trans h.reports, fun hany => hstop (h.stop hany)⟩

/-- The supervisor does what an event says. -/
theorem Tells.push (h : Tells start history s) {s' : Sup}
    (hhooks : hookCalls s'.trace = hookCalls s.trace ++ hooksIn [event])
    (hreports : s'.plant.diagnostics = s.plant.diagnostics ++ reportsIn [event])
    (hkept : s.stopRequested = true → s'.stopRequested = true)
    (hstop : event.isStop = true → s'.stopRequested = true) :
    Tells start (history ++ [event]) s' := by
  refine ⟨?_, ?_, ?_⟩
  · rw [hhooks, h.hooks, hooksIn_append, List.append_assoc]
  · rw [hreports, h.reports, reportsIn_append, List.append_assoc]
  · intro hany
    rw [List.any_append, Bool.or_eq_true] at hany
    rcases hany with hany | hany
    · exact hkept (h.stop hany)
    · simp only [List.any_cons, List.any_nil, Bool.or_false] at hany
      exact hstop hany

/-- An event that is no hook and no report. -/
theorem Tells.note (h : Tells start history s) (hhook : hooksIn [event] = [])
    (hreport : reportsIn [event] = []) (hstop : event.isStop = true → s.stopRequested = true) :
    Tells start (history ++ [event]) s := by
  refine h.push ?_ ?_ id hstop
  · rw [hhook, List.append_nil]
  · rw [hreport, List.append_nil]

theorem Tells.handled (h : Tells start history s) (sink : ι) :
    Tells start (history ++ [.handled sink]) s :=
  h.note rfl rfl nofun

theorem Tells.stopped (h : Tells start history s) (hstop : s.stopRequested = true) :
    Tells start (history ++ [.stop]) s :=
  h.note rfl rfl fun _ => hstop

/-- A hook that passes its gate. -/
theorem wp_fireHook_told (hook : HookCall) (hpoint : hook.point.shutdown = false)
    (h : Tells start history s) :
    (fireHook hook).wp
      (fun _ s' => (Tells start history s' ∧ s'.stopRequested = true) ∨
        Tells start (history ++ [.hook hook.point hook.pid]) s') (fun _ _ => False) s := by
  unfold fireHook
  rw [Prog.wp_bind, wp_stopping_eq, hpoint, Bool.not_false, Bool.and_true]
  cases hstop : s.next.2.stopRequested with
  | true => exact .inl ⟨h.next, hstop⟩
  | false =>
      simp only [Bool.false_eq_true, if_false]
      have hemitted : Tells start (history ++ [.hook hook.point hook.pid])
          (s.next.2.emit (.hook hook)) :=
        h.next.push (hookCalls_append _ _) (List.append_nil _).symm id nofun
      rw [Prog.wp_bind, emit, Prog.wp_modify, Prog.wp_bind, Prog.wp_get]
      split
      · exact Or.inr hemitted
      · exact Or.inr hemitted.next

/-! ## One sink -/

section

variable {force offline : Bool} {sink : ι} {outside : Outside ι}

theorem arrive_stops (hstops : outside.stops history = true) :
    RotationHooks.arrive outside history = history ++ [.stop] :=
  if_pos hstops

theorem arrive_quiet (hstops : outside.stops history = false) :
    RotationHooks.arrive outside history = history :=
  if_neg (Bool.eq_false_iff.mp hstops)

theorem any_stop (history : List (RotationHooks.Event ι)) :
    (history ++ [RotationHooks.Event.stop]).any RotationHooks.Event.isStop = true := by
  rw [List.any_append]
  exact Bool.or_true _

theorem any_quiet (hquiet : history.any RotationHooks.Event.isStop = false)
    (hevent : event.isStop = false) :
    (history ++ [event]).any RotationHooks.Event.isStop = false := by
  rw [List.any_append, hquiet, List.any_cons, hevent]
  rfl

theorem exec_stopping_stops (hstops : outside.stops history = true) :
    (RotationHooks.stopping outside).exec history = (.ok true, history ++ [.stop]) := by
  change (Except.ok _, _) = _
  rw [arrive_stops hstops, any_stop]

theorem exec_stopping_quiet (hquiet : history.any RotationHooks.Event.isStop = false)
    (hstops : outside.stops history = false) :
    (RotationHooks.stopping outside).exec history = (.ok false, history) := by
  change (Except.ok _, _) = _
  rw [arrive_quiet hstops, hquiet]

theorem exec_fireHook_stops {point : HookPoint} (hstops : outside.stops history = true) :
    (RotationHooks.fireHook outside point).exec history = (.ok (), history ++ [.stop]) := by
  change (Except.ok (), if _ then _ else _) = _
  rw [arrive_stops hstops, if_pos (any_stop history)]

theorem exec_fireHook_quiet {point : HookPoint}
    (hquiet : history.any RotationHooks.Event.isStop = false)
    (hstops : outside.stops history = false) :
    (RotationHooks.fireHook outside point).exec history =
      (.ok (), history ++ [.hook point (outside.pid history)]) := by
  change (Except.ok (), if _ then _ else _) = _
  rw [arrive_quiet hstops, if_neg (Bool.eq_false_iff.mp hquiet)]

theorem exec_ask {asked : RotationHooks.Question} (hstops : outside.stops history = false) :
    (RotationHooks.ask outside sink asked).exec history =
      ((outside.answer history sink asked).mapError .io,
        history ++ [.asked sink asked (outside.answer history sink asked)]) := by
  change (Except.mapError _ _, _) = _
  rw [arrive_quiet hstops]

theorem exec_spawn_failed {message : String} (hstops : outside.stops history = false)
    (hspawn : outside.spawn history sink = some message) :
    (RotationHooks.spawn outside sink).exec history =
      (.error (.io message), history ++ [.spawnFailed sink message]) := by
  unfold RotationHooks.spawn
  rw [Prog.exec_step, arrive_quiet hstops]
  simp only [hspawn]

theorem exec_spawn (hstops : outside.stops history = false)
    (hspawn : outside.spawn history sink = none) :
    (RotationHooks.spawn outside sink).exec history = (.ok (), history) := by
  unfold RotationHooks.spawn
  rw [Prog.exec_step, arrive_quiet hstops]
  simp only [hspawn]

theorem exec_wait_lost {message : String} (hstops : outside.stops history = false)
    (hlost : outside.lost history sink = some message) :
    (RotationHooks.wait outside sink).exec history =
      (.error (.degraded message), history ++ [.lost sink message]) := by
  unfold RotationHooks.wait
  rw [Prog.exec_step, arrive_quiet hstops]
  simp only [hlost]

theorem exec_wait (hstops : outside.stops history = false)
    (hlost : outside.lost history sink = none) :
    (RotationHooks.wait outside sink).exec history =
      (.ok (RotationHooks.rotateSinkFile (outside.work history sink)),
        history ++ [.worked sink (outside.work history sink)]) := by
  unfold RotationHooks.wait
  rw [Prog.exec_step, arrive_quiet hstops]
  simp only [hlost]

/-- Without a stop the sink is asked. -/
theorem exec_rotateSink_quiet (hquiet : history.any RotationHooks.Event.isStop = false)
    (hstops : outside.stops history = false) :
    (RotationHooks.rotateSink outside force offline sink).exec history =
      (do
        let due ← RotationHooks.ask outside sink (question force offline)
        if due then
          RotationHooks.rotateDue outside sink
        else
          RotationHooks.log (.handled sink)
          pure true : RotationHooks.RotM ι Bool).exec history := by
  unfold RotationHooks.rotateSink
  rw [Prog.exec_bind, exec_stopping_quiet hquiet hstops]
  rfl

/-! ## Tables -/

/-- What comes from outside is what a table has for a history. -/
structure Answered (outside now : Outside ι) (history : List (RotationHooks.Event ι)) :
    Prop where
  stops : outside.stops history = now.stops history
  answer : outside.answer history = now.answer history
  pid : outside.pid history = now.pid history
  spawn : outside.spawn history = now.spawn history
  work : outside.work history = now.work history
  lost : outside.lost history = now.lost history

/-- The one table up to a length of the history, and the other from there on. -/
def splice (length : ℕ) (now later : Outside ι) : Outside ι where
  stops history := if history.length < length then now.stops history else later.stops history
  answer history :=
    if history.length < length then now.answer history else later.answer history
  pid history := if history.length < length then now.pid history else later.pid history
  spawn history := if history.length < length then now.spawn history else later.spawn history
  work history := if history.length < length then now.work history else later.work history
  lost history := if history.length < length then now.lost history else later.lost history

theorem answered_splice_now {length : ℕ} {now later : Outside ι}
    (h : Answered outside (splice length now later) history) (hlength : history.length < length) :
    Answered outside now history := by
  obtain ⟨hstops, hanswer, hpid, hspawn, hwork, hlost⟩ := h
  simp only [splice, hlength, if_true] at hstops hanswer hpid hspawn hwork hlost
  exact ⟨hstops, hanswer, hpid, hspawn, hwork, hlost⟩

theorem answered_splice_later {length : ℕ} {now later : Outside ι}
    (h : Answered outside (splice length now later) history) (hlength : length ≤ history.length) :
    Answered outside later history := by
  obtain ⟨hstops, hanswer, hpid, hspawn, hwork, hlost⟩ := h
  simp only [splice, Nat.not_lt.mpr hlength, if_false] at hstops hanswer hpid hspawn hwork hlost
  exact ⟨hstops, hanswer, hpid, hspawn, hwork, hlost⟩

/-- Some table makes a program of the loop take one history to another, whatever comes from
outside before and behind them. -/
structure Plays {α : Type} (program : Outside ι → RotationHooks.RotM ι α)
    (history history' : List (RotationHooks.Event ι)) (result : Except SupervisorError α) :
    Prop where
  grown : history.length ≤ history'.length
  played : ∃ now : Outside ι, ∀ outside,
    (∀ between, history.length ≤ between.length → between.length < history'.length →
      Answered outside now between) → (program outside).exec history = (result, history')

section

variable {α β : Type} {program : Outside ι → RotationHooks.RotM ι α}
  {rest : Outside ι → RotationHooks.RotM ι β} {history' history'' : List (RotationHooks.Event ι)}

/-- A program begins as the table says, and goes on as another one. -/
theorem Plays.append {result : Except SupervisorError β} {final : Except SupervisorError α}
    (now : Outside ι) (hgrown : history.length ≤ history'.length)
    (hstep : ∀ outside,
      (∀ between, history.length ≤ between.length → between.length < history'.length →
        Answered outside now between) →
      (rest outside).exec history' = (result, history'') →
        (program outside).exec history = (final, history''))
    (hrest : Plays rest history' history'' result) : Plays program history history'' final := by
  obtain ⟨hgrown', later, hlater⟩ := hrest
  refine ⟨hgrown.trans hgrown', splice history'.length now later, fun outside hsame => ?_⟩
  refine hstep outside (fun between hfrom hto => ?_) (hlater outside fun between hfrom hto => ?_)
  · exact answered_splice_now (hsame between hfrom (hto.trans_le hgrown')) hto
  · exact answered_splice_later (hsame between (hgrown.trans hfrom) hto) hfrom

/-- One look at the outside, and the program goes on as another one. -/
theorem Plays.look {event : RotationHooks.Event ι} {result : Except SupervisorError α}
    {rest : Outside ι → RotationHooks.RotM ι α} (now : Outside ι)
    (hstep : ∀ outside, Answered outside now history →
      (program outside).exec history = (rest outside).exec (history ++ [event]))
    (hrest : Plays rest (history ++ [event]) history' result) :
    Plays program history history' result := by
  have hlength : history.length < (history ++ [event]).length := by simp
  refine Plays.append now hlength.le (fun outside hsame hexec => ?_) hrest
  rw [hstep outside (hsame history le_rfl hlength)]
  exact hexec

/-- One look at the outside, and the program is over. -/
theorem Plays.final {event : RotationHooks.Event ι} {result : Except SupervisorError α}
    (now : Outside ι)
    (hstep : ∀ outside, Answered outside now history →
      (program outside).exec history = (result, history ++ [event])) :
    Plays program history (history ++ [event]) result := by
  have hlength : history.length < (history ++ [event]).length := by simp
  exact ⟨hlength.le, now, fun outside hsame => hstep outside (hsame history le_rfl hlength)⟩

end

/-- Nothing happens. -/
def calm : Outside ι where
  stops _ := false
  answer _ _ _ := .ok false
  pid _ := none
  spawn _ _ := none
  work _ _ := { bytesInCurrent := 0, rotated := "" }
  lost _ _ := none

/-! ## The turn of one sink -/

/-- What is left of a turn behind its first hook. -/
def begun (outside : Outside ι) (sink : ι) : RotationHooks.RotM ι Bool := do
  if ← RotationHooks.stopping outside then
    pure false
  else
    RotationHooks.spawn outside sink
    let rotated ← RotationHooks.wait outside sink
    RotationHooks.settle outside rotated
    RotationHooks.log (.handled sink)
    pure true

/-- What is left of a turn behind its worker. -/
def settled (outside : Outside ι) (sink : ι) (rotated : Except String (Option String)) :
    RotationHooks.RotM ι Bool := do
  RotationHooks.settle outside rotated
  RotationHooks.log (.handled sink)
  pure true

section

variable {history' : List (RotationHooks.Event ι)} {result : Except SupervisorError Bool}

/-- The end of a turn. -/
theorem plays_handled (history : List (RotationHooks.Event ι)) (sink : ι) :
    Plays (fun _ : Outside ι => do
      RotationHooks.log (.handled sink)
      pure true) history (history ++ [.handled sink]) (.ok true) :=
  .final calm fun _ _ => rfl

theorem plays_stops (force offline : Bool) (sink : ι) (history : List (RotationHooks.Event ι)) :
    Plays (fun outside => RotationHooks.rotateSink outside force offline sink) history
      (history ++ [.stop]) (.ok false) := by
  refine .final { calm with stops := fun _ => true } fun outside h => ?_
  unfold RotationHooks.rotateSink
  rw [Prog.exec_bind, exec_stopping_stops h.stops]
  rfl

theorem plays_refused (hquiet : history.any RotationHooks.Event.isStop = false)
    (message : String) :
    Plays (fun outside => RotationHooks.rotateSink outside force offline sink) history
      (history ++ [.asked sink (question force offline) (.error message)])
      (.error (.io message)) := by
  refine .final { calm with answer := fun _ _ _ => .error message } fun outside h => ?_
  rw [exec_rotateSink_quiet hquiet h.stops, Prog.exec_bind, exec_ask h.stops, h.answer]
  rfl

theorem plays_idle (hquiet : history.any RotationHooks.Event.isStop = false) :
    Plays (fun outside => RotationHooks.rotateSink outside force offline sink) history
      (history ++ [.asked sink (question force offline) (.ok false)] ++ [.handled sink])
      (.ok true) := by
  refine .look calm (fun outside h => ?_) (plays_handled _ sink)
  rw [exec_rotateSink_quiet hquiet h.stops, Prog.exec_bind, exec_ask h.stops, h.answer]
  rfl

theorem plays_due (hquiet : history.any RotationHooks.Event.isStop = false)
    (hrest : Plays (fun outside => RotationHooks.rotateDue outside sink)
      (history ++ [.asked sink (question force offline) (.ok true)]) history' result) :
    Plays (fun outside => RotationHooks.rotateSink outside force offline sink) history history'
      result := by
  refine .look { calm with answer := fun _ _ _ => .ok true } (fun outside h => ?_) hrest
  rw [exec_rotateSink_quiet hquiet h.stops, Prog.exec_bind, exec_ask h.stops, h.answer]
  rfl

/-- A stop arrives before the first hook. -/
theorem plays_due_stops (history : List (RotationHooks.Event ι)) (sink : ι) :
    Plays (fun outside => RotationHooks.rotateDue outside sink) history
      (history ++ [.stop] ++ [.stop]) (.ok false) := by
  refine ⟨by simp, { calm with stops := fun _ => true }, fun outside hsame => ?_⟩
  have hfirst := (hsame history le_rfl (by simp)).stops
  have hsecond := (hsame (history ++ [.stop]) (by simp) (by simp)).stops
  unfold RotationHooks.rotateDue
  rw [Prog.exec_bind, exec_fireHook_stops hfirst]
  simp only
  rw [Prog.exec_bind, exec_stopping_stops hsecond]
  rfl

theorem plays_hooked (hquiet : history.any RotationHooks.Event.isStop = false)
    (pid : Option UInt32)
    (hrest : Plays (fun outside => begun outside sink) (history ++ [.hook .rotatePre pid])
      history' result) :
    Plays (fun outside => RotationHooks.rotateDue outside sink) history history' result := by
  refine .look { calm with pid := fun _ => pid } (fun outside h => ?_) hrest
  unfold RotationHooks.rotateDue
  rw [Prog.exec_bind, exec_fireHook_quiet hquiet h.stops, h.pid]
  rfl

theorem plays_begun_stops (history : List (RotationHooks.Event ι)) (sink : ι) :
    Plays (fun outside => begun outside sink) history (history ++ [.stop]) (.ok false) := by
  refine .final { calm with stops := fun _ => true } fun outside h => ?_
  unfold begun
  rw [Prog.exec_bind, exec_stopping_stops h.stops]
  rfl

theorem plays_spawnFailed (hquiet : history.any RotationHooks.Event.isStop = false)
    (message : String) :
    Plays (fun outside => begun outside sink) history
      (history ++ [.spawnFailed sink message]) (.error (.io message)) := by
  refine .final { calm with spawn := fun _ _ => some message } fun outside h => ?_
  unfold begun
  rw [Prog.exec_bind, exec_stopping_quiet hquiet h.stops]
  simp only [Bool.false_eq_true, if_false]
  rw [Prog.exec_bind, exec_spawn_failed h.stops (congrFun h.spawn sink)]

theorem plays_lost (hquiet : history.any RotationHooks.Event.isStop = false)
    (message : String) :
    Plays (fun outside => begun outside sink) history (history ++ [.lost sink message])
      (.error (.degraded message)) := by
  refine .final { calm with lost := fun _ _ => some message } fun outside h => ?_
  unfold begun
  rw [Prog.exec_bind, exec_stopping_quiet hquiet h.stops]
  simp only [Bool.false_eq_true, if_false]
  rw [Prog.exec_bind, exec_spawn h.stops (congrFun h.spawn sink)]
  simp only
  rw [Prog.exec_bind, exec_wait_lost h.stops (congrFun h.lost sink)]

theorem plays_worked (hquiet : history.any RotationHooks.Event.isStop = false)
    (answers : RotateAnswers)
    (hrest : Plays (fun outside => settled outside sink (RotationHooks.rotateSinkFile answers))
      (history ++ [.worked sink answers]) history' result) :
    Plays (fun outside => begun outside sink) history history' result := by
  refine .look { calm with work := fun _ _ => answers } (fun outside h => ?_) hrest
  unfold begun
  rw [Prog.exec_bind, exec_stopping_quiet hquiet h.stops]
  simp only [Bool.false_eq_true, if_false]
  rw [Prog.exec_bind, exec_spawn h.stops (congrFun h.spawn sink)]
  simp only
  rw [Prog.exec_bind, exec_wait h.stops (congrFun h.lost sink), h.work]
  rfl

theorem plays_settled_none (history : List (RotationHooks.Event ι)) (sink : ι) :
    Plays (fun outside => settled outside sink (.ok none)) history
      (history ++ [.handled sink]) (.ok true) :=
  .final calm fun _ _ => rfl

theorem plays_settled_error (history : List (RotationHooks.Event ι)) (sink : ι)
    (message : String) :
    Plays (fun outside => settled outside sink (.error message)) history
      (history ++ [.reported message] ++ [.handled sink]) (.ok true) :=
  .look calm (fun _ _ => rfl) (plays_handled _ sink)

theorem plays_settled_stops (history : List (RotationHooks.Event ι)) (sink : ι)
    (archive : String) :
    Plays (fun outside => settled outside sink (.ok (some archive))) history
      (history ++ [.stop] ++ [.handled sink]) (.ok true) := by
  refine .look { calm with stops := fun _ => true } (fun outside h => ?_) (plays_handled _ sink)
  unfold settled RotationHooks.settle
  rw [Prog.exec_bind, exec_fireHook_stops h.stops]

theorem plays_settled_hook (hquiet : history.any RotationHooks.Event.isStop = false)
    (archive : String) (pid : Option UInt32) :
    Plays (fun outside => settled outside sink (.ok (some archive))) history
      (history ++ [.hook .rotatePost pid] ++ [.handled sink]) (.ok true) := by
  refine .look { calm with pid := fun _ => pid } (fun outside h => ?_) (plays_handled _ sink)
  unfold settled RotationHooks.settle
  rw [Prog.exec_bind, exec_fireHook_quiet hquiet h.stops, h.pid]

end

/-! ## The turn of the supervisor -/

/-- The supervisor behind the first hook of a turn. -/
def supBegun : SupM Bool := do
  if ← stopping then
    return false
  spawnTask
  onPlant fun plant => { plant with rotationTask := true }
  let rotated ← waitTask
  onPlant fun plant => { plant with rotationTask := false }
  match rotated.fault with
  | some error => report "log rotation" error
  | none => onlyIf rotated.flag do fireHook { point := .rotatePost, pid := ← currentPid }
  return true

theorem rotateSink_eq (force offline : Bool) :
    Supervisor.rotateSink force offline = (do
      if ← stopping then
        return false
      if !(← sinkDue force offline) then
        return true
      fireHook { point := .rotatePre, pid := ← currentPid }
      supBegun) :=
  rfl

/-- What the worker of a supervisor's turn has met. -/
def answersOf (turn : Turn) : RotateAnswers where
  lock := turn.fault
  bytesInCurrent := if turn.flag then 1 else 0
  rotated := ""

theorem rotateSinkFile_answersOf (turn : Turn) :
    RotationHooks.rotateSinkFile (answersOf turn) =
      match turn.fault with
      | some message => .error message
      | none => .ok (if turn.flag then some "" else none) := by
  unfold RotationHooks.rotateSinkFile answersOf
  cases turn.fault with
  | some message => rfl
  | none => cases turn.flag <;> rfl

section

variable {Q : Bool → Sup → Prop} {R : Halt → Sup → Prop}

theorem wp_currentPid_any {Q : Option UInt32 → Sup → Prop} (hok : ∀ pid, Q pid s.next.2) :
    currentPid.wp Q R s :=
  hok _

theorem wp_sinkDue_any (force offline : Bool) (hok : ∀ due, Q due s.next.2)
    (hfail : ∀ message, R (.failed (.io message)) s.next.2) :
    (sinkDue force offline).wp Q R s := by
  unfold sinkDue
  rw [Prog.wp_bind, wp_turn_iff]
  cases s.next.1.lock with
  | poisoned => exact hfail _
  | busy => exact hfail _
  | acquired =>
      simp only
      split
      · exact hfail _
      · exact hok _

theorem wp_spawnTask_any {Q : Unit → Sup → Prop} (hok : Q () s.next.2)
    (hfail : ∀ message, R (.failed (.io message)) s.next.2) : spawnTask.wp Q R s := by
  unfold spawnTask
  rw [Prog.wp_bind, wp_turn_iff]
  cases s.next.1.worker with
  | some message => exact hfail message
  | none => exact hok

theorem wp_waitTask_any {Q : Turn → Sup → Prop} (hok : ∀ rotated, Q rotated s.next.2)
    (hfail : ∀ message, R (.failed (.degraded message)) s.next.2) : waitTask.wp Q R s := by
  unfold waitTask
  rw [Prog.wp_bind, wp_turn_iff, Prog.wp_ite]
  split
  · exact hok _
  · exact hfail _

end

/-- The loop, with some table, takes the history to one that tells of the supervisor. -/
def Follows {α : Type} (program : Outside ι → RotationHooks.RotM ι α) (start : Sup)
    (history : List (RotationHooks.Event ι)) (result : Except SupervisorError α) (s : Sup) :
    Prop :=
  ∃ history', Tells start history' s ∧ Plays program history history' result

/-- How a program of the supervisor follows one of the loop. -/
def Simulates {α : Type} (m : SupM α) (program : Outside ι → RotationHooks.RotM ι α)
    (start : Sup) (history : List (RotationHooks.Event ι)) (s : Sup) : Prop :=
  m.wp (fun a => Follows program start history (.ok a))
    (fun halt s' => ∃ error, halt = .failed error ∧
      Follows program start history (.error error) s') s

theorem quiet_of_told (h : Tells start history s) (hstop : s.stopRequested = false) :
    history.any RotationHooks.Event.isStop = false := by
  cases hany : history.any RotationHooks.Event.isStop with
  | true => exact absurd (h.stop hany) (Bool.eq_false_iff.mp hstop)
  | false => rfl

theorem Simulates.under {α : Type} {m : SupM α}
    {program rest : Outside ι → RotationHooks.RotM ι α}
    {later : List (RotationHooks.Event ι)} (h : Simulates m rest start later s)
    (hplays : ∀ history' result, Plays rest later history' result →
      Plays program history history' result) : Simulates m program start history s := by
  refine Prog.wp_mono _ ?_ ?_ h
  · rintro a s' ⟨history', htells, hrest⟩
    exact ⟨history', htells, hplays history' _ hrest⟩
  · rintro halt s' ⟨error, rfl, history', htells, hrest⟩
    exact ⟨error, rfl, history', htells, hplays history' _ hrest⟩

/-- What becomes of a rotation is reported, or has its hook. -/
theorem simulates_settled (h : Tells start history s)
    (hquiet : history.any RotationHooks.Event.isStop = false) (rotated : Turn) :
    Simulates (do
        match rotated.fault with
        | some error => report "log rotation" error
        | none => onlyIf rotated.flag do fireHook { point := .rotatePost, pid := ← currentPid }
        return true)
      (fun outside => settled outside sink (RotationHooks.rotateSinkFile (answersOf rotated)))
      start history s := by
  rw [rotateSinkFile_answersOf]
  unfold Simulates
  cases rotated.fault with
  | some message =>
      have hreported : Tells start (history ++ [.reported message])
          { s with plant := { s.plant with
            diagnostics := s.plant.diagnostics ++ [("log rotation", .text message)] } } :=
        h.push (List.append_nil _).symm rfl id nofun
      exact ⟨_, hreported.handled sink, plays_settled_error history sink message⟩
  | none =>
      cases rotated.flag with
      | false => exact ⟨_, h.handled sink, plays_settled_none history sink⟩
      | true =>
          simp only [onlyIf, if_true, Prog.wp_bind]
          refine wp_currentPid_any fun pid => ?_
          refine Prog.wp_mono _ ?_ (fun _ _ h => h.elim) (wp_fireHook_told _ rfl h.next)
          rintro _ s' (⟨htells, hstop⟩ | htells)
          · exact ⟨_, (htells.stopped hstop).handled sink, plays_settled_stops history sink ""⟩
          · exact ⟨_, htells.handled sink, plays_settled_hook hquiet "" _⟩

theorem simulates_begun (h : Tells start history s) (sink : ι) :
    Simulates supBegun (fun outside => begun outside sink) start history s := by
  unfold Simulates supBegun
  rw [Prog.wp_bind, wp_stopping_eq]
  cases hstop : s.next.2.stopRequested with
  | true => exact ⟨_, h.next.stopped hstop, plays_begun_stops history sink⟩
  | false =>
      have hquiet := quiet_of_told h.next hstop
      simp only [Bool.false_eq_true, if_false]
      rw [Prog.wp_bind]
      refine wp_spawnTask_any ?_ fun message => ⟨_, rfl,
        history ++ [.spawnFailed sink message], h.next.next.note rfl rfl nofun,
        plays_spawnFailed hquiet message⟩
      rw [Prog.wp_bind, onPlant, Prog.wp_modify, Prog.wp_bind]
      have hspawned : Tells start history { s.next.2.next.2 with
          plant := { s.next.2.next.2.plant with rotationTask := true } } :=
        ⟨h.next.next.hooks, h.next.next.reports, h.next.next.stop⟩
      refine wp_waitTask_any (fun rotated => ?_) fun message => ⟨_, rfl,
        history ++ [.lost sink message], hspawned.next.note rfl rfl nofun,
        plays_lost hquiet message⟩
      rw [Prog.wp_bind, onPlant, Prog.wp_modify]
      refine (simulates_settled ?_ (any_quiet hquiet rfl) rotated).under
        fun history' result => plays_worked hquiet (answersOf rotated)
      have hworked : Tells start (history ++ [.worked sink (answersOf rotated)]) _ :=
        hspawned.next.note rfl rfl nofun
      exact ⟨hworked.hooks, hworked.reports, hworked.stop⟩

theorem simulates_due (h : Tells start history s)
    (hquiet : history.any RotationHooks.Event.isStop = false) (sink : ι) :
    Simulates (do
        fireHook { point := .rotatePre, pid := ← currentPid }
        supBegun)
      (fun outside => RotationHooks.rotateDue outside sink) start history s := by
  unfold Simulates
  rw [Prog.wp_bind]
  refine wp_currentPid_any fun pid => ?_
  rw [Prog.wp_bind]
  refine Prog.wp_mono _ ?_ (fun _ _ h => h.elim) (wp_fireHook_told _ rfl h.next)
  rintro _ s' (⟨htells, hstop⟩ | htells)
  · have hstop' := next_stop hstop
    unfold supBegun
    rw [Prog.wp_bind, wp_stopping_eq, if_pos hstop']
    exact ⟨_, (htells.next.stopped hstop').stopped hstop', plays_due_stops history sink⟩
  · exact (simulates_begun htells sink).under fun history' result => plays_hooked hquiet _

theorem simulates_rotateSink (h : Tells start history s) (sink : ι) :
    Simulates (Supervisor.rotateSink force offline)
      (fun outside => RotationHooks.rotateSink outside force offline sink) start history s := by
  rw [rotateSink_eq]
  unfold Simulates
  rw [Prog.wp_bind, wp_stopping_eq]
  cases hstop : s.next.2.stopRequested with
  | true => exact ⟨_, h.next.stopped hstop, plays_stops force offline sink history⟩
  | false =>
      have hquiet := quiet_of_told h.next hstop
      simp only [Bool.false_eq_true, if_false]
      rw [Prog.wp_bind]
      refine wp_sinkDue_any force offline (fun due => ?_) fun message => ⟨_, rfl,
        history ++ [.asked sink (question force offline) (.error message)],
        h.next.next.note rfl rfl nofun, plays_refused hquiet message⟩
      have hasked : Tells start (history ++ [.asked sink (question force offline) (.ok due)])
          s.next.2.next.2 := h.next.next.note rfl rfl nofun
      cases due with
      | false => exact ⟨_, hasked.handled sink, plays_idle hquiet⟩
      | true =>
          exact (simulates_due hasked (any_quiet hquiet rfl) sink).under
            fun history' result => plays_due hquiet

/-! ## All sinks -/

theorem simulates_rotateSinks (sinks : List ι) (h : Tells start history s) :
    Simulates (Supervisor.rotateSinks force offline sinks.length)
      (fun outside => RotationHooks.rotateSinks outside force offline sinks) start history s := by
  induction sinks generalizing history s with
  | nil => exact ⟨history, h, le_rfl, calm, fun _ _ => rfl⟩
  | cons sink sinks ih =>
      unfold Simulates
      rw [List.length_cons, Supervisor.rotateSinks, Prog.wp_bind]
      refine Prog.wp_mono _ ?_ ?_ (simulates_rotateSink h sink)
      · rintro go s₁ ⟨history₁, htells, hgrown, now, hnow⟩
        cases go with
        | true =>
            refine (ih htells).under fun history' result hrest => ?_
            refine hrest.append now hgrown fun outside hsame hexec => ?_
            rw [RotationHooks.rotateSinks, Prog.exec_bind, hnow outside hsame]
            exact hexec
        | false =>
            refine ⟨history₁, htells, hgrown, now, fun outside hsame => ?_⟩
            rw [RotationHooks.rotateSinks, Prog.exec_bind, hnow outside hsame]
            rfl
      · rintro halt s₁ ⟨error, rfl, history₁, htells, hgrown, now, hnow⟩
        refine ⟨error, rfl, history₁, htells, hgrown, now, fun outside hsame => ?_⟩
        rw [RotationHooks.rotateSinks, Prog.exec_bind, hnow outside hsame]

/-- Every rotation of the supervisor is a run of the loop over its sinks: the outcome, the
hooks and the reports are those of the loop, for what came from outside. -/
theorem rotateSinks_told (force offline : Bool) (sinks : List ι) (s : Sup) :
    ∃ outside : Outside ι,
      ((Supervisor.rotateSinks force offline sinks.length).exec s).1 =
        ((RotationHooks.rotateSinks outside force offline sinks).exec []).1.mapError .failed ∧
      Tells s ((RotationHooks.rotateSinks outside force offline sinks).exec []).2
        ((Supervisor.rotateSinks force offline sinks.length).exec s).2 := by
  have hsimulates : Simulates (Supervisor.rotateSinks force offline sinks.length)
      (fun outside => RotationHooks.rotateSinks outside force offline sinks) s [] s :=
    simulates_rotateSinks sinks (.begin s)
  have hself : ∀ outside : Outside ι, ∀ between, Answered outside outside between :=
    fun _ _ => ⟨rfl, rfl, rfl, rfl, rfl, rfl⟩
  rcases hrun : (Supervisor.rotateSinks force offline sinks.length).exec s with ⟨result, s'⟩
  cases result with
  | ok _ =>
      obtain ⟨history', htells, -, now, hnow⟩ := Prog.wp_ok _ hsimulates hrun
      refine ⟨now, ?_⟩
      rw [hnow now fun between _ _ => hself now between]
      exact ⟨rfl, htells⟩
  | error halt =>
      obtain ⟨error, rfl, history', htells, -, now, hnow⟩ := Prog.wp_error _ hsimulates hrun
      refine ⟨now, ?_⟩
      rw [hnow now fun between _ _ => hself now between]
      exact ⟨rfl, htells⟩

/-- The hooks of the supervisor's rotation come in turns: none, the one before a rotation, or
both. -/
theorem rotateSinks_cycles (force offline : Bool) (sinks : ℕ) (s : Sup) :
    ∃ (calls : List (HookPoint × Option UInt32)) (turns : List (List HookPoint)),
      hookCalls ((Supervisor.rotateSinks force offline sinks).exec s).2.trace =
        hookCalls s.trace ++ calls ∧
      calls.map Prod.fst = turns.flatten ∧ turns.length ≤ sinks ∧
      ∀ turn ∈ turns, turn = [] ∨ turn = [.rotatePre] ∨ turn = [.rotatePre, .rotatePost] := by
  obtain ⟨outside, -, htells⟩ := rotateSinks_told force offline (List.range sinks) s
  rw [List.length_range] at htells
  obtain ⟨-, turns, hhistory, hsinks, hturns⟩ :=
    RotationHooks.turns_of_run outside (List.range sinks) force offline
  refine ⟨_, turns.map fun turn => RotationHooks.hookPoints turn.2, htells.hooks, ?_, ?_, ?_⟩
  · rw [← hookPoints_eq, hhistory, hookPoints_flatMap]
  · have hlength := hsinks.length_le
    rw [List.length_map, List.length_range] at hlength
    rw [List.length_map]
    exact hlength
  · intro points hpoints
    obtain ⟨turn, hturn, rfl⟩ := List.mem_map.mp hpoints
    exact (hturns turn hturn).cycle

end

end

end Ngsm.Supervisor.RotationTurns
