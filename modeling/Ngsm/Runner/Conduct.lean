/-
# What the bridge may say

The notes hold what the bridge has said to the service control manager and what it was told.
The code of conduct says what is proper after them: which status may be reported, when a
transition may be requested, and how the host may end.  The bridge and `finish` keep to it
whatever they are answered.
-/

import Ngsm.Runner.Bridge

namespace Ngsm.Runner

open Ngsm.Lib
open Ngsm.Supervisor (ExitReason StartupStatus SupervisorError TransitionOutcome)
open Ngsm.Win32.ControlChannel (ServiceControl RecvError)

/-- What the bridge has said and heard. -/
structure Notes where
  /-- The supervisor's word that it has started was received. -/
  started : Bool := false
  /-- The transition that was requested and has not been seen to end. -/
  transition : Option (ℕ × Bool) := none
  /-- Whether the last transition that was seen to be applied is a pause. -/
  paused : Bool := false
  stopPending : Bool := false
  /-- A failure code was recorded. -/
  failed : Bool := false
  joined : Option Joined := none
  /-- The last answer to a claim. -/
  claimed : Option Bool := none
  /-- How the host ended: by a report, or without one. -/
  final : Option Terminal := none
  /-- The supervisor was asked to stop. -/
  asked : Bool := false
  /-- The supervisor did not finish in time. -/
  overdue : Bool := false

/-- The reports that go with a failure code. -/
def failureReports : List (String × Diagnostic) :=
  [("startup", .text "no confirmed live/quiesced startup before deadline"),
    ("pause/continue", .text "executing transition exceeded the hard deadline")]

/-- The report that gives the supervisor up. -/
def overdueReport : String × Diagnostic :=
  ("stop", .text "supervisor did not finish; terminating the service host")

/-- The outcome after which the service cannot go on. -/
def isDegraded : TransitionOutcome → Bool
  | .degraded _ => true
  | _ => false

namespace Notes

/-- The end of a transition is seen. -/
def settle (notes : Notes) (request : ℕ) (outcome : TransitionOutcome) : Notes :=
  match notes.transition with
  | some (open_, pause) =>
      if open_ = request then
        { notes with
          transition := none
          paused := if outcome = .applied then pause else notes.paused
          failed := notes.failed || isDegraded outcome }
      else notes
  | none => notes

def noteReport (notes : Notes) : Status → Notes
  | .stopPending => { notes with stopPending := true }
  | .stopped code => { notes with final := some (.stopped code) }
  | _ => notes

def note (notes : Notes) : Exchange Call.Answer → Notes
  | ⟨.startup, some _⟩ => { notes with started := true }
  | ⟨.request pause, request⟩ => { notes with transition := some (request, pause) }
  | ⟨.outcome request, some outcome⟩ => notes.settle request outcome
  | ⟨.diagnose operation message, _⟩ =>
      { notes with
        failed := notes.failed || (operation, message) ∈ failureReports
        overdue := notes.overdue || (operation, message) = overdueReport }
  | ⟨.report status, _⟩ => notes.noteReport status
  | ⟨.join, result⟩ => { notes with joined := some result }
  | ⟨.claimTerminal, claimed⟩ => { notes with claimed := some claimed }
  | ⟨.stop, _⟩ => { notes with asked := true }
  | ⟨.terminateCurrentProcess code, _⟩ =>
      { notes with final := notes.final.or (some (.crash code)) }
  | _ => notes

/-- No stop was announced, and the host has not ended. -/
def Live (notes : Notes) : Prop :=
  notes.stopPending = false ∧ notes.final = none

/-- The status that a running service has. -/
def Rests (notes : Notes) (paused : Bool) : Prop :=
  notes.Live ∧ notes.started = true ∧ notes.transition = none ∧ notes.paused = paused

def ProperReport (notes : Notes) : Status → Prop
  | .running => notes.Rests false
  | .paused => notes.Rests true
  | .stopPending => notes.final = none
  | .stopped code =>
      notes.final = none ∧ ∃ claimed, notes.claimed = some claimed ∧ (claimed = true → code = 0)
  | _ => notes.Live

/-- The host ends without a report for the sake of recovery: the supervisor asked for it, no
stop was claimed and nothing had failed. -/
def ProperCrash (notes : Notes) (code : UInt32) : Prop :=
  notes.claimed = some false ∧ notes.failed = false ∧ notes.final = none ∧
    ∃ exitCode, notes.joined = some (some (.ok (.suicide exitCode))) ∧
      code = serviceExitCodeFor (.suicide exitCode)

/-- What may be said after the notes. -/
def Proper (notes : Notes) : Exchange Call.Answer → Prop
  | ⟨.report status, _⟩ => notes.ProperReport status
  | ⟨.claimTerminal, _⟩ => notes.final = none
  | ⟨.release, _⟩ => notes.joined.isSome = true ∨ notes.overdue = true ∨
      ∃ claimed, notes.claimed = some claimed ∧ (claimed = true → notes.asked = true)
  | ⟨.request _, _⟩ => notes.transition = none
  | ⟨.outcome request, _⟩ => ∃ pause, notes.transition = some (request, pause)
  | ⟨.terminateCurrentProcess code, _⟩ =>
      notes.final = some (.stopped code) ∨ notes.ProperCrash code
  | _ => True

end Notes

def conduct : Dialogue.Code Call.Answer Notes where
  note := Notes.note
  proper := Notes.Proper

/-- The variables of the bridge are right about the notes. -/
structure Minds (flags : Flags) (notes : Notes) : Prop where
  started : flags.running = true → notes.started = true
  paused : notes.paused = flags.paused
  transition : flags.stopping = none →
    notes.transition = flags.pending.map fun transition => (transition.request, transition.pause)
  running : flags.pending.isSome ∨ flags.deferred.isSome → flags.running = true
  unpaused : flags.running = false → flags.paused = false
  live : flags.stopping = none → notes.stopPending = false
  unfailed : flags.failureCode = none → notes.failed = false
  joined : notes.joined = none
  open_ : notes.final = none

/-! ## Single calls -/

section

variable {α : Type} {flags : Flags} {notes : Notes}

/-- The calls that the notes do not mention. -/
def Call.plain : Call → Bool
  | .startup | .request _ | .outcome _ | .diagnose _ _ | .report _ | .join | .claimTerminal
  | .stop | .release | .terminateCurrentProcess _ => false
  | _ => true

theorem keeps_plain {c : Call} (hplain : c.plain = true) {Q : c.Answer → Notes → Prop}
    (h : ∀ answer, Q answer notes) : (ask c).Keeps conduct Q notes := by
  intro answer
  cases c <;> first | exact ⟨trivial, h answer⟩ | cases hplain

/-- The code of conduct does not mention what the program says. -/
def Quiet (m : Talk Unit) : Prop :=
  ∀ (Q : Unit → Notes → Prop) notes, Q () notes → m.Keeps conduct Q notes

theorem quiet_onlyIf {condition : Bool} {m : Talk Unit} (hm : Quiet m) :
    Quiet (onlyIf condition m) :=
  fun Q notes h => Dialogue.keeps_ite (fun _ => hm Q notes h) fun _ => h

theorem keeps_stop {Q : Unit → Notes → Prop} (h : Q () { notes with asked := true }) :
    stop.Keeps conduct Q notes :=
  fun _ => ⟨trivial, h⟩

theorem keeps_onlyIf_stop {condition : Bool} {Q : Unit → Notes → Prop}
    (h : ∀ asked, (condition = true → asked = true) → Q () { notes with asked := asked }) :
    (onlyIf condition stop).Keeps conduct Q notes :=
  Dialogue.keeps_ite (fun _ => keeps_stop (h true fun _ => rfl)) fun hno =>
    h notes.asked fun hyes => absurd hyes hno

theorem quiet_diagnosis {operation : String} {message : Diagnostic}
    (hother : (operation, message) ∉ overdueReport :: failureReports) :
    Quiet (ask (.diagnose operation message)) := by
  rintro Q notes h ⟨⟩
  refine ⟨trivial, ?_⟩
  have hsame : notes.note ⟨.diagnose operation message, ()⟩ = notes := by
    obtain ⟨hoverdue, hfailure⟩ := not_or.mp (mt List.mem_cons.mpr hother)
    simp only [Notes.note, hoverdue, hfailure, decide_false, Bool.or_false]
  change Q () (notes.note ⟨.diagnose operation message, ()⟩)
  rw [hsame]
  exact h

/-- A diagnosis says nothing new about a failure that is known. -/
theorem keeps_diagnosis_of_failed {operation : String} {message : Diagnostic}
    {Q : Unit → Notes → Prop} (hfailed : notes.failed = true)
    (hother : (operation, message) ≠ overdueReport) (h : Q () notes) :
    (ask (.diagnose operation message)).Keeps conduct Q notes := by
  rintro ⟨⟩
  refine ⟨trivial, ?_⟩
  have hsame : notes.note ⟨.diagnose operation message, ()⟩ = notes := by
    simp only [Notes.note, hother, hfailed, decide_false, Bool.true_or, Bool.or_false]
    rw [← hfailed]
  change Q () (notes.note ⟨.diagnose operation message, ()⟩)
  rw [hsame]
  exact h

/-- The report of a failure. -/
theorem keeps_failure {operation : String} {message : Diagnostic} {Q : Unit → Notes → Prop}
    (hfailure : (operation, message) ∈ failureReports) (h : Q () { notes with failed := true }) :
    (ask (.diagnose operation message)).Keeps conduct Q notes := by
  rintro ⟨⟩
  refine ⟨trivial, ?_⟩
  have hother : (operation, message) ≠ overdueReport := by
    rintro heq
    rw [heq] at hfailure
    revert hfailure
    decide
  have hnoted : notes.note ⟨.diagnose operation message, ()⟩ = { notes with failed := true } := by
    simp only [Notes.note, hfailure, hother, decide_true, decide_false, Bool.or_true,
      Bool.or_false]
  change Q () (notes.note ⟨.diagnose operation message, ()⟩)
  rw [hnoted]
  exact h

theorem keeps_overdue {Q : Unit → Notes → Prop} (h : Q () { notes with overdue := true }) :
    (ask (.diagnose overdueReport.1 overdueReport.2)).Keeps conduct Q notes := by
  rintro ⟨⟩
  refine ⟨trivial, ?_⟩
  have hnoted : notes.note ⟨.diagnose overdueReport.1 overdueReport.2, ()⟩ =
      { notes with overdue := true } := by
    have hother : overdueReport ∉ failureReports := by decide
    simp only [Notes.note, hother, decide_true, decide_false, Bool.or_true, Bool.or_false]
  change Q () (notes.note ⟨.diagnose overdueReport.1 overdueReport.2, ()⟩)
  rw [hnoted]
  exact h

theorem keeps_report {status : Status} {Q : Unit → Notes → Prop}
    (hproper : notes.ProperReport status) (h : Q () (notes.noteReport status)) :
    (report status).Keeps conduct Q notes := by
  unfold report
  rw [Dialogue.keeps_bind]
  intro answer
  refine ⟨hproper, ?_⟩
  cases answer with
  | none => exact h
  | some error =>
      refine quiet_diagnosis ?_ _ _ h
      simp [overdueReport, failureReports]

/-! ## A round of the loop -/

theorem keeps_drainControls (h : Minds flags notes) (left : ℕ) (controls : List ServiceControl) :
    (drainControls left controls flags).Keeps conduct (fun result notes' => Minds result.2 notes')
      notes := by
  induction left generalizing controls with
  | zero => exact h
  | succ left ih =>
      refine .bind (keeps_plain rfl fun answer => ?_)
      cases answer with
      | ok control => exact ih (controls ++ [control])
      | error error =>
          cases error with
          | disconnected => exact { h with }
          | empty => exact h
          | timeout => exact h

theorem keeps_readControls (h : Minds flags notes) :
    (readControls flags).Keeps conduct (fun result notes' => Minds result.2 notes') notes := by
  have hfresh : Minds { flags with firstControl := none } notes := { h with }
  refine .bind ((keeps_drainControls hfresh 32 _).mono fun result notes' hresult => ?_)
  exact .bind (keeps_plain rfl fun requested => { hresult with })

/-- A stop is under way, announced or not. -/
theorem Minds.stopping (h : Minds flags notes) (time checkpoint : ℕ) (announced : Bool) :
    Minds { flags with stopping := some time, checkpoint := checkpoint }
      { notes with stopPending := announced } where
  started := h.started
  paused := h.paused
  transition := nofun
  running := h.running
  unpaused := h.unpaused
  live := nofun
  unfailed := h.unfailed
  joined := h.joined
  open_ := h.open_

theorem Minds.announced (h : Minds flags notes) (hstopping : flags.stopping.isSome = true) :
    Minds flags { notes with stopPending := true } :=
  { h with live := fun hnone => by simp [hnone] at hstopping }

/-- A transition may be dropped on the way to a stop. -/
theorem Minds.dropped (h : Minds flags notes) (hstopping : flags.stopping.isSome = true) :
    Minds { flags with pending := none, deferred := none } notes where
  started := h.started
  paused := h.paused
  transition hnone := by simp [show flags.stopping = none from hnone] at hstopping
  running := by simp
  unpaused := h.unpaused
  live := h.live
  unfailed := h.unfailed
  joined := h.joined
  open_ := h.open_

theorem keeps_dropTransition {Q : Flags → Notes → Prop}
    (h : Q { flags with pending := none, deferred := none } notes) :
    (dropTransition flags).Keeps conduct Q notes := by
  unfold dropTransition
  cases flags.pending with
  | none => exact h
  | some transition => exact .bind (keeps_plain rfl fun _ => h)

theorem keeps_claimTerminal (h : Minds flags notes) :
    (claimTerminal flags).Keeps conduct Minds notes := by
  refine Dialogue.keeps_ite (fun _ => h) fun _ => ?_
  refine .bind (keeps_plain rfl fun ready => Dialogue.keeps_ite (fun _ => h) fun _ => ?_)
  refine .bind fun claimed => ⟨h.open_, ?_⟩
  refine .bind (keeps_onlyIf_stop fun asked hasked => .bind fun _ => ⟨?_, ?_⟩)
  · refine .inr (.inr ⟨claimed, rfl, ?_⟩)
    rintro rfl
    exact hasked (Bool.or_true _)
  have hclaimed : Minds { flags with
      explicitStop := flags.explicitStop || claimed
      terminalClaimed := true } { notes with
      claimed := some claimed
      asked := asked } := { h with }
  refine .bind (keeps_dropTransition (Dialogue.keeps_ite (fun hstopping => ?_) fun _ => ?_))
  · exact hclaimed.dropped hstopping
  · refine .bind (keeps_plain rfl fun time => .bind (keeps_report h.open_ ?_))
    exact .bind (keeps_plain rfl fun checkpoint => (hclaimed.stopping time checkpoint true).dropped rfl)

theorem keeps_beginStop (h : Minds flags notes) :
    (beginStop flags).Keeps conduct Minds notes := by
  refine Dialogue.keeps_ite (fun _ => h) fun _ => ?_
  refine .bind (keeps_plain rfl fun time => .bind (keeps_stop ?_))
  have hasked : Minds flags { notes with asked := true } := { h with }
  refine .bind (keeps_dropTransition (.bind (keeps_report h.open_ ?_)))
  exact .bind (keeps_plain rfl fun checkpoint =>
    (hasked.stopping time checkpoint true).dropped rfl)

theorem keeps_acceptedStop {Q : Bool → Notes → Prop} (h : ∀ accepted, Q accepted notes) :
    (acceptedStop flags).Keeps conduct Q notes :=
  Dialogue.keeps_ite (fun _ => h true) fun _ => keeps_plain rfl h

/-- What is known when the loop has ended: only a supervisor that asked for it may make the
host crash. -/
structure Sound (outcome : BridgeExit) (notes : Notes) : Prop where
  open_ : notes.final = none
  left : notes.joined.isSome = true ∨ notes.overdue = true
  crash : ∀ code, outcome.terminal = .crash code → notes.failed = false ∧
    ∃ exitCode, notes.joined = some (some (.ok (.suicide exitCode))) ∧
      code = serviceExitCodeFor (.suicide exitCode)

theorem terminalFor_crash {result : Except Unit ExitReason} {code : UInt32}
    (h : terminalFor result false = .crash code) :
    ∃ exitCode, result = .ok (.suicide exitCode) ∧
      code = serviceExitCodeFor (.suicide exitCode) := by
  rcases result with ⟨⟩ | ⟨⟩ | ⟨⟩ | ⟨⟩ | exitCode
  all_goals cases h
  exact ⟨exitCode, rfl, rfl⟩

/-- The result of the supervisor is what its thread returned. -/
theorem keeps_joinSupervisor :
    joinSupervisor.Keeps conduct
      (fun result notes' => ∃ joined, notes' = { notes with joined := some joined } ∧
        ∀ reason, result = .ok reason → joined = some (.ok reason)) notes := by
  refine .bind fun joined => ⟨trivial, ?_⟩
  rcases joined with _ | error | reason
  · exact .bind (quiet_diagnosis (by simp [overdueReport, failureReports]) _ _ ⟨none, rfl, nofun⟩)
  · exact .bind (quiet_diagnosis (by simp [overdueReport, failureReports]) _ _ ⟨some (.error error), rfl, nofun⟩)
  · refine ⟨some (.ok reason), rfl, ?_⟩
    rintro _ ⟨⟩
    rfl

theorem keeps_complete (h : Minds flags notes) :
    (complete flags).Keeps conduct
      (fun result notes' => match result with
        | some outcome => Sound outcome notes'
        | none => Minds flags notes') notes := by
  refine .bind (keeps_plain rfl fun finished => Dialogue.keeps_ite (fun _ => h) fun _ => ?_)
  refine .bind (keeps_joinSupervisor.mono ?_)
  rintro result _ ⟨joined, rfl, hjoined⟩
  refine .bind (keeps_acceptedStop fun accepted => ⟨h.open_, .inl rfl, fun code hcrash => ?_⟩)
  dsimp only at hcrash
  split at hcrash
  · cases hcrash
  · split at hcrash
    · cases hcrash
    · rename_i hfailure
      obtain ⟨exitCode, hresult, hcode⟩ := terminalFor_crash hcrash
      exact ⟨h.unfailed hfailure, exitCode, congrArg some (hjoined _ hresult), hcode⟩

/-- A failure is recorded on the way to a stop. -/
theorem Minds.failing (h : Minds flags notes) (code : UInt32) (time checkpoint : ℕ)
    (announced : Bool) :
    Minds { flags with
        failureCode := some code
        stopping := some time
        checkpoint := checkpoint }
      { notes with
        failed := true
        stopPending := announced } :=
  { h.stopping time checkpoint announced with unfailed := nofun }

theorem keeps_observeStartup (h : Minds flags notes) (timing : Timing) :
    (observeStartup timing flags).Keeps conduct Minds notes := by
  refine Dialogue.keeps_ite (fun _ => h) fun hidle => ?_
  obtain ⟨hrunning, hstopping⟩ : flags.running = false ∧ flags.stopping = none := by
    simpa using hidle
  refine .bind fun answer => ⟨trivial, ?_⟩
  cases answer with
  | some status =>
      have hpending : flags.pending = none ∧ flags.deferred = none := by
        have hnever := mt h.running (by simp [hrunning])
        simpa using hnever
      have hpaused : notes.paused = false := h.paused.trans (h.unpaused hrunning)
      have hrests : ({ notes with started := true } : Notes).Rests false :=
        ⟨⟨h.live hstopping, h.open_⟩, rfl, by rw [h.transition hstopping, hpending.1]; rfl, hpaused⟩
      refine .bind (quiet_onlyIf (quiet_diagnosis (by simp [overdueReport, failureReports])) _ _ ?_)
      refine .bind (keeps_report hrests ?_)
      exact .bind (keeps_plain rfl fun checkpoint => { h with
        started := fun _ => rfl
        running := fun _ => rfl
        unpaused := nofun })
  | none =>
      refine .bind (keeps_plain rfl fun time => Dialogue.keeps_ite (fun _ => h) fun _ => ?_)
      refine .bind (keeps_failure (by simp [failureReports]) ?_)
      refine .bind (keeps_plain rfl fun time => .bind (keeps_stop ?_))
      have hasked : Minds flags { notes with asked := true } := { h with }
      refine .bind (keeps_report h.open_ ?_)
      exact .bind (keeps_plain rfl fun checkpoint => hasked.failing 3 time checkpoint true)

theorem keeps_applyControl (h : Minds flags notes) (hstopping : flags.stopping = none)
    (control : ServiceControl) :
    (applyControl flags control).Keeps conduct
      (fun flags' notes' => Minds flags' notes' ∧ flags'.stopping = none) notes := by
  have hdefer : ∀ pause, Minds (if flags.running then { flags with deferred := some pause }
      else flags) notes ∧
      (if flags.running then { flags with deferred := some pause } else flags).stopping = none := by
    intro pause
    split
    · rename_i hrunning
      exact ⟨{ h with running := fun _ => hrunning }, hstopping⟩
    · exact ⟨h, hstopping⟩
  cases control with
  | pause => exact hdefer true
  | continue_ => exact hdefer false
  | powerEvent event => exact .bind (keeps_plain rfl fun _ => ⟨h, hstopping⟩)
  | other code =>
      have hquiet : Quiet (ask .rotate) := fun _ _ hQ => keeps_plain rfl fun _ => hQ
      exact .bind (quiet_onlyIf hquiet _ _ ⟨h, hstopping⟩)
  | stop => exact ⟨h, hstopping⟩
  | shutdown => exact ⟨h, hstopping⟩
  | interrogate => exact ⟨h, hstopping⟩

theorem keeps_applyControls (h : Minds flags notes) (hstopping : flags.stopping = none)
    (controls : List ServiceControl) :
    (applyControls controls flags).Keeps conduct
      (fun flags' notes' => Minds flags' notes' ∧ flags'.stopping = none) notes := by
  induction controls generalizing flags notes with
  | nil => exact ⟨h, hstopping⟩
  | cons control controls ih =>
      refine .bind ((keeps_applyControl h hstopping control).mono ?_)
      rintro flags' notes' ⟨h', hstopping'⟩
      exact ih h' hstopping'

theorem settle_eq {request : ℕ} {pause : Bool} (h : notes.transition = some (request, pause))
    (outcome : TransitionOutcome) :
    notes.settle request outcome = { notes with
      transition := none
      paused := if outcome = .applied then pause else notes.paused
      failed := notes.failed || isDegraded outcome } := by
  rw [Notes.settle, h]
  exact if_pos rfl

/-- An outcome is seen: either the service rests in the state that the outcome leaves, or it
has failed and stops. -/
theorem keeps_applyOutcome (h : Minds flags notes) (hstopping : flags.stopping = none)
    {transition : Pending} (hpending : flags.pending = some transition)
    (outcome : TransitionOutcome) :
    (applyOutcome transition flags outcome).Keeps conduct
      (fun flags' notes' => Minds { flags' with pending := none } notes' ∧
        (flags'.stopping = none → notes'.Rests flags'.paused))
      (notes.settle transition.request outcome) := by
  have htransition : notes.transition = some (transition.request, transition.pause) := by
    rw [h.transition hstopping, hpending]
    rfl
  have hrunning : flags.running = true := h.running (.inl (by rw [hpending]; rfl))
  have hlive : notes.Live := ⟨h.live hstopping, h.open_⟩
  rw [settle_eq htransition]
  -- an outcome that restores the previous state
  have hrestored : isDegraded outcome = false → outcome ≠ .applied →
      (ask (.diagnose "pause/continue" (.restored outcome))).Keeps conduct
        (fun _ notes' => Minds { flags with pending := none } notes' ∧
          (flags.stopping = none → notes'.Rests flags.paused))
        { notes with
          transition := none
          paused := if outcome = .applied then transition.pause else notes.paused
          failed := notes.failed || isDegraded outcome } := by
    intro hdegraded happlied
    rw [if_neg happlied, hdegraded, Bool.or_false]
    refine quiet_diagnosis (by simp [overdueReport, failureReports]) _ _ ⟨?_, fun _ => ?_⟩
    · exact { h with
        transition := fun _ => rfl
        running := fun _ => hrunning }
    · exact ⟨hlive, h.started hrunning, rfl, h.paused⟩
  cases outcome with
  | applied =>
      refine ⟨{ h with
        paused := rfl
        transition := fun _ => rfl
        running := fun _ => hrunning
        unpaused := fun hidle => ?_
        unfailed := fun hnone => ?_ }, fun _ => ⟨hlive, h.started hrunning, rfl, rfl⟩⟩
      · rw [show flags.running = false from hidle] at hrunning
        cases hrunning
      · exact Bool.or_eq_false_iff.mpr ⟨h.unfailed hnone, rfl⟩
  | degraded error =>
      refine .bind (keeps_diagnosis_of_failed (Bool.or_true _) (by simp [overdueReport]) ?_)
      refine .bind (keeps_plain rfl fun time => ⟨?_, nofun⟩)
      exact { h with
        transition := nofun
        running := fun _ => hrunning
        live := nofun
        unfailed := nofun }
  | cancelled => exact .bind (hrestored rfl nofun)
  | rejected message => exact .bind (hrestored rfl nofun)

/-- The status that follows an outcome is proper. -/
theorem settled_proper (h : Minds { flags with pending := none } notes)
    (hrests : flags.stopping = none → notes.Rests flags.paused) :
    notes.ProperReport flags.settled ∧
      Minds { flags with pending := none } (notes.noteReport flags.settled) := by
  unfold Flags.settled
  split
  · rename_i hstopping
    exact ⟨h.open_, h.announced hstopping⟩
  · rename_i hstopping
    have hrest := hrests (by simpa using hstopping)
    split
    · rename_i hpaused
      rw [hpaused] at hrest
      exact ⟨hrest, h⟩
    · rename_i hpaused
      rw [Bool.eq_false_iff.mpr hpaused] at hrest
      exact ⟨hrest, h⟩

theorem keeps_followTransition (h : Minds flags notes) (hstopping : flags.stopping = none)
    (timing : Timing) : (followTransition timing flags).Keeps conduct Minds notes := by
  unfold followTransition
  split
  · exact h
  · rename_i transition hpending
    have htransition : notes.transition = some (transition.request, transition.pause) := by
      rw [h.transition hstopping, hpending]
      rfl
    have hcancel : Quiet (ask (.cancel transition.request)) := fun _ _ hQ =>
      keeps_plain rfl fun _ => hQ
    refine .bind (keeps_plain rfl fun time => .bind (quiet_onlyIf hcancel _ _ ?_))
    refine .bind fun answer => ⟨⟨transition.pause, htransition⟩, ?_⟩
    cases answer with
    | some outcome =>
        refine .bind ((keeps_applyOutcome h hstopping hpending outcome).mono ?_)
        rintro flags' notes' ⟨hminds, hrests⟩
        obtain ⟨hproper, hreported⟩ := settled_proper hminds hrests
        exact .bind (keeps_report hproper (.bind (keeps_plain rfl fun _ => { hreported with })))
    | none =>
        refine .bind (keeps_plain rfl fun time => Dialogue.keeps_ite (fun _ => h) fun _ => ?_)
        refine .bind (keeps_failure (by simp [failureReports]) ?_)
        refine .bind (keeps_plain rfl fun time => .bind (keeps_stop ?_))
        have hasked : Minds flags { notes with asked := true } := { h with }
        refine .bind (keeps_report h.open_ ?_)
        exact hasked.failing supervisorErrorExitCode time flags.checkpoint true

theorem keeps_startTransition (h : Minds flags notes) :
    (startTransition flags).Keeps conduct Minds notes := by
  refine Dialogue.keeps_ite (fun _ => h) fun hbusy => ?_
  obtain ⟨hpending, hstopping⟩ : flags.pending = none ∧ flags.stopping = none := by
    simpa using hbusy
  have htransition : notes.transition = none := by
    rw [h.transition hstopping, hpending]
    rfl
  cases hdeferred : flags.deferred with
  | none => exact h
  | some pause =>
      have hrunning : flags.running = true := h.running (.inr (by rw [hdeferred]; rfl))
      have hlive : notes.Live := ⟨h.live hstopping, h.open_⟩
      refine .bind fun request => ⟨htransition, .bind (keeps_plain rfl fun started => ?_)⟩
      have hminds : ∀ checkpoint, Minds { flags with
          deferred := none
          pending := some { request, pause, started }
          checkpoint := checkpoint } { notes with transition := some (request, pause) } :=
        fun _ => { h with
          transition := fun _ => rfl
          running := fun _ => hrunning }
      refine .bind ?_
      cases pause with
      | true => exact keeps_report hlive (.bind (keeps_plain rfl fun _ => hminds _))
      | false => exact keeps_report hlive (.bind (keeps_plain rfl fun _ => hminds _))

theorem keeps_serve (h : Minds flags notes) (timing : Timing) (controls : List ServiceControl) :
    (serve timing controls flags).Keeps conduct Minds notes := by
  refine Dialogue.keeps_ite (fun _ => h) fun hstopping => ?_
  have hstopping : flags.stopping = none := by simpa using hstopping
  refine .bind ((keeps_applyControls h hstopping controls).mono ?_)
  rintro flags' notes' ⟨h', hstopping'⟩
  refine .bind ((keeps_followTransition h' hstopping' timing).mono fun flags'' notes'' h'' => ?_)
  exact keeps_startTransition h''

theorem keeps_checkStopDeadline (h : Minds flags notes) (timing : Timing) :
    (checkStopDeadline timing flags).Keeps conduct
      (fun result notes' => match result with
        | some outcome => Sound outcome notes'
        | none => Minds flags notes') notes := by
  unfold checkStopDeadline
  split
  · exact h
  · refine .bind (keeps_plain rfl fun time => Dialogue.keeps_ite (fun _ => h) fun _ => ?_)
    exact .bind (keeps_overdue (.bind (keeps_acceptedStop fun accepted =>
      ⟨h.open_, .inr rfl, nofun⟩)))

/-- The status that is reported again is always proper. -/
theorem lasting_proper (h : Minds flags notes) {status : Status}
    (hlasting : flags.lasting = some status) :
    notes.ProperReport status ∧ Minds flags (notes.noteReport status) := by
  unfold Flags.lasting at hlasting
  split at hlasting
  · rename_i hstopping
    cases hlasting
    exact ⟨h.open_, h.announced hstopping⟩
  · rename_i hstopping
    have hlive : notes.Live := ⟨h.live (by simpa using hstopping), h.open_⟩
    split at hlasting
    · cases hlasting
      split
      · exact ⟨hlive, h⟩
      · exact ⟨hlive, h⟩
    · split at hlasting
      · cases hlasting
      · cases hlasting
        exact ⟨hlive, h⟩

theorem keeps_reportCheckpoint (h : Minds flags notes) (timing : Timing) :
    (reportCheckpoint timing flags).Keeps conduct Minds notes := by
  refine .bind (keeps_plain rfl fun time => Dialogue.keeps_ite (fun _ => h) fun _ => ?_)
  cases hlasting : flags.lasting with
  | some status =>
      obtain ⟨hproper, hminds⟩ := lasting_proper h hlasting
      exact .bind (keeps_report hproper (.bind (keeps_plain rfl fun _ => { hminds with })))
  | none => exact .bind (keeps_plain rfl fun _ => { h with })

theorem keeps_awaitControl (h : Minds flags notes) (timing : Timing) :
    (awaitControl timing flags).Keeps conduct Minds notes := by
  refine .bind (keeps_plain rfl fun answer => ?_)
  cases answer with
  | ok control => exact { h with }
  | error error =>
      cases error with
      | disconnected => exact { h with }
      | empty => exact h
      | timeout => exact h

theorem keeps_round (h : Minds flags notes) (timing : Timing) :
    (round timing flags).Keeps conduct
      (fun result notes' => match result with
        | .inl outcome => Sound outcome notes'
        | .inr flags' => Minds flags' notes') notes := by
  refine .bind ((keeps_readControls h).mono ?_)
  rintro ⟨controls, flags₁⟩ notes₁ h₁
  refine .bind ((keeps_claimTerminal h₁).mono fun flags₂ notes₂ h₂ => ?_)
  refine .bind ((keeps_beginStop h₂).mono fun flags₃ notes₃ h₃ => ?_)
  refine .bind ((keeps_complete h₃).mono fun completed notes₄ h₄ => ?_)
  cases completed with
  | some outcome => exact h₄
  | none =>
      refine .bind ((keeps_observeStartup h₄ timing).mono fun flags₅ notes₅ h₅ => ?_)
      refine .bind ((keeps_serve h₅ timing controls).mono fun flags₆ notes₆ h₆ => ?_)
      refine .bind ((keeps_checkStopDeadline h₆ timing).mono fun overdue notes₇ h₇ => ?_)
      cases overdue with
      | some outcome => exact h₇
      | none =>
          refine .bind ((keeps_reportCheckpoint h₇ timing).mono fun flags₈ notes₈ h₈ => ?_)
          exact .bind (keeps_awaitControl h₈ timing)

end

/-! ## The bridge and the end -/

/-- What is left when the loop is over, with an outcome or because the rounds are used up. -/
def Ended : Option BridgeExit → Notes → Prop
  | some outcome, notes => Sound outcome notes
  | none, _ => True

theorem keeps_bridge (timing : Timing) (rounds : ℕ) :
    (bridge timing rounds).Keeps conduct Ended {} := by
  refine .bind (keeps_plain rfl fun started => .bind (keeps_report ⟨rfl, rfl⟩ ?_))
  have hminds : Minds { started, checkpoint := started } {} :=
    { started := nofun
      paused := rfl
      transition := fun _ => rfl
      running := by simp
      unpaused := fun _ => rfl
      live := fun _ => rfl
      unfailed := fun _ => rfl
      joined := rfl
      open_ := rfl }
  have hloop : (Dialogue.repeatUpTo (round timing) rounds
      { started, checkpoint := started }).Keeps conduct Ended {} :=
    Dialogue.keeps_repeatUpTo Minds (fun _ _ _ => trivial)
      (fun _ _ h => (keeps_round h timing).mono fun result _ hresult => by
        cases result with
        | inl outcome => exact hresult
        | inr flags => exact hresult) rounds hminds
  refine .bind (hloop.mono fun outcome notes h => ?_)
  cases outcome with
  | some outcome => exact .bind fun _ => ⟨h.left.imp_right .inl, h⟩
  | none => exact h

/-- `finish` says how the host ends, and lets a claimed stop win. -/
theorem keeps_finish {outcome : BridgeExit} {notes : Notes} (h : Sound outcome notes) :
    (finish outcome).Keeps conduct (fun _ notes' => notes'.final.isSome = true) notes := by
  have hstopped : ∀ code claimed (notes : Notes), notes.final = none →
      notes.claimed = some claimed → (claimed = true → code = 0) → (do
        report (.stopped code)
        onlyIf outcome.forceExit (ask (.terminateCurrentProcess code)) : Talk Unit).Keeps conduct
        (fun _ notes' => notes'.final.isSome = true) notes := by
    intro code claimed notes hopen hclaimed hcode
    refine .bind (keeps_report ⟨hopen, claimed, hclaimed, hcode⟩ ?_)
    exact Dialogue.keeps_ite (fun _ _ => ⟨.inl rfl, rfl⟩) fun _ => rfl
  refine .bind fun claimed => ⟨h.open_, ?_⟩
  cases claimed with
  | true => exact hstopped 0 true _ h.open_ rfl fun _ => rfl
  | false =>
      cases hterminal : outcome.terminal with
      | stopped code => exact hstopped code false _ h.open_ rfl nofun
      | crash code =>
          obtain ⟨hfailed, hasked⟩ := h.crash code hterminal
          refine .bind (quiet_diagnosis (by simp [overdueReport, failureReports]) _ _ ?_)
          refine .bind (keeps_plain rfl fun _ _ => ⟨.inr ⟨rfl, hfailed, h.open_, hasked⟩, ?_⟩)
          change (notes.final.or (some (.crash code))).isSome = true
          rw [h.open_]
          rfl

/-- Whatever they are answered, the bridge and `finish` keep to the code. -/
theorem keeps_bridgeAndFinish (timing : Timing) (rounds : ℕ) :
    (bridgeAndFinish timing rounds).Keeps conduct
      (fun finished notes => finished = true → notes.final.isSome = true) {} := by
  refine .bind ((keeps_bridge timing rounds).mono fun outcome notes h => ?_)
  cases outcome with
  | some outcome => exact .bind ((keeps_finish h).mono fun _ _ hfinal _ => hfinal)
  | none => exact nofun

end Ngsm.Runner
