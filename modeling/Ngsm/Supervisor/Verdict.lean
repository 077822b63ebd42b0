/-
# The end of a run

Three checks of the stop flag decide how a run ends.  The last one has the last word:
a stop that was requested before it ends the run with the shutdown, whatever the
policy had decided, and one that comes later changes nothing.  What follows the last
check answers the queued requests and writes no record.
-/

import Ngsm.Supervisor.PauseGate
import Ngsm.Supervisor.Rounds

namespace Ngsm.Supervisor

open Ngsm.Core Ngsm.Lib Ngsm.Lib.Prog

variable {s s' : Sup} {l l' : Lifecycle} {result : Outcome} {trace : List Event} {event : Event}

/-! ## The last check -/

/-- A stop was requested before the last check of the run. -/
def StopBeforeCheck (trace : List Event) : Prop :=
  ∃ before after, trace = before ++ .check :: after ∧ .check ∉ after ∧
    ∃ paused, .stopRequested paused ∈ before

theorem stopBeforeCheck_check :
    StopBeforeCheck (trace ++ [.check]) ↔ ∃ paused, .stopRequested paused ∈ trace := by
  constructor
  · rintro ⟨before, after, hsplit, hlast, hstop⟩
    rcases append_singleton_split hsplit with ⟨-, rfl, -⟩ | ⟨after', rfl, -⟩
    · exact hstop
    · exact absurd (List.mem_append_right _ (List.mem_singleton_self _)) hlast
  · intro hstop
    exact ⟨trace, [], rfl, List.not_mem_nil, hstop⟩

theorem stopBeforeCheck_append (hevent : event ≠ .check) :
    StopBeforeCheck (trace ++ [event]) ↔ StopBeforeCheck trace := by
  constructor
  · rintro ⟨before, after, hsplit, hlast, hstop⟩
    rcases append_singleton_split hsplit with ⟨-, -, hcheck⟩ | ⟨after', rfl, htrace⟩
    · exact absurd hcheck hevent
    · exact ⟨before, after', htrace, fun h => hlast (List.mem_append_left _ h), hstop⟩
  · rintro ⟨before, after, rfl, hlast, hstop⟩
    refine ⟨before, after ++ [event], by simp, ?_, hstop⟩
    rw [List.mem_append, List.mem_singleton]
    exact fun h => h.elim hlast fun h => hevent h.symm

/-- Later checks see the same request. -/
theorem StopBeforeCheck.append (h : StopBeforeCheck trace) (event : Event) :
    StopBeforeCheck (trace ++ [event]) := by
  by_cases hevent : event = .check
  · rw [hevent, stopBeforeCheck_check]
    obtain ⟨before, after, rfl, -, paused, hstop⟩ := h
    exact ⟨paused, List.mem_append_left _ hstop⟩
  · exact (stopBeforeCheck_append hevent).mpr h

/-- The stop flag is set when the trace says so. -/
def Asked (s : Sup) : Prop :=
  s.stopRequested = true ↔ ∃ paused, .stopRequested paused ∈ s.trace

theorem Asked.append {stopRequested : Bool}
    (h : stopRequested = true ↔ ∃ paused, .stopRequested paused ∈ trace)
    (hevent : ∀ paused, event ≠ .stopRequested paused) :
    stopRequested = true ↔ ∃ paused, .stopRequested paused ∈ trace ++ [event] := by
  rw [h]
  refine exists_congr fun paused => ?_
  rw [List.mem_append, List.mem_singleton]
  exact ⟨.inl, fun h => h.resolve_right fun h => hevent paused h.symm⟩

theorem yielding_asked : Yielding Asked where
  turn _ h := h
  plant _ _ _ h := h
  stop s h := by
    unfold Sup.setStop
    split
    · exact h
    · exact iff_of_true rfl ⟨_, List.mem_append_right _ (List.mem_singleton_self _)⟩
  send _ _ _ h := h
  request s pause h := by
    unfold Sup.request
    split
    · exact Asked.append h nofun
    · exact h
  cancel _ _ h := h
  exit _ _ _ h := h
  terminal _ _ h := h
  hook _ _ _ h := Asked.append h nofun

theorem throughout_asked : Throughout Asked where
  toSteady := yielding_asked.steady
  phase _ _ _ h := h
  kept _ _ _ h := h
  applied _ _ h := Asked.append h nofun
  trouble _ _ _ h := Asked.append h nofun
  own _ _ _ _ _ _ h := h
  record s event hevent h := by
    refine Asked.append h fun paused heq => ?_
    rw [heq] at hevent
    cases hevent
  released _ _ _ h := h
  queue _ _ h := h
  draining _ _ h := h
  drained _ _ h := Asked.append h nofun
  receiving _ _ h := h

/-! ## How a run ends -/

/-- The shutdown has ended the run, well or with an error of its own. -/
structure EndedByStop (result : Outcome) (l : Lifecycle) (s : Sup) : Prop where
  phase : l.phase = .stopped
  exitHook : l.exitHook = false
  result : (result = .ok .stopped ∧ l.unexited = false) ∨
    ∃ error, result = .error error ∧ EndNoted error s

/-- The policy has ended the run, unless an error has. -/
structure EndedByPolicy (result : Outcome) (l : Lifecycle) (s : Sup) : Prop where
  standing : Standing l
  unexited : ∀ reason, result = .ok reason → l.unexited = false
  result : Troubled s ∨ Decided s.config result l

/-- The end so far: a later check may still find a stop. -/
def Concluded (result : Outcome) (l : Lifecycle) (s : Sup) : Prop :=
  (EndedByStop result l s ∧ s.stopRequested = true) ∨ EndedByPolicy result l s

/-- The end of the run, by what its last check has seen. -/
def Resolved (result : Outcome) (l : Lifecycle) (s : Sup) : Prop :=
  (EndedByStop result l s ∧ StopBeforeCheck s.trace) ∨
    (EndedByPolicy result l s ∧ ¬StopBeforeCheck s.trace)

/-- Nothing has happened that the end of the run depends on. -/
structure Onward (l : Lifecycle) (s s' : Sup) : Prop where
  tracks : Tracks l s'
  config : s'.config = s.config
  trace : s.trace <+: s'.trace
  asked : Asked s'

theorem settling_onward (l : Lifecycle) (s : Sup) : Settling (Onward l s) := by
  have hgrown : Settling fun s' => s.trace <+: s'.trace :=
    (throughout_trace fun _ _ h => h.trans (List.prefix_append _ _)).toSettling
  have hall := ((settling_tracks l).and (throughout_config s.config).toSettling).and
    (hgrown.and throughout_asked.toSettling)
  have hiff : (Onward l s) = fun s' => (Tracks l s' ∧ s'.config = s.config) ∧
      s.trace <+: s'.trace ∧ Asked s' := by
    funext s'
    apply propext
    exact ⟨fun h => ⟨⟨h.tracks, h.config⟩, h.trace, h.asked⟩,
      fun h => ⟨h.1.1, h.1.2, h.2.1, h.2.2⟩⟩
  rw [hiff]
  exact hall

theorem Onward.refl (hs : Tracks l s) (hasked : Asked s) : Onward l s s :=
  ⟨hs, rfl, List.prefix_rfl, hasked⟩

theorem EndedByStop.onward (h : EndedByStop result l s) (hs : Onward l s s') :
    EndedByStop result l s' where
  phase := h.phase
  exitHook := h.exitHook
  result := by
    refine h.result.imp id ?_
    rintro ⟨error, rfl, hnoted⟩
    exact ⟨error, rfl, hnoted.imp (fun h => hs.trace.subset h) fun h => hs.trace.subset h⟩

theorem EndedByPolicy.onward (h : EndedByPolicy result l s) (hs : Onward l s s') :
    EndedByPolicy result l s' where
  standing := h.standing
  unexited := h.unexited
  result := by
    rw [hs.config]
    refine h.result.imp ?_ id
    rintro ⟨event, hevent, htroubling⟩
    exact ⟨event, hs.trace.subset hevent, htroubling⟩

theorem Concluded.onward (h : Concluded result l s) (hasked : Asked s) (hs : Onward l s s') :
    Concluded result l s' := by
  refine h.imp (fun h => ⟨h.1.onward hs, ?_⟩) fun h => h.onward hs
  obtain ⟨paused, hstop⟩ := hasked.mp h.2
  exact hs.asked.mpr ⟨paused, hs.trace.subset hstop⟩

/-! ## The checks -/

theorem throughout_stopBeforeCheck : Throughout fun s => StopBeforeCheck s.trace :=
  throughout_trace fun _ event h => h.append event

/-- The state after a check. -/
theorem Tracks.check (hs : Tracks l s) : Tracks l (s.emit .check) :=
  Follows.append_silent hs rfl

/-- The shutdown ends the run. -/
theorem wp_settle_finishStop (hs : Tracks l s) (hl : Standing l) (hstop : s.stopRequested = true)
    (hbefore : StopBeforeCheck s.trace) {R : Halt → Sup → Prop} :
    (settle finishStop).wp
      (fun result s' => ∃ l', Tracks l' s' ∧ EndedByStop result l' s' ∧ s'.stopRequested = true ∧
        StopBeforeCheck s'.trace) R s := by
  refine wp_settle_of (Prog.wp_mono _ (fun reason s' hs' => ?_) (fun e s' he => ?_)
    (Prog.wp_and _ (wp_finishStop hl hs hstop)
      (throughout_stopBeforeCheck.keeps_finishStop s ⟨hbefore, hstop⟩)))
  · obtain ⟨⟨rfl, l', hs', hphase, hhook, hunexited⟩, hbefore', hstop'⟩ := hs'
    exact ⟨l', hs', ⟨hphase, hhook, .inl ⟨rfl, hunexited⟩⟩, hstop', hbefore'⟩
  · obtain ⟨⟨error, rfl, hnoted, l', hs', hphase, hhook⟩, -, hbefore', hstop'⟩ := he
    exact ⟨error, rfl, l', hs', ⟨hphase, hhook, .inr ⟨error, rfl, hnoted⟩⟩, hstop', hbefore'⟩

/-- Every check looks at the flag that the trace tells about. -/
theorem wp_checkStop {Q : Bool → Sup → Prop} {R : Halt → Sup → Prop} (h : Onward l s s')
    (hclear : ∀ s'', Onward l s s'' → s''.stopRequested = false →
      ¬StopBeforeCheck s''.trace → Q false s'')
    (hstop : ∀ s'', Onward l s s'' → s''.stopRequested = true →
      StopBeforeCheck s''.trace → Q true s'') : checkStop.wp Q R s' := by
  unfold checkStop
  rw [Prog.wp_bind]
  refine wp_stopping (settling_onward l s).toSteady h (Nat.zero_le _) fun s₁ hs₁ _ => ?_
  rw [Prog.wp_bind]
  have hs₂ : Onward l s (s₁.emit .check) :=
    ⟨hs₁.tracks.check, hs₁.config, hs₁.trace.trans (List.prefix_append _ _),
      Asked.append hs₁.asked nofun⟩
  have hbefore : StopBeforeCheck (s₁.emit .check).trace ↔ s₁.stopRequested = true :=
    stopBeforeCheck_check.trans hs₁.asked.symm
  cases hflag : s₁.stopRequested with
  | true => exact hstop _ hs₂ hflag (hbefore.mpr hflag)
  | false =>
      refine hclear _ hs₂ hflag fun h => ?_
      rw [hbefore.mp h] at hflag
      cases hflag

/-- The cleanup that follows a run which was not stopped. -/
theorem wp_concludeCleanup (hs : Tracks l s) (hl : Standing l)
    (hresult : Troubled s ∨ Decided s.config result l) {R : Halt → Sup → Prop} :
    (do
      match ← settle cleanupGeneration with
      | .error error => return .error error
      | .ok () => return result : SupM Outcome).wp
      (fun result s' => ∃ l', Tracks l' s' ∧ EndedByPolicy result l' s') R s := by
  have hkept : Lasting fun s' => s'.config = s.config ∧ s.trace <+: s'.trace := by
    refine (throughout_config s.config).toLasting.and (throughout_trace ?_).toLasting
    exact fun _ _ h => h.trans (List.prefix_append _ _)
  rw [Prog.wp_bind]
  refine Prog.wp_mono _ (fun cleanup s₁ hs₁ => ?_) (fun _ _ h => h.1)
    (Prog.wp_and _ (wp_settle_cleanup hl hs)
      (keeps_settle (E := fun _ => True) hkept.keeps_cleanupGeneration s ⟨rfl, List.prefix_rfl⟩))
  obtain ⟨⟨⟨l', hs₁, hl', -, hclosed⟩, htrouble, -⟩, hconfig, hgrown⟩ := hs₁
  cases cleanup with
  | error error => exact ⟨l', hs₁, hl', nofun, .inl (htrouble error rfl)⟩
  | ok _ =>
      obtain ⟨hclosing, -⟩ := hclosed rfl
      refine ⟨l', hs₁, hl', fun _ _ => hclosing.unexited, hresult.imp ?_ ?_⟩
      · rintro ⟨event, hevent, htroubling⟩
        exact ⟨event, hgrown.subset hevent, htroubling⟩
      · rintro ⟨ending, hphase, hpolicy⟩
        rw [hconfig]
        refine ⟨ending, (hclosing.over ?_).1.trans hphase, hpolicy⟩
        rw [hphase]
        nofun

theorem wp_conclude (h : Finished result s) (hasked : Asked s) {R : Halt → Sup → Prop} :
    (conclude result).wp (fun result s' => ∃ l, Tracks l s' ∧ Concluded result l s') R s := by
  obtain ⟨l, hs, hl, hresult⟩ := h
  unfold conclude
  rw [Prog.wp_bind]
  refine wp_checkStop (.refl hs hasked) (fun s₁ hs₁ hflag _ => ?_) fun s₁ hs₁ hflag hbefore => ?_
  · have hresult₁ : Troubled s₁ ∨ Decided s₁.config result l := by
      rw [hs₁.config]
      refine (hresult.resolve_left fun hstop => ?_).imp ?_ id
      · obtain ⟨paused, hstop⟩ := hasked.mp hstop
        rw [hs₁.asked.mpr ⟨paused, hs₁.trace.subset hstop⟩] at hflag
        cases hflag
      · rintro ⟨event, hevent, htroubling⟩
        exact ⟨event, hs₁.trace.subset hevent, htroubling⟩
    refine Prog.wp_mono _ (fun result s' hs' => ?_) (fun _ _ h => h)
      (wp_concludeCleanup hs₁.tracks hl hresult₁)
    exact hs'.imp fun _ h => ⟨h.1, .inr h.2⟩
  · refine Prog.wp_mono _ (fun result s' hs' => ?_) (fun _ _ h => h)
      (wp_settle_finishStop hs₁.tracks hl hflag hbefore)
    exact hs'.imp fun _ h => ⟨h.1, .inl ⟨h.2.1, h.2.2.1⟩⟩

theorem wp_recheck (hs : Tracks l s) (h : Concluded result l s) (hasked : Asked s)
    {R : Halt → Sup → Prop} :
    (recheck result).wp (fun result s' => ∃ l, Tracks l s' ∧ Resolved result l s') R s := by
  unfold recheck
  rw [Prog.wp_bind]
  refine wp_checkStop (.refl hs hasked) (fun s₁ hs₁ hflag hbefore => ?_)
    fun s₁ hs₁ hflag hbefore => ?_
  · rw [Prog.wp_bind, Prog.wp_get, Bool.false_and]
    refine ⟨l, hs₁.tracks, .inr ⟨?_, hbefore⟩⟩
    refine (h.onward hasked hs₁).resolve_left fun hstop => ?_
    rw [hstop.2] at hflag
    cases hflag
  · rw [Prog.wp_bind, Prog.wp_get, Bool.true_and, Prog.wp_ite]
    split
    · rename_i hrecorded
      have hstanding : Standing l := by
        refine (h.resolve_left fun hstop => ?_).standing
        rw [hs₁.tracks.stopped.mpr hstop.1.phase] at hrecorded
        cases hrecorded
      refine Prog.wp_mono _ (fun result s' hs' => ?_) (fun _ _ h => h)
        (wp_settle_finishStop hs₁.tracks hstanding hflag hbefore)
      exact hs'.imp fun _ h => ⟨h.1, .inl ⟨h.2.1, h.2.2.2⟩⟩
    · rename_i hrecorded
      refine ⟨l, hs₁.tracks, .inl ⟨?_, hbefore⟩⟩
      refine ((h.onward hasked hs₁).resolve_right fun hpolicy => ?_).1
      exact hpolicy.standing.phase (hs₁.tracks.stopped.mp (by simpa using hrecorded))

theorem Resolved.concluded (h : Resolved result l s) (hasked : Asked s) : Concluded result l s := by
  refine h.imp (fun h => ⟨h.1, ?_⟩) And.left
  obtain ⟨before, after, htrace, -, paused, hstop⟩ := h.2
  refine hasked.mpr ⟨paused, ?_⟩
  rw [htrace]
  exact List.mem_append_left _ hstop

theorem wp_handOff (hs : Tracks l s) (h : Resolved result l s) (hasked : Asked s)
    {R : Halt → Sup → Prop} :
    (handOff result).wp (fun result s' => ∃ l, Tracks l s' ∧ Resolved result l s') R s := by
  have hsteady := (settling_onward l s).toSteady
  unfold handOff
  rw [Prog.wp_bind, Prog.wp_get, Prog.wp_ite]
  split
  · rw [Prog.wp_bind, Prog.wp_modify, Prog.wp_bind]
    refine (keeps_now hsteady).returns (hsteady.ready s (.refl hs hasked))
      fun _ s₁ hs₁ => ?_
    rw [Prog.wp_bind, Prog.wp_get, Prog.wp_bind]
    refine (keeps_awaitRelease hsteady _ _).returns hs₁ fun _ s₂ hs₂ => ?_
    rw [Prog.wp_bind]
    refine (keeps_turn hsteady).returns hs₂ fun _ s₃ hs₃ => ?_
    rw [Prog.wp_bind, Prog.wp_get, Prog.wp_bind]
    refine (keeps_onlyIf _ (keeps_report hsteady _ _)).returns hs₃ fun _ s₄ hs₄ => ?_
    exact wp_recheck hs₄.tracks ((h.concluded hasked).onward hasked hs₄) hs₄.asked
  · exact ⟨l, hs, h⟩

/-! ## The whole run -/

section Run

variable {config : ManagedApplicationConfig} {rounds : Nat}

/-- A run that has used up its rounds: nobody has asked for a stop, and the service
waits for something. -/
structure Pending (rounds : Nat) (l : Lifecycle) (s : Sup) : Prop where
  waiting : Waiting s.config rounds l s
  turns : rounds ≤ s.turns
  unstopped : ∀ paused, .stopRequested paused ∉ s.trace

/-- How a run leaves its last state. -/
def RunEnd (rounds : Nat) (outcome : Except Halt ExitReason) (l : Lifecycle) (s : Sup) : Prop :=
  match outcome with
  | .ok reason => Resolved (.ok reason) l s
  | .error (.failed error) => Resolved (.error error) l s
  | .error .unfinished => Pending rounds l s
  | .error .panicked => False

theorem wp_settle_runGenerations (hs : Tracks l s) (hl : Ready true 0 l) (hasked : Asked s) :
    (settle (runGenerations rounds true 0)).wp
      (fun result s' => Finished result s' ∧ Asked s')
      (fun e s' => ∃ l, Tracks l s' ∧ RunEnd rounds (.error e) l s') s := by
  have hgate := throughout_asked.toLasting.gate throughout_asked.serves
    (fun s h => Asked.append h nofun) fun s _ h => Asked.append h nofun
  unfold settle
  rw [Prog.wp_bind, Prog.wp_attempt]
  refine Prog.wp_mono _ (fun reason s' hs' => hs') (fun e s' he => ?_)
    (Prog.wp_and _ (wp_runGenerations rounds hs hl (Nat.le_add_right _ _))
      (hgate.wp_runGenerations rounds true 0 (Nat.le_refl _) hasked (Nat.le_refl s.turns)))
  obtain ⟨hinterrupted, hbroken⟩ := he
  cases e with
  | failed error =>
      rcases hbroken with ⟨-, hasked'⟩ | ⟨he, -⟩
      · exact ⟨hinterrupted, hasked'⟩
      · cases he
  | panicked => exact hinterrupted.elim
  | unfinished =>
      obtain ⟨l', hs', hwaiting⟩ := hinterrupted
      rcases hbroken with ⟨⟨error, he⟩, -⟩ | ⟨-, hasked', hflag, hturns⟩
      · cases he
      · refine ⟨l', hs', hwaiting, Nat.le_trans (Nat.le_add_left _ _) hturns, fun paused hin => ?_⟩
        rw [hasked'.mpr ⟨paused, hin⟩] at hflag
        cases hflag

theorem wp_supervise (hs : Tracks l s) (hl : Ready true 0 l) (hasked : Asked s) :
    (supervise rounds).wp (fun result s' => Asked s' ∧ ∃ l, Tracks l s' ∧ Resolved result l s')
      (fun e s' => ∃ l, Tracks l s' ∧ RunEnd rounds (.error e) l s') s := by
  have hlasting := throughout_asked.toLasting
  unfold supervise
  rw [Prog.wp_bind]
  refine Prog.wp_mono _ (fun result s₁ hs₁ => ?_) (fun _ _ h => h)
    (wp_settle_runGenerations hs hl hasked)
  rw [Prog.wp_bind]
  refine Prog.wp_mono _ (fun result s₂ hs₂ => ?_) (fun _ _ h => h.1)
    (Prog.wp_and _ (wp_conclude hs₁.1 hs₁.2)
      (Gate.keeps_conclude (E := fun _ => True) hlasting result s₁ hs₁.2))
  obtain ⟨⟨l₂, hs₂, hconcluded⟩, hasked₂⟩ := hs₂
  rw [Prog.wp_bind]
  refine Prog.wp_mono _ (fun result s₃ hs₃ => ?_) (fun _ _ h => h.1)
    (Prog.wp_and _ (wp_recheck hs₂ hconcluded hasked₂)
      (Gate.keeps_recheck (E := fun _ => True) hlasting result s₂ hasked₂))
  obtain ⟨⟨l₃, hs₃, hended⟩, hasked₃⟩ := hs₃
  exact Prog.wp_mono _ (fun result s₄ hs₄ => ⟨hs₄.2, hs₄.1⟩) (fun _ _ h => h.1)
    (Prog.wp_and _ (wp_handOff hs₃ hended hasked₃)
      (Gate.keeps_handOff (E := fun _ => True) hlasting result s₃ hasked₃))

theorem Resolved.onward (h : Resolved result l s) (hs : Onward l s s')
    (hcheck : StopBeforeCheck s'.trace ↔ StopBeforeCheck s.trace) : Resolved result l s' := by
  unfold Resolved
  rw [hcheck]
  exact h.imp (fun h => ⟨h.1.onward hs, h.2⟩) fun h => ⟨h.1.onward hs, h.2⟩

/-- Every run is the life of a service, and ends as its last check and the policy
say. -/
theorem wp_run (rounds : Nat) (hs : Tracks l s) (hl : Ready true 0 l) (hasked : Asked s) :
    (run rounds).wp (fun reason s' => ∃ l, Tracks l s' ∧ RunEnd rounds (.ok reason) l s')
      (fun e s' => ∃ l, Tracks l s' ∧ RunEnd rounds (.error e) l s') s := by
  unfold run
  rw [Prog.wp_bind]
  refine Prog.wp_mono _ (fun result s₁ hs₁ => ?_) (fun _ _ h => h) (wp_supervise hs hl hasked)
  obtain ⟨hasked₁, l₁, hs₁, hended⟩ := hs₁
  have hcheck : Settling fun s' => StopBeforeCheck s'.trace ↔ StopBeforeCheck s₁.trace := by
    apply settling_trace (P := fun trace => StopBeforeCheck trace ↔ StopBeforeCheck s₁.trace)
    intro trace event hevent h
    rw [stopBeforeCheck_append hevent, h]
  refine Prog.wp_mono _ (fun reason s' hs' => ?_) (fun e s' he => ?_)
    (((settling_onward l₁ s₁).and hcheck).wp_leave result ⟨.refl hs₁ hasked₁, Iff.rfl⟩)
  · obtain ⟨rfl, honward, hiff⟩ := hs'
    exact ⟨l₁, honward.tracks, hended.onward honward hiff⟩
  · obtain ⟨error, rfl, rfl, honward, hiff⟩ := he
    exact ⟨l₁, honward.tracks, hended.onward honward hiff⟩

/-- Signals that were used before the run leave a service that has not begun. -/
theorem start_tracks (config : ManagedApplicationConfig) (script : Nat → Turn) (gate : Bool)
    (before : List Move) :
    (Tracks {} (Sup.start config script gate before) ∧
      (Sup.start config script gate before).config = config) ∧
      Asked (Sup.start config script gate before) := by
  have hyielding := ((yielding_tracks {}).and (yielding_config config)).and yielding_asked
  refine hyielding.moves before ⟨⟨⟨rfl, rfl, rfl, rfl, ?_⟩, rfl⟩, ?_⟩
  · exact iff_of_false nofun nofun
  · exact iff_of_false nofun fun h => List.not_mem_nil h.choose_spec

theorem run_ends (config : ManagedApplicationConfig) (script : Nat → Turn) (gate : Bool)
    (before : List Move) (rounds : Nat) {outcome : Except Halt ExitReason} {s : Sup}
    (hrun : (run rounds).exec (Sup.start config script gate before) = (outcome, s)) :
    s.config = config ∧ ∃ l, Tracks l s ∧ RunEnd rounds outcome l s := by
  obtain ⟨⟨hs, hconfig⟩, hasked⟩ := start_tracks config script gate before
  have hends := wp_run rounds hs ⟨rfl, rfl, rfl, rfl, rfl, rfl⟩ hasked
  have hgate := (throughout_config config).toLasting.gate (throughout_config config).serves
    (fun _ h => h) fun _ _ h => h
  have hkept := (throughout_config config).wp_run hgate rounds hconfig
  cases outcome with
  | ok reason => exact ⟨Prog.wp_ok _ hkept hrun, Prog.wp_ok _ hends hrun⟩
  | error e =>
      refine ⟨?_, Prog.wp_error _ hends hrun⟩
      rcases Prog.wp_error _ hkept hrun with h | h
      · exact h.2
      · exact h.2.1

end Run

end Ngsm.Supervisor
