/-
# The rounds of a run

Each round of `run_generations` takes the machine of `Lifecycle` from one start to
the next, or to the end that the policy decides.  A round that stops early has seen a
stop request or has reported an error, and a run that is unfinished is waiting for
something: for the child, for a delay or for the stop.  A delay cannot use up the rounds
for long: each of them is an attempt to start, a part of the delay, or a control or a
pause that prolongs it.
-/

import Ngsm.Supervisor.Cleanup
import Ngsm.Supervisor.Waits

namespace Ngsm.Supervisor

open Ngsm.Core Ngsm.Lib Ngsm.Lib.Prog

variable {s : Sup} {l l' : Lifecycle} {config : ManagedApplicationConfig} {first : Bool}
  {lastDelay total : Nat}

/-! ## Where a round stands -/

/-- The head of the loop: nothing is owed, and the loop's variables are the machine's. -/
structure Ready (first : Bool) (lastDelay : Nat) (l : Lifecycle) : Prop where
  phase : l.phase = .ready
  unexited : l.unexited = false
  exitHook : l.exitHook = false
  stopHook : l.stopHook = false
  first : l.first = first
  lastDelay : l.lastDelay = lastDelay

/-- After `start_generation`, whatever it has come to. -/
structure Launched (first : Bool) (lastDelay : Nat) (l : Lifecycle) : Prop where
  phase : l.phase = .starting ∨ l.phase = .up
  exitHook : l.exitHook = false
  stopHook : l.stopHook = false
  first : l.first = first
  lastDelay : l.lastDelay = lastDelay

theorem Launched.standing (h : Launched first lastDelay l) : Standing l where
  exitHook := h.exitHook
  phase hstopped := by
    rcases h.phase with hphase | hphase
    · rw [hphase] at hstopped
      cases hstopped
    · rw [hphase] at hstopped
      cases hstopped

/-- A child that was started is the machine's. -/
structure Running (l : Lifecycle) : Prop where
  phase : l.phase = .up
  unexited : l.unexited = true
  exitHook : l.exitHook = false
  stopHook : l.stopHook = false

theorem Ready.standing (h : Ready first lastDelay l) : Standing l where
  exitHook := h.exitHook
  phase := by
    rw [h.phase]
    nofun

theorem Running.standing (h : Running l) : Standing l where
  exitHook := h.exitHook
  phase := by
    rw [h.phase]
    nofun

/-- The result with which a decision ends the run. -/
def Decision.outcome : Decision → Option Outcome
  | .finish reason => some (.ok reason)
  | .giveUp error => some (.error error)
  | _ => none

/-- The policy ends the run with this result. -/
def Decided (config : ManagedApplicationConfig) (result : Outcome) (l : Lifecycle) : Prop :=
  ∃ ending, l.phase = .over ending ∧ (policy config ending).outcome = some result

/-- The delay that the policy prescribes where the service stands. -/
def Lifecycle.delay (config : ManagedApplicationConfig) (l : Lifecycle) : Nat :=
  match l.phase with
  | .backOff delay => delay
  | .over ending =>
      match policy config ending with
      | .again delay => delay
      | _ => 0
  | _ => 0

/-- What the rounds of a run were used up for: a start was attempted, a millisecond of the
delay passed, a control was taken up, or the pause flag held the round up. -/
def Exhausted (config : ManagedApplicationConfig) (rounds : Nat) (l : Lifecycle) (s : Sup) : Prop :=
  rounds ≤ l.attempts + l.delay config + s.plant.served + s.plant.held + 1

/-- What a run waits for when its rounds are used up: the exit of the child, the stop, or the
end of a delay that was prolonged. -/
def Waiting (config : ManagedApplicationConfig) (rounds : Nat) (l : Lifecycle) (s : Sup) : Prop :=
  match l.phase with
  | .ready | .backOff _ => Exhausted config rounds l s
  | .up => s.generation.any (·.exit.isSome) = false
  | .over ending =>
      match policy config ending with
      | .again _ => Exhausted config rounds l s
      | .quiesce => True
      | _ => False
  | .starting | .stopped => False

/-- The loop has ended with this result, by the policy unless a stop or an error came
first. -/
def Finished (result : Outcome) (s : Sup) : Prop :=
  ∃ l, Tracks l s ∧ Standing l ∧
    (s.stopRequested = true ∨ Troubled s ∨ Decided s.config result l)

/-- How the loop is left in the middle. -/
def Interrupted (rounds : Nat) (e : Halt) (s : Sup) : Prop :=
  match e with
  | .failed error => Finished (.error error) s
  | .unfinished => ∃ l, Tracks l s ∧ Waiting s.config rounds l s
  | .panicked => False

/-- How a round ends after so many attempts. -/
def RoundEnd (attempts : Nat) (next : Next) (s : Sup) : Prop :=
  match next with
  | .again first lastDelay =>
      ∃ l, Tracks l s ∧ Ready first lastDelay l ∧ l.attempts = attempts
  | .finished reason => Finished (.ok reason) s

theorem Finished.of_stop (reason : ExitReason) (hs : Tracks l s) (hl : Standing l)
    (hstop : s.stopRequested = true) : Finished (.ok reason) s :=
  ⟨l, hs, hl, .inl hstop⟩

theorem interrupted_of_broken {I : Sup → Prop} {limit : Nat} {e : Halt}
    (h : Broken I (fun s => I s ∧ Troubled s) limit e s) (hI : I s → Tracks l s)
    (hl : Standing l) (hwaiting : e = .unfinished → I s → Waiting s.config total l s) :
    Interrupted total e s := by
  rcases h with ⟨⟨error, rfl⟩, hs, htrouble⟩ | ⟨rfl, hs, -⟩
  · exact ⟨l, hI hs, hl, .inr (.inl htrouble)⟩
  · exact ⟨l, hI hs, hwaiting rfl hs⟩

/-! ## Waits -/

theorem yielding_config (config : ManagedApplicationConfig) :
    Yielding fun s => s.config = config where
  turn _ h := h
  plant _ _ _ h := h
  stop s h := by
    unfold Sup.setStop
    split
    · exact h
    · exact h
  send _ _ _ h := h
  request s pause h := by
    unfold Sup.request
    split
    · exact h
    · exact h
  cancel _ _ h := h
  exit _ _ _ h := h
  terminal _ _ h := h
  hook _ _ _ h := h

theorem throughout_config (config : ManagedApplicationConfig) :
    Throughout fun s => s.config = config where
  toSteady := (yielding_config config).steady
  phase _ _ _ h := h
  kept _ _ _ h := h
  applied _ _ h := h
  trouble _ _ _ h := h
  own _ _ _ _ _ _ h := h
  record _ _ _ h := h
  released _ _ _ h := h
  queue _ _ h := h
  draining _ _ h := h
  drained _ _ h := h
  receiving _ _ h := h

/-- The machine stands at `l`, under this configuration. -/
def Stands (config : ManagedApplicationConfig) (l : Lifecycle) (s : Sup) : Prop :=
  Tracks l s ∧ s.config = config

theorem steady_stands (config : ManagedApplicationConfig) (l : Lifecycle) :
    Steady (Stands config l) :=
  (governed_tracks l).toSteady.and (throughout_config config).toSteady

theorem serves_stands (config : ManagedApplicationConfig) (l : Lifecycle) :
    Serves (Stands config l) fun s => Stands config l s ∧ Troubled s := by
  intro s message rest hs hqueue
  exact Prog.wp_mono _ (fun _ _ h => h) (fun _ _ h => ⟨h.1, ⟨h.2.1.1, h.2.2⟩, h.2.1.2⟩)
    ((serves_tracks l).and (throughout_config config).serves s message rest hs hqueue)

/-- A wait of the policy: it lasts as long as the delay at least, nothing but a stop or an
error cuts it short, and nothing but a pause or a control prolongs it. -/
theorem wp_backOff {next : Next} (l' : Lifecycle) (delay rounds : Nat) (hs : Tracks l s)
    (hl : Standing l) (hbudget : total ≤ rounds + l.attempts) (hdelay : l.delay s.config = delay)
    (hwaiting : ∀ s', Exhausted s.config total l s' → Waiting s.config total l s')
    (hstep : ∀ elapsed, delay ≤ elapsed →
      Lifecycle.step s.config l (.waited delay elapsed) = some l')
    (hunexited : l'.unexited = l.unexited) (hreported : l'.reported = l.reported)
    (hhook : l'.stopHook = l.stopHook) (hphase : l'.phase ≠ .stopped)
    (hnext : ∀ s', Tracks l' s' → RoundEnd l.attempts next s') :
    (backOff delay rounds next).wp (RoundEnd l.attempts) (Interrupted total) s := by
  have hsteady := steady_stands s.config l
  unfold backOff now
  rw [Prog.wp_bind, Prog.wp_bind]
  refine (keeps_turn hsteady).returns ⟨hs, rfl⟩ fun _ s₁ hs₁ => ?_
  rw [Prog.wp_bind, Prog.wp_get, Prog.wp_pure, Prog.wp_bind]
  refine Prog.wp_mono _ (fun go s₂ hs₂ => ?_) (fun e s' he => ?_)
    (Prog.wp_and _
      (wp_sleepUntil hsteady (serves_stands s.config l) hsteady (fun _ h _ => h) (fun _ h => h)
        (s₁.plant.clock + delay) rounds (n := 0) (Nat.zero_le _) hs₁ (Nat.zero_le _))
      (wp_sleepUntil_delay delay rounds))
  · obtain ⟨hs₂, -⟩ := hs₂
    cases go with
    | false => exact Finished.of_stop .stopped hs₂.1.1.1 hl hs₂.1.2
    | true =>
        obtain ⟨⟨⟨hs₂, hconfig⟩, -, hdeadline⟩, -⟩ := hs₂
        have hstopped : s₂.stoppedRecorded = true ↔ l'.phase = .stopped :=
          ⟨fun h => absurd (hs₂.stopped.mp h) hl.phase, fun h => absurd h hphase⟩
        refine hnext _ (Follows.append hs₂ ?_ (hunexited.trans hs₂.unexited)
          (hreported.trans hs₂.reported) (hhook.trans hs₂.stopHook) hstopped)
        change Lifecycle.step s₂.config l _ = _
        rw [hconfig]
        exact hstep _ (by omega)
  · obtain ⟨hbroken, hspent⟩ := he
    refine interrupted_of_broken hbroken And.left hl fun heq hs' => ?_
    rw [hs'.2]
    apply hwaiting
    have hrounds := hspent heq
    unfold Exhausted
    omega

/-! ## A failed start -/

theorem Tracks.failed (hs : Tracks l s) (hl : Launched first lastDelay l)
    (error : SupervisorError) :
    Tracks { l with phase := .over (.failed error) } (s.emit (.startFailed error)) := by
  refine Follows.append hs (if_pos hl.phase) hs.unexited hs.reported hs.stopHook ?_
  exact ⟨fun h => absurd (hs.stopped.mp h) hl.standing.phase, nofun⟩

/-- Only a generation that is up is ended by its exit record. -/
theorem Closing.over {sight : Option (Int32 × Nat)} (h : Closing sight l l')
    (hphase : l.phase ≠ .up) :
    l'.phase = l.phase ∧ l'.first = l.first ∧ l'.lastDelay = l.lastDelay := by
  rcases h with ⟨-, rfl⟩ | ⟨-, code, lived, rfl, -⟩
  · exact ⟨rfl, rfl, rfl⟩
  · unfold Lifecycle.close Lifecycle.exit
    rw [if_neg hphase]
    exact ⟨rfl, rfl, rfl⟩

/-- An error of a cleanup is one of the run. -/
theorem interrupted_of_cleanup {sight : Option (Int32 × Nat)} {e : Halt} (hl : Standing l)
    (h : Failed e ∧ Cleaned sight l s ∧ Troubled s) : Interrupted total e s := by
  obtain ⟨⟨error, rfl⟩, ⟨l', hs, hl'⟩, htrouble⟩ := h
  refine ⟨l', hs, ?_, .inr (.inl htrouble)⟩
  rcases hl' with rfl | hclosing
  · exact hl
  · exact hclosing.standing hl

theorem policy_failed_again (error : SupervisorError)
    (haction : defaultAction config = .restart ∨ defaultAction config = .ignore) :
    policy config (.failed error) = .again (startRetryDelay config) := by
  unfold policy
  rcases haction with haction | haction
  · rw [haction]
  · rw [haction]

theorem wp_retry {error : SupervisorError} (rounds : Nat) (hs : Tracks l s) (hl : Standing l)
    (hbudget : total ≤ rounds + l.attempts) (hphase : l.phase = .over (.failed error))
    (hunexited : l.unexited = false) (hhook : l.stopHook = false) (hfirst : l.first = first)
    (hlast : l.lastDelay = lastDelay)
    (haction : defaultAction s.config = .restart ∨ defaultAction s.config = .ignore) :
    (backOff (startRetryDelay s.config) rounds (.again first lastDelay)).wp (RoundEnd l.attempts)
      (Interrupted total) s := by
  have hpolicy := policy_failed_again error haction
  have hdelay : l.delay s.config = startRetryDelay s.config := by
    simp [Lifecycle.delay, hphase, hpolicy]
  have hwaiting : ∀ s', Exhausted s.config total l s' → Waiting s.config total l s' := by
    intro s' hexhausted
    simp [Waiting, hphase, hpolicy, hexhausted]
  refine wp_backOff { l with phase := .ready } _ rounds hs hl hbudget hdelay hwaiting
    (fun elapsed helapsed => ?_) rfl rfl rfl nofun fun s' hs' => ⟨_, hs', ?_, rfl⟩
  · simp [Lifecycle.step, hphase, hpolicy, helapsed]
  · exact ⟨rfl, hunexited, hl.exitHook, hhook, hfirst, hlast⟩

theorem wp_afterFailure (error : SupervisorError) (rounds : Nat) (hs : Tracks l s)
    (hl : Launched first lastDelay l) (hbudget : total ≤ rounds + l.attempts) :
    (afterFailure error first lastDelay rounds).wp (RoundEnd l.attempts) (Interrupted total)
      s := by
  have hover : Standing { l with phase := .over (.failed error) } := ⟨hl.exitHook, nofun⟩
  unfold afterFailure emit
  rw [Prog.wp_bind, Prog.wp_modify, Prog.wp_bind]
  refine (keeps_reportThat (governed_tracks _).toSteady _ _).returns (hs.failed hl error)
    fun _ s₁ hs₁ => ?_
  rw [Prog.wp_bind]
  refine Prog.wp_mono _ (fun _ s₂ hs₂ => ?_) (fun _ _ he => interrupted_of_cleanup hover he)
    (wp_cleanupGeneration hover hs₁ (show Sighted none s₁.generation from nofun))
  obtain ⟨l', hs₂, hclosing, -⟩ := hs₂
  obtain ⟨hphase, hfirst, hlast⟩ := hclosing.over nofun
  have hattempts : l'.attempts = l.attempts := hclosing.attempts
  have hl' := hclosing.standing hover
  rw [Prog.wp_bind]
  refine wp_stopping (governed_tracks l').toSteady hs₂ (Nat.zero_le _) fun s₃ hs₃ _ => ?_
  cases hstop : s₃.stopRequested with
  | true => exact Finished.of_stop .stopped hs₃ hl' hstop
  | false =>
      simp only [Bool.false_eq_true, if_false]
      rw [Prog.wp_bind, Prog.wp_get]
      rw [← hattempts] at hbudget ⊢
      have hretry : defaultAction s₃.config = .restart ∨ defaultAction s₃.config = .ignore → _ :=
        wp_retry rounds hs₃ hl' hbudget hphase hclosing.unexited
          (hclosing.stopHook.trans hl.stopHook) (hfirst.trans hl.first) (hlast.trans hl.lastDelay)
      cases haction : defaultAction s₃.config with
      | suicide =>
          refine ⟨l', hs₃, hl', .inr (.inr ⟨_, hphase, ?_⟩)⟩
          simp [policy, haction, Decision.outcome]
      | exit =>
          refine ⟨l', hs₃, hl', .inr (.inr ⟨_, hphase, ?_⟩)⟩
          simp [policy, haction, Decision.outcome]
      | restart => exact hretry (.inl haction)
      | ignore => exact hretry (.inr haction)

/-! ## An exit -/

/-- The exit that ended a generation is the one that was seen. -/
theorem Closing.exited {code : Int32} {lived : Nat} (h : Closing (some (code, lived)) l l')
    (hl : Running l) :
    l'.phase = .over (.exited code lived) ∧ l'.first = false := by
  rcases h with ⟨hexited, -⟩ | ⟨-, code', lived', rfl, hseen⟩
  · rw [hl.unexited] at hexited
    cases hexited
  · cases hseen _ rfl
    unfold Lifecycle.close Lifecycle.exit
    rw [if_pos hl.phase]
    exact ⟨rfl, rfl⟩

section Exit

variable {code : Int32} {lived : Nat}

theorem policy_exited_again (haction : exitAction config code = .restart) :
    policy config (.exited code lived) = .again (restartDelay config lived) := by
  simp [policy, haction]

theorem policy_exited_quiesce (haction : exitAction config code = .ignore) :
    policy config (.exited code lived) = .quiesce := by
  simp [policy, haction]

/-- The wait of a restart, announced unless there is none. -/
theorem wp_restart (rounds : Nat) (hs : Tracks l s) (hl : Standing l)
    (hbudget : total ≤ rounds + l.attempts) (hphase : l.phase = .over (.exited code lived))
    (hunexited : l.unexited = false) (hhook : l.stopHook = false) (hfirst : l.first = false)
    (haction : exitAction s.config code = .restart) :
    (do
      onlyIf (restartDelay s.config lived ≠ 0) do emit (.throttled (restartDelay s.config lived))
      backOff (restartDelay s.config lived) rounds (.again false (restartDelay s.config lived))
      : SupM Next).wp (RoundEnd l.attempts) (Interrupted total) s := by
  have hpolicy : policy s.config (.exited code lived) = .again (restartDelay s.config lived) :=
    policy_exited_again haction
  generalize hdelay : restartDelay s.config lived = delay at hpolicy
  have hready : Ready false delay (l.again delay) := ⟨rfl, hunexited, hl.exitHook, hhook, hfirst, rfl⟩
  have hagain : Phase.ready ≠ .stopped := by decide
  have hwaits : Phase.backOff delay ≠ .stopped := by simp
  unfold onlyIf
  rw [Prog.wp_bind, Prog.wp_ite]
  by_cases hzero : delay = 0
  · subst hzero
    have hnone : l.delay s.config = 0 := by
      simp [Lifecycle.delay, hphase, hpolicy]
    have hwaiting : ∀ s', Exhausted s.config total l s' → Waiting s.config total l s' := by
      intro s' hexhausted
      simp [Waiting, hphase, hpolicy, hexhausted]
    refine wp_backOff (l.again 0) 0 rounds hs hl hbudget hnone hwaiting (fun elapsed _ => ?_)
      rfl rfl rfl hagain fun s' hs' => ⟨_, hs', hready, rfl⟩
    simp [Lifecycle.step, hphase, hpolicy]
  · rw [if_pos (by simpa using hzero)]
    have hthrottled : Tracks { l with phase := .backOff delay } (s.emit (.throttled delay)) := by
      refine Follows.append hs ?_ hs.unexited hs.reported hs.stopHook
        ⟨fun h => absurd (hs.stopped.mp h) hl.phase, fun h => absurd h hwaits⟩
      change Lifecycle.step s.config l _ = _
      simp [Lifecycle.step, hphase, hpolicy, hzero]
    refine wp_backOff (l := { l with phase := .backOff delay }) (l.again delay) delay rounds
      hthrottled ⟨hl.exitHook, hwaits⟩ hbudget rfl (fun _ h => h) (fun elapsed helapsed => ?_)
      rfl rfl rfl hagain fun s' hs' => ⟨_, hs', hready, rfl⟩
    simp [Lifecycle.step, helapsed, Lifecycle.again]

theorem wp_quiesce (rounds : Nat) (hs : Tracks l s) (hl : Standing l)
    (hphase : l.phase = .over (.exited code lived))
    (haction : exitAction s.config code = .ignore) {attempts : Nat} :
    (do
      confirmStartup .quiesced
      return .finished (← waitForStopQuiesced rounds) : SupM Next).wp (RoundEnd attempts)
        (Interrupted total) s := by
  have hpolicy : policy s.config (.exited code lived) = .quiesce := policy_exited_quiesce haction
  have hconfirm : (confirmStartup .quiesced).wp
      (fun _ s' => ∃ l', Tracks l' s' ∧ Standing l' ∧ l'.phase = l.phase) (Interrupted total)
        s := by
    refine wp_confirmStartup hs (fun hreported => ?_) rfl (fun s' hs' => ⟨l, hs', hl, rfl⟩)
      fun s' hs' => ⟨_, hs', ⟨hl.exitHook, hl.phase⟩, rfl⟩
    simp [Lifecycle.step, hphase, hpolicy, hreported]
  rw [Prog.wp_bind]
  refine Prog.wp_mono _ (fun _ s₁ hs₁ => ?_) (fun _ _ he => he.1)
    (Prog.wp_and _ hconfirm
      ((throughout_config s.config).keeps_confirmStartup (E := fun _ => True) .quiesced s rfl))
  obtain ⟨⟨l', hs₁, hl', hphase'⟩, hconfig⟩ := hs₁
  rw [Prog.wp_bind]
  refine Prog.wp_mono _ (fun reason s₂ hs₂ => ?_) (fun e s' he => ?_)
    (wp_waitForStopQuiesced (steady_stands s.config l') (serves_stands s.config l') rounds (n := 0)
      (Nat.zero_le _) ⟨hs₁, hconfig⟩ (Nat.zero_le _))
  · exact Finished.of_stop reason hs₂.1.1 hl' hs₂.2.2
  · refine interrupted_of_broken he And.left hl' fun _ hs' => ?_
    simp [Waiting, hphase', hphase, hs'.2, hpolicy]

theorem wp_afterExit (rounds : Nat) (hs : Tracks l s) (hl : Running l)
    (hbudget : total ≤ rounds + l.attempts)
    (hsight : Sighted (some (code, lived)) s.generation) :
    (afterExit code lived rounds).wp (RoundEnd l.attempts) (Interrupted total) s := by
  unfold afterExit
  rw [Prog.wp_bind]
  refine Prog.wp_mono _ (fun _ s₁ hs₁ => ?_)
    (fun _ _ he => interrupted_of_cleanup hl.standing he)
    (wp_cleanupGeneration hl.standing hs hsight)
  obtain ⟨l', hs₁, hclosing, -⟩ := hs₁
  obtain ⟨hphase, hfirst⟩ := hclosing.exited hl
  rw [← hclosing.attempts] at hbudget ⊢
  have hl' := hclosing.standing hl.standing
  rw [Prog.wp_bind]
  refine wp_stopping (governed_tracks l').toSteady hs₁ (Nat.zero_le _) fun s₂ hs₂ _ => ?_
  cases hstop : s₂.stopRequested with
  | true => exact Finished.of_stop .stopped hs₂ hl' hstop
  | false =>
      simp only [Bool.false_eq_true, if_false]
      rw [Prog.wp_bind, Prog.wp_get]
      cases haction : exitAction s₂.config code with
      | restart =>
          exact wp_restart rounds hs₂ hl' hbudget hphase hclosing.unexited
            (hclosing.stopHook.trans hl.stopHook) hfirst haction
      | ignore => exact wp_quiesce rounds hs₂ hl' hphase haction
      | exit =>
          refine ⟨l', hs₂, hl', .inr (.inr ⟨_, hphase, ?_⟩)⟩
          simp [policy, haction, Decision.outcome]
      | suicide =>
          refine ⟨l', hs₂, hl', .inr (.inr ⟨_, hphase, ?_⟩)⟩
          simp [policy, haction, Decision.outcome]

end Exit

/-! ## A start -/

theorem Up.launched (h : Up l.attempt l') (hl : Ready first lastDelay l) :
    Launched first lastDelay l' ∧ Running l' ∧ l'.attempts = l.attempts + 1 := by
  rcases h with rfl | rfl
  · exact ⟨⟨.inr rfl, hl.exitHook, hl.stopHook, hl.first, hl.lastDelay⟩,
      ⟨rfl, rfl, hl.exitHook, hl.stopHook⟩, rfl⟩
  · exact ⟨⟨.inr rfl, hl.exitHook, hl.stopHook, hl.first, hl.lastDelay⟩,
      ⟨rfl, rfl, hl.exitHook, hl.stopHook⟩, rfl⟩

/-- What an attempt comes to: a child that is up, a stop, or a failure. -/
theorem wp_attemptStart (hs : Tracks l s) (hl : Ready first lastDelay l)
    {R : Halt → Sup → Prop} :
    (attemptStart first lastDelay).wp
      (fun started s' => ∃ l', Tracks l' s' ∧
        (Launched first lastDelay l' ∧ l'.attempts = l.attempts + 1) ∧
        (started = .ok true → Running l') ∧ (started = .ok false → s'.stopRequested = true)) R s := by
  have hstarting : Starting first lastDelay l.attempt :=
    ⟨rfl, hl.unexited, hl.first, hl.lastDelay⟩
  have hsame : Launched first lastDelay l.attempt ∧ l.attempt.attempts = l.attempts + 1 :=
    ⟨⟨.inl rfl, hl.exitHook, hl.stopHook, hl.first, hl.lastDelay⟩, rfl⟩
  have hattempt : Tracks l.attempt
      { s with nextGeneration := s.nextGeneration + 1, trace := s.trace ++ [.attempt] } := by
    have hstopped : s.stoppedRecorded = true ↔ Phase.starting = .stopped := by
      rw [hs.stopped, hl.phase]
      simp
    exact Follows.append hs (if_pos ⟨hl.phase, hl.unexited, hl.stopHook⟩) hs.unexited hs.reported
      hs.stopHook hstopped
  unfold attemptStart
  rw [Prog.wp_bind, Prog.wp_modify]
  refine wp_settle (D := fun s' => ∃ l', Tracks l' s' ∧
    Launched first lastDelay l' ∧ l'.attempts = l.attempts + 1) ?_ ?_
  · refine Prog.wp_mono _ (fun up s' hs' => ?_) (fun _ s' he => ⟨he.1.1, ?_⟩)
      (Prog.wp_and _ (wp_startGeneration hstarting hattempt)
        (wp_startGeneration_stop first lastDelay))
    · obtain ⟨⟨l', hs', hl'⟩, hstop⟩ := hs'
      have hfalse : Except.ok (ε := SupervisorError) up = .ok false → s'.stopRequested = true :=
        fun hup => hstop (Except.ok.inj hup)
      rcases hl' with hup | ⟨rfl, rfl⟩
      · obtain ⟨hlaunched, hrunning, hattempts⟩ := hup.launched hl
        exact ⟨l', hs', ⟨hlaunched, hattempts⟩, fun _ => hrunning, hfalse⟩
      · exact ⟨_, hs', hsame, nofun, hfalse⟩
    · obtain ⟨⟨-, l', hs', hl'⟩, -⟩ := he
      rcases hl' with hup | rfl
      · obtain ⟨hlaunched, -, hattempts⟩ := hup.launched hl
        exact ⟨l', hs', hlaunched, hattempts⟩
      · exact ⟨_, hs', hsame⟩
  · rintro s' error ⟨l', hs', hl'⟩
    exact ⟨l', hs', hl', nofun, nofun⟩

/-! ## Rounds -/

theorem wp_observedExit (hs : Tracks l s) (hexit : s.generation.any (·.exit.isSome) = true)
    {R : Halt → Sup → Prop} :
    observedExit.wp (fun seen s' => Tracks l s' ∧ Sighted (some seen) s'.generation) R s := by
  unfold observedExit
  rw [Prog.wp_bind, Prog.wp_get]
  cases hgeneration : s.generation with
  | none =>
      rw [hgeneration] at hexit
      cases hexit
  | some generation =>
      rw [hgeneration, Option.any_some, Option.isSome_iff_exists] at hexit
      obtain ⟨exit, hexit⟩ := hexit
      simp only [hexit]
      refine ⟨hs, fun seen hseen => ⟨generation, exit, hgeneration, hexit, ?_⟩⟩
      cases hseen
      rfl

theorem wp_awaited (rounds : Nat) (hs : Tracks l s) (hl : Running l)
    (hbudget : total ≤ rounds + l.attempts) :
    (do
      if !(← awaitExit rounds) then
        return .finished .stopped
      let (code, lived) ← observedExit
      afterExit code lived rounds : SupM Next).wp (RoundEnd l.attempts) (Interrupted total)
        s := by
  have hsteady := (governed_tracks l).toSteady
  rw [Prog.wp_bind]
  refine Prog.wp_mono _ (fun go s₁ hs₁ => ?_) (fun e s' he => ?_)
    (Prog.wp_and _
      (wp_awaitExit hsteady (serves_tracks l) rounds (n := 0) (Nat.zero_le _) hs (Nat.zero_le _))
      (wp_awaitExit_pending rounds))
  · obtain ⟨hs₁, -⟩ := hs₁
    cases go with
    | false => exact Finished.of_stop .stopped hs₁.1 hl.standing (hs₁.2.2.2 rfl)
    | true =>
        simp only [Bool.not_true, Bool.false_eq_true, if_false]
        rw [Prog.wp_bind]
        refine Prog.wp_mono _ (fun seen s₂ hs₂ => ?_) (fun _ _ h => h)
          (wp_observedExit hs₁.1 (hs₁.2.2.1 rfl))
        exact wp_afterExit rounds hs₂.1 hl hbudget hs₂.2
  · obtain ⟨hbroken, hpending⟩ := he
    refine interrupted_of_broken hbroken id hl.standing fun heq _ => ?_
    simp only [Waiting, hl.phase]
    exact hpending heq

theorem wp_runGeneration (rounds : Nat) (hs : Tracks l s) (hl : Ready first lastDelay l)
    (hbudget : total ≤ rounds + 1 + l.attempts) :
    (runGeneration first lastDelay rounds).wp (RoundEnd (l.attempts + 1)) (Interrupted total)
      s := by
  have hsteady := (governed_tracks l).toSteady
  have hstanding := hl.standing
  unfold runGeneration
  rw [Prog.wp_bind]
  refine Prog.wp_mono _ (fun go s₁ hs₁ => ?_) (fun e s' he => ?_)
    (Prog.wp_and _
      (wp_sleepOrStop hsteady (serves_tracks l) hsteady (fun _ h _ => h) (fun _ h => h) 0 rounds
        (n := 0) (Nat.zero_le _) hs (Nat.zero_le _))
      (wp_sleepOrStop_delay 0 rounds))
  · obtain ⟨⟨⟨deadline, hawake⟩, -⟩, -⟩ := hs₁
    cases go with
    | false => exact Finished.of_stop .stopped hawake.1 hstanding hawake.2
    | true =>
        simp only [Bool.not_true, Bool.false_eq_true, if_false]
        rw [Prog.wp_bind]
        refine Prog.wp_mono _ (fun started s₂ hs₂ => ?_) (fun _ _ h => h)
          (wp_attemptStart hawake.1 hl)
        obtain ⟨l', hs₂, ⟨hl', hattempts⟩, hrunning, hstop⟩ := hs₂
        have hleft : total ≤ rounds + l'.attempts := by omega
        rw [← hattempts]
        cases started with
        | error error => exact wp_afterFailure error rounds hs₂ hl' hleft
        | ok up =>
            cases up with
            | false => exact Finished.of_stop .stopped hs₂ hl'.standing (hstop rfl)
            | true => exact wp_awaited rounds hs₂ (hrunning rfl) hleft
  · obtain ⟨hbroken, hspent⟩ := he
    refine interrupted_of_broken hbroken id hstanding fun heq _ => ?_
    have hrounds := hspent heq
    simp only [Waiting, Exhausted, Lifecycle.delay, hl.phase]
    omega

/-- A run up to its end by the policy.  The rounds that it has left and the starts it has
attempted are all its rounds. -/
theorem wp_runGenerations (rounds : Nat) (hs : Tracks l s) (hl : Ready first lastDelay l)
    (hbudget : total ≤ rounds + l.attempts) :
    (runGenerations rounds first lastDelay).wp (fun reason => Finished (.ok reason))
      (Interrupted total) s := by
  induction rounds generalizing s l first lastDelay with
  | zero =>
      unfold runGenerations
      have hstanding := hl.standing
      rw [Prog.wp_bind]
      refine wp_stopping (governed_tracks l).toSteady hs (Nat.zero_le _) fun s₁ hs₁ _ => ?_
      cases hstop : s₁.stopRequested with
      | true => exact Finished.of_stop .stopped hs₁ hstanding hstop
      | false =>
          refine ⟨l, hs₁, ?_⟩
          simp only [Waiting, Exhausted, Lifecycle.delay, hl.phase]
          omega
  | succ rounds ih =>
      unfold runGenerations
      rw [Prog.wp_bind]
      refine Prog.wp_mono _ (fun next s₁ hs₁ => ?_) (fun _ _ he => he)
        (wp_runGeneration rounds hs hl hbudget)
      cases next with
      | again first lastDelay =>
          obtain ⟨l', hs₁, hl', hattempts⟩ := hs₁
          exact ih hs₁ hl' (by omega)
      | finished reason => exact hs₁

end Ngsm.Supervisor
