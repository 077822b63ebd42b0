/-
# Assertions about a whole run

An assertion that no record, no generation and no control can break holds through
the run.  `Lasting` collects what that takes, and `Gate` adds the one place where a
generation is let through: `K` is known when a look at the stop flag has seen none,
`J` from the moment a wait has ended unpaused until the child is spawned.

The rule for the run also says why it may be unfinished: the rounds were used up,
each of them took a turn, and no stop request was there.
-/

import Ngsm.Supervisor.Controls

namespace Ngsm.Supervisor

open Ngsm.Core Ngsm.Lib Ngsm.Lib.Prog

/-- The events that the supervisor's own code writes, but for the attempt and the
spawn. -/
def Event.ordinary : Event → Bool
  | .started _ | .restarted _ _ | .startFailed _ | .childExited _ _ | .throttled _ | .stopped
  | .startup _ _ | .waited _ _ | .check | .hook _ => true
  | _ => false

structure Lasting (I : Sup → Prop) : Prop extends Tolerant I where
  own : ∀ (s : Sup) generation nextGeneration startupReported stopHookFired stoppedRecorded,
    I s → I { s with generation, nextGeneration, startupReported, stopHookFired, stoppedRecorded }
  record : ∀ (s : Sup) event, event.ordinary = true → I s → I (s.emit event)
  released : ∀ (s : Sup) state, s.stopRequested = true → I s → I { s with pause := state }

theorem lasting_stop : Lasting fun s => s.stopRequested = true where
  toSteady := Yielding.steady {
    turn _ h := h
    plant _ _ _ h := h
    stop s h := by
      unfold Sup.setStop
      rw [if_pos h]
      exact h
    send _ _ _ h := h
    request s pause h := by
      unfold Sup.request
      split
      · exact h
      · exact h
    cancel _ _ h := h
    exit _ _ _ h := h
    terminal _ _ h := h
    hook _ _ _ h := h }
  kept _ _ _ h := h
  applied _ _ h := h
  trouble _ _ _ h := h
  own _ _ _ _ _ _ h := h
  record _ _ _ h := h
  released _ _ _ h := h

/-! ## The shutdown of a child -/

section Shutdown

variable {I : Sup → Prop} {E : Halt → Prop}

/-- Once a stop is requested, the assertion allows any pause state. -/
def Releases (I : Sup → Prop) : Prop :=
  ∀ (s : Sup) state, s.stopRequested = true → I s → I { s with pause := state }

/-- A shutdown may resume the members, whatever the pause flag says. -/
theorem keeps_changeState (h : Steady I) (hreleased : Releases I) (pause : Bool) :
    Keeps (fun s => I s ∧ s.stopRequested = true) E (changeState none pause) := by
  intro s hs
  refine wp_changeState (h.and lasting_stop.toSteady) none pause hs (fun s' state hs' _ => ?_)
    fun outcome s' state _ hs' _ => ?_
  · exact ⟨hreleased s' state hs'.2 hs'.1, hs'.2⟩
  · exact ⟨hreleased s' state hs'.2 hs'.1, hs'.2⟩

theorem keeps_stopChildGracefully (h : Steady I) (hreleased : Releases I) :
    Keeps (fun s => I s ∧ s.stopRequested = true) Failed stopChildGracefully := by
  have hsteady := h.and lasting_stop.toSteady
  refine Keeps.bind (keeps_turn hsteady) fun _ => Keeps.bind Keeps.get fun s => ?_
  cases s.generation with
  | none => exact Keeps.pure _
  | some generation =>
      simp only
      cases generation.exit with
      | some exit => exact keeps_onPlant hsteady _ fun _ => le_rfl
      | none =>
          refine Keeps.bind (keeps_changeState h hreleased false) fun outcome => ?_
          cases outcome with
          | degraded error => exact keeps_report hsteady _ _
          | rejected message => exact keeps_report hsteady _ _
          | applied => exact keeps_stopByEscalation hsteady
          | cancelled => exact keeps_stopByEscalation hsteady

end Shutdown

namespace Lasting

variable {I J : Sup → Prop} {E : Halt → Prop} {s : Sup}

theorem and (h : Lasting I) (h' : Lasting J) : Lasting fun s => I s ∧ J s where
  toSteady := h.toSteady.and h'.toSteady
  kept s state hflag hs := ⟨h.kept s state hflag hs.1, h'.kept s state hflag hs.2⟩
  applied s state hs := ⟨h.applied s state hs.1, h'.applied s state hs.2⟩
  trouble s source error hs := ⟨h.trouble s source error hs.1, h'.trouble s source error hs.2⟩
  own s _ _ _ _ _ hs := ⟨h.own s _ _ _ _ _ hs.1, h'.own s _ _ _ _ _ hs.2⟩
  record s event hevent hs := ⟨h.record s event hevent hs.1, h'.record s event hevent hs.2⟩
  released s state hstop hs := ⟨h.released s state hstop hs.1, h'.released s state hstop hs.2⟩

theorem keep_generation (h : Lasting I) (generation : Option Generation) (hs : I s) :
    I { s with generation } :=
  h.own s generation s.nextGeneration s.startupReported s.stopHookFired s.stoppedRecorded hs

theorem keeps_emit (h : Lasting I) {event : Event} (hevent : event.ordinary = true) :
    Keeps I E (emit event) :=
  Keeps.modify fun s hs => h.record s event hevent hs

theorem keeps_anyHook (h : Lasting I) (hook : HookCall) : Keeps I E (fireHook hook) :=
  keeps_fireHook_of h.toSteady hook fun s hs => h.record s _ rfl hs

theorem keeps_confirmStartup (h : Lasting I) (status : StartupStatus) :
    Keeps I E (confirmStartup status) := by
  refine Keeps.bind Keeps.get fun _ => Keeps.bind (keeps_stopping h.toSteady) fun _ => ?_
  refine keeps_onlyIf _ (Keeps.modify fun s hs => ?_)
  exact h.record _ (.startup status _) rfl (h.own s _ _ true _ _ hs)

theorem keeps_recordStart (h : Lasting I) (first : Bool) (lastDelay : Nat) (pid : UInt32)
    (started : Nat) : Keeps I Failed (recordStart first lastDelay pid started) := by
  refine Keeps.bind (keeps_turn h.toSteady) fun watcher => ?_
  refine Keeps.bind (Keeps.modify fun s hs => ?_) fun _ => ?_
  · have hevent : (if first then Event.started pid else .restarted pid lastDelay).ordinary = true := by
      cases first <;> rfl
    exact h.record _ _ hevent (h.keep_generation (some _) hs)
  · cases watcher.fault with
    | some message => exact keeps_fail _
    | none => exact Keeps.modify fun s hs => h.own s _ _ _ _ _ hs

theorem keeps_joinWatcher (h : Lasting I) : Keeps I Failed joinWatcher := by
  refine Keeps.bind Keeps.get fun _ => keeps_onlyIf _ ?_
  refine Keeps.bind (Keeps.modify fun s hs => h.own s _ _ _ _ _ hs) fun _ => ?_
  refine Keeps.bind (keeps_turn h.toSteady) fun _ => ?_
  exact Keeps.bind (keeps_onlyIf _ (keeps_fail _)) fun _ => keeps_onlyIf _ (keeps_fail _)

theorem keeps_recordChildExit (h : Lasting I) : Keeps I E recordChildExit := by
  refine Keeps.bind (keeps_turn h.toSteady) fun _ => Keeps.bind Keeps.get fun s => ?_
  cases s.generation with
  | none => exact Keeps.pure _
  | some generation =>
      refine Keeps.ite (Keeps.pure _) ?_
      cases generation.exit with
      | none => exact Keeps.pure _
      | some exit =>
          refine Keeps.bind (Keeps.modify fun s hs => ?_) fun _ => ?_
          · exact h.record _ _ rfl (h.keep_generation (some _) hs)
          · refine Keeps.bind (keeps_onPlant h.toSteady _ fun _ => le_rfl) fun _ => ?_
            refine Keeps.bind (Keeps.forM fun _ _ => keeps_report h.toSteady _ _) fun _ => ?_
            exact h.keeps_anyHook _

theorem keeps_clearGeneration (h : Lasting I) : Keeps I E clearGeneration := by
  refine Keeps.bind (keeps_onPlant h.toSteady _ fun _ => le_rfl) fun _ => Keeps.modify fun s hs => ?_
  exact h.kept { s with generation := none } s.pause.clearGeneration rfl (h.keep_generation none hs)

theorem keeps_awaitChild (h : Lasting I) : Keeps I Failed awaitChild := by
  refine Keeps.bind (keeps_now h.toSteady) fun _ => ?_
  exact Keeps.bind (keeps_waitForExitUntil h.toSteady _) fun _ =>
    Keeps.ite (Keeps.pure _) (keeps_fail _)

theorem keeps_cleanupGeneration (h : Lasting I) : Keeps I Failed cleanupGeneration := by
  have hsteady := h.toSteady
  refine keeps_noting (fun s error hs => h.trouble s _ error hs) ?_
  refine Keeps.bind (keeps_terminateJob hsteady) fun _ => ?_
  refine Keeps.bind (keeps_finishFilesystemTasks hsteady) fun _ => Keeps.bind Keeps.get fun _ => ?_
  refine Keeps.bind (keeps_onlyIf _ h.keeps_awaitChild) fun _ => ?_
  refine Keeps.bind h.keeps_joinWatcher fun _ => Keeps.bind Keeps.get fun _ => ?_
  refine Keeps.bind (keeps_finishReaders hsteady _ _) fun failure => ?_
  refine Keeps.bind (keeps_stopping hsteady) fun _ => Keeps.bind Keeps.get fun _ => ?_
  refine Keeps.bind (keeps_onlyIf _ (Keeps.bind Keeps.get fun _ =>
    keeps_rotateSinks hsteady _ _ _)) fun _ => ?_
  refine Keeps.bind h.keeps_recordChildExit fun _ => ?_
  cases failure with
  | some error => exact Keeps.bind (keeps_report hsteady _ _) fun _ => keeps_fail _
  | none => exact h.keeps_clearGeneration

theorem keeps_fireStopHook (h : Lasting I) : Keeps I E fireStopHook := by
  refine Keeps.bind Keeps.get fun _ => keeps_onlyIf _ ?_
  refine Keeps.bind (Keeps.modify fun s hs => h.own s _ _ _ true _ hs) fun _ => ?_
  exact Keeps.bind (keeps_currentPid h.toSteady) fun _ => h.keeps_anyHook _

theorem keeps_recordStopped (h : Lasting I) : Keeps I E recordStopped := by
  refine Keeps.bind Keeps.get fun _ => keeps_onlyIf _ (Keeps.modify fun s hs => ?_)
  exact h.record _ .stopped rfl (h.own s _ _ _ _ true hs)

theorem keeps_finishStop (h : Lasting I) :
    Keeps (fun s => I s ∧ s.stopRequested = true) Failed finishStop := by
  have hboth := h.and lasting_stop
  refine Keeps.bind (keeps_now hboth.toSteady) fun _ => ?_
  refine Keeps.bind (keeps_onPlant hboth.toSteady _ fun _ => le_rfl) fun _ => ?_
  refine Keeps.bind hboth.keeps_fireStopHook fun _ => ?_
  refine Keeps.bind (keeps_settle (keeps_noting (fun s error hs => hboth.trouble s _ error hs)
    (keeps_stopChildGracefully h.toSteady h.released)))
    fun graceful => ?_
  refine Keeps.bind (keeps_settle hboth.keeps_cleanupGeneration) fun cleanup => ?_
  refine Keeps.bind hboth.keeps_recordStopped fun _ => ?_
  cases graceful with
  | error error => exact keeps_fail _
  | ok _ =>
      cases cleanup with
      | error error => exact keeps_fail _
      | ok _ => exact Keeps.pure _

end Lasting

/-! ## The way to a spawn -/

structure Gate (I K J : Sup → Prop) : Prop where
  lasting : Lasting I
  serves : Serves I I
  steadyK : Steady K
  clear : ∀ s, I s → s.stopRequested = false → K s
  weakenK : ∀ s, K s → I s
  steadyJ : Steady J
  enter : ∀ s, K s → s.pause.paused = false → J s
  attempt : ∀ (s : Sup) nextGeneration, J s →
    J (({ s with nextGeneration } : Sup).emit .attempt)
  spawn : ∀ s : Sup, J s → J (s.emit (.spawned s.pause.paused))
  weakenJ : ∀ s, J s → I s

/-- An assertion that an attempt and a spawn cannot break needs no gate. -/
theorem Lasting.gate {I : Sup → Prop} (h : Lasting I) (hserve : Serves I I)
    (hattempt : ∀ s : Sup, I s → I (s.emit .attempt))
    (hspawn : ∀ (s : Sup) paused, I s → I (s.emit (.spawned paused))) : Gate I I I where
  lasting := h
  serves := hserve
  steadyK := h.toSteady
  clear _ hs _ := hs
  weakenK _ hs := hs
  steadyJ := h.toSteady
  enter _ hs _ := hs
  attempt s number hs :=
    hattempt _ (h.own s s.generation number s.startupReported s.stopHookFired s.stoppedRecorded hs)
  spawn s hs := hspawn s _ hs
  weakenJ _ hs := hs

namespace Gate

variable {I K J : Sup → Prop} {s : Sup} {n limit : Nat}

theorem keeps_beginGeneration (h : Lasting I) (first : Bool) (lastDelay : Nat) (pid : UInt32)
    (started : Nat) : Keeps I Failed (beginGeneration first lastDelay pid started) := by
  have hsteady := h.toSteady
  refine Keeps.bind (h.keeps_recordStart first lastDelay pid started) fun _ => ?_
  refine Keeps.bind (keeps_stopping hsteady) fun _ => Keeps.ite (Keeps.pure _) ?_
  refine Keeps.bind (keeps_fireHook hsteady _ rfl) fun _ => ?_
  refine Keeps.bind (keeps_stopping hsteady) fun _ => Keeps.ite (Keeps.pure _) ?_
  refine Keeps.bind (keeps_alive hsteady) fun _ => ?_
  exact Keeps.bind (keeps_onlyIf _ (h.keeps_confirmStartup _)) fun _ => Keeps.pure _

/-- Up to the spawn the way is open; from then on only the assertion counts. -/
theorem wp_startGeneration (h : Gate I K J) (first : Bool) (lastDelay : Nat) (hs : J s) :
    (startGeneration first lastDelay).wp (fun _ => I) (fun e s' => Failed e ∧ I s') s := by
  unfold startGeneration
  rw [Prog.wp_bind]
  refine (keeps_prepareGeneration h.steadyJ).wp hs (fun go s₁ hs₁ => ?_)
    fun _ s' he hs' => ⟨he, h.weakenJ s' hs'⟩
  cases go with
  | false => exact h.weakenJ s₁ hs₁
  | true =>
      simp only [if_true]
      rw [Prog.wp_bind]
      refine (keeps_launchChild h.steadyJ h.spawn).wp hs₁ (fun child s₂ hs₂ => ?_)
        fun _ s' he hs' => ⟨he, h.weakenJ s' hs'⟩
      cases child with
      | none => exact h.weakenJ s₂ hs₂
      | some child =>
          exact keeps_beginGeneration h.lasting first lastDelay _ _ s₂ (h.weakenJ s₂ hs₂)

theorem wp_attemptStart (h : Gate I K J) (first : Bool) (lastDelay : Nat) (hs : J s)
    {R : Halt → Sup → Prop} :
    (attemptStart first lastDelay).wp (fun _ => I) R s := by
  unfold attemptStart
  rw [Prog.wp_bind, Prog.wp_modify]
  exact wp_settle (h.wp_startGeneration first lastDelay (h.attempt s (s.nextGeneration + 1) hs))
    fun _ _ hs' => hs'

/-! ## Rounds and runs -/

theorem wp_backOff (h : Gate I K J) (delay rounds : Nat) (next : Next)
    (hlimit : limit ≤ n + rounds) (hs : I s) (hn : Turned n s) :
    (backOff delay rounds next).wp (fun _ s' => I s' ∧ Turned n s') (Broken I I limit) s := by
  unfold backOff now
  rw [Prog.wp_bind, Prog.wp_bind]
  refine wp_turn h.lasting.toSteady hs hn fun _ s₁ hs₁ hn₁ => ?_
  rw [Prog.wp_bind, Prog.wp_get, Prog.wp_pure, Prog.wp_bind]
  refine Prog.wp_mono _ (fun go s₂ hs₂ => ?_) (fun _ _ he => he)
    (wp_sleepUntil h.lasting.toSteady h.serves h.steadyK h.clear h.weakenK _ rounds
      hlimit hs₁ (Nat.le_of_succ_le hn₁))
  cases go with
  | false => exact ⟨hs₂.1.1, hs₂.2⟩
  | true => exact ⟨h.lasting.record s₂ _ rfl (h.weakenK s₂ hs₂.1.1), hs₂.2⟩

theorem lasting_turned (n : Nat) : Lasting (Turned n) where
  toTolerant := (governed_turned n).toTolerant
  own _ _ _ _ _ _ h := h
  record _ _ _ h := h
  released _ _ _ h := h

theorem wp_afterFailure (h : Gate I K J) (error : SupervisorError) (first : Bool)
    (lastDelay rounds : Nat) (hlimit : limit ≤ n + rounds) (hs : I s) (hn : Turned n s) :
    (afterFailure error first lastDelay rounds).wp (fun _ s' => I s' ∧ Turned n s')
      (Broken I I limit) s := by
  have hboth := h.lasting.and (lasting_turned n)
  unfold afterFailure
  rw [Prog.wp_bind]
  refine (hboth.keeps_emit rfl).wp ⟨hs, hn⟩ (fun _ s₁ hs₁ => ?_) fun _ _ he hs' => .of_failed he hs'.1
  rw [Prog.wp_bind]
  refine (keeps_reportThat hboth.toSteady _ _).wp hs₁ (fun _ s₂ hs₂ => ?_)
    fun _ _ he hs' => .of_failed he hs'.1
  rw [Prog.wp_bind]
  refine hboth.keeps_cleanupGeneration.wp hs₂ (fun _ s₃ hs₃ => ?_)
    fun _ _ he hs' => .of_failed he hs'.1
  rw [Prog.wp_bind]
  refine (keeps_stopping hboth.toSteady).wp hs₃ (fun stop s₄ hs₄ => ?_)
    fun _ _ he hs' => .of_failed he hs'.1
  cases stop with
  | true => exact hs₄
  | false =>
      simp only [Bool.false_eq_true, if_false]
      rw [Prog.wp_bind, Prog.wp_get]
      cases defaultAction s₄.config with
      | suicide => exact hs₄
      | exit => exact .of_failed (failed_failed error) hs₄.1
      | restart => exact h.wp_backOff _ _ _ hlimit hs₄.1 hs₄.2
      | ignore => exact h.wp_backOff _ _ _ hlimit hs₄.1 hs₄.2

theorem wp_afterExit (h : Gate I K J) (code : Int32) (lived rounds : Nat)
    (hlimit : limit ≤ n + rounds) (hs : I s) (hn : Turned n s) :
    (afterExit code lived rounds).wp (fun _ s' => I s' ∧ Turned n s') (Broken I I limit) s := by
  have hboth := h.lasting.and (lasting_turned n)
  unfold afterExit
  rw [Prog.wp_bind]
  refine hboth.keeps_cleanupGeneration.wp ⟨hs, hn⟩ (fun _ s₁ hs₁ => ?_)
    fun _ _ he hs' => .of_failed he hs'.1
  rw [Prog.wp_bind]
  refine (keeps_stopping hboth.toSteady).wp hs₁ (fun stop s₂ hs₂ => ?_)
    fun _ _ he hs' => .of_failed he hs'.1
  cases stop with
  | true => exact hs₂
  | false =>
      simp only [Bool.false_eq_true, if_false]
      rw [Prog.wp_bind, Prog.wp_get]
      cases exitAction s₂.config code with
      | restart =>
          simp only
          rw [Prog.wp_bind]
          refine (keeps_onlyIf _ (hboth.keeps_emit rfl)).wp hs₂ (fun _ s₃ hs₃ => ?_)
            fun _ _ he hs' => .of_failed he hs'.1
          exact h.wp_backOff _ _ _ hlimit hs₃.1 hs₃.2
      | ignore =>
          simp only
          rw [Prog.wp_bind]
          refine (hboth.keeps_confirmStartup _).wp hs₂ (fun _ s₃ hs₃ => ?_)
            fun _ _ he hs' => .of_failed he hs'.1
          rw [Prog.wp_bind]
          refine Prog.wp_mono _ (fun _ s₄ hs₄ => hs₄.1) (fun _ _ he => he.mono And.left And.left)
            (wp_waitForStopQuiesced hboth.toSteady (h.serves.and (serves_turned n)) rounds hlimit
              hs₃ hs₃.2)
      | exit => exact hs₂
      | suicide => exact hs₂

theorem wp_runGeneration (h : Gate I K J) (first : Bool) (lastDelay rounds : Nat)
    (hlimit : limit ≤ n + 1 + rounds) (hs : I s) (hn : Turned n s) :
    (runGeneration first lastDelay rounds).wp (fun _ s' => I s' ∧ Turned (n + 1) s')
      (Broken I I limit) s := by
  have hturned : Gate (Turned (n + 1)) (Turned (n + 1)) (Turned (n + 1)) :=
    (lasting_turned (n + 1)).gate (serves_turned (n + 1)) (fun _ h => h) fun _ _ h => h
  unfold runGeneration
  rw [Prog.wp_bind]
  refine Prog.wp_mono _ (fun go s₁ hs₁ => ?_) (fun _ _ he => he)
    (wp_sleepOrStop h.lasting.toSteady h.serves h.steadyK h.clear h.weakenK 0 rounds hlimit hs hn)
  obtain ⟨⟨deadline, hawake⟩, hn₁⟩ := hs₁
  cases go with
  | false => exact ⟨hawake.1, hn₁⟩
  | true =>
      simp only [Bool.not_true, Bool.false_eq_true, if_false]
      rw [Prog.wp_bind]
      refine Prog.wp_mono _ (fun started s₂ hs₂ => ?_) (fun _ _ he => he.1)
        (Prog.wp_and _
          (h.wp_attemptStart first lastDelay (h.enter s₁ hawake.1 hawake.2.1))
          (hturned.wp_attemptStart (R := fun _ _ => True) first lastDelay hn₁))
      cases started with
      | error error => exact h.wp_afterFailure error first lastDelay rounds hlimit hs₂.1 hs₂.2
      | ok up =>
          cases up with
          | false => exact hs₂
          | true =>
              simp only
              rw [Prog.wp_bind]
              refine Prog.wp_mono _ (fun go s₃ hs₃ => ?_) (fun _ _ he => he)
                (wp_awaitExit h.lasting.toSteady h.serves rounds hlimit hs₂.1 hs₂.2)
              cases go with
              | false => exact ⟨hs₃.1, hs₃.2.1⟩
              | true =>
                  simp only [Bool.not_true, Bool.false_eq_true, if_false]
                  rw [Prog.wp_bind]
                  unfold observedExit
                  rw [Prog.wp_bind, Prog.wp_get]
                  have hexit := hs₃.2.2.1 rfl
                  cases hgeneration : s₃.generation with
                  | none =>
                      rw [hgeneration] at hexit
                      cases hexit
                  | some generation =>
                      simp only
                      rw [hgeneration] at hexit
                      cases hseen : generation.exit with
                      | none =>
                          rw [Option.any_some, hseen] at hexit
                          cases hexit
                      | some exit => exact h.wp_afterExit _ _ rounds hlimit hs₃.1 hs₃.2.1

theorem wp_runGenerations (h : Gate I K J) (rounds : Nat) (first : Bool) (lastDelay : Nat)
    (hlimit : limit ≤ n + rounds) (hs : I s) (hn : Turned n s) :
    (runGenerations rounds first lastDelay).wp (fun _ => I) (Broken I I limit) s := by
  induction rounds generalizing s n first lastDelay with
  | zero =>
      unfold runGenerations
      rw [Prog.wp_bind]
      refine wp_stopping h.lasting.toSteady hs hn fun s₁ hs₁ hn₁ => ?_
      cases hstop : s₁.stopRequested with
      | true => exact hs₁
      | false => exact .inr ⟨rfl, hs₁, hstop, Nat.le_trans hlimit (Nat.le_of_succ_le hn₁)⟩
  | succ rounds ih =>
      unfold runGenerations
      rw [Prog.wp_bind]
      refine Prog.wp_mono _ (fun next s₁ hs₁ => ?_) (fun _ _ he => he)
        (h.wp_runGeneration first lastDelay rounds (by omega) hs hn)
      cases next with
      | again first lastDelay => exact ih first lastDelay (by omega) hs₁.1 hs₁.2
      | finished reason => exact hs₁.1

/-! ## The end of the run -/

variable {E : Halt → Prop}

theorem keeps_finishStop_of_stop (h : Lasting I) {Q : Outcome → Sup → Prop}
    {R : Halt → Sup → Prop} (hs : I s) (hstop : s.stopRequested = true)
    (hok : ∀ result s', I s' → Q result s') : (settle finishStop).wp Q R s :=
  (keeps_settle (E := fun _ => False) h.keeps_finishStop).wp ⟨hs, hstop⟩
    (fun result s' hs' => hok result s' hs'.1) fun _ _ he _ => he.elim

theorem keeps_conclude (h : Lasting I) (result : Outcome) : Keeps I E (conclude result) := by
  intro s hs
  unfold conclude checkStop
  rw [Prog.wp_bind, Prog.wp_bind]
  refine wp_stopping h.toSteady hs (n := 0) (Nat.zero_le _) fun s₁ hs₁ _ => ?_
  rw [Prog.wp_bind]
  have hs₁' : I (s₁.emit .check) := h.record s₁ .check rfl hs₁
  cases hstop : s₁.stopRequested with
  | true => exact keeps_finishStop_of_stop h hs₁' hstop fun _ _ hs' => hs'
  | false =>
      change (settle cleanupGeneration >>= _).wp _ _ (s₁.emit .check)
      rw [Prog.wp_bind]
      refine (keeps_settle h.keeps_cleanupGeneration).wp hs₁' (fun cleanup s₂ hs₂ => ?_)
        fun _ _ he hs' => ⟨he, hs'⟩
      cases cleanup <;> exact hs₂

theorem keeps_recheck (h : Lasting I) (result : Outcome) : Keeps I E (recheck result) := by
  intro s hs
  unfold recheck checkStop
  rw [Prog.wp_bind, Prog.wp_bind]
  refine wp_stopping h.toSteady hs (n := 0) (Nat.zero_le _) fun s₁ hs₁ _ => ?_
  rw [Prog.wp_bind]
  have hs₁' : I (s₁.emit .check) := h.record s₁ .check rfl hs₁
  change ((get : SupM Sup) >>= _).wp _ _ (s₁.emit .check)
  rw [Prog.wp_bind, Prog.wp_get, Prog.wp_ite]
  split
  · rename_i hcheck
    simp only [Bool.and_eq_true] at hcheck
    exact keeps_finishStop_of_stop h hs₁' hcheck.1 fun _ _ hs' => hs'
  · exact hs₁'

theorem keeps_handOff (h : Lasting I) (result : Outcome) : Keeps I E (handOff result) := by
  have hsteady := h.toSteady
  refine Keeps.bind Keeps.get fun _ => Keeps.ite ?_ (Keeps.pure _)
  refine Keeps.bind (Keeps.modify fun s hs => hsteady.ready s hs) fun _ => ?_
  refine Keeps.bind (keeps_now hsteady) fun _ => Keeps.bind Keeps.get fun _ => ?_
  refine Keeps.bind (keeps_awaitRelease hsteady _ _) fun _ => ?_
  refine Keeps.bind (keeps_turn hsteady) fun _ => Keeps.bind Keeps.get fun _ => ?_
  exact Keeps.bind (keeps_onlyIf _ (keeps_report hsteady _ _)) fun _ => keeps_recheck h result

/-- The rule for a run up to its final drain: it is left in the middle only when the
rounds are used up. -/
theorem wp_supervise (h : Gate I K J) (rounds : Nat) (hs : I s) :
    (supervise rounds).wp (fun _ => I)
      (fun e s' => e = .unfinished ∧ I s' ∧ s'.stopRequested = false ∧ s.turns + rounds ≤ s'.turns)
      s := by
  unfold supervise settle
  rw [Prog.wp_bind, Prog.wp_bind, Prog.wp_attempt]
  have hrest : ∀ (result : Outcome), Keeps I (fun _ => False) (do
      let result ← conclude result
      let result ← recheck result
      handOff result : SupM Outcome) :=
    fun result => Keeps.bind (keeps_conclude h.lasting result) fun result =>
      Keeps.bind (keeps_recheck h.lasting result) fun result => keeps_handOff h.lasting result
  refine Prog.wp_mono _ (fun reason s₁ hs₁ => ?_) (fun e s₁ he => ?_)
    (h.wp_runGenerations rounds true 0 (Nat.le_refl _) hs (Nat.le_refl s.turns))
  · exact (hrest (.ok reason)).returns hs₁ fun _ _ hs₂ => hs₂
  · rcases he with ⟨⟨error, rfl⟩, hs₁⟩ | hunfinished
    · exact (hrest (.error error)).returns hs₁ fun _ _ hs₂ => hs₂
    · obtain ⟨rfl, hrest⟩ := hunfinished
      exact ⟨rfl, hrest⟩

end Gate

/-! ## The whole run -/

/-- An assertion that does not care about the queue, so that the final drain and the
end of the receiver keep it. -/
structure Settling (I : Sup → Prop) : Prop extends Governed I where
  queue : ∀ (s : Sup) queue, I s → I { s with queue }
  draining : ∀ (s : Sup) draining, I s → I { s with draining }
  drained : ∀ (s : Sup) queue, I s → I (s.emit (.draining queue))
  receiving : ∀ (s : Sup) receiving, I s → I { s with receiving }

namespace Settling

variable {I J : Sup → Prop} {s : Sup} {E : Halt → Prop}

theorem and (h : Settling I) (h' : Settling J) : Settling fun s => I s ∧ J s where
  toSteady := h.toSteady.and h'.toSteady
  phase s request phase hs := ⟨h.phase s request phase hs.1, h'.phase s request phase hs.2⟩
  kept s state hflag hs := ⟨h.kept s state hflag hs.1, h'.kept s state hflag hs.2⟩
  applied s state hs := ⟨h.applied s state hs.1, h'.applied s state hs.2⟩
  trouble s source error hs := ⟨h.trouble s source error hs.1, h'.trouble s source error hs.2⟩
  queue s queue hs := ⟨h.queue s queue hs.1, h'.queue s queue hs.2⟩
  draining s draining hs := ⟨h.draining s draining hs.1, h'.draining s draining hs.2⟩
  drained s queue hs := ⟨h.drained s queue hs.1, h'.drained s queue hs.2⟩
  receiving s receiving hs := ⟨h.receiving s receiving hs.1, h'.receiving s receiving hs.2⟩

theorem serves (h : Settling I) : Serves I I :=
  h.toGoverned.serves fun s _ rest _ hs => h.queue s rest hs

theorem keeps_drain (h : Settling I) (receives : Nat) : Keeps I E (drain receives) := by
  induction receives with
  | zero => exact Keeps.pure _
  | succ receives ih =>
      intro s hs
      unfold drain
      rw [Prog.wp_bind]
      refine wp_tryRecv h.toSteady (n := 0) hs (Nat.zero_le _) (fun s₁ hs₁ _ _ => ?_)
        fun s₁ message rest hs₁ _ _ => ?_
      · exact h.draining s₁ _ hs₁
      · have hreject : ∀ request, Keeps I E (reject request "supervisor has stopped") :=
          fun request => Keeps.bind (keeps_execute h.toGoverned request (Keeps.pure _))
            fun _ => Keeps.pure _
        have hrest : Keeps I E (do
            modify fun s => { s with draining := some receives }
            message.request.toList.forM (reject · "supervisor has stopped")
            drain receives) :=
          Keeps.bind (Keeps.modify fun s hs => h.draining s _ hs) fun _ =>
            Keeps.bind (Keeps.forM fun request _ => hreject request) fun _ => ih
        exact hrest _ (h.queue s₁ rest hs₁)

theorem keeps_finalDrain (h : Settling I) : Keeps I E finalDrain := by
  refine Keeps.bind (Keeps.modify fun s hs => ?_) fun _ => h.keeps_drain _
  exact h.drained _ s.queue (h.draining s (some drainLimit) hs)

theorem keeps_dropReceiver (h : Settling I) : Keeps I E dropReceiver :=
  Keeps.bind (keeps_turn h.toSteady) fun _ =>
    Keeps.modify fun s hs => h.receiving _ false (h.queue s [] hs)

/-- What is left of a run once its result is certain. -/
theorem wp_leave (h : Settling I) (result : Outcome) (hs : I s) :
    (do
      finalDrain
      match result with
      | .error error =>
          reportThat "terminal failure" (.error error)
          dropReceiver
          fail error
      | .ok reason =>
          dropReceiver
          return reason : SupM ExitReason).wp
      (fun reason s' => result = .ok reason ∧ I s')
      (fun e s' => ∃ error, e = .failed error ∧ result = .error error ∧ I s') s := by
  rw [Prog.wp_bind]
  refine h.keeps_finalDrain.returns hs fun _ s₁ hs₁ => ?_
  cases result with
  | error error =>
      simp only
      rw [Prog.wp_bind]
      refine (keeps_reportThat h.toSteady _ _).returns hs₁ fun _ s₂ hs₂ => ?_
      rw [Prog.wp_bind]
      exact h.keeps_dropReceiver.returns hs₂ fun _ s₃ hs₃ => ⟨error, rfl, rfl, hs₃⟩
  | ok reason =>
      simp only
      rw [Prog.wp_bind]
      exact h.keeps_dropReceiver.returns hs₁ fun _ s₂ hs₂ => ⟨rfl, hs₂⟩

end Settling

/-- An assertion that nothing in a run can break. -/
structure Throughout (I : Sup → Prop) : Prop extends Lasting I, Settling I

namespace Throughout

variable {I K J : Sup → Prop} {s : Sup}

/-- The rule for a run. -/
theorem wp_run (h : Throughout I) (hgate : Gate I K J) (rounds : Nat) (hs : I s) :
    (run rounds).wp (fun _ => I) (Broken I I (s.turns + rounds)) s := by
  unfold run
  rw [Prog.wp_bind]
  refine Prog.wp_mono _ (fun result s₁ hs₁ => ?_) (fun _ _ he => .inr he)
    (hgate.wp_supervise rounds hs)
  refine Prog.wp_mono _ (fun _ _ hs' => hs'.2) (fun e s' he => ?_) (h.toSettling.wp_leave result hs₁)
  obtain ⟨error, rfl, -, hs'⟩ := he
  exact .of_failed (failed_failed error) hs'

end Throughout

end Ngsm.Supervisor
