/-
# How long a wait may last

A wait that was not asked to end early goes on in rounds.  In each of them time passes,
a control is taken up, or the pause flag is there; so a wait with a deadline takes no more
rounds than the milliseconds that are left and the controls and pauses that prolong it.
The wait for a child ends with its exit.
-/

import Ngsm.Supervisor.Lasting

namespace Ngsm.Supervisor

open Ngsm.Core Ngsm.Lib Ngsm.Lib.Prog

variable {s : Sup} {clock served held : Nat}

/-! ## What does not go back -/

/-- So much time has passed, so many controls were taken up and so many rounds held up. -/
def Since (clock served held : Nat) (s : Sup) : Prop :=
  (clock, served, held) ≤ s.plant.progress

theorem yielding_since (clock served held : Nat) : Yielding (Since clock served held) where
  turn _ h := h
  plant _ _ hgrown h := le_trans h hgrown
  stop s h := by
    unfold Sup.setStop
    split
    · exact h
    · exact h
  send _ _ _ h := h
  request s pause h := by
    unfold Sup.request
    split
    · exact h
    · exact h
  cancel _ _ h := h
  exit _ _ _ h := h
  terminal _ _ h := h
  hook _ _ _ h := h

theorem governed_since (clock served held : Nat) : Governed (Since clock served held) where
  toSteady := (yielding_since clock served held).steady
  phase _ _ _ h := h
  kept _ _ _ h := h
  applied _ _ h := h
  trouble _ _ _ h := h

/-- A control that is taken up is counted, whatever it comes to. -/
theorem wp_handleControl_since (message : SupervisorMessage) (hs : Since clock served held s) :
    (handleControl message).wp (fun _ => Since clock (served + 1) held) (fun e _ => Failed e) s := by
  have hgoverned := governed_since clock (served + 1) held
  have htaken : Since clock (served + 1) held s.taken :=
    ⟨hs.1, Nat.succ_le_succ hs.2.1, hs.2.2⟩
  rw [wp_handleControl]
  exact Prog.wp_mono _ (fun _ _ h => h) (fun _ _ h => h.1) (keeps_noted hgoverned message _ htaken)

/-- A look at the queue sees a stop, takes up a control, or lets the time pass. -/
theorem wp_receiveControl_since (delay : Nat) (hs : Since clock served held s) :
    (receiveControl delay).wp
      (fun _ s' => s'.stopRequested = true ∨ Since clock (served + 1) held s' ∨
        Since (clock + delay) served held s')
      (fun e _ => Failed e) s := by
  have hsteady := (governed_since clock served held).toSteady
  unfold receiveControl
  rw [Prog.wp_bind]
  refine wp_stopping hsteady hs (Nat.zero_le _) fun s₁ hs₁ _ => ?_
  rw [Prog.wp_ite]
  split
  · rename_i hstop
    exact .inl hstop
  · unfold recvTimeout
    rw [Prog.wp_bind, Prog.wp_bind]
    refine wp_tryRecv hsteady hs₁ (Nat.zero_le _) (fun s₂ hs₂ _ _ => ?_)
      fun s₂ message rest hs₂ _ _ => ?_
    · have htime : Since (clock + delay) served held { s₂ with
          plant := { s₂.plant with clock := s₂.plant.clock + delay } } :=
        ⟨Nat.add_le_add_right hs₂.1 delay, hs₂.2⟩
      exact Or.inr (Or.inr htime)
    · change (handleControl message).wp _ _ { s₂ with queue := rest }
      have hqueue : Since clock served held { s₂ with queue := rest } := hs₂
      exact Prog.wp_mono _ (fun _ _ h => .inr (.inl h)) (fun _ _ h => h)
        (wp_handleControl_since message hqueue)

theorem wp_takeBatch_since (batch : Nat) (hs : Since clock served held s) :
    (takeBatch batch).wp (fun _ => Since clock served held) (fun e _ => Failed e) s := by
  have hsteady := (governed_since clock served held).toSteady
  induction batch generalizing s with
  | zero => exact hs
  | succ batch ih =>
      unfold takeBatch
      rw [Prog.wp_bind]
      refine wp_tryRecv hsteady hs (Nat.zero_le _) (fun s₁ hs₁ _ _ => hs₁)
        fun s₁ message rest hs₁ _ _ => ?_
      simp only
      rw [Prog.wp_bind]
      have hqueue : Since clock served held { s₁ with queue := rest } := hs₁
      refine Prog.wp_mono _ (fun _ s₂ hs₂ => ?_) (fun _ _ h => h)
        (wp_handleControl_since message hqueue)
      have hkept : Since clock served held s₂ := ⟨hs₂.1, Nat.le_of_succ_le hs₂.2.1, hs₂.2.2⟩
      rw [Prog.wp_bind]
      refine (keeps_stopping hsteady).returns hkept fun stop s₃ hs₃ => ?_
      rw [Prog.wp_ite]
      split
      · exact hs₃
      · exact ih hs₃

/-! ## Waits with a deadline -/

/-- A wait ends with the stop that it sees. -/
theorem wp_sleepUntil_stopped (deadline rounds : Nat) (hstop : s.stopRequested = true)
    {R : Halt → Sup → Prop} : (sleepUntil deadline rounds).wp (fun _ _ => True) R s := by
  cases rounds with
  | zero =>
      unfold sleepUntil
      rw [Prog.wp_bind]
      refine wp_stopping lasting_stop.toSteady hstop (Nat.zero_le _) fun s₁ hs₁ _ => ?_
      rw [hs₁]
      trivial
  | succ rounds =>
      unfold sleepUntil
      rw [Prog.wp_bind]
      refine wp_stopping lasting_stop.toSteady hstop (Nat.zero_le _) fun s₁ hs₁ _ => ?_
      rw [hs₁]
      trivial

/-- The rounds of a wait are used up: no more than the milliseconds before the deadline,
the controls that were taken up and the rounds that a pause has held up. -/
def Spent (rounds deadline clock served held : Nat) (e : Halt) (s : Sup) : Prop :=
  e = .unfinished →
    rounds + served + held ≤ (deadline - clock) + s.plant.served + s.plant.held

theorem Spent.of_failed {rounds deadline : Nat} {e : Halt} (h : Failed e) :
    Spent rounds deadline clock served held e s := by
  obtain ⟨error, rfl⟩ := h
  exact nofun

theorem wp_sleepUntil_spent (deadline rounds : Nat) (hs : Since clock served held s) :
    (sleepUntil deadline rounds).wp (fun _ _ => True) (Spent rounds deadline clock served held)
      s := by
  induction rounds generalizing s clock served held with
  | zero =>
      unfold sleepUntil
      rw [Prog.wp_bind]
      refine (keeps_stopping (governed_since clock served held).toSteady).returns hs
        fun stop s₁ hs₁ => ?_
      cases stop with
      | true => trivial
      | false =>
          intro _
          have hserved : served ≤ s₁.plant.served := hs₁.2.1
          have hheld : held ≤ s₁.plant.held := hs₁.2.2
          omega
  | succ rounds ih =>
      have hsteady := (governed_since clock served held).toSteady
      unfold sleepUntil
      rw [Prog.wp_bind]
      refine (keeps_stopping hsteady).returns hs fun stop s₁ hs₁ => ?_
      cases stop with
      | true => trivial
      | false =>
          simp only [Bool.false_eq_true, if_false]
          rw [Prog.wp_bind]
          refine Prog.wp_mono _ (fun go s₂ hs₂ => ?_) (fun _ _ he => .of_failed he)
            (wp_takeBatch_since 32 hs₁)
          cases go with
          | false => trivial
          | true =>
              simp only [Bool.not_true, Bool.false_eq_true, if_false]
              unfold paused
              rw [Prog.wp_bind, Prog.wp_bind, Prog.wp_get, Prog.wp_pure]
              cases hpaused : s₂.pause.paused with
              | true =>
                  -- the round is held up
                  simp only [if_true]
                  unfold noteHeld
                  rw [Prog.wp_bind, Prog.wp_modify, Prog.wp_bind]
                  have hheld : Since clock served (held + 1) { s₂ with
                      plant := { s₂.plant with
                        held := s₂.plant.held + s₂.pause.paused.toNat } } := by
                    rw [hpaused]
                    exact ⟨hs₂.1, hs₂.2.1, Nat.succ_le_succ hs₂.2.2⟩
                  refine Prog.wp_mono _ (fun _ s₃ hs₃ => ?_) (fun _ _ he => .of_failed he)
                    (wp_receiveControl_since controlPoll hheld)
                  rcases hs₃ with hstop | hserved | htime
                  · exact wp_sleepUntil_stopped deadline rounds hstop
                  · refine Prog.wp_mono _ (fun _ _ h => h) (fun e s' he heq => ?_) (ih hserved)
                    have hrounds := he heq
                    omega
                  · refine Prog.wp_mono _ (fun _ _ h => h) (fun e s' he heq => ?_) (ih htime)
                    have hrounds := he heq
                    omega
              | false =>
                  simp only [Bool.false_eq_true, if_false]
                  unfold now
                  rw [Prog.wp_bind, Prog.wp_bind]
                  refine (keeps_turn hsteady).returns hs₂ fun _ s₃ hs₃ => ?_
                  rw [Prog.wp_bind, Prog.wp_get, Prog.wp_pure, Prog.wp_ite]
                  split
                  · trivial
                  · -- time passes, or a control is taken up
                    rename_i hdeadline
                    have hfrom : Since s₃.plant.clock served held s₃ := ⟨Nat.le_refl _, hs₃.2⟩
                    have hclock : clock ≤ s₃.plant.clock := hs₃.1
                    rw [Prog.wp_bind, Prog.wp_bind]
                    refine (keeps_turn (governed_since _ served held).toSteady).returns hfrom
                      fun _ s₄ hs₄ => ?_
                    have hlater : s₃.plant.clock ≤ s₄.plant.clock := hs₄.1
                    have hnow : Since s₄.plant.clock served held s₄ := ⟨Nat.le_refl _, hs₄.2⟩
                    rw [Prog.wp_bind, Prog.wp_get, Prog.wp_pure, Prog.wp_bind]
                    refine Prog.wp_mono _ (fun _ s₅ hs₅ => ?_) (fun _ _ he => .of_failed he)
                      (wp_receiveControl_since _ hnow)
                    rcases hs₅ with hstop | hserved | htime
                    · exact wp_sleepUntil_stopped deadline rounds hstop
                    · refine Prog.wp_mono _ (fun _ _ h => h) (fun e s' he heq => ?_) (ih hserved)
                      have hrounds := he heq
                      omega
                    · refine Prog.wp_mono _ (fun _ _ h => h) (fun e s' he heq => ?_) (ih htime)
                      have hrounds := he heq
                      unfold controlPoll at hrounds
                      omega

/-- A wait of so many milliseconds. -/
theorem wp_sleepUntil_delay (delay rounds : Nat) :
    (sleepUntil (s.plant.clock + delay) rounds).wp (fun _ _ => True)
      (fun e s' => e = .unfinished → rounds ≤ delay + s'.plant.served + s'.plant.held) s := by
  have hnow : Since s.plant.clock 0 0 s := ⟨Nat.le_refl _, Nat.zero_le _, Nat.zero_le _⟩
  refine Prog.wp_mono _ (fun _ _ h => h) (fun e s' he heq => ?_)
    (wp_sleepUntil_spent (s.plant.clock + delay) rounds hnow)
  have hrounds := he heq
  omega

theorem wp_sleepOrStop_delay (delay rounds : Nat) :
    (sleepOrStop delay rounds).wp (fun _ _ => True)
      (fun e s' => e = .unfinished → rounds ≤ delay + s'.plant.served + s'.plant.held) s := by
  unfold sleepOrStop now
  rw [Prog.wp_bind, Prog.wp_bind]
  refine (keeps_turn (governed_since 0 0 0).toSteady).returns
    ⟨Nat.zero_le _, Nat.zero_le _, Nat.zero_le _⟩ fun _ s₁ _ => ?_
  rw [Prog.wp_bind, Prog.wp_get, Prog.wp_pure]
  exact wp_sleepUntil_delay delay rounds

/-! ## The wait for the child -/

/-- A wait that runs out of rounds has seen no exit. -/
theorem wp_awaitExit_pending (rounds : Nat) :
    (awaitExit rounds).wp (fun _ _ => True)
      (fun e s' => e = .unfinished → s'.generation.any (·.exit.isSome) = false) s := by
  have hnothing : ∀ s : Sup, Since 0 0 0 s := fun s =>
    ⟨Nat.zero_le _, Nat.zero_le _, Nat.zero_le _⟩
  have hsteady := (governed_since 0 0 0).toSteady
  induction rounds generalizing s with
  | zero =>
      unfold awaitExit
      rw [Prog.wp_bind]
      refine (keeps_stopping hsteady).returns (hnothing s) fun stop s₁ _ => ?_
      cases stop with
      | true => trivial
      | false =>
          simp only [Bool.false_eq_true, if_false]
          rw [Prog.wp_bind, Prog.wp_get, Prog.wp_ite]
          split
          · trivial
          · rename_i hexit
            exact fun _ => by simpa using hexit
  | succ rounds ih =>
      unfold awaitExit
      rw [Prog.wp_bind]
      refine (keeps_stopping hsteady).returns (hnothing s) fun stop s₁ hs₁ => ?_
      cases stop with
      | true => trivial
      | false =>
          simp only [Bool.false_eq_true, if_false]
          rw [Prog.wp_bind, Prog.wp_get, Prog.wp_ite]
          split
          · trivial
          · rw [Prog.wp_bind]
            refine Prog.wp_mono _ (fun _ _ _ => ih) (fun e _ he heq => ?_)
              (wp_receiveControl_since controlPoll hs₁)
            obtain ⟨error, rfl⟩ := he
            cases heq

end Ngsm.Supervisor
