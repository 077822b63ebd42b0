/-
# Log rotation on request

A rotation that fails is reported, and the service goes on.  Two errors may end it: the
worker cannot be created, or it ignores its cancellation.  Before that the sink is
asked whether there is anything to rotate, and this question takes the sink's lock.
Its failure is not reported but handed on, so a write that holds the lock for two
seconds ends the service.  The condition `LocksObtained` says when that does not happen.
-/

import Ngsm.Supervisor.Controls

namespace Ngsm.Supervisor

open Ngsm.Core Ngsm.Lib Ngsm.Lib.Prog

variable {s s' s'' : Sup} {force : Bool} {error : SupervisorError}

/-! ## Turns of the handling -/

/-- Later in the same run. -/
def Later (s s' : Sup) : Prop :=
  s'.script = s.script ∧ s.turns ≤ s'.turns

theorem Later.refl (s : Sup) : Later s s :=
  ⟨rfl, Nat.le_refl _⟩

theorem Later.trans (h : Later s s') (h' : Later s' s'') : Later s s'' :=
  ⟨h'.1.trans h.1, Nat.le_trans h.2 h'.2⟩

theorem yielding_later (s : Sup) : Yielding (Later s) where
  turn _ h := ⟨h.1, Nat.le_succ_of_le h.2⟩
  plant _ _ _ h := h
  stop s h := by
    unfold Sup.setStop
    split
    · exact h
    · exact h
  send _ _ _ h := h
  request s pause h := by
    unfold Sup.request
    split
    · exact h
    · exact h
  cancel _ _ h := h
  exit _ _ _ h := h
  terminal _ _ h := h
  hook _ _ _ h := h

theorem steady_later (s : Sup) : Steady (Later s) :=
  (yielding_later s).steady

/-- One turn, and what was answered in it. -/
theorem wp_turn_later (h : Later s s') {Q : Turn → Sup → Prop} {R : Halt → Sup → Prop}
    (hok : ∀ turn s'', s.turns ≤ turn → s''.turns = turn + 1 → Later s s'' →
      Q (s.script turn) s'') : Ngsm.Supervisor.turn.wp Q R s' := by
  have hnext : Later { s' with turns := s'.turns + 1 } s'.next.2 :=
    (yielding_later _).moves _ (Later.refl _)
  have hanswer : s'.next.1 = s.script s'.turns := by
    change s'.script s'.turns = _
    rw [h.1]
  change Q s'.next.1 s'.next.2
  rw [hanswer]
  refine hok s'.turns s'.next.2 h.2 s'.next_turns ⟨hnext.1.trans h.1, ?_⟩
  exact Nat.le_trans h.2 (Nat.le_of_succ_le hnext.2)

/-! ## The errors -/

/-- The error of a worker that ignores its cancellation. -/
def uncancelled : SupervisorError :=
  .degraded "filesystem I/O did not cancel; host exit is required before log reuse"

/-- An error of the worker: the last answer that was met told that it cannot be created,
and the error is that answer, or that it ignored its cancellation. -/
def WorkerError (s s' : Sup) (error : SupervisorError) : Prop :=
  ∃ turn, s.turns ≤ turn ∧ s'.turns = turn + 1 ∧
    ((∃ message, (s.script turn).worker = some message ∧ error = .io message) ∨
      ((s.script turn).finished = false ∧ error = uncancelled))

/-- The texts of a lock that is not obtained. -/
def lockTexts : List String :=
  ["log sink is busy", "log sink state poisoned"]

def LockError (error : SupervisorError) : Prop :=
  ∃ message ∈ lockTexts, error = .io message

theorem WorkerError.of_later (h : WorkerError s' s'' error) (hlater : Later s s') :
    WorkerError s s'' error := by
  obtain ⟨turn, hfrom, hto, hanswer⟩ := h
  rw [hlater.1] at hanswer
  exact ⟨turn, Nat.le_trans hlater.2 hfrom, hto, hanswer⟩

/-- A worker's error has not the text of the lock's, when the system's have not. -/
theorem WorkerError.not_lockError (h : WorkerError s s' error)
    (hsystem : ∀ turn, ∀ message ∈ lockTexts, (s.script turn).worker ≠ some message) :
    ¬LockError error := by
  rintro ⟨text, htext, rfl⟩
  obtain ⟨turn, -, -, ⟨message, hworker, herror⟩ | ⟨-, herror⟩⟩ := h
  · cases herror
    exact hsystem turn text htext hworker
  · cases herror

/-! ## One sink -/

/-- The sink is asked, and its lock is not obtained. -/
def SinkRefused (s : Sup) : Prop :=
  s.next.2.stopRequested = false ∧ s.next.2.next.1.lock ≠ .acquired

theorem wp_sinkDue (force : Bool) {Q : Bool → Sup → Prop} {R : Halt → Sup → Prop}
    (hacquired : s.next.1.lock = .acquired → Q s.next.1.flag s.next.2)
    (hrefused : s.next.1.lock ≠ .acquired → ∀ error, LockError error →
      R (.failed error) s.next.2) :
    (sinkDue force false).wp Q R s := by
  unfold sinkDue
  rw [Prog.wp_bind, wp_turn_iff]
  cases hlock : s.next.1.lock with
  | acquired =>
      rw [Bool.and_false]
      exact hacquired hlock
  | busy =>
      refine hrefused (by rw [hlock]; decide) _ ⟨_, ?_, rfl⟩
      exact List.mem_cons_self
  | poisoned =>
      refine hrefused (by rw [hlock]; decide) _ ⟨_, ?_, rfl⟩
      exact List.mem_cons_of_mem _ List.mem_cons_self

theorem wp_rotateSink_refused (h : SinkRefused s) :
    (rotateSink force false).wp (fun _ _ => False)
      (fun e _ => ∃ error, e = .failed error ∧ LockError error) s := by
  unfold rotateSink
  rw [Prog.wp_bind, wp_stopping_eq, h.1]
  simp only [Bool.false_eq_true, if_false]
  rw [Prog.wp_bind]
  exact wp_sinkDue force (fun hlock => absurd hlock h.2)
    fun _ error herror => ⟨error, rfl, herror⟩

theorem wp_spawnTask (h : Later s s') {R : Halt → Sup → Prop}
    (hfail : ∀ error s'', WorkerError s s'' error → R (.failed error) s'') :
    spawnTask.wp (fun _ s'' => Later s s'') R s' := by
  unfold spawnTask
  rw [Prog.wp_bind]
  refine wp_turn_later h fun turn s'' hfrom hto hlater => ?_
  cases hworker : (s.script turn).worker with
  | none => exact hlater
  | some message => exact hfail _ s'' ⟨turn, hfrom, hto, .inl ⟨message, hworker, rfl⟩⟩

theorem wp_waitTask (h : Later s s') {R : Halt → Sup → Prop}
    (hfail : ∀ error s'', WorkerError s s'' error → R (.failed error) s'') :
    waitTask.wp (fun _ s'' => Later s s'') R s' := by
  unfold waitTask
  rw [Prog.wp_bind]
  refine wp_turn_later h fun turn s'' hfrom hto hlater => ?_
  rw [Prog.wp_ite]
  split
  · exact hlater
  · rename_i hfinished
    exact hfail _ s'' ⟨turn, hfrom, hto, .inr ⟨by simpa using hfinished, rfl⟩⟩

theorem wp_rotateSink_granted (h : ¬SinkRefused s) :
    (rotateSink force false).wp (fun _ s' => Later s s')
      (fun e s' => ∃ error, e = .failed error ∧ WorkerError s s' error) s := by
  have hsteady := steady_later s
  have hnext : Later s s.next.2 := hsteady.next (.refl s)
  have hworker : ∀ error s'', WorkerError s s'' error →
      ∃ error', Halt.failed error = .failed error' ∧ WorkerError s s'' error' :=
    fun error _ h => ⟨error, rfl, h⟩
  unfold rotateSink
  rw [Prog.wp_bind, wp_stopping_eq]
  cases hstop : s.next.2.stopRequested with
  | true => exact hnext
  | false =>
      simp only [Bool.false_eq_true, if_false]
      rw [Prog.wp_bind]
      refine wp_sinkDue force (fun _ => ?_) fun hlock => absurd ⟨hstop, hlock⟩ h
      rw [Prog.wp_ite]
      split
      · exact hsteady.next hnext
      rw [Prog.wp_bind]
      refine (keeps_currentPid hsteady).returns (hsteady.next hnext) fun pid s₁ h₁ => ?_
      rw [Prog.wp_bind]
      refine (keeps_fireHook hsteady _ rfl).returns h₁ fun _ s₂ h₂ => ?_
      rw [Prog.wp_bind]
      refine (keeps_stopping hsteady).returns h₂ fun stop s₃ h₃ => ?_
      rw [Prog.wp_ite]
      split
      · exact h₃
      rw [Prog.wp_bind]
      refine Prog.wp_mono _ (fun _ s₄ h₄ => ?_) (fun _ _ h => h) (wp_spawnTask h₃ hworker)
      rw [Prog.wp_bind]
      refine (keeps_onPlant hsteady _ (by exact fun _ => le_rfl)).returns h₄ fun _ s₅ h₅ => ?_
      rw [Prog.wp_bind]
      refine Prog.wp_mono _ (fun rotated s₆ h₆ => ?_) (fun _ _ h => h) (wp_waitTask h₅ hworker)
      rw [Prog.wp_bind]
      refine (keeps_onPlant hsteady _ (by exact fun _ => le_rfl)).returns h₆ fun _ s₇ h₇ => ?_
      -- a rotation that failed is reported, and one that did something has its hook
      cases rotated.fault with
      | some message =>
          simp only
          rw [Prog.wp_bind]
          exact (keeps_report hsteady _ _).returns h₇ fun _ s₈ h₈ => h₈
      | none =>
          simp only
          rw [Prog.wp_bind]
          refine (keeps_onlyIf _ (Keeps.bind (keeps_currentPid hsteady) fun _ =>
            keeps_fireHook hsteady _ rfl)).returns h₇ fun _ s₈ h₈ => h₈

/-! ## All sinks -/

/-- Every sink that the loop reaches before a stop gives its lock. -/
def LocksObtained (force : Bool) : Nat → Sup → Prop
  | 0, _ => True
  | sinks + 1, s => ¬SinkRefused s ∧
      ∀ s', (rotateSink force false).exec s = (.ok true, s') → LocksObtained force sinks s'

theorem wp_rotateSinks_obtained {sinks : Nat} (h : LocksObtained force sinks s) :
    (rotateSinks force false sinks).wp (fun _ _ => True)
      (fun e s' => ∃ error, e = .failed error ∧ WorkerError s s' error) s := by
  induction sinks generalizing s with
  | zero => trivial
  | succ sinks ih =>
      unfold rotateSinks
      rw [Prog.wp_bind]
      refine Prog.wp_mono _ (fun go s₁ hs₁ => ?_) (fun _ _ h => h.1)
        (Prog.wp_and _ (wp_rotateSink_granted h.1) (Prog.wp_exec (rotateSink force false)))
      rw [Prog.wp_ite]
      split
      · rename_i hgo
        subst hgo
        refine Prog.wp_mono _ (fun _ _ h => h) (fun e s' he => ?_) (ih (h.2 s₁ hs₁.2))
        obtain ⟨error, rfl, hworker⟩ := he
        exact ⟨error, rfl, hworker.of_later hs₁.1⟩
      · trivial

theorem wp_rotateSinks_refused {sinks : Nat} (h : ¬LocksObtained force sinks s) :
    (rotateSinks force false sinks).wp (fun _ _ => False)
      (fun e _ => ∃ error, e = .failed error ∧ LockError error) s := by
  induction sinks generalizing s with
  | zero => exact absurd trivial h
  | succ sinks ih =>
      unfold rotateSinks
      rw [Prog.wp_bind]
      by_cases hrefused : SinkRefused s
      · exact Prog.wp_mono _ (fun _ _ h => h.elim) (fun _ _ h => h)
          (wp_rotateSink_refused hrefused)
      · have hlater : ∃ s', (rotateSink force false).exec s = (.ok true, s') ∧
            ¬LocksObtained force sinks s' := by
          by_contra hnone
          refine h ⟨hrefused, fun s' hexec => ?_⟩
          by_contra hs'
          exact hnone ⟨s', hexec, hs'⟩
        obtain ⟨s', hexec, hs'⟩ := hlater
        unfold Prog.wp
        rw [hexec]
        exact ih hs'

/-! ## The control -/

/-- Handling a message meets nothing but the worker's errors. -/
structure Endures (message : SupervisorMessage) (s : Sup) : Prop where
  handled : (handleControl message).wp (fun _ _ => True)
    (fun e s' => ∃ error, e = .failed error ∧ WorkerError s s' error) s

/-- The sinks that a message concerns, in the state after the look at the stop flag. -/
def SupervisorMessage.locksObtained (message : SupervisorMessage) (s : Sup) : Prop :=
  match message with
  | .rotate => hasOnlineRotation s.config = true → LocksObtained true s.plant.sinks s
  | .autoRotate id =>
      s.generation.any (·.id == id) = true → LocksObtained false s.plant.sinks s
  | _ => True

/-- The message is dropped because of a stop, or each lock it asks for is obtained. -/
def Unhindered (message : SupervisorMessage) (s : Sup) : Prop :=
  s.taken.next.2.stopRequested = true ∨ message.locksObtained s.taken.next.2

theorem wp_handleMessage_obtained {message : SupervisorMessage}
    (hmessage : message.source = .rotation) (h : message.locksObtained s) :
    (handleMessage message).wp (fun _ _ => True)
      (fun e s' => ∃ error, e = .failed error ∧ WorkerError s s' error) s := by
  cases message with
  | rotate =>
      unfold handleMessage
      rw [Prog.wp_bind, Prog.wp_get, Prog.wp_ite]
      split
      · rename_i honline
        rw [Prog.wp_bind, Prog.wp_get]
        exact wp_rotateSinks_obtained (h honline)
      · trivial
  | autoRotate id =>
      unfold handleMessage isCurrent
      rw [Prog.wp_bind, Prog.wp_bind, Prog.wp_get, Prog.wp_pure, Prog.wp_ite]
      split
      · rename_i hcurrent
        rw [Prog.wp_bind, Prog.wp_get]
        exact wp_rotateSinks_obtained (h hcurrent)
      · trivial
  | _ => cases hmessage

theorem wp_handleMessage_refused {message : SupervisorMessage}
    (hmessage : message.source = .rotation) (h : ¬message.locksObtained s) :
    (handleMessage message).wp (fun _ _ => False)
      (fun e _ => ∃ error, e = .failed error ∧ LockError error) s := by
  cases message with
  | rotate =>
      obtain ⟨honline, hlocks⟩ := Classical.not_imp.mp h
      unfold handleMessage
      rw [Prog.wp_bind, Prog.wp_get, if_pos honline, Prog.wp_bind, Prog.wp_get]
      exact wp_rotateSinks_refused hlocks
  | autoRotate id =>
      obtain ⟨hcurrent, hlocks⟩ := Classical.not_imp.mp h
      unfold handleMessage isCurrent
      rw [Prog.wp_bind, Prog.wp_bind, Prog.wp_get, Prog.wp_pure, if_pos hcurrent, Prog.wp_bind,
        Prog.wp_get]
      exact wp_rotateSinks_refused hlocks
  | _ => cases hmessage

theorem endures_of_unhindered {message : SupervisorMessage}
    (hmessage : message.source = .rotation) (h : Unhindered message s) : Endures message s := by
  have hlater : Later s s.taken.next.2 := (steady_later s).next (.refl s)
  have hdispatch : (dispatch message).wp (fun _ _ => True)
      (fun e s' => ∃ error, e = .failed error ∧ WorkerError s s' error) s.taken := by
    unfold dispatch
    rw [Prog.wp_bind, wp_stopping_eq]
    rcases h with hstop | hlocks
    · rw [hstop]
      cases message <;> trivial
    · rw [Prog.wp_ite]
      split
      · cases message <;> trivial
      · refine Prog.wp_mono _ (fun _ _ h => h) (fun e s' he => ?_)
          (wp_handleMessage_obtained hmessage hlocks)
        obtain ⟨error, rfl, hworker⟩ := he
        exact ⟨error, rfl, hworker.of_later hlater⟩
  constructor
  rw [wp_handleControl, noting, Prog.wp_bind, Prog.wp_attempt]
  refine Prog.wp_mono _ (fun _ _ _ => trivial) (fun e s' he => ?_) hdispatch
  obtain ⟨error, rfl, hworker⟩ := he
  exact ⟨error, rfl, hworker⟩

theorem unhindered_of_endures {message : SupervisorMessage}
    (hmessage : message.source = .rotation)
    (hsystem : ∀ turn, ∀ text ∈ lockTexts, (s.script turn).worker ≠ some text)
    (h : Endures message s) : Unhindered message s := by
  by_contra hhindered
  obtain ⟨hstop, hlocks⟩ := not_or.mp hhindered
  have hdispatch : (dispatch message).wp (fun _ _ => False)
      (fun e _ => ∃ error, e = .failed error ∧ LockError error) s.taken := by
    unfold dispatch
    rw [Prog.wp_bind, wp_stopping_eq, if_neg hstop]
    exact wp_handleMessage_refused hmessage hlocks
  have hcontrol : (handleControl message).wp (fun _ _ => False)
      (fun e _ => ∃ error, e = .failed error ∧ LockError error) s := by
    rw [wp_handleControl, noting, Prog.wp_bind, Prog.wp_attempt]
    refine Prog.wp_mono _ (fun _ _ h => h.elim) (fun e s' he => ?_) hdispatch
    obtain ⟨error, rfl, hlock⟩ := he
    exact ⟨error, rfl, hlock⟩
  have hnever : (handleControl message).wp (fun _ _ => False) (fun _ _ => False) s := by
    refine Prog.wp_mono _ (fun _ _ h => h.2) (fun e s' he => ?_) (Prog.wp_and _ h.handled hcontrol)
    obtain ⟨⟨error, rfl, hworker⟩, error', herror, hlock⟩ := he
    cases herror
    exact hworker.not_lockError hsystem hlock
  obtain ⟨_, _, -, hfalse⟩ := Prog.exists_ok_of_wp _ hnever
  exact hfalse

/-- Handling a rotation control ends in success, or in an error of the worker with which it
breaks off at once, exactly when every lock that it asks for is obtained.  That this is
enough holds whatever the system answers and whatever a rotation comes to; that it is
needed, when a worker that cannot be created is not explained with the texts of the lock. -/
theorem rotation_endures (s : Sup) (message : SupervisorMessage)
    (hmessage : message.source = .rotation) :
    (Unhindered message s → Endures message s) ∧
      ((∀ turn, ∀ text ∈ lockTexts, (s.script turn).worker ≠ some text) →
        Endures message s → Unhindered message s) :=
  ⟨endures_of_unhindered hmessage, unhindered_of_endures hmessage⟩

/-- A service with one log file and a running child.  There is something to rotate, and
every call of the file system fails; the lock of the sink is as given. -/
def busyService (lock : Lock) : Sup where
  config :=
    { application := some "app.exe"
      io := { stdout := some { path := "out.log" } }
      rotation := { enabled := some true, online := some 1 } }
  script _ := { lock, flag := true, fault := some "There is not enough space on the disk." }
  generation := some { id := 1, pid := 7, started := 0, watched := true, watcher := true }
  nextGeneration := 1
  startupReported := true
  plant := { job := true, sinks := 1, readers := 1 }

/-- The rotation fails, is reported, and the service goes on. -/
theorem busyService_acquired :
    Unhindered .rotate (busyService .acquired) ∧ Endures .rotate (busyService .acquired) ∧
      ((handleControl .rotate).exec (busyService .acquired)).1 = .ok () ∧
      ((handleControl .rotate).exec (busyService .acquired)).2.plant.diagnostics =
        [("log rotation", .text "There is not enough space on the disk.")] := by
  have hlocks : Unhindered .rotate (busyService .acquired) :=
    .inr fun _ => ⟨fun hrefused => hrefused.2 rfl, fun _ _ => trivial⟩
  have hendures := (rotation_endures (busyService .acquired) .rotate rfl).1 hlocks
  exact ⟨hlocks, hendures, by decide +kernel, by decide +kernel⟩

/-- The slow write takes the service down. -/
theorem busyService_fails :
    ¬∀ (s : Sup) (message : SupervisorMessage), s.generation.isSome = true →
      message.source = .rotation → Endures message s := by
  intro hall
  have hendures := hall (busyService .busy) .rotate rfl rfl
  have hunhindered : Unhindered .rotate (busyService .busy) := by
    exact unhindered_of_endures rfl (fun _ _ _ => nofun) hendures
  rcases hunhindered with hstop | hlocks
  · cases hstop
  · exact (hlocks rfl).1 ⟨rfl, nofun⟩

end Ngsm.Supervisor
