/-
# Start records

A start record says whether the service was started or restarted, and after which
delay.  The loop over the generations keeps both in variables that it updates when a
generation has come up and when it has ended, but not when a start fails.  So the
records describe the run as long as no failed start is retried after a record, and a
start that fails after its record shows that they need not do so.
-/

import Ngsm.Supervisor.Bookkeeping

namespace Ngsm.Supervisor

open Ngsm.Core Ngsm.Lib

/-! ## What the records should say -/

/-- The delay that was waited since the last exit or failed start. -/
def lastWait (trace : List Event) : Option Nat :=
  trace.foldl (fun wait event => match event with
    | .waited delay _ => some delay
    | .childExited _ _ | .startFailed _ => none
    | _ => wait) none

/-- The delay that was announced since the last exit or failed start. -/
def announced (trace : List Event) : Option Nat :=
  trace.foldl (fun delay event => match event with
    | .throttled delay => some delay
    | .childExited _ _ | .startFailed _ => none
    | _ => delay) none

structure StartRecords (trace : List Event) : Prop where
  started : ∀ before pid after, trace = before ++ .started pid :: after → starts before = 0
  restarted : ∀ before pid delay after, trace = before ++ .restarted pid delay :: after →
    0 < starts before ∧ lastWait before = some delay ∧
      announced before = if delay = 0 then none else some delay
  waited : ∀ delay elapsed, .waited delay elapsed ∈ trace → delay ≤ elapsed

/-- Once a start is recorded, no failed start is retried. -/
def NoRetry (trace : List Event) : Prop :=
  ∀ before error after, trace = before ++ .startFailed error :: after → 0 < starts before →
    .attempt ∉ after

/-! ## Traces that grow -/

variable {config : ManagedApplicationConfig} {l l' : Lifecycle} {trace : List Event}
  {event : Event}

theorem starts_append (trace : List Event) (event : Event) :
    starts (trace ++ [event]) = starts trace + event.isStart.toNat := by
  unfold starts
  cases hstart : event.isStart <;> simp [hstart]

theorem lastWait_append (trace : List Event) (event : Event) :
    lastWait (trace ++ [event]) =
      match event with
      | .waited delay _ => some delay
      | .childExited _ _ | .startFailed _ => none
      | _ => lastWait trace := by
  simp [lastWait, List.foldl_append]

theorem announced_append (trace : List Event) (event : Event) :
    announced (trace ++ [event]) =
      match event with
      | .throttled delay => some delay
      | .childExited _ _ | .startFailed _ => none
      | _ => announced trace := by
  simp [announced, List.foldl_append]

theorem NoRetry.of_append (h : NoRetry (trace ++ [event])) : NoRetry trace := by
  intro before error after hsplit hstarts hin
  refine h before error (after ++ [event]) ?_ hstarts (List.mem_append_left _ hin)
  rw [hsplit]
  simp

theorem StartRecords.nil : StartRecords [] where
  started before pid after h := by simp at h
  restarted before pid delay after h := by simp at h
  waited delay elapsed h := absurd h List.not_mem_nil

theorem StartRecords.append (h : StartRecords trace)
    (hstarted : ∀ pid, event = .started pid → starts trace = 0)
    (hrestarted : ∀ pid delay, event = .restarted pid delay →
      0 < starts trace ∧ lastWait trace = some delay ∧
        announced trace = if delay = 0 then none else some delay)
    (hwaited : ∀ delay elapsed, event = .waited delay elapsed → delay ≤ elapsed) :
    StartRecords (trace ++ [event]) where
  started before pid after hsplit := by
    rcases append_singleton_split hsplit with ⟨-, rfl, hevent⟩ | ⟨after', -, htrace⟩
    · exact hstarted pid hevent
    · exact h.started before pid after' htrace
  restarted before pid delay after hsplit := by
    rcases append_singleton_split hsplit with ⟨-, rfl, hevent⟩ | ⟨after', -, htrace⟩
    · exact hrestarted pid delay hevent
    · exact h.restarted before pid delay after' htrace
  waited delay elapsed hin := by
    rcases List.mem_append.mp hin with hold | hnew
    · exact h.waited delay elapsed hold
    · exact hwaited delay elapsed (List.mem_singleton.mp hnew).symm

/-- An event that is neither a start record nor the end of a wait. -/
theorem StartRecords.append_other (h : StartRecords trace) (hstart : event.isStart = false)
    (hwaited : ∀ delay elapsed, event ≠ .waited delay elapsed) : StartRecords (trace ++ [event]) := by
  refine h.append (fun pid hevent => ?_) (fun pid delay hevent => ?_)
    fun delay elapsed hevent => absurd hevent (hwaited delay elapsed)
  · rw [hevent] at hstart
    cases hstart
  · rw [hevent] at hstart
    cases hstart

/-! ## The machine -/

/-- A start failed after a start record. -/
def FailedLate (trace : List Event) : Prop :=
  ∃ before error after, trace = before ++ .startFailed error :: after ∧ 0 < starts before

theorem FailedLate.append (h : FailedLate trace) (event : Event) : FailedLate (trace ++ [event]) := by
  obtain ⟨before, error, after, rfl, hstarts⟩ := h
  exact ⟨before, error, after ++ [event], by simp, hstarts⟩

/-- The last wait was the one that the next record tells, and it was announced. -/
def Waited (delay : Nat) (trace : List Event) : Prop :=
  0 < starts trace ∧ lastWait trace = some delay ∧
    announced trace = if delay = 0 then none else some delay

/-- How the machine knows what the next start record has to say. -/
def Described (l : Lifecycle) (trace : List Event) : Prop :=
  match l.phase with
  | .ready | .starting =>
      l.unexited = false ∧
        ((l.first = true ∧ starts trace = 0) ∨ (l.first = false ∧ Waited l.lastDelay trace))
  | .up => 0 < starts trace
  | .over (.exited _ _) =>
      l.unexited = false ∧ l.first = false ∧ 0 < starts trace ∧ announced trace = none
  | .over (.failed _) => l.unexited = false ∧ l.first = true ∧ starts trace = 0
  | .backOff delay =>
      l.unexited = false ∧ l.first = false ∧ 0 < starts trace ∧ delay ≠ 0 ∧
        announced trace = some delay
  | .stopped => True

/-- What is kept along a run without late retries. -/
structure Telling (l : Lifecycle) (trace : List Event) : Prop where
  records : StartRecords trace
  described : Described l trace ∨ (FailedLate trace ∧ l.phase ≠ .starting)

/-- Events that change nothing in what a record has to say. -/
def Event.unrelated : Event → Bool
  | .started _ | .restarted _ _ | .startFailed _ | .childExited _ _ | .throttled _
  | .waited _ _ => false
  | _ => true

theorem Event.unrelated_of_silent (h : event.silent = true) : event.unrelated = true := by
  cases event <;> first | rfl | cases h

theorem append_unrelated (trace : List Event) (h : event.unrelated = true) :
    starts (trace ++ [event]) = starts trace ∧ lastWait (trace ++ [event]) = lastWait trace ∧
      announced (trace ++ [event]) = announced trace := by
  rw [starts_append, lastWait_append, announced_append]
  cases event <;> first | exact ⟨rfl, rfl, rfl⟩ | cases h

theorem Described.append (h : Described l trace) (hevent : event.unrelated = true)
    (hphase : l'.phase = l.phase) (hunexited : l'.unexited = l.unexited)
    (hfirst : l'.first = l.first) (hlast : l'.lastDelay = l.lastDelay) :
    Described l' (trace ++ [event]) := by
  obtain ⟨hstarts, hwait, hannounced⟩ := append_unrelated trace hevent
  unfold Described Waited at *
  rw [hphase, hunexited, hfirst, hlast, hstarts, hwait, hannounced]
  exact h

/-- Only a generation that is up has an exit to record. -/
theorem Described.up_of_mayExit (h : Described l trace) (hexit : l.MayExit) : l.phase = .up := by
  obtain ⟨hunexited, -, hstopped⟩ := hexit
  unfold Described at h
  split at h
  all_goals simp_all

theorem Telling.keep (h : Telling l trace) (hevent : event.unrelated = true)
    (hphase : l'.phase = l.phase) (hunexited : l'.unexited = l.unexited)
    (hfirst : l'.first = l.first) (hlast : l'.lastDelay = l.lastDelay) :
    Telling l' (trace ++ [event]) where
  records := by
    refine h.records.append_other ?_ fun delay elapsed heq => ?_
    · cases event <;> first | rfl | cases hevent
    · rw [heq] at hevent
      cases hevent
  described := by
    rcases h.described with hdescribed | ⟨hlate, hstarting⟩
    · exact .inl (hdescribed.append hevent hphase hunexited hfirst hlast)
    · exact .inr ⟨hlate.append event, by rwa [hphase]⟩

theorem Telling.attempt (h : Telling l trace) (hretry : NoRetry (trace ++ [.attempt]))
    (hphase : l.phase = .ready) :
    Telling l.attempt (trace ++ [.attempt]) where
  records := h.records.append_other rfl nofun
  described := by
    rcases h.described with hdescribed | ⟨⟨before, error, after, htrace, hstarts⟩, -⟩
    · left
      obtain ⟨hcount, hwait, hannounced⟩ := append_unrelated trace (show Event.attempt.unrelated = true from rfl)
      unfold Described Waited at *
      rw [hphase] at hdescribed
      simp only [hcount, hwait, hannounced]
      exact hdescribed
    · refine absurd ?_ (hretry before error (after ++ [.attempt]) (by simp [htrace]) hstarts)
      exact List.mem_append_right _ (List.mem_singleton_self _)

/-- In the phase of a start, the machine knows what to write. -/
theorem Telling.starting (h : Telling l trace) (hphase : l.phase = .starting) :
    (l.first = true ∧ starts trace = 0) ∨ (l.first = false ∧ Waited l.lastDelay trace) := by
  rcases h.described with hdescribed | hlate
  · unfold Described at hdescribed
    rw [hphase] at hdescribed
    exact hdescribed.2
  · exact absurd hphase hlate.2

theorem Telling.start (h : Telling l trace) (hphase : l.phase = .starting)
    (hevent : event.isStart = true)
    (hstarted : ∀ pid, event = .started pid → l.first = true)
    (hrestarted : ∀ pid delay, event = .restarted pid delay →
      l.first = false ∧ delay = l.lastDelay) :
    Telling l.begin (trace ++ [event]) where
  records := by
    refine h.records.append (fun pid heq => ?_) (fun pid delay heq => ?_) fun delay elapsed heq => ?_
    · rcases h.starting hphase with hfirst | hlater
      · exact hfirst.2
      · have hfirst := hstarted pid heq
        rw [hlater.1] at hfirst
        cases hfirst
    · obtain ⟨hlater, rfl⟩ := hrestarted pid delay heq
      rcases h.starting hphase with hfirst | hlater'
      · rw [hlater] at hfirst
        cases hfirst.1
      · exact hlater'.2
    · rw [heq] at hevent
      cases hevent
  described := by
    left
    change 0 < starts (trace ++ [event])
    rw [starts_append, hevent]
    exact Nat.succ_pos _

theorem Telling.startFailed (h : Telling l trace) (error : SupervisorError)
    (hphase : l.phase = .starting ∨ l.phase = .up) :
    Telling { l with phase := .over (.failed error) } (trace ++ [.startFailed error]) where
  records := h.records.append_other rfl nofun
  described := by
    have hlate : 0 < starts trace → FailedLate (trace ++ [.startFailed error]) :=
      fun hstarts => ⟨trace, error, [], rfl, hstarts⟩
    rcases h.described with hdescribed | ⟨hlate', -⟩
    · unfold Described at hdescribed
      rcases hphase with hphase | hphase
      · rw [hphase] at hdescribed
        rcases hdescribed.2 with ⟨hfirst, hstarts⟩ | ⟨-, hstarts, -⟩
        · left
          refine ⟨hdescribed.1, hfirst, ?_⟩
          rw [starts_append, hstarts]
          rfl
        · exact .inr ⟨hlate hstarts, nofun⟩
      · rw [hphase] at hdescribed
        exact .inr ⟨hlate hdescribed, nofun⟩
    · exact .inr ⟨hlate'.append _, nofun⟩

theorem Telling.childExited (h : Telling l trace) (code : Int32) (lived : Nat)
    (hexit : l.MayExit) :
    Telling (l.exit code lived) (trace ++ [.childExited code lived]) where
  records := h.records.append_other rfl nofun
  described := by
    rcases h.described with hdescribed | ⟨hlate, hstarting⟩
    · have hphase := hdescribed.up_of_mayExit hexit
      left
      unfold Described at hdescribed
      rw [hphase] at hdescribed
      unfold Lifecycle.exit
      rw [if_pos hphase]
      refine ⟨rfl, rfl, ?_, ?_⟩
      · rw [starts_append]
        exact hdescribed
      · rw [announced_append]
    · refine .inr ⟨hlate.append _, ?_⟩
      unfold Lifecycle.exit
      split
      · nofun
      · exact hstarting

theorem Telling.throttled (h : Telling l trace) (code : Int32) (lived delay : Nat)
    (hphase : l.phase = .over (.exited code lived)) (hdelay : delay ≠ 0) :
    Telling { l with phase := .backOff delay } (trace ++ [.throttled delay]) where
  records := h.records.append_other rfl nofun
  described := by
    rcases h.described with hdescribed | ⟨hlate, -⟩
    · left
      unfold Described at hdescribed
      rw [hphase] at hdescribed
      obtain ⟨hunexited, hfirst, hstarts, -⟩ := hdescribed
      refine ⟨hunexited, hfirst, ?_, hdelay, ?_⟩
      · rw [starts_append]
        exact hstarts
      · rw [announced_append]
    · exact .inr ⟨hlate.append _, nofun⟩

/-- The end of a wait that the next record tells about. -/
theorem Telling.waited (h : Telling l trace) (delay elapsed : Nat) (helapsed : delay ≤ elapsed)
    (hphase : l.phase = .backOff delay ∨
      ∃ code lived, l.phase = .over (.exited code lived) ∧ delay = 0) :
    Telling (l.again delay) (trace ++ [.waited delay elapsed]) where
  records := by
    refine h.records.append nofun nofun fun delay' elapsed' heq => ?_
    cases heq
    exact helapsed
  described := by
    have hready : l.unexited = false → l.first = false → 0 < starts trace →
        announced trace = (if delay = 0 then none else some delay) →
        Described (l.again delay) (trace ++ [.waited delay elapsed]) := by
      intro hunexited hfirst hstarts hannounced
      refine ⟨hunexited, .inr ⟨hfirst, ?_, ?_, ?_⟩⟩
      · rw [starts_append]
        exact hstarts
      · rw [lastWait_append]
        rfl
      · rw [announced_append]
        exact hannounced
    rcases h.described with hdescribed | ⟨hlate, -⟩
    · left
      unfold Described at hdescribed
      rcases hphase with hphase | ⟨code, lived, hphase, rfl⟩
      · rw [hphase] at hdescribed
        obtain ⟨hunexited, hfirst, hstarts, hdelay, hannounced⟩ := hdescribed
        exact hready hunexited hfirst hstarts (by rw [hannounced, if_neg hdelay])
      · rw [hphase] at hdescribed
        obtain ⟨hunexited, hfirst, hstarts, hannounced⟩ := hdescribed
        exact hready hunexited hfirst hstarts (by rw [hannounced, if_pos rfl])
    · exact .inr ⟨hlate.append _, nofun⟩

theorem Telling.retried (h : Telling l trace) (error : SupervisorError) (delay elapsed : Nat)
    (helapsed : delay ≤ elapsed) (hphase : l.phase = .over (.failed error)) :
    Telling { l with phase := .ready } (trace ++ [.waited delay elapsed]) where
  records := by
    refine h.records.append nofun nofun fun delay' elapsed' heq => ?_
    cases heq
    exact helapsed
  described := by
    rcases h.described with hdescribed | ⟨hlate, -⟩
    · left
      unfold Described at hdescribed
      rw [hphase] at hdescribed
      obtain ⟨hunexited, hfirst, hstarts⟩ := hdescribed
      refine ⟨hunexited, .inl ⟨hfirst, ?_⟩⟩
      rw [starts_append, hstarts]
      rfl
    · exact .inr ⟨hlate.append _, nofun⟩

theorem Telling.step (h : Telling l trace) (hretry : NoRetry (trace ++ [event]))
    (hstep : Lifecycle.Step config l event l') : Telling l' (trace ++ [event]) := by
  cases hstep with
  | attempt hphase hunexited hhook => exact h.attempt hretry hphase
  | started pid hphase hunexited hfirst => exact h.start hphase rfl (fun _ _ => hfirst) nofun
  | restarted pid hphase hunexited hfirst =>
      refine h.start hphase rfl nofun fun pid' delay heq => ?_
      cases heq
      exact ⟨hfirst, rfl⟩
  | startFailed error hphase => exact h.startFailed error hphase
  | childExited code lived hexit => exact h.childExited code lived hexit
  | throttled code lived delay hphase hpolicy hdelay =>
      exact h.throttled code lived delay hphase hdelay
  | waited delay elapsed hphase helapsed => exact h.waited delay elapsed helapsed (.inl hphase)
  | skipped code lived elapsed hphase hpolicy =>
      exact h.waited 0 elapsed (Nat.zero_le _) (.inr ⟨code, lived, hphase, rfl⟩)
  | retried error delay elapsed hphase hpolicy helapsed =>
      exact h.retried error delay elapsed helapsed hphase
  | running hphase hreported => exact h.keep rfl rfl rfl rfl rfl
  | quiesced code lived childUp hphase hpolicy hreported => exact h.keep rfl rfl rfl rfl rfl
  | stopHook call hpoint hphase hhook => exact h.keep rfl rfl rfl rfl rfl
  | exitHook call hpoint hphase hhook => exact h.keep rfl rfl rfl rfl rfl
  | stopped hphase hstop hexit => exact ⟨h.records.append_other rfl nofun, .inl trivial⟩
  | silent event hsilent => exact h.keep (Event.unrelated_of_silent hsilent) rfl rfl rfl rfl

theorem startRecords_of_after (h : Lifecycle.after config trace = some l)
    (hretry : NoRetry trace) : StartRecords trace := by
  have htelling : NoRetry trace → Telling l trace :=
    Lifecycle.after_induction (P := fun trace l => NoRetry trace → Telling l trace)
      (fun _ => ⟨.nil, .inl ⟨rfl, .inl ⟨rfl, rfl⟩⟩⟩)
      (fun _ _ _ _ hstep ih hretry => (ih hretry.of_append).step hretry hstep) h
  exact (htelling hretry).records

/-! ## Every run -/

/-- In every run in which no failed start is retried once a start is recorded, the
start records describe the run. -/
theorem run_start_records (config : ManagedApplicationConfig) (script : Nat → Turn) (gate : Bool)
    (before : List Move) (rounds : Nat)
    (hretry : NoRetry ((run rounds).exec (Sup.start config script gate before)).2.trace) :
    StartRecords ((run rounds).exec (Sup.start config script gate before)).2.trace := by
  rcases hrun : (run rounds).exec (Sup.start config script gate before) with ⟨outcome, s⟩
  rw [hrun] at hretry
  obtain ⟨-, l, hs, -⟩ := run_ends config script gate before rounds hrun
  exact startRecords_of_after hs.accepted hretry

theorem noRetry_of_all (h : trace.all (fun event => !event matches .startFailed _) = true) :
    NoRetry trace := by
  intro before error after hsplit
  rw [hsplit] at h
  simp at h

/-- A service that is restarted after five milliseconds, at least. -/
def promptConfig : ManagedApplicationConfig where
  application := some "app.exe"
  restart := { throttleDelayMs := some 0, restartDelayMs := some 5 }

/-- The child exits while the supervisor waits for it, and is restarted. -/
def restartTrace : List Event :=
  ((run 3).exec (Sup.start promptConfig (fun turn =>
    if turn = 26 then { moves := [.exit 7 none] } else { flag := true }) false [])).2.trace

theorem restartTrace_described :
    .throttled 5 ∈ restartTrace ∧ .restarted 0 5 ∈ restartTrace ∧ StartRecords restartTrace := by
  have hretry : NoRetry restartTrace := noRetry_of_all (by decide +kernel)
  exact ⟨by decide +kernel, by decide +kernel, run_start_records promptConfig _ false [] 3 hretry⟩

/-- The thread that waits for the child cannot be created: the start fails after its
record, and is retried. -/
def doubleTrace : List Event :=
  ((run 3).exec (Sup.start promptConfig (fun turn =>
    if turn = 18 then { fault := some "no thread" } else { flag := true }) false [])).2.trace

/-- The second start is recorded like the first one. -/
theorem doubleTrace_started :
    ¬∀ (config : ManagedApplicationConfig) (script : Nat → Turn) (gate : Bool)
      (before : List Move) (rounds : Nat),
      StartRecords ((run rounds).exec (Sup.start config script gate before)).2.trace := by
  intro hall
  have hrecords : StartRecords doubleTrace := hall promptConfig _ false [] 3
  have hsplit : doubleTrace = doubleTrace.take 11 ++ .started 0 :: doubleTrace.drop 12 := by
    decide +kernel
  have hfirst : starts (doubleTrace.take 11) ≠ 0 := by decide +kernel
  exact hfirst (hrecords.started _ _ _ hsplit)

end Ngsm.Supervisor
