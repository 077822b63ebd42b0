/-
# Exit and stop bookkeeping

The availability of a service is computed from its records, so each exit must be
there once, between its own start and the next, and nothing may follow the record of
the stop.  `Counted` ties the numbers of the records to the machine of `Lifecycle`;
one step of the machine keeps it, so every trace of a service has it.
-/

import Ngsm.Supervisor.Verdict

namespace Ngsm.Supervisor

open Ngsm.Core Ngsm.Lib

/-! ## Records and hooks -/

namespace Event

def isStart : Event → Bool
  | .started _ | .restarted _ _ => true
  | _ => false

def isExit : Event → Bool
  | .childExited _ _ => true
  | _ => false

def isHook (point : HookPoint) : Event → Bool
  | .hook call => call.point == point
  | _ => false

def isStopped : Event → Bool
  | .stopped => true
  | _ => false

/-- The records of the event log. -/
def isRecord : Event → Bool
  | .started _ | .restarted _ _ | .childExited _ _ | .throttled _ | .stopped => true
  | _ => false

end Event

def starts (trace : List Event) : Nat :=
  trace.countP Event.isStart

def exits (trace : List Event) : Nat :=
  trace.countP Event.isExit

def hooks (point : HookPoint) (trace : List Event) : Nat :=
  trace.countP (Event.isHook point)

def stops (trace : List Event) : Nat :=
  trace.countP Event.isStopped

/-- What the records of a run obey: start and exit records take turns, each exit
has its hook before anything else is recorded of a generation, and the stop is
announced and recorded once, as the last record. -/
structure Bookkeeping (trace : List Event) : Prop where
  exit : ∀ front, front <+: trace → exits front ≤ starts front ∧ starts front ≤ exits front + 1
  exitHook : ∀ front, front <+: trace →
    hooks .exitPost front ≤ exits front ∧ exits front ≤ hooks .exitPost front + 1
  stopHook : hooks .stopPre trace ≤ 1
  stopped : stops trace ≤ 1
  last : ∀ before after, trace = before ++ .stopped :: after →
    ∀ event ∈ after, event.isRecord = false

/-! ## The machine counts -/

variable {config : ManagedApplicationConfig} {l l' : Lifecycle} {trace : List Event}
  {event : Event}

/-- The numbers of records and hooks are what the machine owes and has done. -/
structure Counted (l : Lifecycle) (trace : List Event) : Prop where
  unexited : starts trace = exits trace + l.unexited.toNat
  exitHook : exits trace = hooks .exitPost trace + l.exitHook.toNat
  stopHook : hooks .stopPre trace = l.stopHook.toNat
  stopped : stops trace = if l.phase = .stopped then 1 else 0

theorem Counted.append (h : Counted l trace)
    (hstarts : l.unexited.toNat + event.isStart.toNat = l'.unexited.toNat + event.isExit.toNat)
    (hexits : l.exitHook.toNat + event.isExit.toNat =
      l'.exitHook.toNat + (event.isHook .exitPost).toNat)
    (hhook : l.stopHook.toNat + (event.isHook .stopPre).toNat = l'.stopHook.toNat)
    (hstopped : (if l.phase = .stopped then 1 else 0) + event.isStopped.toNat =
      if l'.phase = .stopped then 1 else 0) :
    Counted l' (trace ++ [event]) := by
  have hcount : ∀ p : Event → Bool, (trace ++ [event]).countP p = trace.countP p + (p event).toNat := by
    intro p
    cases hp : p event <;> simp [hp]
  obtain ⟨h₁, h₂, h₃, h₄⟩ := h
  unfold starts exits hooks stops at *
  constructor <;> simp only [starts, exits, hooks, stops, hcount] <;> omega

theorem not_counted_of_silent (h : event.silent = true) :
    event.isStart = false ∧ event.isExit = false ∧ event.isStopped = false ∧
      event.isHook .exitPost = false ∧ event.isHook .stopPre = false := by
  cases event with
  | hook call =>
      rcases call with ⟨point, pid, exit, power⟩
      cases point <;> first | exact ⟨rfl, rfl, rfl, rfl, rfl⟩ | cases h
  | _ => first | exact ⟨rfl, rfl, rfl, rfl, rfl⟩ | cases h

theorem Lifecycle.exit_unexited (code : Int32) (lived : Nat) :
    (l.exit code lived).unexited = false ∧ (l.exit code lived).exitHook = true ∧
      (l.exit code lived).stopHook = l.stopHook := by
  unfold Lifecycle.exit
  split <;> exact ⟨rfl, rfl, rfl⟩

theorem Counted.step (h : Counted l trace) (hstep : Lifecycle.Step config l event l') :
    Counted l' (trace ++ [event]) := by
  cases hstep with
  | attempt hphase hunexited hhook =>
      exact h.append rfl rfl rfl (by simp [hphase, Lifecycle.attempt, Event.isStopped])
  | started pid hphase hunexited hfirst =>
      exact h.append (by simp [hunexited, Lifecycle.begin, Event.isStart, Event.isExit]) rfl rfl
        (by simp [hphase, Lifecycle.begin, Event.isStopped])
  | restarted pid hphase hunexited hfirst =>
      exact h.append (by simp [hunexited, Lifecycle.begin, Event.isStart, Event.isExit]) rfl rfl
        (by simp [hphase, Lifecycle.begin, Event.isStopped])
  | startFailed error hphase =>
      refine h.append rfl rfl rfl ?_
      rcases hphase with hphase | hphase <;> simp [hphase, Event.isStopped]
  | childExited code lived hexit =>
      obtain ⟨hunexited, hhook, hphase⟩ := hexit
      obtain ⟨hexited, howed, hstop⟩ := Lifecycle.exit_unexited (l := l) code lived
      have hphase' := Lifecycle.exit_phase_ne code lived hphase
      refine h.append ?_ ?_ ?_ ?_
      · simp [hunexited, hexited, Event.isStart, Event.isExit]
      · simp [hhook, howed, Event.isExit, Event.isHook]
      · simp [hstop, Event.isHook]
      · simp [hphase, hphase', Event.isStopped]
  | throttled code lived delay hphase hpolicy hdelay =>
      exact h.append rfl rfl rfl (by simp [hphase, Event.isStopped])
  | waited delay elapsed hphase helapsed =>
      exact h.append rfl rfl rfl (by simp [hphase, Lifecycle.again, Event.isStopped])
  | skipped code lived elapsed hphase hpolicy =>
      exact h.append rfl rfl rfl (by simp [hphase, Lifecycle.again, Event.isStopped])
  | retried error delay elapsed hphase hpolicy helapsed =>
      exact h.append rfl rfl rfl (by simp [hphase, Event.isStopped])
  | running hphase hreported => exact h.append rfl rfl rfl (by simp [Event.isStopped])
  | quiesced code lived childUp hphase hpolicy hreported =>
      exact h.append rfl rfl rfl (by simp [Event.isStopped])
  | stopHook call hpoint hphase hhook =>
      refine h.append rfl ?_ ?_ (by simp [Event.isStopped])
      · simp [hpoint, Event.isExit, Event.isHook]
      · simp [hpoint, hhook, Event.isHook]
  | exitHook call hpoint hphase hhook =>
      refine h.append rfl ?_ ?_ (by simp [Event.isStopped])
      · simp [hpoint, hhook, Event.isExit, Event.isHook]
      · simp [hpoint, Event.isHook]
  | stopped hphase hstop hexit =>
      exact h.append rfl rfl rfl (by simp [hphase, Event.isStopped])
  | silent event hsilent =>
      obtain ⟨hstart, hexit, hstopped, hexitHook, hstopHook⟩ := not_counted_of_silent hsilent
      exact h.append (by simp [hstart, hexit]) (by simp [hexit, hexitHook]) (by simp [hstopHook])
        (by simp [hstopped])

theorem counted_of_after (h : Lifecycle.after config trace = some l) : Counted l trace :=
  Lifecycle.after_induction (P := fun trace l => Counted l trace) ⟨rfl, rfl, rfl, rfl⟩
    (fun _ _ _ _ hstep h => h.step hstep) h

theorem stopped_mem_iff (h : Lifecycle.after config trace = some l) :
    .stopped ∈ trace ↔ l.phase = .stopped := by
  have hcount := (counted_of_after h).stopped
  have hmem : .stopped ∈ trace ↔ 0 < stops trace := by
    unfold stops
    rw [List.countP_pos_iff]
    constructor
    · exact fun hin => ⟨.stopped, hin, rfl⟩
    · rintro ⟨event, hin, hevent⟩
      cases event <;> first | exact hin | cases hevent
  rw [hmem, hcount]
  split <;> simp_all

/-! ## Nothing follows the stop -/

theorem Lifecycle.Step.of_stopped (h : Lifecycle.Step config l event l')
    (hl : l.phase = .stopped) : event.isRecord = false ∧ l'.phase = .stopped := by
  cases h with
  | attempt hphase hunexited hhook => simp [hl] at hphase
  | started pid hphase hunexited hfirst => simp [hl] at hphase
  | restarted pid hphase hunexited hfirst => simp [hl] at hphase
  | startFailed error hphase => simp [hl] at hphase
  | childExited code lived hexit => exact absurd hl hexit.2.2
  | throttled code lived delay hphase hpolicy hdelay => simp [hl] at hphase
  | waited delay elapsed hphase helapsed => simp [hl] at hphase
  | skipped code lived elapsed hphase hpolicy => simp [hl] at hphase
  | retried error delay elapsed hphase hpolicy helapsed => simp [hl] at hphase
  | running hphase hreported => simp [hl] at hphase
  | quiesced code lived childUp hphase hpolicy hreported => simp [hl] at hphase
  | stopHook call hpoint hphase hhook => exact absurd hl hphase
  | exitHook call hpoint hphase hhook => exact absurd hl hphase
  | stopped hphase hstop hexit => exact absurd hl hphase
  | silent event hsilent =>
      refine ⟨?_, hl⟩
      cases event <;> first | rfl | cases hsilent

theorem Lifecycle.Step.to_stopped (h : Lifecycle.Step config l .stopped l') :
    l'.phase = .stopped := by
  cases h with
  | stopped hphase hstop hexit => rfl
  | silent event hsilent => cases hsilent

theorem last_record (h : Lifecycle.after config trace = some l) :
    ∀ before after, trace = before ++ .stopped :: after →
      l.phase = .stopped ∧ ∀ event ∈ after, event.isRecord = false := by
  refine Lifecycle.after_induction (P := fun trace l => ∀ before after,
    trace = before ++ .stopped :: after →
      l.phase = .stopped ∧ ∀ event ∈ after, event.isRecord = false) ?_ ?_ h
  · intro before after hsplit
    simp at hsplit
  · intro trace event l l' hstep ih before after hsplit
    rcases append_singleton_split hsplit with ⟨rfl, -, rfl⟩ | ⟨after', rfl, htrace⟩
    · exact ⟨hstep.to_stopped, nofun⟩
    · obtain ⟨hphase, hrecords⟩ := ih before after' htrace
      obtain ⟨hrecord, hphase'⟩ := hstep.of_stopped hphase
      refine ⟨hphase', fun next hnext => ?_⟩
      rcases List.mem_append.mp hnext with hold | hnew
      · exact hrecords next hold
      · rw [List.mem_singleton.mp hnew]
        exact hrecord

/-- The records of a service are in order. -/
theorem bookkeeping_of_after (h : Lifecycle.after config trace = some l) : Bookkeeping trace where
  exit front hfront := by
    obtain ⟨l', h'⟩ := Lifecycle.after_prefix h hfront
    have hcounted := (counted_of_after h').unexited
    have hbit := Bool.toNat_le l'.unexited
    omega
  exitHook front hfront := by
    obtain ⟨l', h'⟩ := Lifecycle.after_prefix h hfront
    have hcounted := (counted_of_after h').exitHook
    have hbit := Bool.toNat_le l'.exitHook
    omega
  stopHook := by
    rw [(counted_of_after h).stopHook]
    exact Bool.toNat_le l.stopHook
  stopped := by
    rw [(counted_of_after h).stopped]
    split <;> omega
  last before after hsplit := (last_record h before after hsplit).2

/-! ## Every run -/

theorem Resolved.exitHook {result : Outcome} {s : Sup} (h : Resolved result l s) : l.exitHook = false := by
  rcases h with ⟨hstop, -⟩ | ⟨hpolicy, -⟩
  · exact hstop.exitHook
  · exact hpolicy.standing.exitHook

theorem Resolved.unexited {reason : ExitReason} {s : Sup} (h : Resolved (.ok reason) l s) :
    l.unexited = false := by
  rcases h with ⟨hstop, -⟩ | ⟨hpolicy, -⟩
  · rcases hstop.result with hok | ⟨error, herror, -⟩
    · exact hok.2
    · cases herror
  · exact hpolicy.unexited reason rfl

theorem Resolved.stopped_iff {result : Outcome} {s : Sup} (h : Resolved result l s) :
    l.phase = .stopped ↔ StopBeforeCheck s.trace := by
  rcases h with ⟨hstop, hbefore⟩ | ⟨hpolicy, hbefore⟩
  · exact iff_of_true hstop.phase hbefore
  · exact iff_of_false hpolicy.standing.phase hbefore

theorem Pending.phase_ne {rounds : Nat} {s : Sup} (h : Pending rounds l s) :
    l.phase ≠ .stopped := by
  intro hphase
  have hwaiting := h.waiting
  unfold Waiting at hwaiting
  rw [hphase] at hwaiting
  exact hwaiting

/-- In every run, from any use of the signals before it: the records are in order;
when `run` returns, the stop is recorded exactly if it was requested before the last
check; and when it returns without an error, every start has its exit and its hook. -/
theorem run_bookkeeping (config : ManagedApplicationConfig) (script : Nat → Turn) (gate : Bool)
    (before : List Move) (rounds : Nat) :
    let (outcome, s) := (run rounds).exec (Sup.start config script gate before)
    Bookkeeping s.trace ∧
      (∀ reason, outcome = .ok reason →
        starts s.trace = exits s.trace ∧ hooks .exitPost s.trace = exits s.trace) ∧
      (outcome ≠ .error .unfinished → (.stopped ∈ s.trace ↔ StopBeforeCheck s.trace)) ∧
      (outcome = .error .unfinished →
        .stopped ∉ s.trace ∧ rounds ≤ s.turns ∧ ∀ paused, .stopRequested paused ∉ s.trace) := by
  rcases hrun : (run rounds).exec (Sup.start config script gate before) with ⟨outcome, s⟩
  obtain ⟨-, l, hs, hend⟩ := run_ends config script gate before rounds hrun
  have hcounted := counted_of_after hs.accepted
  have hmem := stopped_mem_iff hs.accepted
  refine ⟨bookkeeping_of_after hs.accepted, ?_, ?_, ?_⟩
  · rintro reason rfl
    have hunexited := hcounted.unexited
    have hexitHook := hcounted.exitHook
    rw [Resolved.unexited hend] at hunexited
    rw [Resolved.exitHook hend] at hexitHook
    exact ⟨hunexited, hexitHook.symm⟩
  · intro hreturned
    cases outcome with
    | ok reason => exact hmem.trans (Resolved.stopped_iff hend)
    | error e =>
        cases e with
        | failed error => exact hmem.trans (Resolved.stopped_iff hend)
        | panicked => exact hend.elim
        | unfinished => exact absurd rfl hreturned
  · rintro rfl
    have hpending : Pending rounds l s := hend
    exact ⟨fun hin => hpending.phase_ne (hmem.mp hin), hpending.turns, hpending.unstopped⟩

end Ngsm.Supervisor
