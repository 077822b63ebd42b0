/-
# A paused supervisor starts nothing

The pause flag outlives the generation that was paused.  Whatever route leads back
to a spawn, it passes a wait that ends only unpaused and after a look at the stop
flag that saw none.  From there until the spawn the flag cannot change, because no
control is served, so the generation that starts belongs to an unpaused supervisor.
-/

import Mathlib.Data.List.Induction
import Ngsm.Supervisor.Lasting

namespace Ngsm.Supervisor

open Ngsm.Core Ngsm.Lib Ngsm.Lib.Prog

/-- The events with which a generation begins. -/
def Event.begins : Event → Bool
  | .attempt | .spawned _ => true
  | _ => false

/-- The last pause or continue that was applied. -/
def lastApplied (trace : List Event) : Bool :=
  trace.foldl (fun paused event => match event with
    | .applied pause => pause
    | _ => paused) false

/-- What the trace says about pauses: nothing is spawned with the flag set, between
an applied pause and the next beginning a continue is applied, and after a stop that
was requested while paused nothing begins. -/
structure PauseRespected (trace : List Event) : Prop where
  unpaused : .spawned true ∉ trace
  continued : ∀ before between after event, event.begins = true →
    trace = before ++ .applied true :: (between ++ event :: after) → .applied false ∈ between
  stopped : ∀ before after, trace = before ++ .stopRequested true :: after →
    ∀ event ∈ after, event.begins = false

/-- Nothing stands in the way of a beginning. -/
def Free (trace : List Event) : Prop :=
  lastApplied trace = false ∧ .stopRequested true ∉ trace

theorem lastApplied_append (trace : List Event) (event : Event) :
    lastApplied (trace ++ [event]) =
      match event with
      | .applied pause => pause
      | _ => lastApplied trace := by
  simp [lastApplied, List.foldl_append]

theorem lastApplied_of_not_applied (trace : List Event) {event : Event}
    (hevent : ∀ pause, event ≠ .applied pause) :
    lastApplied (trace ++ [event]) = lastApplied trace := by
  rw [lastApplied_append]
  split
  · rename_i pause
    exact absurd rfl (hevent pause)
  · rfl

/-- The last application after an applied pause is another pause, unless there is a
continue. -/
theorem continued_of_lastApplied (before between : List Event)
    (hlast : lastApplied (before ++ .applied true :: between) = false) :
    .applied false ∈ between := by
  induction between using List.reverseRecOn with
  | nil =>
      rw [lastApplied_append] at hlast
      cases hlast
  | append_singleton between event ih =>
      have hsplit : before ++ .applied true :: (between ++ [event]) =
          (before ++ .applied true :: between) ++ [event] := by
        simp
      rw [hsplit, lastApplied_append] at hlast
      split at hlast
      · subst hlast
        simp
      · exact List.mem_append_left _ (ih hlast)

/-- A prefix followed by one event is split where the prefix is, or at the event. -/
theorem append_singleton_split {α : Type} {xs ys : List α} {x y : α} {zs : List α}
    (h : xs ++ [x] = ys ++ y :: zs) :
    (zs = [] ∧ xs = ys ∧ x = y) ∨ ∃ zs', zs = zs' ++ [x] ∧ xs = ys ++ y :: zs' := by
  rcases List.eq_nil_or_concat zs with rfl | ⟨zs', z, rfl⟩
  · have hsame := List.append_inj' h rfl
    exact .inl ⟨rfl, hsame.1, by simpa using hsame.2⟩
  · have hconcat : xs ++ [x] = (ys ++ y :: zs') ++ [z] := by simpa using h
    have hsame := List.append_inj' hconcat rfl
    have hx : x = z := by simpa using hsame.2
    exact .inr ⟨zs', by rw [hx, List.concat_eq_append], hsame.1⟩

theorem PauseRespected.nil : PauseRespected [] where
  unpaused := List.not_mem_nil
  continued before between after event _ h := by simp at h
  stopped before after h := by simp at h

/-- An event may follow when it begins nothing, or when the way is free. -/
theorem PauseRespected.append {trace : List Event} (h : PauseRespected trace) (event : Event)
    (hunpaused : event ≠ .spawned true) (hfree : event.begins = true → Free trace) :
    PauseRespected (trace ++ [event]) where
  unpaused := by
    rw [List.mem_append, List.mem_singleton]
    rintro (hin | hin)
    · exact h.unpaused hin
    · exact hunpaused hin.symm
  continued before between after next hbegins hsplit := by
    have hassoc : trace ++ [event] = (before ++ .applied true :: between) ++ next :: after := by
      simpa using hsplit
    rcases append_singleton_split hassoc with ⟨-, htrace, rfl⟩ | ⟨after', -, htrace⟩
    · apply continued_of_lastApplied before between
      rw [← htrace]
      exact (hfree hbegins).1
    · exact h.continued before between after' next hbegins (by simpa using htrace)
  stopped before after hsplit := by
    rcases append_singleton_split hsplit with ⟨rfl, -, -⟩ | ⟨after', rfl, htrace⟩
    · exact fun _ hin => absurd hin List.not_mem_nil
    · intro next hin
      rcases List.mem_append.mp hin with hin | hin
      · exact h.stopped before after' htrace next hin
      · rw [List.mem_singleton] at hin
        subst hin
        by_contra hbegins
        refine (hfree (by simpa using hbegins)).2 ?_
        rw [htrace]
        simp

/-! ## The invariant -/

/-- The trace so far, with what the flags of the supervisor say about it. -/
structure Agrees (trace : List Event) (paused stopRequested : Bool) : Prop where
  respected : PauseRespected trace
  applied : lastApplied trace = true → paused = true ∨ stopRequested = true
  requested : ∀ flag, .stopRequested flag ∈ trace → stopRequested = true

def Gated (s : Sup) : Prop :=
  Agrees s.trace s.pause.paused s.stopRequested

/-- After a look that saw no stop, an unpaused supervisor is free. -/
def Looked (s : Sup) : Prop :=
  Gated s ∧ (s.pause.paused = false → Free s.trace)

/-- The supervisor is on the way to a spawn. -/
def Open (s : Sup) : Prop :=
  Looked s ∧ s.pause.paused = false

/-- The events that say nothing about pauses and stops. -/
def Event.neutral : Event → Bool
  | .stopRequested _ | .applied _ | .attempt | .spawned _ => false
  | _ => true

section Invariant

variable {trace : List Event} {paused stopRequested : Bool} {event : Event} {s : Sup}

theorem Event.neutral_not_applied (h : event.neutral = true) (pause : Bool) :
    event ≠ .applied pause := by
  rintro rfl
  cases h

theorem Event.neutral_not_stop (h : event.neutral = true) (flag : Bool) :
    event ≠ .stopRequested flag := by
  rintro rfl
  cases h

theorem Event.neutral_not_begins (h : event.neutral = true) : event.begins = false := by
  cases event <;> first | rfl | cases h

theorem Free.append (h : Free trace) (happlied : ∀ pause, event ≠ .applied pause)
    (hstop : event ≠ .stopRequested true) : Free (trace ++ [event]) := by
  refine ⟨?_, ?_⟩
  · rw [lastApplied_of_not_applied trace happlied]
    exact h.1
  · rw [List.mem_append, List.mem_singleton]
    rintro (hin | hin)
    · exact h.2 hin
    · exact hstop hin.symm

/-- Any event but an application and a stop leaves the flags in agreement. -/
theorem Agrees.append (h : Agrees trace paused stopRequested)
    (happlied : ∀ pause, event ≠ .applied pause) (hstop : ∀ flag, event ≠ .stopRequested flag)
    (hunpaused : event ≠ .spawned true) (hfree : event.begins = true → Free trace) :
    Agrees (trace ++ [event]) paused stopRequested where
  respected := h.respected.append event hunpaused hfree
  applied hlast := by
    refine h.applied ?_
    rw [← lastApplied_of_not_applied trace happlied]
    exact hlast
  requested flag hin := by
    rcases List.mem_append.mp hin with hin | hin
    · exact h.requested flag hin
    · exact absurd (List.mem_singleton.mp hin).symm (hstop flag)

theorem Agrees.append_neutral (h : Agrees trace paused stopRequested)
    (hevent : event.neutral = true) : Agrees (trace ++ [event]) paused stopRequested := by
  refine h.append (Event.neutral_not_applied hevent) (Event.neutral_not_stop hevent) ?_ ?_
  · rintro rfl
    cases hevent
  · rw [Event.neutral_not_begins hevent]
    nofun

theorem Agrees.stop (h : Agrees trace paused stopRequested) :
    Agrees (trace ++ [.stopRequested paused]) paused true :=
  ⟨h.respected.append _ nofun nofun, fun _ => .inr rfl, fun _ _ => rfl⟩

theorem Agrees.apply (h : Agrees trace paused stopRequested) (pause : Bool) :
    Agrees (trace ++ [.applied pause]) pause stopRequested where
  respected := h.respected.append _ nofun nofun
  applied hlast := by
    rw [lastApplied_append] at hlast
    exact .inl hlast
  requested flag hin := by
    rcases List.mem_append.mp hin with hin | hin
    · exact h.requested flag hin
    · cases List.mem_singleton.mp hin

theorem Gated.setStop (h : Gated s) : Gated s.setStop := by
  unfold Sup.setStop
  split
  · exact h
  · exact Agrees.stop h

theorem Gated.request (h : Gated s) (pause : Bool) : Gated (s.request pause) := by
  unfold Sup.request
  split
  · exact Agrees.append_neutral h rfl
  · exact h

theorem yielding_gated : Yielding Gated where
  turn _ h := h
  plant _ _ _ h := h
  stop _ h := h.setStop
  send _ _ _ h := h
  request _ pause h := h.request pause
  cancel _ _ h := h
  exit _ _ _ h := h
  terminal _ _ h := h
  hook _ _ _ h := Agrees.append_neutral h rfl

theorem throughout_gated : Throughout Gated where
  toSteady := yielding_gated.steady
  phase _ _ _ h := h
  kept s state hflag h := by
    unfold Gated
    rw [hflag]
    exact h
  applied _ state h := Agrees.apply h state.paused
  trouble _ _ _ h := Agrees.append_neutral h rfl
  own _ _ _ _ _ _ h := h
  record s event hevent h := by
    refine Agrees.append_neutral h ?_
    cases event <;> first | rfl | cases hevent
  released s state hstop h := ⟨h.respected, fun _ => .inr hstop, h.requested⟩
  queue _ _ h := h
  draining _ _ h := h
  drained _ _ h := Agrees.append_neutral h rfl
  receiving _ _ h := h

/-- A stop of an unpaused supervisor closes nothing. -/
theorem Looked.setStop (h : Looked s) : Looked s.setStop := by
  refine ⟨h.1.setStop, ?_⟩
  unfold Sup.setStop
  split
  · exact h.2
  · intro hpaused
    refine (h.2 hpaused).append nofun ?_
    simp only at hpaused
    rw [hpaused]
    nofun

theorem Looked.request (h : Looked s) (pause : Bool) : Looked (s.request pause) := by
  refine ⟨h.1.request pause, ?_⟩
  unfold Sup.request
  split
  · exact fun hpaused => (h.2 hpaused).append nofun nofun
  · exact h.2

theorem steady_looked : Steady Looked :=
  Yielding.steady {
    turn _ h := h
    plant _ _ _ h := h
    stop _ h := h.setStop
    send _ _ _ h := h
    request _ pause h := h.request pause
    cancel _ _ h := h
    exit _ _ _ h := h
    terminal _ _ h := h
    hook _ _ _ h := ⟨Agrees.append_neutral h.1 rfl, fun hpaused => (h.2 hpaused).append nofun nofun⟩ }

theorem gate_pause : Gate Gated Looked Open where
  lasting := throughout_gated.toLasting
  serves := throughout_gated.serves
  steadyK := steady_looked
  clear s h hstop := by
    refine ⟨h, fun hpaused => ⟨?_, fun hin => ?_⟩⟩
    · by_contra hlast
      rcases h.applied (by simpa using hlast) with hflag | hflag
      · rw [hpaused] at hflag
        cases hflag
      · rw [hstop] at hflag
        cases hflag
    · have hflag := h.requested true hin
      rw [hstop] at hflag
      cases hflag
  weakenK _ h := h.1
  steadyJ := steady_looked.and (steady_pause fun state => state.paused = false)
  enter _ h hpaused := ⟨h, hpaused⟩
  attempt s _ h := by
    refine ⟨⟨Agrees.append h.1.1 nofun nofun nofun fun _ => h.1.2 h.2, fun hpaused => ?_⟩, h.2⟩
    exact (h.1.2 hpaused).append nofun nofun
  spawn s h := by
    rw [h.2]
    refine ⟨⟨Agrees.append h.1.1 nofun nofun nofun fun _ => h.1.2 h.2, fun hpaused => ?_⟩, h.2⟩
    exact (h.1.2 hpaused).append nofun nofun
  weakenJ _ h := h.1.1

theorem gated_start (config : ManagedApplicationConfig) (script : Nat → Turn) (gate : Bool)
    (before : List Move) : Gated (Sup.start config script gate before) := by
  refine yielding_gated.moves before ?_
  exact ⟨.nil, nofun, nofun⟩

end Invariant

/-- In every run, from any use of the signals before it: the trace respects the
pauses, and a run in which a stop was requested does not go on for ever; it is
unfinished only when each of its rounds has passed without a stop request. -/
theorem run_respects_pause (config : ManagedApplicationConfig) (script : Nat → Turn) (gate : Bool)
    (before : List Move) (rounds : Nat) :
    let (outcome, s) := (run rounds).exec (Sup.start config script gate before)
    PauseRespected s.trace ∧
      outcome ≠ .error .panicked ∧
      (outcome = .error .unfinished →
        rounds ≤ s.turns ∧ ∀ paused, .stopRequested paused ∉ s.trace) := by
  have hrun := throughout_gated.wp_run gate_pause rounds (gated_start config script gate before)
  unfold Prog.wp at hrun
  generalize (run rounds).exec (Sup.start config script gate before) = result at hrun ⊢
  obtain ⟨outcome, s⟩ := result
  cases outcome with
  | ok reason => exact ⟨hrun.respected, nofun, nofun⟩
  | error e =>
      rcases hrun with ⟨⟨error, rfl⟩, hgated⟩ | ⟨rfl, hgated, hstop, hturns⟩
      · exact ⟨hgated.respected, nofun, nofun⟩
      · refine ⟨hgated.respected, nofun, fun _ =>
          ⟨Nat.le_trans (Nat.le_add_left _ _) hturns, fun paused hin => ?_⟩⟩
        have hflag := hgated.requested paused hin
        rw [hstop] at hflag
        cases hflag

end Ngsm.Supervisor
