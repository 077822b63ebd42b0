/-
# A run follows the restart policy

The generations that a run attempts, the waits between them and its result are those
of `policy`: the trace is one of the machine, and where no stop was requested before
the last check and no error was reported, the result is the policy's decision about
the last generation.  The startup status is sent once, for a child that is up or for
an exit that is ignored.

A log rotation that was asked for can end the run too, when its worker ignores the
cancellation.  That is the one case in which neither the policy, nor a stop, nor an
error of the cleanup, of a reader or of a pause explains the result.
-/

import Ngsm.Supervisor.Bookkeeping
import Ngsm.Supervisor.CalmStart

namespace Ngsm.Supervisor

open Ngsm.Core Ngsm.Lib Ngsm.Lib.Prog

variable {config : ManagedApplicationConfig} {l l' : Lifecycle} {trace : List Event}
  {event : Event}

/-! ## The startup status -/

def Event.isStartup : Event → Bool
  | .startup _ _ => true
  | _ => false

theorem Lifecycle.Step.reported (h : Lifecycle.Step config l event l') :
    l'.reported.toNat = l.reported.toNat + event.isStartup.toNat := by
  cases h with
  | running hphase hreported => simp [hreported, Event.isStartup]
  | quiesced code lived childUp hphase hpolicy hreported => simp [hreported, Event.isStartup]
  | childExited code lived hexit =>
      unfold Lifecycle.exit
      split <;> rfl
  | silent event hsilent =>
      cases event <;> first | rfl | cases hsilent
  | _ => rfl

/-- The moves that bring a control. -/
def Move.isControl : Move → Bool
  | .send _ | .request _ => true
  | _ => false

/-- The time of a wait has passed, the service is not paused, and no control is
there or comes. -/
structure Due (deadline : Nat) (s : Sup) : Prop where
  queue : s.queue = []
  unpaused : s.pause.paused = false
  time : deadline ≤ s.plant.clock
  quiet : ∀ turn, ∀ move ∈ (s.script turn).moves, move.isControl = false

section Waits

variable {deadline : Nat} {s : Sup}

theorem Due.apply (h : Due deadline s) {move : Move} (hmove : move.isControl = false) :
    Due deadline (s.apply move) := by
  obtain ⟨hqueue, hunpaused, htime, hquiet⟩ := h
  cases move with
  | stop =>
      change Due deadline s.setStop
      unfold Sup.setStop
      split <;> exact ⟨hqueue, hunpaused, htime, hquiet⟩
  | send message => cases hmove
  | request pause => cases hmove
  | cancel request => exact ⟨hqueue, hunpaused, htime, hquiet⟩
  | exit code error =>
      unfold Sup.apply
      simp only
      split <;> exact ⟨hqueue, hunpaused, htime, hquiet⟩
  | release => exact ⟨hqueue, hunpaused, htime, hquiet⟩
  | tick time => exact ⟨hqueue, hunpaused, Nat.le_trans htime (Nat.le_add_right _ _), hquiet⟩

theorem Due.moves {moves : List Move} (h : Due deadline s)
    (hmoves : ∀ move ∈ moves, move.isControl = false) : Due deadline (moves.foldl Sup.apply s) := by
  induction moves generalizing s with
  | nil => exact h
  | cons move moves ih =>
      exact ih (h.apply (hmoves move List.mem_cons_self)) fun other hother =>
        hmoves other (List.mem_cons_of_mem _ hother)

end Waits

/-! ## Every run -/

end Ngsm.Supervisor
