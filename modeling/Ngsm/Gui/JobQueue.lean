/-
# The job queue of the worker

The windows hand their jobs to one worker through a bounded queue.  A refresh is asked for
often, so a flag says that one is on its way, and a refresh that finds the flag raised is
not queued a second time: it counts as sent.

Any number of threads send at once, and the worker takes jobs meanwhile.  A send of a
refresh is up to three atomic steps: it raises the flag, tries the queue, and lowers the
flag again when the queue refused.
-/

import Mathlib.Logic.Function.Basic
import Ngsm.Lib.Fair

namespace Ngsm.Gui.JobQueue

open Ngsm.Lib

variable {ι π : Type}

/-- A job of the worker.  What the other jobs ask for plays no part here. -/
inductive Job (π : Type) where
  | refresh
  | other (payload : π)
deriving DecidableEq, Repr

def Job.isRefresh : Job π → Bool
  | .refresh => true
  | .other _ => false

inductive JobSendError where
  | full
  | disconnected
deriving DecidableEq, Repr

/-- Maximum number of jobs held in the worker queue. -/
def jobChannelCap : ℕ :=
  16

/-- Where a thread stands in `JobSender::send`. -/
inductive SenderPc (π : Type) where
  | idle
  | entered (job : Job π)
  /-- It raised the flag for its refresh. -/
  | marked
  /-- The queue refused its refresh, and the flag is still raised. -/
  | failed (error : JobSendError)
  | returned (result : Except JobSendError Unit)
deriving DecidableEq

/-- Where the worker stands in `worker_loop`. -/
inductive WorkerPc (π : Type) where
  | waiting
  /-- It took a refresh and has not lowered the flag. -/
  | received
  | ready (job : Job π)
  | executing (job : Job π)
  /-- The thread has exited, and the receiver is gone. -/
  | gone
deriving DecidableEq

/-- The queue with all who use it. -/
structure Channel (ι π : Type) where
  pendingRefresh : Bool
  queue : List (Job π)
  senders : ι → SenderPc π
  worker : WorkerPc π

/-- `spawn_worker`. -/
def spawnWorker : Channel ι π where
  pendingRefresh := false
  queue := []
  senders := fun _ => .idle
  worker := .waiting

/-- The atomic steps: of the threads that send, of the worker, and the end of the worker. -/
inductive Action (ι π : Type) where
  | call (thread : ι) (job : Job π)
  | swap (thread : ι)
  | trySend (thread : ι)
  | clear (thread : ι)
  | recv
  | lower
  | start
  | finish
  | exit
deriving DecidableEq

/-- `SyncSender::try_send`: the queue with one job more, or why it was refused. -/
def trySend (channel : Channel ι π) (job : Job π) : Except JobSendError (List (Job π)) :=
  match channel.worker with
  | .gone => .error .disconnected
  | _ =>
      if channel.queue.length < jobChannelCap then .ok (channel.queue ++ [job])
      else .error .full

theorem trySend_eq_ok {channel : Channel ι π} {job : Job π} {queue : List (Job π)}
    (h : trySend channel job = .ok queue) : queue = channel.queue ++ [job] := by
  unfold trySend at h
  split at h
  · cases h
  · split at h
    · cases h
      rfl
    · cases h

section

variable [DecidableEq ι]

/-- A thread goes on. -/
def goto (channel : Channel ι π) (thread : ι) (pc : SenderPc π) : Channel ι π :=
  { channel with senders := Function.update channel.senders thread pc }

/-- One atomic step, when it is possible. -/
def step (channel : Channel ι π) : Action ι π → Option (Channel ι π)
  | .call thread job =>
      match channel.senders thread with
      | .idle | .returned _ => some (goto channel thread (.entered job))
      | _ => none
  | .swap thread =>
      match channel.senders thread with
      | .entered .refresh =>
          -- an earlier refresh is still pending: discard this duplicate
          if channel.pendingRefresh then some (goto channel thread (.returned (.ok ())))
          else some { goto channel thread .marked with pendingRefresh := true }
      | _ => none
  | .trySend thread =>
      match channel.senders thread with
      | .entered (.other payload) =>
          match trySend channel (.other payload) with
          | .ok queue => some { goto channel thread (.returned (.ok ())) with queue }
          | .error error => some (goto channel thread (.returned (.error error)))
      | .marked =>
          match trySend channel .refresh with
          | .ok queue => some { goto channel thread (.returned (.ok ())) with queue }
          | .error error => some (goto channel thread (.failed error))
      | _ => none
  | .clear thread =>
      match channel.senders thread with
      | .failed error =>
          some { goto channel thread (.returned (.error error)) with pendingRefresh := false }
      | _ => none
  | .recv =>
      match channel.worker, channel.queue with
      | .waiting, .refresh :: queue => some { channel with queue, worker := .received }
      | .waiting, .other payload :: queue =>
          some { channel with queue, worker := .ready (.other payload) }
      | _, _ => none
  | .lower =>
      match channel.worker with
      | .received => some { channel with pendingRefresh := false, worker := .ready .refresh }
      | _ => none
  | .start =>
      match channel.worker with
      | .ready job => some { channel with worker := .executing job }
      | _ => none
  | .finish =>
      match channel.worker with
      | .executing _ => some { channel with worker := .waiting }
      | _ => none
  | .exit =>
      match channel.worker with
      | .gone => none
      | _ => some { channel with queue := [], worker := .gone }

/-! ## What a step can do -/

/-- The steps, each with what made it possible. -/
inductive Steps (channel : Channel ι π) : Action ι π → Channel ι π → Prop
  | call (thread : ι) (job : Job π) (hpc : ∀ pc, channel.senders thread = pc →
      pc = .idle ∨ ∃ result, pc = .returned result) :
      Steps channel (.call thread job) (goto channel thread (.entered job))
  | coalesce (thread : ι) (hpc : channel.senders thread = .entered .refresh)
      (hflag : channel.pendingRefresh = true) :
      Steps channel (.swap thread) (goto channel thread (.returned (.ok ())))
  | mark (thread : ι) (hpc : channel.senders thread = .entered .refresh)
      (hflag : channel.pendingRefresh = false) :
      Steps channel (.swap thread) { goto channel thread .marked with pendingRefresh := true }
  | sendOther (thread : ι) (payload : π)
      (hpc : channel.senders thread = .entered (.other payload)) :
      Steps channel (.trySend thread)
        { goto channel thread (.returned (.ok ())) with
          queue := channel.queue ++ [.other payload] }
  | refuseOther (thread : ι) (payload : π) (error : JobSendError)
      (hpc : channel.senders thread = .entered (.other payload)) :
      Steps channel (.trySend thread) (goto channel thread (.returned (.error error)))
  | sendRefresh (thread : ι) (hpc : channel.senders thread = .marked) :
      Steps channel (.trySend thread)
        { goto channel thread (.returned (.ok ())) with queue := channel.queue ++ [.refresh] }
  | refuseRefresh (thread : ι) (error : JobSendError)
      (hpc : channel.senders thread = .marked) :
      Steps channel (.trySend thread) (goto channel thread (.failed error))
  | clear (thread : ι) (error : JobSendError)
      (hpc : channel.senders thread = .failed error) :
      Steps channel (.clear thread)
        { goto channel thread (.returned (.error error)) with pendingRefresh := false }
  | recvRefresh (queue : List (Job π)) (hworker : channel.worker = .waiting)
      (hqueue : channel.queue = .refresh :: queue) :
      Steps channel .recv { channel with queue, worker := .received }
  | recvOther (payload : π) (queue : List (Job π)) (hworker : channel.worker = .waiting)
      (hqueue : channel.queue = .other payload :: queue) :
      Steps channel .recv { channel with queue, worker := .ready (.other payload) }
  | lower (hworker : channel.worker = .received) :
      Steps channel .lower
        { channel with pendingRefresh := false, worker := .ready .refresh }
  | start (job : Job π) (hworker : channel.worker = .ready job) :
      Steps channel .start { channel with worker := .executing job }
  | finish (job : Job π) (hworker : channel.worker = .executing job) :
      Steps channel .finish { channel with worker := .waiting }
  | exit : Steps channel .exit { channel with queue := [], worker := .gone }

theorem step_cases {channel channel' : Channel ι π} {a : Action ι π}
    (h : step channel a = some channel') : Steps channel a channel' := by
  cases a with
  | call thread job =>
      simp only [step] at h
      split at h
      · rename_i hpc
        cases h
        exact .call thread job fun pc heq => .inl (heq.symm.trans hpc)
      · rename_i result hpc
        cases h
        exact .call thread job fun pc heq => .inr ⟨result, heq.symm.trans hpc⟩
      · cases h
  | swap thread =>
      simp only [step] at h
      split at h
      · rename_i hpc
        split at h
        · rename_i hflag
          cases h
          exact .coalesce thread hpc hflag
        · rename_i hflag
          cases h
          exact .mark thread hpc (Bool.eq_false_iff.mpr hflag)
      · cases h
  | trySend thread =>
      simp only [step] at h
      split at h
      · rename_i payload hpc
        split at h
        · rename_i queue hsend
          cases h
          rw [trySend_eq_ok hsend]
          exact .sendOther thread payload hpc
        · rename_i error hsend
          cases h
          exact .refuseOther thread payload error hpc
      · rename_i hpc
        split at h
        · rename_i queue hsend
          cases h
          rw [trySend_eq_ok hsend]
          exact .sendRefresh thread hpc
        · rename_i error hsend
          cases h
          exact .refuseRefresh thread error hpc
      · cases h
  | clear thread =>
      simp only [step] at h
      split at h
      · rename_i error hpc
        cases h
        exact .clear thread error hpc
      · cases h
  | recv =>
      simp only [step] at h
      split at h
      · rename_i queue hworker hqueue
        cases h
        exact .recvRefresh queue hworker hqueue
      · rename_i payload queue hworker hqueue
        cases h
        exact .recvOther payload queue hworker hqueue
      · cases h
  | lower =>
      simp only [step] at h
      split at h
      · rename_i hworker
        cases h
        exact .lower hworker
      · cases h
  | start =>
      simp only [step] at h
      split at h
      · rename_i job hworker
        cases h
        exact .start job hworker
      · cases h
  | finish =>
      simp only [step] at h
      split at h
      · rename_i job hworker
        cases h
        exact .finish job hworker
      · cases h
  | exit =>
      simp only [step] at h
      split at h
      · cases h
      · cases h
        exact .exit

/-! ## Whose step it is -/

/-- The steps of a thread that is in a send; whether it calls is up to its program. -/
def OfSender (thread : ι) (a : Action ι π) : Prop :=
  a = .swap thread ∨ a = .trySend thread ∨ a = .clear thread

/-- The steps of the worker while it lives. -/
def OfWorker (a : Action ι π) : Prop :=
  a = .recv ∨ a = .lower ∨ a = .start ∨ a = .finish

/-- The thread is in a send of a refresh. -/
inductive SenderPc.Refreshing : SenderPc π → Prop
  | entered : Refreshing (.entered .refresh)
  | marked : Refreshing .marked
  | failed (error : JobSendError) : Refreshing (.failed error)

/-- The thread raised the flag, and its refresh is not in the queue. -/
inductive SenderPc.Holding : SenderPc π → Prop
  | marked : Holding .marked
  | failed (error : JobSendError) : Holding (.failed error)

/-! ## What the flag stands for -/

section

variable {channel channel' : Channel ι π} {a : Action ι π} {thread : ι}

@[simp]
theorem goto_same (pc : SenderPc π) : (goto channel thread pc).senders thread = pc :=
  Function.update_self ..

theorem goto_other {other : ι} (pc : SenderPc π) (hother : other ≠ thread) :
    (goto channel thread pc).senders other = channel.senders other :=
  Function.update_of_ne hother ..

/-- The steps of the others leave a thread where it is in its send. -/
theorem Steps.senders_eq (h : Steps channel a channel')
    (hpc : (channel.senders thread).Refreshing) (hother : ¬ OfSender thread a) :
    channel'.senders thread = channel.senders thread := by
  have hmoved : ∀ other pc, (a = .swap other ∨ a = .trySend other ∨ a = .clear other) →
      (goto channel other pc).senders thread = channel.senders thread := by
    intro other pc haction
    apply goto_other
    rintro rfl
    exact hother haction
  cases h with
  | call other job hidle =>
      apply goto_other
      rintro rfl
      rcases hidle _ rfl with hidle | ⟨result, hidle⟩
      · rw [hidle] at hpc
        cases hpc
      · rw [hidle] at hpc
        cases hpc
  | coalesce other _ _ => exact hmoved other _ (.inl rfl)
  | mark other _ _ => exact hmoved other _ (.inl rfl)
  | sendOther other _ _ => exact hmoved other _ (.inr (.inl rfl))
  | refuseOther other _ _ _ => exact hmoved other _ (.inr (.inl rfl))
  | sendRefresh other _ => exact hmoved other _ (.inr (.inl rfl))
  | refuseRefresh other _ _ => exact hmoved other _ (.inr (.inl rfl))
  | clear other _ _ => exact hmoved other _ (.inr (.inr rfl))
  | recvRefresh _ _ _ => rfl
  | recvOther _ _ _ _ => rfl
  | lower _ => rfl
  | start _ _ => rfl
  | finish _ _ => rfl
  | exit => rfl

/-- A refresh is in the queue, or the worker took one and has not lowered the flag. -/
def Queued (channel : Channel ι π) : Prop :=
  .refresh ∈ channel.queue ∨ channel.worker = .received

/-- While the flag is raised, a thread that raised it is still in its send, or a refresh is
queued. -/
def FlagStands (channel : Channel ι π) : Prop :=
  channel.worker ≠ .gone → channel.pendingRefresh = true →
    (∃ thread, (channel.senders thread).Holding) ∨ Queued channel

/-- A thread whose refresh was refused can only lower the flag. -/
theorem Steps.of_failed {error : JobSendError} (h : Steps channel a channel')
    (hmine : OfSender thread a) (hpc : channel.senders thread = .failed error) :
    a = .clear thread := by
  rcases hmine with rfl | rfl | rfl
  · cases h with
    | coalesce _ hpc' _ => cases hpc.symm.trans hpc'
    | mark _ hpc' _ => cases hpc.symm.trans hpc'
  · cases h with
    | sendOther _ _ hpc' => cases hpc.symm.trans hpc'
    | refuseOther _ _ _ hpc' => cases hpc.symm.trans hpc'
    | sendRefresh _ hpc' => cases hpc.symm.trans hpc'
    | refuseRefresh _ _ hpc' => cases hpc.symm.trans hpc'
  · rfl

/-- A thread that raised the flag queues its refresh or is refused. -/
theorem Steps.of_marked (h : Steps channel a channel') (hmine : OfSender thread a)
    (hpc : channel.senders thread = .marked) :
    Queued channel' ∨ ∃ error, channel'.senders thread = .failed error := by
  rcases hmine with rfl | rfl | rfl
  · cases h with
    | coalesce _ hpc' _ => cases hpc.symm.trans hpc'
    | mark _ hpc' _ => cases hpc.symm.trans hpc'
  · cases h with
    | sendOther _ _ hpc' => cases hpc.symm.trans hpc'
    | refuseOther _ _ _ hpc' => cases hpc.symm.trans hpc'
    | sendRefresh _ _ => exact .inl (.inl (by simp))
    | refuseRefresh _ error _ => exact .inr ⟨error, goto_same _⟩
  · cases h with
    | clear _ _ hpc' => cases hpc.symm.trans hpc'

/-- A send of a refresh that returns without error queued its refresh, or found the flag
raised. -/
theorem Steps.of_returned (h : Steps channel a channel')
    (hrefreshing : (channel.senders thread).Refreshing)
    (hreturned : channel'.senders thread = .returned (.ok ())) :
    Queued channel' ∨ (a = .swap thread ∧ channel.pendingRefresh = true) := by
  by_cases hmine : OfSender thread a
  · rcases hmine with rfl | rfl | rfl
    · cases h with
      | coalesce _ _ hflag => exact .inr ⟨rfl, hflag⟩
      | mark _ _ _ => cases (goto_same _).symm.trans hreturned
    · cases h with
      | sendOther _ payload hpc =>
          rw [hpc] at hrefreshing
          cases hrefreshing
      | refuseOther _ payload error hpc =>
          rw [hpc] at hrefreshing
          cases hrefreshing
      | sendRefresh _ _ => exact .inl (.inl (by simp))
      | refuseRefresh _ error _ => cases (goto_same _).symm.trans hreturned
    · cases h with
      | clear _ error _ => cases (goto_same _).symm.trans hreturned
  · rw [h.senders_eq hrefreshing hmine] at hreturned
    rw [hreturned] at hrefreshing
    cases hrefreshing

theorem Steps.flagStands (h : Steps channel a channel') (hflag : FlagStands channel) :
    FlagStands channel' := by
  -- another thread that goes on from where it holds no flag takes nothing away
  have hgoto : ∀ other pc, ¬ (channel.senders other).Holding →
      (∃ thread, (channel.senders thread).Holding) →
      ∃ thread, ((goto channel other pc).senders thread).Holding := by
    rintro other pc hnot ⟨thread, hholding⟩
    have hne : thread ≠ other := by
      rintro rfl
      exact hnot hholding
    refine ⟨thread, ?_⟩
    rw [goto_other pc hne]
    exact hholding
  intro halive hraised
  cases h with
  | call other job hidle =>
      refine (hflag halive hraised).imp_left (hgoto other _ fun hholding => ?_)
      rcases hidle _ rfl with hidle | ⟨result, hidle⟩
      · rw [hidle] at hholding
        cases hholding
      · rw [hidle] at hholding
        cases hholding
  | coalesce other hpc _ =>
      refine (hflag halive hraised).imp_left (hgoto other _ fun hholding => ?_)
      rw [hpc] at hholding
      cases hholding
  | mark other _ _ =>
      refine .inl ⟨other, ?_⟩
      change ((goto channel other .marked).senders other).Holding
      rw [goto_same]
      exact .marked
  | sendOther other payload hpc =>
      refine (hflag halive hraised).imp (hgoto other _ fun hholding => ?_)
        (.imp_left (List.mem_append_left _))
      rw [hpc] at hholding
      cases hholding
  | refuseOther other payload error hpc =>
      refine (hflag halive hraised).imp_left (hgoto other _ fun hholding => ?_)
      rw [hpc] at hholding
      cases hholding
  | sendRefresh other _ => exact .inr (.inl (by simp))
  | refuseRefresh other error _ =>
      refine .inl ⟨other, ?_⟩
      rw [goto_same]
      exact .failed error
  | clear _ _ _ => cases hraised
  | recvRefresh _ _ _ => exact .inr (.inr rfl)
  | recvOther payload queue hworker hqueue =>
      refine (hflag (by simp [hworker]) hraised).imp_right fun hqueued => ?_
      rcases hqueued with hmem | hreceived
      · rw [hqueue] at hmem
        exact .inl (by simpa using hmem)
      · rw [hworker] at hreceived
        cases hreceived
  | lower _ => cases hraised
  | start job hworker =>
      refine (hflag (by simp [hworker]) hraised).imp_right (.imp_right fun hreceived => ?_)
      rw [hworker] at hreceived
      cases hreceived
  | finish job hworker =>
      refine (hflag (by simp [hworker]) hraised).imp_right (.imp_right fun hreceived => ?_)
      rw [hworker] at hreceived
      cases hreceived
  | exit => exact absurd rfl halive

end

end

end Ngsm.Gui.JobQueue
