/-
# Every refresh that was sent is executed

A refresh that finds the flag raised counts as sent although it is not queued: the one that
the flag stands for will run after it.  That one may still be refused by a full queue, and
then nothing runs for the other.  This is the only way to lose a refresh.

Threads in a send and the worker are treated fairly; when a thread sends, and what, is up
to it.
-/

import Ngsm.Gui.JobQueue
import Ngsm.Lib.Fair

namespace Ngsm.Gui.JobQueue

open Ngsm.Lib

variable {ι π : Type} [DecidableEq ι]

/-- A run of the program: every thread in a send goes on, and so does the worker. -/
structure Run (ι π : Type) [DecidableEq ι] extends Behaviour (@step ι π _) where
  init : state 0 = spawnWorker
  senders_fair : ∀ thread, toBehaviour.WeaklyFair (OfSender thread)
  worker_fair : toBehaviour.WeaklyFair OfWorker

namespace Run

/-- The execution of a refresh starts in this moment. -/
def StartsRefresh (run : Run ι π) (n : ℕ) : Prop :=
  run.act n = some .start ∧ (run.state n).worker = .ready .refresh

/-- A send of a refresh begins in the first moment and returns in the second, without
error. -/
structure Sent (run : Run ι π) (thread : ι) (began n : ℕ) : Prop where
  later : began < n
  call : run.act began = some (.call thread .refresh)
  during : ∀ m, began < m → m ≤ n → ((run.state m).senders thread).Refreshing
  returned : (run.state (n + 1)).senders thread = .returned (.ok ())

/-- While the worker stays alive, every refresh that was sent is executed after its send
began. -/
def Covered (run : Run ι π) : Prop :=
  ∀ thread began n, run.Sent thread began n → (∀ m, (run.state m).worker ≠ .gone) →
    ∃ m, began < m ∧ run.StartsRefresh m

/-- In this moment a thread whose refresh the queue refused lowers the flag, and since it
raised the flag another refresh was discarded as a duplicate. -/
def ClearsRelied (run : Run ι π) (n : ℕ) : Prop :=
  ∃ thread other m, run.act n = some (.clear thread) ∧ m < n ∧
    (∀ k, m ≤ k → k ≤ n → ((run.state k).senders thread).Holding) ∧
    run.act m = some (.swap other) ∧ (run.state m).pendingRefresh = true

variable {run : Run ι π} {thread : ι} {n : ℕ}

theorem flagStands (run : Run ι π) : ∀ n, FlagStands (run.state n) := by
  refine run.invariant FlagStands ?_ fun _ _ _ hflag hstep => (step_cases hstep).flagStands hflag
  rw [run.init]
  intro _ hraised
  cases hraised

/-! ## A thread that holds the flag goes on -/

/-- What holds of a channel and is kept by the steps that are not of one process holds until
the process acts. -/
theorem next_of_not_actsAt {mine : Action ι π → Prop} (P : Channel ι π → Prop)
    (hkeep : ∀ channel a channel', P channel → ¬ mine a → Steps channel a channel' → P channel')
    (hP : P (run.state n)) (hnot : ¬ run.ActsAt mine n) : P (run.state (n + 1)) := by
  cases hact : run.act n with
  | none =>
      rw [run.next_none n hact]
      exact hP
  | some a =>
      exact hkeep _ a _ hP (fun hmine => hnot ⟨a, hmine, hact⟩)
        (step_cases (run.next_some n a hact))

/-- A thread that is in a send of a refresh takes its next step, and stays where it is until
then. -/
theorem exists_next_step {pc : SenderPc π} (hrefreshing : pc.Refreshing)
    (henabled : ∀ channel : Channel ι π, channel.senders thread = pc →
      Enabled step (OfSender thread) channel)
    (hpc : (run.state n).senders thread = pc) :
    ∃ m a, n ≤ m ∧ OfSender thread a ∧ run.act m = some a ∧
      Steps (run.state m) a (run.state (m + 1)) ∧
      ∀ k, n ≤ k → k ≤ m → (run.state k).senders thread = pc := by
  have hkeep : ∀ channel a channel', channel.senders thread = pc → ¬ OfSender thread a →
      Steps channel a channel' → channel'.senders thread = pc := by
    intro channel a channel' heq hother hsteps
    rw [hsteps.senders_eq (by rw [heq]; exact hrefreshing) hother, heq]
  obtain ⟨m, hm, ⟨a, hmine, hact⟩, huntil⟩ := Behaviour.acts_of_enabled (run.senders_fair thread)
    (fun channel => channel.senders thread = pc) henabled
    (fun m hpc hnot => next_of_not_actsAt _ hkeep hpc hnot) hpc
  exact ⟨m, a, hm, hmine, hact, step_cases (run.next_some m a hact), huntil⟩

/-- A thread whose refresh was refused lowers the flag. -/
theorem exists_clear {error : JobSendError}
    (hpc : (run.state n).senders thread = .failed error) :
    ∃ m, n ≤ m ∧ run.act m = some (.clear thread) ∧
      ∀ k, n ≤ k → k ≤ m → ((run.state k).senders thread).Holding := by
  obtain ⟨m, a, hm, hmine, hact, hsteps, huntil⟩ :=
    exists_next_step (.failed error) (fun channel hpc => ⟨.clear thread, .inr (.inr rfl), by
      simp [step, hpc]⟩) hpc
  have hclear := hsteps.of_failed hmine (huntil m hm le_rfl)
  refine ⟨m, hm, hclear ▸ hact, fun k hk hkm => ?_⟩
  rw [huntil k hk hkm]
  exact .failed error

/-- A thread that holds the flag queues its refresh, or lowers the flag while it holds it. -/
theorem queued_or_clears (hholding : ((run.state n).senders thread).Holding) :
    ∃ m, n ≤ m ∧ (Queued (run.state m) ∨
      (run.act m = some (.clear thread) ∧
        ∀ k, n ≤ k → k ≤ m → ((run.state k).senders thread).Holding)) := by
  generalize hpc : (run.state n).senders thread = pc at hholding
  cases hholding with
  | failed error =>
      obtain ⟨m, hm, hclear, huntil⟩ := exists_clear hpc
      exact ⟨m, hm, .inr ⟨hclear, huntil⟩⟩
  | marked =>
      have henabled : ∀ channel : Channel ι π, channel.senders thread = .marked →
          Enabled step (OfSender thread) channel := by
        intro channel hmarked
        refine ⟨.trySend thread, .inr (.inl rfl), ?_⟩
        simp only [step, hmarked]
        cases trySend channel .refresh <;> rfl
      obtain ⟨m, a, hm, hmine, -, hsteps, huntil⟩ := exists_next_step .marked henabled hpc
      rcases hsteps.of_marked hmine (huntil m hm le_rfl) with hqueued | ⟨error, hfailed⟩
      · exact ⟨m + 1, by omega, .inl hqueued⟩
      · obtain ⟨m', hm', hclear, huntil'⟩ := exists_clear hfailed
        refine ⟨m', by omega, .inr ⟨hclear, fun k hk hkm => ?_⟩⟩
        by_cases hbefore : k ≤ m
        · rw [huntil k hk hbefore]
          exact .marked
        · exact huntil' k (by omega) hkm

end Run

/-! ## The worker comes to a refresh -/

section

variable {channel channel' : Channel ι π} {a : Action ι π}

/-- The worker lives, and a refresh is queued or about to be executed. -/
structure Pending (channel : Channel ι π) : Prop where
  alive : channel.worker ≠ .gone
  refresh : Queued channel ∨ channel.worker = .ready .refresh

/-- The steps that the worker takes before it waits for a job again. -/
def WorkerPc.remaining : WorkerPc π → ℕ
  | .waiting | .gone => 0
  | .executing _ => 1
  | .ready _ | .received => 2

/-- The steps, at most, until the worker starts a refresh. -/
def distance (channel : Channel ι π) : ℕ :=
  match channel.worker with
  | .received => 2
  | .ready .refresh => 1
  | pc => 4 * channel.queue.findIdx Job.isRefresh + pc.remaining + 3

/-- The others only add jobs behind those in the queue. -/
theorem Steps.of_others (h : Steps channel a channel') (hother : ¬ OfWorker a)
    (halive : channel'.worker ≠ .gone) :
    channel'.worker = channel.worker ∧ ∃ more, channel'.queue = channel.queue ++ more := by
  cases h with
  | call _ _ _ => exact ⟨rfl, [], (List.append_nil _).symm⟩
  | coalesce _ _ _ => exact ⟨rfl, [], (List.append_nil _).symm⟩
  | mark _ _ _ => exact ⟨rfl, [], (List.append_nil _).symm⟩
  | sendOther _ payload _ => exact ⟨rfl, [.other payload], rfl⟩
  | refuseOther _ _ _ _ => exact ⟨rfl, [], (List.append_nil _).symm⟩
  | sendRefresh _ _ => exact ⟨rfl, [.refresh], rfl⟩
  | refuseRefresh _ _ _ => exact ⟨rfl, [], (List.append_nil _).symm⟩
  | clear _ _ _ => exact ⟨rfl, [], (List.append_nil _).symm⟩
  | recvRefresh _ _ _ => exact absurd (.inl rfl) hother
  | recvOther _ _ _ _ => exact absurd (.inl rfl) hother
  | lower _ => exact absurd (.inr (.inl rfl)) hother
  | start _ _ => exact absurd (.inr (.inr (.inl rfl))) hother
  | finish _ _ => exact absurd (.inr (.inr (.inr rfl))) hother
  | exit => exact absurd rfl halive

theorem findIdx_append_of_mem {queue : List (Job π)} (more : List (Job π))
    (hmem : .refresh ∈ queue) :
    (queue ++ more).findIdx Job.isRefresh = queue.findIdx Job.isRefresh := by
  rw [List.findIdx_append, if_pos (List.findIdx_lt_length_of_exists ⟨.refresh, hmem, rfl⟩)]

theorem Pending.of_others (h : Pending channel) (hsteps : Steps channel a channel')
    (hother : ¬ OfWorker a) (halive : channel'.worker ≠ .gone) :
    Pending channel' ∧ distance channel' = distance channel := by
  obtain ⟨hworker, more, hqueue⟩ := hsteps.of_others hother halive
  unfold distance
  rw [hworker, hqueue]
  rcases h.refresh with (hmem | hreceived) | hready
  · refine ⟨⟨halive, .inl (.inl ?_)⟩, ?_⟩
    · rw [hqueue]
      exact List.mem_append_left _ hmem
    · rw [findIdx_append_of_mem more hmem]
  · rw [hreceived]
    exact ⟨⟨halive, .inl (.inr (hworker.trans hreceived))⟩, rfl⟩
  · rw [hready]
    exact ⟨⟨halive, .inr (hworker.trans hready)⟩, rfl⟩

/-- Each step of the worker brings it nearer to the refresh. -/
theorem Pending.of_worker (h : Pending channel) (hsteps : Steps channel a channel')
    (hmine : OfWorker a) :
    (a = .start ∧ channel.worker = .ready .refresh) ∨
      (Pending channel' ∧ distance channel' < distance channel) := by
  obtain ⟨halive, hrefresh⟩ := h
  unfold Queued at hrefresh
  rcases hmine with rfl | rfl | rfl | rfl
  · cases hsteps with
    | recvRefresh queue hworker hqueue =>
        refine .inr ⟨⟨by simp, .inl (.inr rfl)⟩, ?_⟩
        simp only [distance, hworker]
        omega
    | recvOther payload queue hworker hqueue =>
        have hmem : Job.refresh ∈ queue := by simpa [hworker, hqueue] using hrefresh
        refine .inr ⟨⟨by simp, .inl (.inl hmem)⟩, ?_⟩
        simp only [distance, hworker, hqueue, List.findIdx_cons, Job.isRefresh,
          WorkerPc.remaining, cond_false]
        omega
  · cases hsteps with
    | lower hworker =>
        refine .inr ⟨⟨by simp, .inr rfl⟩, ?_⟩
        simp only [distance, hworker]
        omega
  · cases hsteps with
    | start job hworker =>
        cases job with
        | refresh => exact .inl ⟨rfl, hworker⟩
        | other payload =>
            have hmem : Job.refresh ∈ channel.queue := by simpa [hworker] using hrefresh
            refine .inr ⟨⟨by simp, .inl (.inl hmem)⟩, ?_⟩
            simp only [distance, hworker, WorkerPc.remaining]
            omega
  · cases hsteps with
    | finish job hworker =>
        have hmem : Job.refresh ∈ channel.queue := by simpa [hworker] using hrefresh
        refine .inr ⟨⟨by simp, .inl (.inl hmem)⟩, ?_⟩
        simp only [distance, hworker, WorkerPc.remaining]
        omega

theorem Pending.enabled (h : Pending channel) : Enabled step OfWorker channel := by
  obtain ⟨halive, hrefresh⟩ := h
  cases hworker : channel.worker with
  | waiting =>
      have hmem : Job.refresh ∈ channel.queue := by simpa [Queued, hworker] using hrefresh
      refine ⟨.recv, .inl rfl, ?_⟩
      cases hqueue : channel.queue with
      | nil =>
          rw [hqueue] at hmem
          cases hmem
      | cons job queue => cases job <;> simp [step, hworker, hqueue]
  | received => exact ⟨.lower, .inr (.inl rfl), by simp [step, hworker]⟩
  | ready job => exact ⟨.start, .inr (.inr (.inl rfl)), by simp [step, hworker]⟩
  | executing job => exact ⟨.finish, .inr (.inr (.inr rfl)), by simp [step, hworker]⟩
  | gone => exact absurd hworker halive

end

namespace Run

variable {run : Run ι π} {n : ℕ}

/-- A worker that stays alive executes a refresh that is queued. -/
theorem exists_starts (halive : ∀ m, (run.state m).worker ≠ .gone)
    (hqueued : Queued (run.state n)) : ∃ m, n ≤ m ∧ run.StartsRefresh m := by
  have hother : ∀ m, Pending (run.state m) → ¬ run.ActsAt OfWorker m →
      Pending (run.state (m + 1)) ∧ distance (run.state (m + 1)) = distance (run.state m) := by
    intro m hpending hnot
    cases hact : run.act m with
    | none =>
        rw [run.next_none m hact]
        exact ⟨hpending, rfl⟩
    | some a =>
        exact hpending.of_others (step_cases (run.next_some m a hact))
          (fun hmine => hnot ⟨a, hmine, hact⟩) (halive (m + 1))
  obtain ⟨m, a, hm, hact, rfl, hready⟩ := Behaviour.reaches run.worker_fair Pending
    (fun channel a => a = .start ∧ channel.worker = .ready .refresh) distance
    (fun _ => Pending.enabled) hother
    (fun m a hpending hmine hact =>
      hpending.of_worker (step_cases (run.next_some m a hact)) hmine)
    ⟨halive n, .inl hqueued⟩
  exact ⟨m, hm, hact, hready⟩

/-! ## Runs of a script -/

/-- A thread that is in no send. -/
def AtRest : SenderPc π → Bool
  | .idle | .returned _ => true
  | _ => false

theorem not_enabled_sender {channel : Channel ι π} {thread : ι}
    (h : AtRest (channel.senders thread) = true) : ¬ Enabled step (OfSender thread) channel := by
  rintro ⟨a, hmine, hstep⟩
  cases hpc : channel.senders thread with
  | idle => rcases hmine with rfl | rfl | rfl <;> simp [step, hpc] at hstep
  | returned result => rcases hmine with rfl | rfl | rfl <;> simp [step, hpc] at hstep
  | _ =>
      rw [hpc] at h
      cases h

theorem not_enabled_worker {channel : Channel ι π} (hworker : channel.worker = .waiting)
    (hqueue : channel.queue = []) : ¬ Enabled step OfWorker channel := by
  rintro ⟨a, hmine, hstep⟩
  rcases hmine with rfl | rfl | rfl | rfl <;> simp [step, hworker, hqueue] at hstep

/-- A run that follows a script until nothing is left to do. -/
def play (script : List (Action ι π)) (h : Behaviour.Playable step spawnWorker script)
    (hsenders : ∀ thread, AtRest ((Behaviour.after step spawnWorker script).senders thread) = true)
    (hworker : (Behaviour.after step spawnWorker script).worker = .waiting)
    (hqueue : (Behaviour.after step spawnWorker script).queue = []) : Run ι π where
  toBehaviour := .play step spawnWorker script h
  init := rfl
  senders_fair thread := Behaviour.play_fair (not_enabled_sender (hsenders thread))
  worker_fair := Behaviour.play_fair (not_enabled_worker hworker hqueue)

/-! ## Every refresh that was sent is executed -/

theorem Sent.queued_or_coalesced {thread : ι} {began : ℕ} (h : run.Sent thread began n) :
    Queued (run.state (n + 1)) ∨
      (run.act n = some (.swap thread) ∧ (run.state n).pendingRefresh = true) := by
  have hrefreshing := h.during n h.later le_rfl
  cases hact : run.act n with
  | none =>
      rw [← run.next_none n hact, h.returned] at hrefreshing
      cases hrefreshing
  | some a =>
      have hsteps := step_cases (run.next_some n a hact)
      exact (hsteps.of_returned hrefreshing h.returned).imp_right fun h => ⟨by rw [h.1], h.2⟩

/-- In a run in which no mark is cleared that another refresh relied on, no refresh that
was sent is lost. -/
theorem covered_of_not_clearsRelied (run : Run ι π) (h : ∀ n, ¬ run.ClearsRelied n) :
    run.Covered := by
  intro thread began n hsent halive
  have hlater := hsent.later
  have hstart : ∀ m, n ≤ m → Queued (run.state m) → ∃ m, began < m ∧ run.StartsRefresh m := by
    intro m hm hqueued
    obtain ⟨m', hm', hstarts⟩ := exists_starts halive hqueued
    exact ⟨m', by omega, hstarts⟩
  rcases hsent.queued_or_coalesced with hqueued | ⟨hswap, hflag⟩
  · exact hstart (n + 1) (Nat.le_succ n) hqueued
  · rcases run.flagStands n (halive n) hflag with ⟨holder, hholding⟩ | hqueued
    · obtain ⟨m, hm, hqueued | ⟨hclear, huntil⟩⟩ := queued_or_clears hholding
      · exact hstart m hm hqueued
      · have hne : n ≠ m := by
          rintro rfl
          cases hswap.symm.trans hclear
        exact absurd ⟨holder, thread, n, hclear, by omega, huntil, hswap, hflag⟩ (h m)
    · exact hstart n le_rfl hqueued

/-- A refresh that finds the flag raised, and the one that raised it is queued. -/
def sharedRefresh : List (Action Bool Unit) :=
  [.call false .refresh, .swap false, .call true .refresh, .swap true, .trySend false,
    .recv, .lower, .start, .finish]

def sharedRun : Run Bool Unit :=
  .play sharedRefresh (by decide) (by decide) (by decide) (by decide)

theorem covered_sharedRun : sharedRun.Covered := by
  refine covered_of_not_clearsRelied sharedRun fun n hclears => ?_
  obtain ⟨thread, -, -, hclear, -⟩ := hclears
  have hmem : .clear thread ∈ sharedRefresh := List.mem_of_getElem? hclear
  simp [sharedRefresh] at hmem

end Run

/-! ## A refresh that is lost -/

/-- The worker lives, and is not about to execute a refresh. -/
structure Elsewhere (channel : Channel ι π) : Prop where
  alive : channel.worker ≠ .gone
  away : channel.worker ≠ .ready .refresh

/-- Only a worker that lowers the flag comes to execute a refresh. -/
theorem Elsewhere.step {channel channel' : Channel ι π} {a : Action ι π}
    (h : Elsewhere channel) (hsteps : Steps channel a channel') (hlower : a ≠ .lower)
    (hexit : a ≠ .exit) : Elsewhere channel' := by
  cases hsteps with
  | recvRefresh _ _ _ => exact ⟨by simp, by simp⟩
  | recvOther _ _ _ _ => exact ⟨by simp, by simp⟩
  | lower _ => exact absurd rfl hlower
  | start _ _ => exact ⟨by simp, by simp⟩
  | finish _ _ => exact ⟨by simp, by simp⟩
  | exit => exact absurd rfl hexit
  | _ => exact ⟨h.alive, h.away⟩

/-- In a run in which the worker never lowers the flag, it never executes a refresh. -/
theorem Run.elsewhere (run : Run ι π) (hlower : ∀ n, run.act n ≠ some .lower)
    (hexit : ∀ n, run.act n ≠ some .exit) : ∀ n, Elsewhere (run.state n) := by
  intro n
  induction n with
  | zero =>
      rw [run.init]
      exact ⟨by simp [spawnWorker], by simp [spawnWorker]⟩
  | succ n ih =>
      cases hact : run.act n with
      | none =>
          rw [run.next_none n hact]
          exact ih
      | some a =>
          refine ih.step (step_cases (run.next_some n a hact)) ?_ ?_
          · rintro rfl
            exact hlower n hact
          · rintro rfl
            exact hexit n hact

/-- Sixteen jobs fill the queue.  Then one thread raises the flag for a refresh, another one
finds it raised and returns, and the queue refuses the refresh of the first. -/
def lostRefresh : List (Action Bool Unit) :=
  (List.replicate 16 [.call false (.other ()), .trySend false]).flatten ++
    [.call false .refresh, .swap false, .call true .refresh, .swap true, .trySend false,
      .clear false] ++
    (List.replicate 16 [.recv, .start, .finish]).flatten

def lostRun : Run Bool Unit :=
  .play lostRefresh (by decide +kernel) (by decide +kernel) (by decide +kernel)
    (by decide +kernel)

theorem lostRun_sent : lostRun.Sent true 34 35 := by
  have hduring : (Behaviour.after step spawnWorker (lostRefresh.take 35)).senders true =
      .entered .refresh := by decide +kernel
  have hreturned : (Behaviour.after step spawnWorker (lostRefresh.take 36)).senders true =
      .returned (.ok ()) := by decide +kernel
  refine ⟨by decide, rfl, fun m hm hm' => ?_, hreturned⟩
  obtain rfl : m = 35 := by omega
  change ((Behaviour.after step spawnWorker (lostRefresh.take 35)).senders true).Refreshing
  rw [hduring]
  exact .entered

/-- A refresh that was sent can be lost: there is a run in which it is never executed. -/
theorem refresh_lost : ¬ ∀ run : Run Bool Unit, run.Covered := by
  intro hcovered
  have hact : ∀ a : Action Bool Unit, a ∉ lostRefresh → ∀ n, lostRun.act n ≠ some a :=
    fun a hnot n hact => hnot (List.mem_of_getElem? hact)
  have helsewhere := lostRun.elsewhere (hact _ (by decide +kernel)) (hact _ (by decide +kernel))
  obtain ⟨m, -, -, hready⟩ := hcovered lostRun true 34 35 lostRun_sent fun m =>
    (helsewhere m).alive
  exact (helsewhere m).away hready

end Ngsm.Gui.JobQueue
