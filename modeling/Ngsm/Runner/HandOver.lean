/-
# The end of a service, seen by the runner and the supervisor

Three threads decide how a service ends: the control handler, which accepts or refuses a stop,
the bridge, which claims the terminal decision and releases the supervisor, and the supervisor,
which looks for a stop once more before it returns.  An interleaving is any order of their
steps; what the bridge does between two turns of the supervisor are the moves that fall on the
second one.  In every interleaving a stop that was acknowledged is honoured on both sides.

The session knows of the supervisor only how it ended.  What else the bridge is told about it is
left open, so every order that the threads can really take is an interleaving.
-/

import Ngsm.Lib.Interleaving
import Ngsm.Runner.Protocol
import Ngsm.Supervisor.HandOff

namespace Ngsm.Runner

open Ngsm.Core Ngsm.Lib
open Ngsm.Supervisor (ExitReason Halt Move ReleasedInTime ShutDown Sup SupervisorError Turn
  Unwarned shutDown_of_run)
open Ngsm.Win32.ControlChannel (Agrees Dispatch Event Ledger Method Receive RecvError
  ServiceControl)

/-! ## Interleavings -/

/-- The moves of the watcher, the readers and the clock. -/
def isForeign : Move → Bool
  | .send _ | .exit _ _ | .tick _ => true
  | _ => false

inductive Step (ι : Type) where
  | runner (moment : Moment ι)
  /-- A step of the supervisor, with what the system answers to it. -/
  | supervisor (answers : Turn)
  | other (move : { move : Move // isForeign move = true })

/-- What a call of the bridge does to the supervisor.  The message of a stop is sent apart. -/
def movesOf : Exchange Call.Answer → List Move
  | ⟨.stop, _⟩ => [.stop]
  | ⟨.release, _⟩ => [.release]
  | ⟨.rotate, _⟩ => [.send .rotate]
  | ⟨.powerEvent event, _⟩ => [.send (.powerEvent event)]
  | ⟨.request pause, _⟩ => [.request pause]
  | ⟨.cancel request, _⟩ => [.cancel request]
  | _ => []

section

variable {ι : Type}

namespace Step

def moment : Step ι → Option (Moment ι)
  | .runner moment => some moment
  | _ => none

def answers : Step ι → Option Turn
  | .supervisor answers => some answers
  | _ => none

def isTurn : Step ι → Bool
  | .supervisor _ => true
  | _ => false

def moves : Step ι → List Move
  | .runner (.bridge said) => movesOf said
  | .other move => [move]
  | _ => []

end Step

/-- The session in an interleaving. -/
def momentsOf (steps : List (Step ι)) : List (Moment ι) :=
  steps.filterMap Step.moment

/-- The interleaving as the supervisor finds it. -/
def scriptOf (steps : List (Step ι)) (k : ℕ) : Turn :=
  { (steps.filterMap Step.answers)[k]?.getD {} with
    moves := Interleaving.between Step.isTurn Step.moves steps k }

/-- The supervisor of a service host: it shares a gate with the runner. -/
def supervisorOf (config : ManagedApplicationConfig) (steps : List (Step ι)) : Sup :=
  Sup.start config (scriptOf steps) true []

/-- The supervisor's own part of the interleaving. -/
def superviseAlong (config : ManagedApplicationConfig) (generations : ℕ) (steps : List (Step ι)) :
    Except Halt ExitReason × Sup :=
  (Supervisor.run generations).exec (supervisorOf config steps)

/-- What the end of `run` is for the one who joins the thread. -/
def joinedOf : Except Halt ExitReason → Option Joined
  | .ok reason => some (some (.ok reason))
  | .error (.failed error) => some (some (.error error))
  | .error .panicked => some none
  | .error .unfinished => none

/-- The thread of the supervisor ends when `run` has returned, with its result. -/
def mayFollow (supervised : Except Halt ExitReason × Sup) (before : List (Step ι)) :
    Step ι → Bool
  | .runner (.ended result) =>
      joinedOf supervised.1 = some result && supervised.2.turns ≤ before.countP Step.isTurn
  | _ => true

/-- The bridge gives the supervisor up: the deadline of the stop has expired. -/
def Moment.givesUp : Moment ι → Bool
  | .bridge ⟨.diagnose operation message, _⟩ => (operation, message) = overdueReport
  | _ => false

end

/-- A service host and an interleaving of its threads. -/
structure HandOver (ι : Type) [DecidableEq ι] where
  timing : Timing
  /-- The rounds of the bridge. -/
  rounds : ℕ
  config : ManagedApplicationConfig
  /-- The rounds of the supervisor. -/
  generations : ℕ
  steps : List (Step ι)
  session : Session ι
  runs : Runs.run Session.step (Session.start timing rounds) (momentsOf steps) = some session
  ends : EachEvent
    (fun before step => mayFollow (superviseAlong config generations steps) before step = true) steps

namespace HandOver

variable {ι : Type} [DecidableEq ι]

def moments (h : HandOver ι) : List (Moment ι) :=
  momentsOf h.steps

/-- The supervisor when its `run` has returned. -/
def supervised (h : HandOver ι) : Except Halt ExitReason × Sup :=
  superviseAlong h.config h.generations h.steps

/-- No deadline expires, and the supervisor ends without a panic before the bridge does. -/
structure InTime (h : HandOver ι) : Prop where
  handOff : ReleasedInTime h.generations (supervisorOf h.config h.steps)
  stop : ∀ moment ∈ h.moments, moment.givesUp = false
  joined : ∃ result, .bridge ⟨.join, some result⟩ ∈ h.moments

/-- A stop or a shutdown was answered with success. -/
def Acknowledged (h : HandOver ι) : Prop :=
  ∃ thread control, control.isTerminal = true ∧ .handler thread (.answered control 0) ∈ h.moments

/-- How the host has ended for the service control manager. -/
def final (h : HandOver ι) : Option Terminal :=
  (recordOf h.moments).said.final

/-- What the two sides agree on: a stop that was acknowledged has shut the supervisor down, the
host ends as stopped with 0, and no stop is accepted behind a claim that came first. -/
structure Agreed (h : HandOver ι) : Prop where
  supervisor : h.Acknowledged → ShutDown h.supervised.2.trace
  manager : h.Acknowledged → ∀ final, h.final = some final → final = .stopped 0
  concluded : h.Acknowledged → h.session.bridge = .done true → h.final = some (.stopped 0)
  refused : EachEvent (fun before moment => ∀ thread control code,
    moment = .handler thread (.answered control code) → control.isTerminal = true →
      .bridge ⟨.claimTerminal, false⟩ ∈ before → code ≠ 0) h.moments

end HandOver

/-! ## What a place in a session knows -/

section

variable {ι : Type} {timing : Timing} {rounds : ℕ} {moments before after : List (Moment ι)}
  {moment : Moment ι} {notes : Notes} {record : Record} {result : Joined}

/-- The end of a transition is not noted as a stop. -/
theorem settle_stop (notes : Notes) (request : ℕ) (outcome : Supervisor.TransitionOutcome) :
    (notes.settle request outcome).asked = notes.asked ∧
      (notes.settle request outcome).overdue = notes.overdue := by
  unfold Notes.settle
  split
  · split <;> exact ⟨rfl, rfl⟩
  · exact ⟨rfl, rfl⟩

theorem said_of_asked_note {said : Exchange Call.Answer} (h : (notes.note said).asked = true) :
    notes.asked = true ∨ said = ⟨.stop, ()⟩ := by
  obtain ⟨call, answer⟩ := said
  cases call with
  | stop => exact .inr rfl
  | startup => cases answer <;> exact .inl h
  | outcome request =>
      cases answer with
      | none => exact .inl h
      | some outcome => exact .inl ((settle_stop notes request outcome).1 ▸ h)
  | report status => cases status <;> exact .inl h
  | _ => exact .inl h

theorem said_of_overdue_note {said : Exchange Call.Answer} (h : (notes.note said).overdue = true) :
    notes.overdue = true ∨ said = ⟨.diagnose overdueReport.1 overdueReport.2, ()⟩ := by
  obtain ⟨call, answer⟩ := said
  cases call with
  | diagnose operation message =>
      rcases Bool.or_eq_true_iff.mp h with hbefore | hnow
      · exact .inl hbefore
      · have hreport : (operation, message) = overdueReport := of_decide_eq_true hnow
        rw [← hreport]
        exact .inr rfl
  | startup => cases answer <;> exact .inl h
  | outcome request =>
      cases answer with
      | none => exact .inl h
      | some outcome => exact .inl ((settle_stop notes request outcome).2 ▸ h)
  | report status => cases status <;> exact .inl h
  | _ => exact .inl h

/-- What the bridge has noted for good it has said. -/
theorem said_of_note {P : Notes → Prop} {said : Exchange Call.Answer} (hstart : ¬P {})
    (hnote : ∀ notes other, P (notes.note other) → P notes ∨ other = said)
    (h : P (recordOf moments).said) : .bridge said ∈ moments := by
  refine (mem_of_foldl (fun record : Record => P record.said) (fun moment => moment = .bridge said)
    (fun record moment hnoted => ?_) h).elim (fun h => absurd h hstart)
    fun ⟨moment, hmem, heq⟩ => heq ▸ hmem
  cases moment with
  | bridge other =>
      rw [said_bridge] at hnoted
      exact (hnote _ _ hnoted).imp id fun heq => congrArg Moment.bridge heq
  | handler thread d =>
      rw [said_handler] at hnoted
      exact .inl hnoted
  | _ => exact .inl hnoted

theorem ended_note (record : Record) (moment : Moment ι) :
    (record.note moment).ended = match moment with
      | .ended result => some result
      | _ => record.ended := by
  cases moment with
  | bridge said =>
      obtain ⟨call, answer⟩ := said
      cases call <;> rfl
  | handler thread d => rcases d with _ | _ | _ | ⟨_ | _⟩ | _ | _ | _ <;> rfl
  | _ => rfl

theorem mem_of_ended (h : (recordOf moments).ended = some result) : .ended result ∈ moments := by
  refine (mem_of_foldl (fun record : Record => record.ended = some result)
    (fun moment => moment = .ended result) (fun record moment hnoted => ?_) h).elim
    nofun fun ⟨moment, hmem, heq⟩ => heq ▸ hmem
  rw [ended_note] at hnoted
  cases moment with
  | ended other =>
      cases hnoted
      exact .inr rfl
  | _ => exact .inl hnoted

theorem ended_of_mem (h : .ended result ∈ moments) : (recordOf moments).ended.isSome = true := by
  refine foldl_of_mem (P := fun record : Record => record.ended.isSome = true)
    (fun record moment hended => ?_) h (fun _ => rfl) {}
  rw [ended_note]
  cases moment with
  | ended other => rfl
  | _ => exact hended

theorem mem_steps_of_mem_moments {steps : List (Step ι)} (hmem : moment ∈ momentsOf steps) :
    .runner moment ∈ steps := by
  obtain ⟨step, hstep, hmoment⟩ := List.mem_filterMap.mp hmem
  cases step with
  | runner other =>
      cases hmoment
      exact hstep
  | supervisor answers => cases hmoment
  | other move => cases hmoment

theorem release_of_mem_moves {step : Step ι} (hmove : .release ∈ step.moves) :
    step = .runner (.bridge ⟨.release, ()⟩) := by
  cases step with
  | runner moment =>
      cases moment with
      | bridge said =>
          obtain ⟨call, answer⟩ := said
          cases call <;> simp [Step.moves, movesOf] at hmove
          rfl
      | _ => simp [Step.moves] at hmove
  | supervisor answers => simp [Step.moves] at hmove
  | other move =>
      rw [Step.moves, List.mem_singleton] at hmove
      have hforeign := move.2
      rw [← hmove] at hforeign
      cases hforeign

variable [DecidableEq ι]

/-- The channel forgets neither a claim nor an acknowledgement. -/
theorem note_grows (ledger : Ledger ι) (event : Event ι) :
    ledger.claims ⊆ (ledger.note event).claims ∧
      (ledger.acknowledged = true → (ledger.note event).acknowledged = true) := by
  cases event with
  | claimed claimed => exact ⟨List.subset_append_left _ _, id⟩
  | dispatch thread d =>
      cases d with
      | answered control code =>
          refine ⟨List.Subset.refl _, fun h => ?_⟩
          change (ledger.acknowledged || _) = true
          rw [h, Bool.true_or]
      | updated won => cases won <;> exact ⟨List.Subset.refl _, id⟩
      | sent message accepted =>
          cases message <;> cases accepted <;> exact ⟨List.Subset.refl _, id⟩
      | _ => exact ⟨List.Subset.refl _, id⟩
  | receive r =>
      cases r with
      | swapped taken => cases taken <;> exact ⟨List.Subset.refl _, id⟩
      | returned method result =>
          cases result with
          | error error => exact ⟨List.Subset.refl _, id⟩
          | ok control => cases control <;> exact ⟨List.Subset.refl _, id⟩
      | _ => exact ⟨List.Subset.refl _, id⟩

theorem noteMoment_grows (ledger : Ledger ι) (moment : Moment ι) :
    ledger.claims ⊆ (noteMoment ledger moment).claims ∧
      (ledger.acknowledged = true → (noteMoment ledger moment).acknowledged = true) := by
  unfold noteMoment
  cases moment.onChannel with
  | none => exact ⟨List.Subset.refl _, id⟩
  | some event => exact note_grows ledger event

theorem claims_of_mem {claimed : Bool} (h : .bridge ⟨.claimTerminal, claimed⟩ ∈ moments)
    (ledger : Ledger ι) : claimed ∈ (moments.foldl noteMoment ledger).claims :=
  foldl_of_mem (P := fun ledger : Ledger ι => claimed ∈ ledger.claims)
    (fun ledger moment hmem => (noteMoment_grows ledger moment).1 hmem) h
    (fun _ => List.mem_append_right _ (List.mem_singleton_self _)) ledger

theorem acknowledged_of_mem {thread : ι} {control : ServiceControl}
    (hterminal : control.isTerminal = true)
    (h : .handler thread (.answered control 0) ∈ moments) (ledger : Ledger ι) :
    (moments.foldl noteMoment ledger).acknowledged = true := by
  refine foldl_of_mem (P := fun ledger : Ledger ι => ledger.acknowledged = true)
    (fun ledger moment hacknowledged => (noteMoment_grows ledger moment).2 hacknowledged) h
    (fun ledger => ?_) ledger
  change (ledger.acknowledged || control.isTerminal && (0 : UInt32) == 0) = true
  rw [hterminal]
  simp

/-- The session where a moment is about to happen. -/
theorem sustained_at {session : Session ι} (hrun : Runs.run Session.step
      (Session.start timing rounds) (before ++ moment :: after) = some session) :
    ∃ mid next, Sustained before mid ∧ Stepped mid moment next := by
  rw [Runs.run_append, Option.bind_eq_some_iff] at hrun
  obtain ⟨mid, hbefore, hrest⟩ := hrun
  rw [Runs.run_cons, Option.bind_eq_some_iff] at hrest
  obtain ⟨next, hnext, -⟩ := hrest
  exact ⟨mid, next, sustained_of_run hbefore, step_cases hnext⟩

end

/-! ## The agreement -/

namespace HandOver

variable {ι : Type} [DecidableEq ι] {h : HandOver ι} {front rest : List (Step ι)} {step : Step ι}

theorem moments_split {moment : Moment ι} (hsplit : h.steps = front ++ .runner moment :: rest) :
    h.moments = momentsOf front ++ moment :: momentsOf rest := by
  unfold moments momentsOf
  rw [hsplit, List.filterMap_append]
  rfl

/-- The session where a step of the runner is about to happen. -/
theorem sustained_before {moment : Moment ι}
    (hsplit : h.steps = front ++ .runner moment :: rest) :
    ∃ mid next, Sustained (momentsOf front) mid ∧ Stepped mid moment next := by
  have hrun := h.runs
  change Runs.run Session.step _ h.moments = _ at hrun
  rw [moments_split hsplit] at hrun
  exact sustained_at hrun

theorem sustained (h : HandOver ι) : Sustained h.moments h.session :=
  sustained_of_run h.runs

/-- The end of the supervisor's thread, which the bridge has seen. -/
theorem InTime.ended (hintime : h.InTime) : ∃ front result rest,
    h.steps = front ++ .runner (.ended (some result)) :: rest ∧
      joinedOf h.supervised.1 = some (some result) ∧
      h.supervised.2.turns ≤ front.countP Step.isTurn := by
  obtain ⟨result, hjoined⟩ := hintime.joined
  obtain ⟨front, rest, hsplit⟩ := List.append_of_mem (mem_steps_of_mem_moments hjoined)
  obtain ⟨mid, next, hmid, hstep⟩ := sustained_before hsplit
  have hended : mid.around.ended = some (some result) := of_decide_eq_true hstep.permitted
  rw [← hmid.linked.ended] at hended
  obtain ⟨before, between, hfront⟩ :=
    List.append_of_mem (mem_steps_of_mem_moments (mem_of_ended hended))
  have hwhole : h.steps = before ++ .runner (.ended (some result)) ::
      (between ++ .runner (.bridge ⟨.join, some result⟩) :: rest) := by
    rw [hsplit, hfront, List.append_assoc, List.cons_append]
  refine ⟨before, result, _, hwhole, ?_⟩
  have hends := h.ends before _ _ hwhole
  obtain ⟨houtcome, hturns⟩ := Bool.and_eq_true_iff.mp hends
  exact ⟨of_decide_eq_true houtcome, of_decide_eq_true hturns⟩

/-- Once a stop was acknowledged, every claim has found it. -/
theorem claimed_of_acknowledged (hacknowledged : h.Acknowledged) {claimed : Bool}
    (hmem : claimed ∈ (h.moments.foldl noteMoment (Ledger.start : Ledger ι)).claims) :
    claimed = true := by
  obtain ⟨thread, control, hterminal, hanswered⟩ := hacknowledged
  have hchannel := h.sustained.channel
  rw [hchannel.claims claimed hmem]
  exact hchannel.acknowledged (acknowledged_of_mem hterminal hanswered _)

/-- Before the supervisor ends, the bridge releases it only when it has told it of every stop
that was acknowledged. -/
theorem stop_before_release (hintime : h.InTime) (hacknowledged : h.Acknowledged)
    (hsplit : h.steps = front ++ .runner (.bridge ⟨.release, ()⟩) :: rest)
    (hrunning : ∀ result, .ended result ∉ momentsOf front) :
    .bridge ⟨.stop, ()⟩ ∈ momentsOf front := by
  obtain ⟨mid, next, hmid, hstep⟩ := sustained_before hsplit
  have hmoments := moments_split hsplit
  have hproper : (recordOf (momentsOf front)).said.Proper ⟨.release, ()⟩ :=
    (conduct_moment hmid.conducted hstep).1
  rcases hproper with hjoined | hoverdue | ⟨claimed, hclaimed, hasked⟩
  · obtain ⟨result, hjoined⟩ := Option.isSome_iff_exists.mp hjoined
    exact absurd (mem_of_ended (hmid.linked.joined result hjoined)) (hrunning result)
  · have hmem := said_of_note (P := fun notes => notes.overdue = true) nofun
      (fun _ _ hnoted => said_of_overdue_note hnoted) hoverdue
    have hpast : .bridge ⟨.diagnose overdueReport.1 overdueReport.2, ()⟩ ∈ h.moments := by
      rw [hmoments]
      exact List.mem_append_left _ hmem
    cases hintime.stop _ hpast
  · have hclaim : claimed = true := by
      refine claimed_of_acknowledged hacknowledged ?_
      rw [hmoments, List.foldl_append]
      refine foldl_keeps (P := fun ledger : Ledger ι => claimed ∈ ledger.claims)
        (fun ledger moment hmem => (noteMoment_grows ledger moment).1 hmem) _ ?_
      rw [hmid.linked.claimed] at hclaimed
      exact List.mem_of_getLast? hclaimed
    exact said_of_note (P := fun notes => notes.asked = true) nofun
      (fun _ _ hnoted => said_of_asked_note hnoted) (hasked hclaim)

/-- The supervisor is not released before it was told of a stop that was acknowledged. -/
theorem not_unwarned (hintime : h.InTime) (hacknowledged : h.Acknowledged) :
    ¬Unwarned (scriptOf h.steps) h.supervised.2.signals := by
  rintro ⟨k, hk, hrelease, hunasked⟩
  obtain ⟨last, result, behind, hend, -, hturns⟩ := hintime.ended
  obtain ⟨front, step, rest, hsplit, -, hmove, hcount⟩ := Interleaving.mem_between.mp hrelease
  obtain rfl := release_of_mem_moves hmove
  -- the release was seen by the supervisor, so it came before the end of its thread
  have hlt : front.countP Step.isTurn < last.countP Step.isTurn := by
    rw [hcount]
    exact Nat.lt_of_lt_of_le hk hturns
  obtain ⟨between, hlast⟩ := Interleaving.prefix_of_countP_lt (hsplit.symm.trans hend) hlt
  have hrunning : ∀ other, .ended other ∉ momentsOf front := by
    intro other hother
    obtain ⟨mid, next, hmid, hstep⟩ := sustained_before hend
    have hopen : mid.around.ended.isNone = true := hstep.permitted
    have hmem : .ended other ∈ momentsOf last := by
      rw [← hlast, momentsOf, List.append_assoc, List.filterMap_append]
      exact List.mem_append_left _ hother
    have hended := ended_of_mem hmem
    rw [hmid.linked.ended, Option.isSome_iff_ne_none] at hended
    exact hended (Option.isNone_iff_eq_none.mp hopen)
  -- so the bridge has published the stop first
  obtain ⟨early, late, hfront⟩ := List.append_of_mem
    (mem_steps_of_mem_moments (stop_before_release hintime hacknowledged hsplit hrunning))
  refine hunasked (early.countP Step.isTurn) ?_ (Interleaving.mem_between.mpr
    ⟨early, .runner (.bridge ⟨.stop, ()⟩), late ++ .runner (.bridge ⟨.release, ()⟩) :: rest, ?_,
      rfl, List.mem_singleton_self _, rfl⟩)
  · rw [← hcount, hfront]
    exact List.Sublist.countP_le (List.sublist_append_left _ _)
  · rw [hsplit, hfront, List.append_assoc, List.cons_append]

/-- The two sides agree in every interleaving in which no deadline expires. -/
theorem agreed_of_inTime (h : HandOver ι) (hintime : h.InTime) : h.Agreed := by
  have hkept := protocol_of_run h.runs
  have haccepted : h.Acknowledged → (recordOf h.moments).accepted = true := by
    rintro ⟨thread, control, hterminal, hanswered⟩
    rw [h.sustained.linked.accepted]
    exact h.sustained.channel.acknowledged (acknowledged_of_mem hterminal hanswered _)
  refine ⟨fun hacknowledged => ?_, fun hacknowledged => ?_, fun hacknowledged hdone => ?_, ?_⟩
  · obtain ⟨front, result, rest, -, houtcome, -⟩ := hintime.ended
    have hrun : (Supervisor.run h.generations).exec (supervisorOf h.config h.steps) =
        (h.supervised.1, h.supervised.2) := rfl
    refine shutDown_of_run hrun hintime.handOff (fun hunfinished => ?_)
      (not_unwarned hintime hacknowledged)
    rw [hunfinished] at houtcome
    cases houtcome
  · exact hkept.clean (haccepted hacknowledged)
  · obtain ⟨final, hfinal⟩ := Option.isSome_iff_exists.mp (hkept.concluded hdone)
    exact hfinal.trans (congrArg some (hkept.clean (haccepted hacknowledged) final hfinal))
  · rintro before moment after hsplit thread control code rfl hterminal hclaimed rfl
    have hrun := h.runs
    change Runs.run Session.step _ h.moments = _ at hrun
    rw [hsplit] at hrun
    obtain ⟨mid, next, hmid, hstep⟩ := sustained_at hrun
    have hchannel : Win32.ControlChannel.step mid.channel (.dispatch thread (.answered control 0)) =
        some next.channel := hstep.channel
    have hreplies : (before.foldl noteMoment (Ledger.start : Ledger ι)).Replies thread 0 :=
      (hmid.channel.step hchannel).1 hterminal
    exact hreplies.1 (claims_of_mem hclaimed _)

end HandOver

/-- The start of the service fails, and the policy gives it up.  While the supervisor waits to be
released, a stop is accepted just before the bridge claims the terminal decision. -/
def lateStop : List (Step Unit) :=
  List.replicate 14 (.supervisor {}) ++
    [.bridge ⟨.now, (0 : ℕ)⟩, .bridge ⟨.report .startPending, (none : Option String)⟩,
      .receiver (.began .tryRecv), .receiver (.swapped none), .receiver .tookDeferred,
      .receiver (.emptied .empty), .receiver (.swapped none),
      .bridge ⟨.tryRecv, (.error .empty : Except RecvError ServiceControl)⟩,
      .bridge ⟨.stopRequested, false⟩, .bridge ⟨.isReady, true⟩, .handler () (.called .stop),
      .handler () .loadedAlive, .handler () .loadedDecision, .handler () (.updated true),
      .bridge ⟨.claimTerminal, true⟩, .handler () (.posted false), .handler () (.sent .wake true),
      .bridge ⟨.stop, ()⟩, .handler () (.answered .stop 0), .bridge ⟨.release, ()⟩,
      .bridge ⟨.now, (1 : ℕ)⟩, .bridge ⟨.report .stopPending, (none : Option String)⟩,
      .bridge ⟨.now, (1 : ℕ)⟩].map .runner ++
    List.replicate 11 (.supervisor {}) ++
    [.ended (some (.ok .stopped)), .bridge ⟨.isFinished, true⟩,
      .bridge ⟨.join, (some (.ok .stopped) : Joined)⟩, .bridge ⟨.release, ()⟩,
      .bridge ⟨.claimTerminal, true⟩,
      .bridge ⟨.report (.stopped 0), (none : Option String)⟩].map .runner

def lateStopHandOver : HandOver Unit where
  timing := {}
  rounds := 1
  config := { restart := { defaultAction := some .exit } }
  generations := 2
  steps := lateStop
  session := (Runs.run Session.step (Session.start {} 1) (momentsOf lateStop)).get
    (by decide +kernel)
  runs := (Option.some_get _).symm
  ends := by decide +kernel

theorem inTime_lateStopHandOver : lateStopHandOver.InTime where
  handOff := by
    have hreached : ((Supervisor.reachHandOff 2).exec (supervisorOf
        { restart := { defaultAction := some .exit } } lateStop)).1 =
          .ok (.error .missingApplication, true) := by
      decide +kernel
    intro result released hrun
    cases hreached.symm.trans hrun
    rfl
  stop := by decide +kernel
  joined := ⟨.ok .stopped, List.mem_of_getElem? (i := 25) rfl⟩

theorem agreed_lateStopHandOver : lateStopHandOver.Agreed :=
  HandOver.agreed_of_inTime lateStopHandOver inTime_lateStopHandOver

end Ngsm.Runner
