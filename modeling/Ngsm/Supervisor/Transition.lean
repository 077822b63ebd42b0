/-
# Pause and continue requests

A `Transition` is shared by the holder that asked for it and by the supervisor
that carries it out.  Its phase is behind one lock, so each call is a sequence of
critical sections, and a schedule is the order in which the holders take them.
`cancel` and `outcome` are one section each.  `execute` takes the lock to begin,
runs its operation without it, takes it again to publish, and once more when the
completion guard is dropped; an operation that panics goes straight to the guard.

The history keeps what every call answered, in the order of the sections.
-/

import Mathlib.Data.List.Basic
import Mathlib.Logic.Function.Basic

namespace Ngsm.Supervisor

inductive TransitionOutcome where
  | applied
  | cancelled
  | rejected (message : String)
  | degraded (message : String)
deriving DecidableEq, Repr

namespace Transition

inductive Phase where
  | queued
  | executing
  | finished (outcome : TransitionOutcome)
deriving DecidableEq, Repr

/-- The calls that go through `execute`. -/
inductive Call where
  | execute
  | reject (message : String)
deriving DecidableEq, Repr

/-- Where a holder stands inside `execute`.  The guard is dropped with the
published outcome, or with none while a panic unwinds. -/
inductive Pc where
  | idle
  | operating (call : Call)
  | publishing (call : Call) (outcome : TransitionOutcome)
  | dropping (call : Call) (published : Option TransitionOutcome)
deriving DecidableEq, Repr

inductive Event where
  | cancel (answer : Option TransitionOutcome)
  | outcome (answer : Option TransitionOutcome)
  /-- An operation starts to run. -/
  | operation (holder : Nat)
  /-- A call ends; without an answer it ended by a panic. -/
  | returned (call : Call) (ran : Bool) (answer : Option TransitionOutcome)
deriving DecidableEq, Repr

structure State where
  phase : Phase := .queued
  cancelled : Bool := false
  calls : Nat → Pc := fun _ => .idle
  history : List Event := []

namespace State

def record (s : State) (event : Event) : State :=
  { s with history := s.history ++ [event] }

def answer (s : State) : Option TransitionOutcome :=
  match s.phase with
  | .finished outcome => some outcome
  | _ => none

def outcome (s : State) : State :=
  s.record (.outcome s.answer)

def cancel (s : State) : State :=
  let s := { s with cancelled := true }
  let s := if s.phase = .queued then { s with phase := .finished .cancelled } else s
  s.record (.cancel s.answer)

/-- The first section of `execute`. -/
def execute (s : State) (holder : Nat) (call : Call) : State :=
  match s.phase with
  | .queued =>
      State.record { s with
        phase := .executing
        calls := Function.update s.calls holder (.operating call) } (.operation holder)
  | .finished outcome => s.record (.returned call false (some outcome))
  | .executing => s.record (.returned call false (some (.degraded "control executed twice")))

/-- The operation ends with a result, or with none by a panic.  The operation of
`reject` is a constant. -/
def finishOperation (s : State) (holder : Nat) (call : Call) (result : Option TransitionOutcome) :
    State :=
  let next :=
    match call, result with
    | .reject message, _ => .publishing call (.rejected message)
    | .execute, some outcome => .publishing call outcome
    | .execute, none => .dropping call none
  { s with calls := Function.update s.calls holder next }

def publish (s : State) (holder : Nat) (call : Call) (outcome : TransitionOutcome) : State :=
  { s with
    phase := .finished outcome
    calls := Function.update s.calls holder (.dropping call (some outcome)) }

/-- `Completion::drop`, with which the call ends. -/
def dropCompletion (s : State) (holder : Nat) (call : Call)
    (published : Option TransitionOutcome) : State :=
  let s := { s with calls := Function.update s.calls holder .idle }
  let s := if s.phase = .executing then
      { s with phase := .finished (.degraded "supervisor abandoned an executing control") }
    else s
  s.record (.returned call true published)

end State

/-- One critical section, or the end of a running operation. -/
inductive Action where
  | cancel
  | outcome
  | call (holder : Nat) (call : Call)
  | operationEnds (holder : Nat) (result : Option TransitionOutcome)
  | proceed (holder : Nat)
deriving DecidableEq, Repr

/-- A section that the holder is not at changes nothing. -/
def step (s : State) : Action → State
  | .cancel => s.cancel
  | .outcome => s.outcome
  | .call holder call =>
      match s.calls holder with
      | .idle => s.execute holder call
      | _ => s
  | .operationEnds holder result =>
      match s.calls holder with
      | .operating call => s.finishOperation holder call result
      | _ => s
  | .proceed holder =>
      match s.calls holder with
      | .publishing call outcome => s.publish holder call outcome
      | .dropping call published => s.dropCompletion holder call published
      | _ => s

def run (schedule : List Action) : State :=
  schedule.foldl step {}

/-! ## What holds in every state -/

/-- The holder has begun to execute and has not decided the outcome. -/
def Pc.Busy : Pc → Prop
  | .idle => False
  | .operating _ => True
  | .publishing _ _ => True
  | .dropping _ published => published = none

/-- The answer of a call that only looks, or cancels. -/
def Event.answer? : Event → Option TransitionOutcome
  | .cancel answer => answer
  | .outcome answer => answer
  | _ => none

/-- After this event no operation may start. -/
def Event.Closes : Event → Prop
  | .cancel answer => answer = some .cancelled
  | .operation _ => True
  | .returned _ _ _ => True
  | .outcome _ => False

def Event.isOperation : Event → Bool
  | .operation _ => true
  | _ => false

/-- The order of two events in one history. -/
def Ordered (earlier later : Event) : Prop :=
  (earlier.Closes → later.isOperation = false) ∧
    ∀ outcome, earlier.answer? = some outcome →
      ∀ answer, later = .cancel answer ∨ later = .outcome answer → answer = some outcome

structure Linear (s : State) : Prop where
  busy_executing : ∀ holder, (s.calls holder).Busy → s.phase = .executing
  busy_unique : ∀ first second, (s.calls first).Busy → (s.calls second).Busy → first = second
  executing_busy : s.phase = .executing → ∃ holder, (s.calls holder).Busy
  published : ∀ holder call outcome,
    s.calls holder = .dropping call (some outcome) → ∃ outcome, s.phase = .finished outcome
  definite : ∀ event ∈ s.history, ∀ outcome,
    event.answer? = some outcome → s.phase = .finished outcome
  closed : ∀ event ∈ s.history, event.Closes → s.phase ≠ .queued
  ended : ∀ call answer, .returned call true answer ∈ s.history →
    ∃ outcome, s.phase = .finished outcome
  ordered : s.history.Pairwise Ordered

/-! ## Each section keeps it -/

variable {s : State}

/-- An event that agrees with the phase may be recorded. -/
theorem linear_record (h : Linear s) {event : Event}
    (hdefinite : ∀ outcome, event.answer? = some outcome → s.phase = .finished outcome)
    (hclosed : event.Closes → s.phase ≠ .queued)
    (hended : ∀ call answer, event = .returned call true answer →
      ∃ outcome, s.phase = .finished outcome)
    (hordered : ∀ earlier ∈ s.history, Ordered earlier event) : Linear (s.record event) where
  busy_executing := h.busy_executing
  busy_unique := h.busy_unique
  executing_busy := h.executing_busy
  published := h.published
  definite e he := by
    rcases List.mem_append.mp he with hold | hnew
    · exact h.definite e hold
    · obtain rfl := List.mem_singleton.mp hnew
      exact hdefinite
  closed e he := by
    rcases List.mem_append.mp he with hold | hnew
    · exact h.closed e hold
    · obtain rfl := List.mem_singleton.mp hnew
      exact hclosed
  ended call answer he := by
    rcases List.mem_append.mp he with hold | hnew
    · exact h.ended call answer hold
    · exact hended call answer (List.mem_singleton.mp hnew).symm
  ordered := by
    refine List.pairwise_append.mpr ⟨h.ordered, List.pairwise_singleton _ _, ?_⟩
    intro earlier hearlier later hlater
    obtain rfl := List.mem_singleton.mp hlater
    exact hordered earlier hearlier

theorem answer_eq_some {outcome : TransitionOutcome} :
    s.answer = some outcome ↔ s.phase = .finished outcome := by
  unfold State.answer
  cases s.phase <;> simp

/-- A query answers what every earlier definite answer said. -/
theorem ordered_query (h : Linear s) {event : Event}
    (hevent : event = .cancel s.answer ∨ event = .outcome s.answer) :
    ∀ earlier ∈ s.history, Ordered earlier event := by
  intro earlier hearlier
  constructor
  · rintro -
    rcases hevent with rfl | rfl <;> rfl
  · intro outcome hanswer answer hlater
    have hphase := h.definite earlier hearlier outcome hanswer
    rw [← answer_eq_some] at hphase
    rcases hevent with rfl | rfl <;> rcases hlater with hlater | hlater <;> cases hlater <;>
      exact hphase

theorem linear_outcome (h : Linear s) : Linear s.outcome := by
  apply linear_record h
  · intro outcome hanswer
    exact answer_eq_some.mp hanswer
  · rintro ⟨⟩
  · rintro call answer ⟨⟩
  · exact ordered_query h (.inr rfl)

/-- A request that nobody executes may be decided on the spot. -/
theorem linear_decide (h : Linear s) (hqueued : s.phase = .queued) (outcome : TransitionOutcome) :
    Linear { s with phase := .finished outcome } where
  busy_executing holder hbusy := by
    rw [h.busy_executing holder hbusy] at hqueued
    cases hqueued
  busy_unique := h.busy_unique
  executing_busy hphase := by cases hphase
  published _ _ _ _ := ⟨outcome, rfl⟩
  definite event hevent outcome' hanswer := by
    rw [h.definite event hevent outcome' hanswer] at hqueued
    cases hqueued
  closed _ _ _ hphase := by cases hphase
  ended _ _ _ := ⟨outcome, rfl⟩
  ordered := h.ordered

theorem linear_cancelled (h : Linear s) (value : Bool) : Linear { s with cancelled := value } :=
  ⟨h.busy_executing, h.busy_unique, h.executing_busy, h.published, h.definite, h.closed, h.ended,
    h.ordered⟩

theorem linear_recordCancel (h : Linear s) (hqueued : s.phase ≠ .queued) :
    Linear (s.record (.cancel s.answer)) := by
  apply linear_record h
  · intro outcome hanswer
    exact answer_eq_some.mp hanswer
  · intro _
    exact hqueued
  · rintro call answer ⟨⟩
  · exact ordered_query h (.inl rfl)

theorem linear_cancel (h : Linear s) : Linear s.cancel := by
  simp only [State.cancel]
  by_cases hqueued : s.phase = .queued
  · rw [if_pos hqueued]
    apply linear_recordCancel
    · exact linear_decide (linear_cancelled h true) hqueued .cancelled
    · rintro ⟨⟩
  · rw [if_neg hqueued]
    exact linear_recordCancel (linear_cancelled h true) hqueued

theorem linear_recordReturned (h : Linear s) (call : Call) (ran : Bool)
    (answer : Option TransitionOutcome) (hqueued : s.phase ≠ .queued)
    (hran : ran = true → ∃ outcome, s.phase = .finished outcome) :
    Linear (s.record (.returned call ran answer)) := by
  apply linear_record h
  · rintro outcome ⟨⟩
  · intro _
    exact hqueued
  · rintro call' answer' hevent
    cases hevent
    exact hran rfl
  · intro earlier _
    refine ⟨fun _ => rfl, ?_⟩
    rintro outcome - answer (hlater | hlater) <;> cases hlater

theorem linear_execute (h : Linear s) (holder : Nat) (call : Call) :
    Linear (s.execute holder call) := by
  unfold State.execute
  cases hphase : s.phase with
  | finished outcome =>
      refine linear_recordReturned h call false _ ?_ ?_
      · simp [hphase]
      · rintro ⟨⟩
  | executing =>
      refine linear_recordReturned h call false _ ?_ ?_
      · simp [hphase]
      · rintro ⟨⟩
  | queued =>
      -- nothing has been decided, so nothing in the history forbids the start
      have hidle : ∀ other, ¬ (s.calls other).Busy := fun other hbusy => by
        rw [h.busy_executing other hbusy] at hphase
        cases hphase
      have hbusy : ∀ other, (Function.update s.calls holder (.operating call) other).Busy →
          other = holder := by
        intro other hother
        by_contra hne
        rw [Function.update_of_ne hne] at hother
        exact hidle other hother
      have hstarted : Linear { s with
          phase := .executing
          calls := Function.update s.calls holder (.operating call) } :=
        { busy_executing := fun _ _ => rfl
          busy_unique := fun first second hfirst hsecond =>
            (hbusy first hfirst).trans (hbusy second hsecond).symm
          executing_busy := fun _ => ⟨holder, by simp [Pc.Busy]⟩
          published := fun other call' outcome hdropping => by
            by_cases hother : other = holder
            · subst hother
              simp at hdropping
            · simp only [Function.update_of_ne hother] at hdropping
              obtain ⟨outcome', hfinished⟩ := h.published other call' outcome hdropping
              rw [hphase] at hfinished
              cases hfinished
          definite := fun event hevent outcome hanswer => by
            have hfinished := h.definite event hevent outcome hanswer
            rw [hphase] at hfinished
            cases hfinished
          closed := fun _ _ _ hexecuting => by cases hexecuting
          ended := fun call' answer hevent => by
            obtain ⟨outcome, hfinished⟩ := h.ended call' answer hevent
            rw [hphase] at hfinished
            cases hfinished
          ordered := h.ordered }
      apply linear_record hstarted
      · rintro outcome ⟨⟩
      · rintro - ⟨⟩
      · rintro call' answer ⟨⟩
      · intro earlier hearlier
        refine ⟨fun hcloses => absurd hphase (h.closed earlier hearlier hcloses), ?_⟩
        rintro outcome - answer (hlater | hlater) <;> cases hlater

/-- The holder goes on inside its call and stays undecided. -/
theorem linear_proceed (h : Linear s) {holder : Nat} {next : Pc}
    (hbusy : (s.calls holder).Busy) (hnext : next.Busy) :
    Linear { s with calls := Function.update s.calls holder next } := by
  have hsame : ∀ other, (Function.update s.calls holder next other).Busy ↔
      (s.calls other).Busy := by
    intro other
    by_cases hother : other = holder
    · subst hother
      simp [hbusy, hnext]
    · rw [Function.update_of_ne hother]
  constructor
  · intro other hother
    exact h.busy_executing other ((hsame other).mp hother)
  · intro first second hfirst hsecond
    exact h.busy_unique first second ((hsame first).mp hfirst) ((hsame second).mp hsecond)
  · intro hphase
    obtain ⟨other, hother⟩ := h.executing_busy hphase
    exact ⟨other, (hsame other).mpr hother⟩
  · intro other call outcome hdropping
    by_cases hother : other = holder
    · subst hother
      simp only [Function.update_self] at hdropping
      rw [hdropping] at hnext
      cases hnext
    · simp only [Function.update_of_ne hother] at hdropping
      exact h.published other call outcome hdropping
  · exact h.definite
  · exact h.closed
  · exact h.ended
  · exact h.ordered

theorem linear_finishOperation (h : Linear s) {holder : Nat} {call : Call}
    (hpc : s.calls holder = .operating call) (result : Option TransitionOutcome) :
    Linear (s.finishOperation holder call result) := by
  apply linear_proceed h
  · rw [hpc]
    trivial
  · rcases call with _ | message <;> rcases result with _ | outcome <;> simp [Pc.Busy]

/-- The executing holder decides the outcome. -/
theorem linear_finish (h : Linear s) {holder : Nat} {next : Pc} (hbusy : (s.calls holder).Busy)
    (hnext : ¬ next.Busy) (outcome : TransitionOutcome) :
    Linear { s with
      phase := .finished outcome
      calls := Function.update s.calls holder next } := by
  have hphase := h.busy_executing holder hbusy
  have hidle : ∀ other, ¬ (Function.update s.calls holder next other).Busy := by
    intro other
    by_cases hother : other = holder
    · subst hother
      simpa using hnext
    · rw [Function.update_of_ne hother]
      exact fun hbusy' => hother (h.busy_unique other holder hbusy' hbusy)
  constructor
  · exact fun other hother => absurd hother (hidle other)
  · exact fun first _ hfirst _ => absurd hfirst (hidle first)
  · rintro ⟨⟩
  · exact fun _ _ _ _ => ⟨outcome, rfl⟩
  · intro event hevent outcome' hanswer
    rw [h.definite event hevent outcome' hanswer] at hphase
    cases hphase
  · rintro _ _ _ ⟨⟩
  · exact fun _ _ _ => ⟨outcome, rfl⟩
  · exact h.ordered

theorem linear_publish (h : Linear s) {holder : Nat} {call : Call} {outcome : TransitionOutcome}
    (hpc : s.calls holder = .publishing call outcome) :
    Linear (s.publish holder call outcome) := by
  apply linear_finish h
  · rw [hpc]
    trivial
  · simp [Pc.Busy]

/-- A holder whose outcome stands leaves its call. -/
theorem linear_leave (h : Linear s) {holder : Nat} (hidle : ¬ (s.calls holder).Busy) :
    Linear { s with calls := Function.update s.calls holder .idle } := by
  have hsame : ∀ other, (Function.update s.calls holder .idle other).Busy ↔
      (s.calls other).Busy := by
    intro other
    by_cases hother : other = holder
    · subst hother
      rw [Function.update_self]
      exact ⟨False.elim, hidle⟩
    · rw [Function.update_of_ne hother]
  constructor
  · intro other hother
    exact h.busy_executing other ((hsame other).mp hother)
  · intro first second hfirst hsecond
    exact h.busy_unique first second ((hsame first).mp hfirst) ((hsame second).mp hsecond)
  · intro hphase
    obtain ⟨other, hother⟩ := h.executing_busy hphase
    exact ⟨other, (hsame other).mpr hother⟩
  · intro other call outcome hdropping
    by_cases hother : other = holder
    · subst hother
      simp at hdropping
    · simp only [Function.update_of_ne hother] at hdropping
      exact h.published other call outcome hdropping
  · exact h.definite
  · exact h.closed
  · exact h.ended
  · exact h.ordered

theorem linear_dropCompletion (h : Linear s) {holder : Nat} {call : Call}
    {published : Option TransitionOutcome} (hpc : s.calls holder = .dropping call published) :
    Linear (s.dropCompletion holder call published) := by
  simp only [State.dropCompletion]
  by_cases hphase : s.phase = .executing
  · rw [if_pos hphase]
    have hbusy : (s.calls holder).Busy := by
      rcases published with _ | outcome
      · rw [hpc]
        rfl
      · obtain ⟨outcome', hfinished⟩ := h.published holder call outcome hpc
        rw [hphase] at hfinished
        cases hfinished
    refine linear_recordReturned (linear_finish h hbusy ?_ _) call true published ?_ ?_
    · exact id
    · rintro ⟨⟩
    · exact fun _ => ⟨_, rfl⟩
  · rw [if_neg hphase]
    have hfinished : ∃ outcome, s.phase = .finished outcome := by
      rcases published with _ | outcome
      · exact absurd (h.busy_executing holder (by rw [hpc]; rfl)) hphase
      · exact h.published holder call outcome hpc
    have hidle : ¬ (s.calls holder).Busy := fun hbusy => hphase (h.busy_executing holder hbusy)
    refine linear_recordReturned (linear_leave h hidle) call true published ?_ fun _ => hfinished
    obtain ⟨outcome, houtcome⟩ := hfinished
    simp [houtcome]

theorem linear_step (h : Linear s) (action : Action) : Linear (step s action) := by
  cases action with
  | cancel => exact linear_cancel h
  | outcome => exact linear_outcome h
  | call holder call =>
      simp only [step]
      cases hpc : s.calls holder with
      | idle => exact linear_execute h holder call
      | _ => exact h
  | operationEnds holder result =>
      simp only [step]
      cases hpc : s.calls holder with
      | operating call => exact linear_finishOperation h hpc result
      | _ => exact h
  | proceed holder =>
      simp only [step]
      cases hpc : s.calls holder with
      | publishing call outcome => exact linear_publish h hpc
      | dropping call published => exact linear_dropCompletion h hpc
      | _ => exact h

theorem linear_init : Linear {} :=
  ⟨nofun, nofun, nofun, nofun, nofun, nofun, nofun, List.Pairwise.nil⟩

theorem linear_run (schedule : List Action) : Linear (run schedule) :=
  List.foldlRecOn schedule step linear_init fun _ h action _ => linear_step h action

/-! ## The guarantee -/

theorem operations_le_one {history : List Event} (hordered : history.Pairwise Ordered) :
    history.countP Event.isOperation ≤ 1 := by
  induction hordered with
  | nil => simp
  | @cons event rest hfirst _ ih =>
      rw [List.countP_cons]
      cases event with
      | operation holder =>
          have hnone : rest.countP Event.isOperation = 0 := by
            rw [List.countP_eq_zero]
            intro later hlater
            simp [(hfirst later hlater).1 trivial]
          simp [hnone, Event.isOperation]
      | _ => simpa [Event.isOperation] using ih

/-- Any number of holders, in any order of their critical sections: at most one
operation runs, and none after a cancellation was confirmed or a rejection ended;
a definite answer is repeated by every later query; a cancellation stays open only
while a holder is executing; and a call that ran its operation leaves a definite
outcome behind, however it ended. -/
theorem transition_linearised (schedule : List Action) :
    (run schedule).history.countP Event.isOperation ≤ 1 ∧
    (run schedule).history.Pairwise (fun earlier later =>
      (earlier = .cancel (some .cancelled) ∨
        ∃ message ran answer, earlier = .returned (.reject message) ran answer) →
      later.isOperation = false) ∧
    (run schedule).history.Pairwise (fun earlier later =>
      ∀ outcome, earlier = .cancel (some outcome) ∨ earlier = .outcome (some outcome) →
      ∀ answer, later = .cancel answer ∨ later = .outcome answer → answer = some outcome) ∧
    ((run schedule).cancel.history = (run schedule).history ++ [.cancel none] →
      ∃ holder, ((run schedule).calls holder).Busy) ∧
    (∀ call answer, .returned call true answer ∈ (run schedule).history →
      ∃ outcome, (run schedule).phase = .finished outcome) := by
  have h := linear_run schedule
  refine ⟨operations_le_one h.ordered, ?_, ?_, ?_, h.ended⟩
  · refine h.ordered.imp fun {earlier later} hordered hcloses => hordered.1 ?_
    rcases hcloses with rfl | ⟨message, ran, answer, rfl⟩
    · rfl
    · trivial
  · refine h.ordered.imp fun {earlier later} hordered outcome hearlier => hordered.2 outcome ?_
    rcases hearlier with rfl | rfl <;> rfl
  · intro hnone
    apply h.executing_busy
    revert hnone
    cases hphase : (run schedule).phase <;> simp [State.cancel, State.record, State.answer, hphase]

end Transition

end Ngsm.Supervisor
