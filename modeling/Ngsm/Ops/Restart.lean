/-
# Restarting a service

A restart stops a service, waits until it is reported stopped, and starts it.  The
operating system behind it is a backend that answers every call as it likes: the states
it reports, the errors and the readings of the clock may depend on everything that has
been called before.  What a restart has called, with the answers, is its history.

A history tells the whole discipline of a restart.  How long it waits depends on the
clock, which has to advance by what has been slept.
-/

import Ngsm.Core.ImagePath
import Ngsm.Lib.History
import Ngsm.Lib.Program

namespace Ngsm.Ops

open Ngsm.Lib
open Ngsm.Core

namespace Restart

/-! ## The backend -/

structure RestartSnapshot where
  startup : StartupType
  state : Option ServiceState
  deriving DecidableEq, Repr

/-- A duration is a number of nanoseconds. -/
def fromMillis (ms : ℕ) : ℕ :=
  ms * 1000000

/-- A call of the backend with its answer. -/
inductive Event where
  | ensureManaged (answer : Result Unit)
  | query (answer : Result RestartSnapshot)
  | stop (answer : Result Unit)
  | start (answer : Result Unit)
  | now (reading : ℕ)
  | sleep (duration : ℕ)

abbrev History : Type :=
  List Event

/-- The answer of the operating system to each call, after a history. -/
structure RestartBackend where
  ensureManaged : History → Result Unit
  query : History → Result RestartSnapshot
  stop : History → Result Unit
  start : History → Result Unit
  now : History → ℕ

/-- How a restart ends early: with an error, with a subtraction that underflows, or not
within the rounds it was given. -/
inductive Stopped where
  | failed (error : Error)
  | underflow
  | unfinished

abbrev Action (α : Type) : Type :=
  Prog History Stopped α

section

variable (backend : RestartBackend)

/-- Call the backend for a value. -/
def ask {α : Type} (answer : History → α) (event : α → Event) : Action α :=
  Prog.step fun history => (.ok (answer history), history ++ [event (answer history)])

/-- Call the backend, and pass its error on. -/
def callOrFail {α : Type} (answer : History → Result α) (event : Result α → Event) : Action α :=
  Prog.step fun history =>
    ((answer history).mapError .failed, history ++ [event (answer history)])

def sleep (duration : ℕ) : Action Unit :=
  modify (· ++ [.sleep duration])

/-! ## The restart -/

def isServiceNotActiveError (error : Error) : Bool :=
  Text.containsText error.text "0x80070426" ||
    Text.containsText error.text "has not been started"

/-- The difference of two durations; a negative one is a panic. -/
def subtract (a b : ℕ) : Action ℕ :=
  if b ≤ a then pure (a - b) else throw .underflow

def didNotStop (name : String) (stopTimeoutMs : ℕ) : Error :=
  .other ("'" ++ name ++ "' did not stop within " ++ toString stopTimeoutMs ++ " ms")

def isDisabled (name : String) : Error :=
  .other ("'" ++ name ++ "' is disabled — enable it before restarting")

/-- Query until the service is stopped or the time is over. -/
def awaitStopped (name : String) (stopTimeoutMs : ℕ) (began : ℕ) : ℕ → Action Unit
  | 0 => throw .unfinished
  | rounds + 1 => do
      let snapshot ← callOrFail backend.query .query
      if snapshot.state = some .stopped then
        pure ()
      else
        let reading ← ask backend.now .now
        let elapsed := reading - began
        let timeout := fromMillis stopTimeoutMs
        if timeout ≤ elapsed then
          throw (.failed (didNotStop name stopTimeoutMs))
        else
          let rest ← subtract timeout elapsed
          sleep (min (fromMillis 200) rest)
          awaitStopped name stopTimeoutMs began rounds

/-- Stop a service; that it has stopped meanwhile is no error. -/
def stopService : Action Unit := do
  match ← ask backend.stop .stop with
  | .ok () => pure ()
  | .error e => if isServiceNotActiveError e then pure () else throw (.failed e)

/-- Stop a service that is not stopping already. -/
def requestStop (snapshot : RestartSnapshot) : Action Unit :=
  if snapshot.state = some .stopPending then pure () else stopService backend

/-- Stop a service that is neither stopped nor without a runtime state, and wait for it. -/
def stopAndWait (name : String) (stopTimeoutMs rounds : ℕ) (snapshot : RestartSnapshot) :
    Action Unit :=
  if snapshot.state = some .stopped ∨ snapshot.state = none then
    pure ()
  else do
    requestStop backend snapshot
    let began ← ask backend.now .now
    awaitStopped backend name stopTimeoutMs began rounds
    sleep (fromMillis 250)

def ensureOwned (forceNative : Bool) : Action Unit :=
  if forceNative then pure () else callOrFail backend.ensureManaged .ensureManaged

def restartUsing (name : String) (stopTimeoutMs : ℕ) (forceNative : Bool) (rounds : ℕ) :
    Action String := do
  ensureOwned backend forceNative
  let snapshot ← callOrFail backend.query .query
  if snapshot.startup = .disabled then
    throw (.failed (isDisabled name))
  else
    stopAndWait backend name stopTimeoutMs rounds snapshot
    callOrFail backend.start .start
    pure ("Restarted '" ++ name ++ "'.")

end

/-! ## What a history says -/

def Event.queried : Event → Option (Result RestartSnapshot)
  | .query answer => some answer
  | _ => none

/-- What the first query of a history answered. -/
def firstQuery (history : History) : Option (Result RestartSnapshot) :=
  history.findSome? Event.queried

/-- What the latest query of a history answered. -/
def lastQuery (history : History) : Option (Result RestartSnapshot) :=
  history.reverse.findSome? Event.queried

def Event.isStart : Event → Bool
  | .start _ => true
  | _ => false

/-- A call that controls the service. -/
def Event.controls : Event → Bool
  | .stop _ | .start _ => true
  | _ => false

def slept : History → ℕ
  | [] => 0
  | .sleep duration :: history => duration + slept history
  | _ :: history => slept history

/-! ## The discipline -/

/-- Ownership is confirmed where it is required, and the first query reported a service that
is not disabled. -/
structure Cleared (forceNative : Bool) (before : History) : Prop where
  owned : forceNative = false → .ensureManaged (.ok ()) ∈ before
  enabled : ∃ snapshot, firstQuery before = some (.ok snapshot) ∧ snapshot.startup ≠ .disabled

/-- When a call may follow a history.  The first control of the service may be a stop, and
the latest query has to report an active service that is not stopping.  One start may
follow, where the service was not active at first or a query reported that it has stopped. -/
def Permitted (forceNative : Bool) (before : History) : Event → Prop
  | .stop _ => Cleared forceNative before ∧ (∀ event ∈ before, event.controls = false) ∧
      ∃ snapshot, lastQuery before = some (.ok snapshot) ∧
        snapshot.state ≠ some .stopped ∧ snapshot.state ≠ none ∧
        snapshot.state ≠ some .stopPending
  | .start _ => Cleared forceNative before ∧ (∀ event ∈ before, event.isStart = false) ∧
      ((∃ snapshot, firstQuery before = some (.ok snapshot) ∧
          (snapshot.state = some .stopped ∨ snapshot.state = none)) ∨
        ∃ snapshot, .query (.ok snapshot) ∈ before ∧ snapshot.state = some .stopped)
  | _ => True

/-- Every call of a history was permitted by what had been called before it. -/
def Disciplined (forceNative : Bool) : History → Prop :=
  EachEvent (Permitted forceNative)

section

variable {forceNative : Bool} {history : History} {event : Event} {snapshot : RestartSnapshot}

theorem disciplined_nil : Disciplined forceNative [] :=
  EachEvent.nil

theorem Disciplined.concat (h : Disciplined forceNative history)
    (hpermitted : Permitted forceNative history event) :
    Disciplined forceNative (history ++ [event]) :=
  EachEvent.concat h hpermitted

/-- A history in which the service is reported as `snapshot` at first, and not yet started. -/
structure Ready (forceNative : Bool) (snapshot : RestartSnapshot) (history : History) : Prop where
  owned : forceNative = false → .ensureManaged (.ok ()) ∈ history
  first : firstQuery history = some (.ok snapshot)
  unstarted : ∀ event ∈ history, event.isStart = false
  disciplined : Disciplined forceNative history

theorem Ready.concat (h : Ready forceNative snapshot history) (hstart : event.isStart = false)
    (hpermitted : Permitted forceNative history event) :
    Ready forceNative snapshot (history ++ [event]) where
  owned := fun hforce => List.mem_append_left _ (h.owned hforce)
  first := by
    rw [firstQuery, List.findSome?_append, show history.findSome? Event.queried = _ from h.first]
    rfl
  unstarted := by
    intro other hother
    rcases List.mem_append.mp hother with hold | hnew
    · exact h.unstarted other hold
    · rw [List.mem_singleton.mp hnew]
      exact hstart
  disciplined := h.disciplined.concat hpermitted

theorem Ready.cleared (h : Ready forceNative snapshot history)
    (henabled : snapshot.startup ≠ .disabled) : Cleared forceNative history :=
  ⟨h.owned, snapshot, h.first, henabled⟩

end

/-! ## The calls -/

section

variable {backend : RestartBackend} {α : Type} {Q : α → History → Prop}
  {R : Stopped → History → Prop} {history : History}

theorem wp_ask {answer : History → α} {event : α → Event} :
    Prog.wp (ask answer event) Q R history ↔
      Q (answer history) (history ++ [event (answer history)]) :=
  Iff.rfl

theorem wp_callOrFail {answer : History → Result α} {event : Result α → Event} :
    Prog.wp (callOrFail answer event) Q R history ↔
      (∀ a, answer history = .ok a → Q a (history ++ [event (.ok a)])) ∧
      (∀ e, answer history = .error e → R (.failed e) (history ++ [event (.error e)])) := by
  unfold callOrFail
  rw [Prog.wp_step]
  cases hanswer : answer history with
  | ok a => simp [Except.mapError]
  | error e => simp [Except.mapError]

theorem wp_sleep {duration : ℕ} {Q : Unit → History → Prop} :
    Prog.wp (sleep duration) Q R history ↔ Q () (history ++ [.sleep duration]) :=
  Iff.rfl

end

/-! ## Every restart keeps the discipline -/

section

variable {backend : RestartBackend} {name : String} {stopTimeoutMs rounds : ℕ} {began : ℕ}
  {forceNative : Bool} {snapshot : RestartSnapshot} {history : History}

/-- A query of the service reported that it has stopped. -/
def SeenStopped (history : History) : Prop :=
  ∃ snapshot, .query (.ok snapshot) ∈ history ∧ snapshot.state = some .stopped

/-- A run that ends early has kept the discipline, and no subtraction underflowed. -/
def Sound (forceNative : Bool) (stopped : Stopped) (history : History) : Prop :=
  Disciplined forceNative history ∧ stopped ≠ .underflow

theorem Sound.failed {error : Error} (h : Disciplined forceNative history) :
    Sound forceNative (.failed error) history :=
  ⟨h, nofun⟩

theorem wp_awaitStopped (hready : Ready forceNative snapshot history) :
    Prog.wp (awaitStopped backend name stopTimeoutMs began rounds)
      (fun _ history' => Ready forceNative snapshot history' ∧ SeenStopped history')
      (Sound forceNative) history := by
  induction rounds generalizing history with
  | zero => exact ⟨hready.disciplined, nofun⟩
  | succ rounds ih =>
      rw [awaitStopped, Prog.wp_bind, wp_callOrFail]
      constructor
      · intro last hlast
        have hqueried : Ready forceNative snapshot (history ++ [.query (.ok last)]) :=
          hready.concat rfl trivial
        rw [Prog.wp_ite]
        split
        · rename_i hstopped
          exact ⟨hqueried, last, List.mem_append_right _ List.mem_cons_self, hstopped⟩
        · rw [Prog.wp_bind, wp_ask]
          dsimp only
          have hread : Ready forceNative snapshot (history ++ [.query (.ok last)] ++
              [.now (backend.now (history ++ [.query (.ok last)]))]) :=
            hqueried.concat rfl trivial
          rw [Prog.wp_ite]
          split
          · exact .failed hread.disciplined
          · rename_i hless
            rw [subtract, if_pos (Nat.le_of_not_le hless), pure_bind, Prog.wp_bind, wp_sleep]
            apply ih
            exact hread.concat rfl trivial
      · intro e _
        have hqueried : Ready forceNative snapshot (history ++ [.query (.error e)]) :=
          hready.concat rfl trivial
        exact .failed hqueried.disciplined

theorem wp_stopService (hready : Ready forceNative snapshot history)
    (hpermitted : ∀ answer, Permitted forceNative history (.stop answer)) :
    Prog.wp (stopService backend) (fun _ => Ready forceNative snapshot) (Sound forceNative)
      history := by
  unfold stopService
  rw [Prog.wp_bind, wp_ask]
  have hstopped : Ready forceNative snapshot (history ++ [.stop (backend.stop history)]) :=
    hready.concat rfl (hpermitted _)
  generalize backend.stop history = answer at hstopped ⊢
  cases answer with
  | ok done => exact hstopped
  | error e =>
      dsimp only
      rw [Prog.wp_ite]
      split
      · exact hstopped
      · exact .failed hstopped.disciplined

/-- The first query is the latest, and nothing has been controlled yet. -/
structure JustQueried (snapshot : RestartSnapshot) (history : History) : Prop where
  last : lastQuery history = some (.ok snapshot)
  uncontrolled : ∀ event ∈ history, event.controls = false

theorem wp_stopAndWait (hready : Ready forceNative snapshot history)
    (henabled : snapshot.startup ≠ .disabled) (hqueried : JustQueried snapshot history) :
    Prog.wp (stopAndWait backend name stopTimeoutMs rounds snapshot)
      (fun _ history' => Ready forceNative snapshot history' ∧
        (snapshot.state = some .stopped ∨ snapshot.state = none ∨ SeenStopped history'))
      (Sound forceNative) history := by
  unfold stopAndWait
  rw [Prog.wp_ite]
  split
  · rename_i hinactive
    exact ⟨hready, hinactive.elim .inl fun hnone => .inr (.inl hnone)⟩
  · rename_i hactive
    rw [not_or] at hactive
    rw [Prog.wp_bind]
    have hrequest : Prog.wp (requestStop backend snapshot)
        (fun _ => Ready forceNative snapshot) (Sound forceNative) history := by
      unfold requestStop
      rw [Prog.wp_ite]
      split
      · exact hready
      · rename_i hstopping
        exact wp_stopService hready fun answer => ⟨hready.cleared henabled,
          hqueried.uncontrolled, snapshot, hqueried.last, hactive.1, hactive.2, hstopping⟩
    refine Prog.wp_mono _ ?_ (fun _ _ hsound => hsound) hrequest
    intro _ requested hrequested
    rw [Prog.wp_bind, wp_ask, Prog.wp_bind]
    refine Prog.wp_mono _ ?_ (fun _ _ hsound => hsound)
      (wp_awaitStopped (hrequested.concat rfl trivial))
    rintro _ waited ⟨hwaited, seen, hseen, hstopped⟩
    rw [wp_sleep]
    exact ⟨hwaited.concat rfl trivial, .inr (.inr ⟨seen, List.mem_append_left _ hseen, hstopped⟩)⟩

/-- The history when ownership has been established. -/
def ownership (forceNative : Bool) : History :=
  if forceNative then [] else [.ensureManaged (.ok ())]

theorem wp_ensureOwned :
    Prog.wp (ensureOwned backend forceNative) (fun _ history => history = ownership forceNative)
      (Sound forceNative) [] := by
  unfold ensureOwned ownership
  cases forceNative with
  | true => rfl
  | false =>
      rw [if_neg Bool.false_ne_true, wp_callOrFail]
      exact ⟨fun _ _ => rfl, fun e _ => .failed (disciplined_nil.concat trivial)⟩

theorem ready_ownership (forceNative : Bool) (snapshot : RestartSnapshot) :
    Ready forceNative snapshot (ownership forceNative ++ [.query (.ok snapshot)]) ∧
      JustQueried snapshot (ownership forceNative ++ [.query (.ok snapshot)]) := by
  have howned : Disciplined forceNative (ownership forceNative) := by
    cases forceNative with
    | true => exact disciplined_nil
    | false => exact disciplined_nil.concat trivial
  refine ⟨⟨?_, ?_, ?_, howned.concat trivial⟩, ?_, ?_⟩
  · rintro rfl
    exact List.mem_cons_self
  · cases forceNative <;> rfl
  · cases forceNative <;> simp [ownership, Event.isStart]
  · cases forceNative <;> rfl
  · cases forceNative <;> simp [ownership, Event.controls]

theorem wp_restartUsing :
    Prog.wp (restartUsing backend name stopTimeoutMs forceNative rounds)
      (fun _ => Disciplined forceNative) (Sound forceNative) [] := by
  unfold restartUsing
  rw [Prog.wp_bind]
  refine Prog.wp_mono _ ?_ (fun _ _ hsound => hsound) wp_ensureOwned
  rintro _ _ rfl
  rw [Prog.wp_bind, wp_callOrFail]
  constructor
  · intro snapshot _
    obtain ⟨hready, hqueried⟩ := ready_ownership forceNative snapshot
    rw [Prog.wp_ite]
    split
    · exact .failed hready.disciplined
    · rename_i henabled
      rw [Prog.wp_bind]
      refine Prog.wp_mono _ ?_ (fun _ _ hsound => hsound)
        (wp_stopAndWait hready henabled hqueried)
      rintro _ history ⟨hready, hinactive⟩
      have hpermitted : ∀ answer, Permitted forceNative history (.start answer) := by
        intro answer
        refine ⟨hready.cleared henabled, hready.unstarted, ?_⟩
        rcases hinactive with hstopped | hnone | hseen
        · exact .inl ⟨snapshot, hready.first, .inl hstopped⟩
        · exact .inl ⟨snapshot, hready.first, .inr hnone⟩
        · exact .inr hseen
      rw [Prog.wp_bind, wp_callOrFail]
      exact ⟨fun _ _ => hready.disciplined.concat (hpermitted _),
        fun _ _ => .failed (hready.disciplined.concat (hpermitted _))⟩
  · intro e _
    refine .failed (Disciplined.concat ?_ trivial)
    cases forceNative with
    | true => exact disciplined_nil
    | false => exact disciplined_nil.concat trivial

end

/-! ## The clock -/

/-- The answer of a call is the one that the backend gives after a history. -/
def Answers (backend : RestartBackend) (before : History) : Event → Prop
  | .ensureManaged answer => answer = backend.ensureManaged before
  | .query answer => answer = backend.query before
  | .stop answer => answer = backend.stop before
  | .start answer => answer = backend.start before
  | .now reading => reading = backend.now before
  | .sleep _ => True

/-- A history that can come about with a backend. -/
def Possible (backend : RestartBackend) : History → Prop :=
  EachEvent (Answers backend)

/-- The least reading after an event. -/
def Event.advance (least : ℕ) : Event → ℕ
  | .now reading => reading
  | .sleep duration => least + duration
  | _ => least

/-- The latest reading and what has been slept since. -/
def leastReading (history : History) : ℕ :=
  history.foldl Event.advance 0

/-- A clock that never goes back and advances at least by what is slept. -/
def SteadyClock (backend : RestartBackend) : Prop :=
  ∀ history, Possible backend history → leastReading history ≤ backend.now history

section

variable {history : History} {event : Event}

theorem leastReading_concat :
    leastReading (history ++ [event]) = event.advance (leastReading history) := by
  rw [leastReading, List.foldl_append]
  rfl

theorem slept_append (history more : History) :
    slept (history ++ more) = slept history + slept more := by
  induction history with
  | nil => simp [slept]
  | cons event history ih =>
      cases event with
      | sleep duration => rw [List.cons_append, slept, slept, ih, Nat.add_assoc]
      | ensureManaged answer => exact ih
      | query answer => exact ih
      | stop answer => exact ih
      | start answer => exact ih
      | now reading => exact ih

end

section

variable {backend : RestartBackend} {name : String} {stopTimeoutMs rounds : ℕ}
  {began timeout : ℕ} {forceNative : Bool} {snapshot : RestartSnapshot} {history : History}

/-- The clock shows what has been slept since `began`, which is no more than the timeout. -/
structure Timed (backend : RestartBackend) (began timeout : ℕ) (history : History) :
    Prop where
  possible : Possible backend history
  advanced : began + slept history ≤ leastReading history
  bounded : slept history ≤ timeout

/-- Rounds enough for the clock to reach the timeout. -/
def Enough (rounds : ℕ) (began timeout : ℕ) (history : History) : Prop :=
  1 ≤ rounds ∧ began + timeout ≤ leastReading history + fromMillis 200 * (rounds - 1)

/-- A call that neither sleeps nor reads the clock changes nothing about the time. -/
theorem Timed.quiet {event : Event} (h : Timed backend began timeout history)
    (hanswers : Answers backend history event)
    (hadvance : event.advance (leastReading history) = leastReading history)
    (hslept : slept [event] = 0) : Timed backend began timeout (history ++ [event]) where
  possible := h.possible.concat hanswers
  advanced := by
    rw [leastReading_concat, slept_append, hadvance, hslept]
    exact h.advanced
  bounded := by
    rw [slept_append, hslept]
    exact h.bounded

/-- A reading of the clock shows at least what has been slept. -/
theorem Timed.reading (h : Timed backend began timeout history) (hclock : SteadyClock backend) :
    Timed backend began timeout (history ++ [.now (backend.now history)]) where
  possible := h.possible.concat rfl
  advanced := by
    rw [leastReading_concat, slept_append]
    exact Nat.le_trans h.advanced (hclock history h.possible)
  bounded := by
    rw [slept_append]
    exact h.bounded

/-- A sleep after a reading, for no longer than the reading leaves. -/
theorem Timed.sleep {duration : ℕ} (h : Timed backend began timeout history)
    (hleft : leastReading history + duration ≤ began + timeout) :
    Timed backend began timeout (history ++ [.sleep duration]) where
  possible := h.possible.concat trivial
  advanced := by
    have hadvanced := h.advanced
    rw [leastReading_concat, slept_append]
    change _ + (_ + (duration + 0)) ≤ _ + duration
    omega
  bounded := by
    have hadvanced := h.advanced
    rw [slept_append]
    change _ + (duration + 0) ≤ _
    omega

/-- A round that goes on brings the clock nearer to the timeout, or reaches it. -/
theorem enough_round {least reading pause : ℕ} (hsteady : least ≤ reading)
    (hbegan : began ≤ reading) (hless : ¬ timeout ≤ reading - began)
    (henough : began + timeout ≤ least + pause * rounds) :
    1 ≤ rounds ∧ began + timeout ≤
      reading + min pause (timeout - (reading - began)) + pause * (rounds - 1) := by
  cases rounds with
  | zero => omega
  | succ rounds =>
      rw [Nat.mul_succ] at henough
      rw [Nat.add_sub_cancel]
      generalize pause * rounds = later at *
      omega

theorem timed_awaitStopped (hclock : SteadyClock backend)
    (htimed : Timed backend began (fromMillis stopTimeoutMs) history) :
    Prog.wp (awaitStopped backend name stopTimeoutMs began rounds)
      (fun _ => Timed backend began (fromMillis stopTimeoutMs))
      (fun stopped history' => slept history' ≤ fromMillis stopTimeoutMs ∧
        (Enough rounds began (fromMillis stopTimeoutMs) history → stopped ≠ .unfinished))
      history := by
  induction rounds generalizing history with
  | zero => exact ⟨htimed.bounded, fun henough => absurd henough.1 (by decide)⟩
  | succ rounds ih =>
      rw [awaitStopped, Prog.wp_bind, wp_callOrFail]
      constructor
      · intro last hlast
        have hqueried : Timed backend began (fromMillis stopTimeoutMs)
            (history ++ [.query (.ok last)]) := htimed.quiet hlast.symm rfl rfl
        have hleast : leastReading (history ++ [.query (.ok last)]) = leastReading history :=
          leastReading_concat
        rw [Prog.wp_ite]
        split
        · exact hqueried
        · rw [Prog.wp_bind, wp_ask]
          dsimp only
          have hread := hqueried.reading hclock
          have hreading : leastReading (history ++ [.query (.ok last)] ++
              [.now (backend.now (history ++ [.query (.ok last)]))]) =
              backend.now (history ++ [.query (.ok last)]) := leastReading_concat
          have hsteady := hclock _ hqueried.possible
          have hadvanced := hread.advanced
          rw [hleast] at hsteady
          rw [hreading] at hadvanced
          generalize backend.now (history ++ [.query (.ok last)]) = reading at *
          rw [Prog.wp_ite]
          split
          · exact ⟨hread.bounded, fun _ => nofun⟩
          · rename_i hless
            rw [subtract, if_pos (Nat.le_of_not_le hless), pure_bind, Prog.wp_bind, wp_sleep]
            have hleft : reading + min (fromMillis 200)
                (fromMillis stopTimeoutMs - (reading - began)) ≤
                  began + fromMillis stopTimeoutMs := by omega
            have hslept := hread.sleep (by rw [hreading]; exact hleft)
            refine Prog.wp_mono _ (fun _ _ hok => hok) ?_ (ih hslept)
            rintro stopped after ⟨hbounded, hfinished⟩
            refine ⟨hbounded, fun henough => hfinished ?_⟩
            have hround := enough_round hsteady
              (Nat.le_trans (Nat.le_add_right _ _) hadvanced) hless henough.2
            unfold Enough
            rw [leastReading_concat, hreading]
            exact hround
      · intro e he
        have hqueried : Timed backend began (fromMillis stopTimeoutMs)
            (history ++ [.query (.error e)]) := htimed.quiet he.symm rfl rfl
        exact ⟨hqueried.bounded, fun _ => nofun⟩

/-- Nothing has been slept yet. -/
structure Unslept (backend : RestartBackend) (history : History) : Prop where
  possible : Possible backend history
  unslept : slept history = 0

theorem Unslept.concat {event : Event} (h : Unslept backend history)
    (hanswers : Answers backend history event) (hslept : slept [event] = 0) :
    Unslept backend (history ++ [event]) :=
  ⟨h.possible.concat hanswers, by rw [slept_append, h.unslept, hslept]⟩

/-- The clock starts with a reading before anything is slept. -/
theorem Unslept.timed (h : Unslept backend history) (timeout : ℕ) :
    Timed backend (backend.now history) timeout
      (history ++ [.now (backend.now history)]) where
  possible := h.possible.concat rfl
  advanced := by
    rw [leastReading_concat, slept_append, h.unslept]
    exact Nat.le_refl _
  bounded := by
    rw [slept_append, h.unslept]
    exact Nat.zero_le _

/-- How long a run that ends early has slept, and that it ended in time. -/
def InTime (stopTimeoutMs rounds : ℕ) (stopped : Stopped) (history : History) : Prop :=
  slept history ≤ fromMillis (stopTimeoutMs + 250) ∧
    (stopTimeoutMs / 200 + 2 ≤ rounds → stopped ≠ .unfinished)

theorem Unslept.inTime {error : Error} (h : Unslept backend history) :
    InTime stopTimeoutMs rounds (.failed error) history :=
  ⟨by rw [h.unslept]; exact Nat.zero_le _, fun _ => nofun⟩

theorem unslept_requestStop (h : Unslept backend history) :
    Prog.wp (requestStop backend snapshot) (fun _ => Unslept backend)
      (InTime stopTimeoutMs rounds) history := by
  unfold requestStop stopService
  rw [Prog.wp_ite]
  split
  · exact h
  · rw [Prog.wp_bind, wp_ask]
    have hstopped : Unslept backend (history ++ [.stop (backend.stop history)]) :=
      h.concat rfl rfl
    generalize backend.stop history = answer at hstopped ⊢
    cases answer with
    | ok done => exact hstopped
    | error e =>
        dsimp only
        rw [Prog.wp_ite]
        split
        · exact hstopped
        · exact hstopped.inTime

theorem inTime_stopAndWait (hclock : SteadyClock backend) (h : Unslept backend history) :
    Prog.wp (stopAndWait backend name stopTimeoutMs rounds snapshot)
      (fun _ history' => slept history' ≤ fromMillis (stopTimeoutMs + 250))
      (InTime stopTimeoutMs rounds) history := by
  have hmillis : ∀ ms, fromMillis ms = ms * 1000000 := fun _ => rfl
  unfold stopAndWait
  rw [Prog.wp_ite]
  split
  · change slept history ≤ _
    rw [h.unslept]
    exact Nat.zero_le _
  · rw [Prog.wp_bind]
    refine Prog.wp_mono _ ?_ (fun _ _ hintime => hintime) (unslept_requestStop h)
    intro _ requested hrequested
    rw [Prog.wp_bind, wp_ask, Prog.wp_bind]
    refine Prog.wp_mono _ ?_ ?_
      (timed_awaitStopped hclock (hrequested.timed (fromMillis stopTimeoutMs)))
    · intro _ waited hwaited
      have hbounded := hwaited.bounded
      have hsettled : slept [Event.sleep (fromMillis 250)] = fromMillis 250 := rfl
      rw [wp_sleep, slept_append, hsettled]
      simp only [hmillis] at hbounded ⊢
      omega
    · rintro stopped waited ⟨hbounded, hfinished⟩
      have hleast : leastReading (requested ++ [.now (backend.now requested)]) =
          backend.now requested := leastReading_concat
      refine ⟨?_, fun hrounds => hfinished ⟨by omega, ?_⟩⟩
      · exact Nat.le_trans hbounded (Nat.mul_le_mul_right _ (Nat.le_add_right _ _))
      · rw [hleast]
        simp only [hmillis]
        omega

theorem inTime_restartUsing (hclock : SteadyClock backend) :
    Prog.wp (restartUsing backend name stopTimeoutMs forceNative rounds)
      (fun _ history => slept history ≤ fromMillis (stopTimeoutMs + 250))
      (InTime stopTimeoutMs rounds) [] := by
  have hnil : Unslept backend [] := ⟨EachEvent.nil, rfl⟩
  have howned : Prog.wp (ensureOwned backend forceNative) (fun _ => Unslept backend)
      (InTime stopTimeoutMs rounds) [] := by
    unfold ensureOwned
    cases forceNative with
    | true => exact hnil
    | false =>
        rw [if_neg Bool.false_ne_true, wp_callOrFail]
        constructor
        · intro _ hok
          exact hnil.concat hok.symm rfl
        · intro e herror
          have hasked : Unslept backend ([] ++ [.ensureManaged (.error e)]) :=
            hnil.concat herror.symm rfl
          exact hasked.inTime
  unfold restartUsing
  rw [Prog.wp_bind]
  refine Prog.wp_mono _ ?_ (fun _ _ hintime => hintime) howned
  intro _ history howned
  rw [Prog.wp_bind, wp_callOrFail]
  constructor
  · intro snapshot hsnapshot
    have hqueried : Unslept backend (history ++ [.query (.ok snapshot)]) :=
      howned.concat hsnapshot.symm rfl
    rw [Prog.wp_ite]
    split
    · exact hqueried.inTime
    · rw [Prog.wp_bind]
      refine Prog.wp_mono _ ?_ (fun _ _ hintime => hintime) (inTime_stopAndWait hclock hqueried)
      intro _ waited hwaited
      rw [Prog.wp_bind, wp_callOrFail]
      have hstarted : ∀ answer, slept (waited ++ [.start answer]) ≤
          fromMillis (stopTimeoutMs + 250) := by
        intro answer
        rw [slept_append]
        exact hwaited
      exact ⟨fun _ _ => hstarted _, fun _ _ => ⟨hstarted _, fun _ => nofun⟩⟩
  · intro e he
    have hqueried : Unslept backend (history ++ [.query (.error e)]) :=
      howned.concat he.symm rfl
    exact hqueried.inTime

end

/-! ## The result -/

/-- Whatever the backend answers, every call of a restart is permitted by what has been
called before it, and no subtraction underflows.  Where the clock is steady a restart ends,
and it has slept no longer than the timeout and the settling time. -/
theorem restart_discipline (backend : RestartBackend) (name : String) (stopTimeoutMs : ℕ)
    (forceNative : Bool) :
    (∀ rounds outcome history,
      (restartUsing backend name stopTimeoutMs forceNative rounds).exec [] = (outcome, history) →
        Disciplined forceNative history ∧ outcome ≠ .error .underflow) ∧
    (SteadyClock backend → ∀ rounds outcome history,
      (restartUsing backend name stopTimeoutMs forceNative rounds).exec [] = (outcome, history) →
        slept history ≤ fromMillis (stopTimeoutMs + 250) ∧
        (stopTimeoutMs / 200 + 2 ≤ rounds → outcome ≠ .error .unfinished)) := by
  constructor
  · intro rounds outcome history hrun
    cases outcome with
    | ok message => exact ⟨Prog.wp_ok _ wp_restartUsing hrun, nofun⟩
    | error stopped =>
        obtain ⟨hdisciplined, hunderflow⟩ := Prog.wp_error _ wp_restartUsing hrun
        exact ⟨hdisciplined, fun herror => hunderflow (Except.error.inj herror)⟩
  · intro hclock rounds outcome history hrun
    cases outcome with
    | ok message => exact ⟨Prog.wp_ok _ (inTime_restartUsing hclock) hrun, fun _ => nofun⟩
    | error stopped =>
        obtain ⟨hslept, hfinished⟩ := Prog.wp_error _ (inTime_restartUsing hclock) hrun
        exact ⟨hslept, fun hrounds herror => hfinished hrounds (Except.error.inj herror)⟩

/-- A service that is disabled while its stop is awaited. -/
def disabledMeanwhile : RestartBackend where
  ensureManaged := fun _ => .ok ()
  query := fun history =>
    if history.any Event.controls then .ok ⟨.disabled, some .stopped⟩
    else .ok ⟨.manual, some .running⟩
  stop := fun _ => .ok ()
  start := fun _ => .ok ()
  now := leastReading

example : SteadyClock disabledMeanwhile := fun _ _ => Nat.le_refl _

/-- Only the first query tells whether a service is disabled: a service that the latest query
reported as disabled is started. -/
theorem restart_disabled_meanwhile :
    ¬ ∀ (backend : RestartBackend) (name : String) (stopTimeoutMs : ℕ) (forceNative : Bool)
      (rounds : ℕ) (before : History) (event : Event) (after : History),
      ((restartUsing backend name stopTimeoutMs forceNative rounds).exec []).2 =
        before ++ event :: after → event.controls = true →
      ∀ snapshot, lastQuery before = some (.ok snapshot) → snapshot.startup ≠ .disabled := by
  intro hclaimed
  exact hclaimed disabledMeanwhile "web" 1000 true 1
    [.query (.ok ⟨.manual, some .running⟩), .stop (.ok ()), .now 0,
      .query (.ok ⟨.disabled, some .stopped⟩), .sleep (fromMillis 250)]
    (.start (.ok ())) [] rfl rfl ⟨.disabled, some .stopped⟩ rfl rfl

end Restart

end Ngsm.Ops
