/-
# The reporter of diagnostics

The host reports its troubles to the system log through a queue, which one worker empties.  A
report never waits: when the queue is full, or there is no worker, it is dropped and counted.  The
log may hold the worker up for as long as it likes, and may refuse a record, which is counted as
well.  A flush is acknowledged when the worker comes to it.

Any number of threads report at once.  A report that is refused is counted in a step of its own.
The reporter remembers what it accepted and handled; no step reads that.
-/

import Ngsm.Lib.Runs

namespace Ngsm.Supervisor.Diagnostics

open Ngsm.Lib

/-! ## The records -/

structure Record where
  service : String
  operation : String
  message : String
  deriving DecidableEq, Repr

/-- Cut a text short and drop its NULs. -/
def bounded (value : String) (limit : ℕ) : String :=
  String.ofList ((value.toList.take limit).filter (· != '\x00'))

def boundedRecord (service operation message : String) : Record where
  service := bounded service 256
  operation := bounded operation 128
  message := bounded message 2048

/-- A message of the queue; a flush knows how many messages were accepted before it. -/
inductive Message where
  | record (entry : Record)
  | flush (position : ℕ)
  deriving DecidableEq, Repr

def Message.record? : Message → Option Record
  | record entry => some entry
  | flush _ => none

def records (messages : List Message) : List Record :=
  messages.filterMap Message.record?

@[simp]
theorem records_nil : records [] = [] :=
  rfl

@[simp]
theorem records_record (entry : Record) (messages : List Message) :
    records (.record entry :: messages) = entry :: records messages :=
  rfl

@[simp]
theorem records_flush (position : ℕ) (messages : List Message) :
    records (.flush position :: messages) = records messages :=
  rfl

@[simp]
theorem records_append (messages later : List Message) :
    records (messages ++ later) = records messages ++ records later :=
  List.filterMap_append

/-! ## The reporter -/

inductive Worker where
  | missing
  | waiting
  | writing (entry : Record)
  | failed
  | acknowledging (position : ℕ)
  deriving DecidableEq, Repr

/-- The queue, its worker and the counter.  `refused` reports are still to be counted; what
follows is the history. -/
structure Reporter where
  worker : Worker
  queue : List Message := []
  dropped : UInt64
  refused : ℕ := 0
  accepted : List Message := []
  handled : List Message := []
  written : List Record := []
  acknowledged : List ℕ := []
  deriving DecidableEq, Repr

def queueBound : ℕ :=
  64

/-- The thread of the worker may fail to start. -/
def Reporter.new (spawned : Bool) : Reporter :=
  if spawned then { worker := .waiting, dropped := 0 } else { worker := .missing, dropped := 1 }

namespace Reporter

/-- `try_send` would succeed. -/
def HasRoom (r : Reporter) : Prop :=
  r.worker ≠ .missing ∧ r.queue.length < queueBound

instance (r : Reporter) : Decidable r.HasRoom :=
  inferInstanceAs (Decidable (_ ∧ _))

def push (r : Reporter) (message : Message) : Reporter :=
  { r with queue := r.queue ++ [message], accepted := r.accepted ++ [message] }

/-- What the worker has taken from the queue and not finished. -/
def inHand (r : Reporter) : List Message :=
  match r.worker with
  | .writing entry => [.record entry]
  | .acknowledging position => [.flush position]
  | _ => []

/-- A failed write that is still to be counted. -/
def uncounted (r : Reporter) : ℕ :=
  if r.worker = .failed then 1 else 0

end Reporter

inductive Event where
  | report (service operation message : String)
  | count
  | flush
  | recv
  | write (ok : Bool)
  | countFailure
  | acknowledge
  deriving DecidableEq, Repr

def step (r : Reporter) : Event → Option Reporter
  | .report service operation message =>
      if r.HasRoom then some (r.push (.record (boundedRecord service operation message)))
      else some { r with refused := r.refused + 1 }
  | .count =>
      if 0 < r.refused then some { r with refused := r.refused - 1, dropped := r.dropped + 1 }
      else none
  | .flush => if r.HasRoom then some (r.push (.flush r.accepted.length)) else some r
  | .recv =>
      match r.worker, r.queue with
      | .waiting, .record entry :: queue => some { r with worker := .writing entry, queue }
      | .waiting, .flush position :: queue =>
          some { r with worker := .acknowledging position, queue }
      | _, _ => none
  | .write ok =>
      match r.worker with
      | .writing entry =>
          let handled := r.handled ++ [.record entry]
          if ok then some { r with worker := .waiting, handled, written := r.written ++ [entry] }
          else some { r with worker := .failed, handled }
      | _ => none
  | .countFailure =>
      match r.worker with
      | .failed => some { r with worker := .waiting, dropped := r.dropped + 1 }
      | _ => none
  | .acknowledge =>
      match r.worker with
      | .acknowledging position =>
          some { r with
            worker := .waiting
            handled := r.handled ++ [.flush position]
            acknowledged := r.acknowledged ++ [position] }
      | _ => none

/-- The records that were reported, accepted or not. -/
def reported (events : List Event) : List Record :=
  events.filterMap fun
    | .report service operation message => some (boundedRecord service operation message)
    | _ => none

/-! ## What a step can do -/

/-- The steps, each with what made it possible. -/
inductive Steps (r : Reporter) : Event → Reporter → Prop
  | accept (service operation message : String) (hroom : r.HasRoom) :
      Steps r (.report service operation message)
        (r.push (.record (boundedRecord service operation message)))
  | refuse (service operation message : String) :
      Steps r (.report service operation message) { r with refused := r.refused + 1 }
  | count (hrefused : 0 < r.refused) :
      Steps r .count { r with refused := r.refused - 1, dropped := r.dropped + 1 }
  | flush (hroom : r.HasRoom) : Steps r .flush (r.push (.flush r.accepted.length))
  | refuseFlush : Steps r .flush r
  | takeRecord (entry : Record) (queue : List Message) (hworker : r.worker = .waiting)
      (hqueue : r.queue = .record entry :: queue) :
      Steps r .recv { r with worker := .writing entry, queue }
  | takeFlush (position : ℕ) (queue : List Message) (hworker : r.worker = .waiting)
      (hqueue : r.queue = .flush position :: queue) :
      Steps r .recv { r with worker := .acknowledging position, queue }
  | write (entry : Record) (hworker : r.worker = .writing entry) :
      Steps r (.write true)
        { r with
          worker := .waiting
          handled := r.handled ++ [.record entry]
          written := r.written ++ [entry] }
  | fail (entry : Record) (hworker : r.worker = .writing entry) :
      Steps r (.write false)
        { r with worker := .failed, handled := r.handled ++ [.record entry] }
  | countFailure (hworker : r.worker = .failed) :
      Steps r .countFailure { r with worker := .waiting, dropped := r.dropped + 1 }
  | acknowledge (position : ℕ) (hworker : r.worker = .acknowledging position) :
      Steps r .acknowledge
        { r with
          worker := .waiting
          handled := r.handled ++ [.flush position]
          acknowledged := r.acknowledged ++ [position] }

theorem steps_of_step {r next : Reporter} {event : Event} (h : step r event = some next) :
    Steps r event next := by
  cases event with
  | report service operation message =>
      rw [step] at h
      split at h
      next hroom =>
        cases h
        exact .accept service operation message hroom
      next =>
        cases h
        exact .refuse service operation message
  | count =>
      rw [step] at h
      split at h
      next hrefused =>
        cases h
        exact .count hrefused
      next => cases h
  | flush =>
      rw [step] at h
      split at h
      next hroom =>
        cases h
        exact .flush hroom
      next =>
        cases h
        exact .refuseFlush
  | recv =>
      rw [step] at h
      split at h
      next entry queue hworker hqueue =>
        cases h
        exact .takeRecord entry queue hworker hqueue
      next position queue hworker hqueue =>
        cases h
        exact .takeFlush position queue hworker hqueue
      next => cases h
  | write ok =>
      rw [step] at h
      split at h
      next entry hworker =>
        cases ok with
        | true =>
            cases h
            exact .write entry hworker
        | false =>
            cases h
            exact .fail entry hworker
      next => cases h
  | countFailure =>
      rw [step] at h
      split at h
      next hworker =>
        cases h
        exact .countFailure hworker
      next => cases h
  | acknowledge =>
      rw [step] at h
      split at h
      next position hworker =>
        cases h
        exact .acknowledge position hworker
      next => cases h

/-! ## Order -/

/-- What was accepted is handled in this order, and a flush that is acknowledged was handled
itself. -/
structure Ordered (r : Reporter) : Prop where
  order : r.accepted = r.handled ++ r.inHand ++ r.queue
  capacity : r.queue.length ≤ queueBound
  positions : ∀ i position, r.accepted[i]? = some (Message.flush position) → position = i
  acknowledged : ∀ position ∈ r.acknowledged, position < r.handled.length
  written : r.written.Sublist (records r.handled)

theorem positions_push {accepted : List Message} {message : Message}
    (h : ∀ i position, accepted[i]? = some (Message.flush position) → position = i)
    (hmessage : ∀ position, message = .flush position → position = accepted.length) (i position : ℕ)
    (hi : (accepted ++ [message])[i]? = some (Message.flush position)) : position = i := by
  rcases Nat.lt_trichotomy i accepted.length with hlt | heq | hgt
  · rw [List.getElem?_append_left hlt] at hi
    exact h i position hi
  · rw [heq, List.getElem?_concat_length] at hi
    rw [heq]
    exact hmessage position (Option.some.inj hi)
  · rw [List.getElem?_eq_none (by simp; omega)] at hi
    cases hi

theorem Ordered.new (spawned : Bool) : Ordered (.new spawned) := by
  cases spawned <;> exact ⟨rfl, Nat.zero_le _, by simp [Reporter.new], by simp [Reporter.new],
    List.Sublist.refl []⟩

theorem Ordered.push {r : Reporter} (h : Ordered r) (hroom : r.HasRoom) {message : Message}
    (hmessage : ∀ position, message = .flush position → position = r.accepted.length) :
    Ordered (r.push message) where
  order := by
    change r.accepted ++ [message] = r.handled ++ r.inHand ++ (r.queue ++ [message])
    rw [h.order, List.append_assoc]
  capacity := by
    change (r.queue ++ [message]).length ≤ queueBound
    rw [List.length_append]
    exact hroom.2
  positions := positions_push h.positions hmessage
  acknowledged := h.acknowledged
  written := h.written

theorem Ordered.steps {r next : Reporter} {event : Event} (h : Ordered r)
    (hstep : Steps r event next) : Ordered next := by
  have horder := h.order
  have hcapacity := h.capacity
  cases hstep with
  | accept service operation message hroom =>
      exact h.push hroom fun position heq => nomatch heq
  | refuse service operation message =>
      exact ⟨h.order, h.capacity, h.positions, h.acknowledged, h.written⟩
  | count hrefused => exact ⟨h.order, h.capacity, h.positions, h.acknowledged, h.written⟩
  | flush hroom =>
      refine h.push hroom fun position heq => ?_
      cases heq
      rfl
  | refuseFlush => exact h
  | takeRecord entry queue hworker hqueue =>
      rw [Reporter.inHand, hworker, hqueue] at horder
      rw [hqueue, List.length_cons] at hcapacity
      refine ⟨?_, Nat.le_of_succ_le hcapacity, h.positions, h.acknowledged, h.written⟩
      rw [horder]
      simp [Reporter.inHand]
  | takeFlush position queue hworker hqueue =>
      rw [Reporter.inHand, hworker, hqueue] at horder
      rw [hqueue, List.length_cons] at hcapacity
      refine ⟨?_, Nat.le_of_succ_le hcapacity, h.positions, h.acknowledged, h.written⟩
      rw [horder]
      simp [Reporter.inHand]
  | write entry hworker =>
      rw [Reporter.inHand, hworker] at horder
      refine ⟨?_, h.capacity, h.positions, fun position hposition => ?_, ?_⟩
      · rw [horder]
        simp [Reporter.inHand]
      · rw [List.length_append]
        exact Nat.lt_add_right _ (h.acknowledged position hposition)
      · rw [records_append]
        exact h.written.append (.refl _)
  | fail entry hworker =>
      rw [Reporter.inHand, hworker] at horder
      refine ⟨?_, h.capacity, h.positions, fun position hposition => ?_, ?_⟩
      · rw [horder]
        simp [Reporter.inHand]
      · rw [List.length_append]
        exact Nat.lt_add_right _ (h.acknowledged position hposition)
      · rw [records_append]
        exact h.written.trans (List.sublist_append_left _ _)
  | countFailure hworker =>
      rw [Reporter.inHand, hworker] at horder
      exact ⟨horder, h.capacity, h.positions, h.acknowledged, h.written⟩
  | acknowledge position hworker =>
      rw [Reporter.inHand, hworker] at horder
      have hplace : r.accepted[r.handled.length]? = some (Message.flush position) := by
        rw [horder]
        simp
      have hposition := h.positions _ _ hplace
      refine ⟨?_, h.capacity, h.positions, fun other hother => ?_, ?_⟩
      · rw [horder]
        simp [Reporter.inHand]
      · rw [List.length_append, List.length_singleton]
        rcases List.mem_append.mp hother with hother | hother
        · exact Nat.lt_succ_of_lt (h.acknowledged other hother)
        · rw [List.mem_singleton.mp hother, hposition]
          exact Nat.lt_succ_self _
      · rw [records_append]
        exact h.written.trans (List.sublist_append_left _ _)

/-! ## Counting -/

/-- Every report is written, or waits, or is counted or about to be counted as dropped.  A worker
that could not be started counts once. -/
def Balanced (events : List Event) (r : Reporter) : Prop :=
  ∃ lost, r.dropped = UInt64.ofNat lost ∧
    (reported events).length + (if r.worker = .missing then 1 else 0) =
      r.written.length + (records (r.inHand ++ r.queue)).length + lost + r.refused + r.uncounted

theorem reported_concat (events : List Event) (event : Event) :
    reported (events ++ [event]) = reported events ++ reported [event] :=
  List.filterMap_append

theorem ofNat_succ {dropped : UInt64} {lost : ℕ} (h : dropped = UInt64.ofNat lost) :
    dropped + 1 = UInt64.ofNat (lost + 1) := by
  rw [h, UInt64.ofNat_add]
  rfl

theorem Balanced.new (spawned : Bool) : Balanced [] (.new spawned) := by
  cases spawned with
  | true => exact ⟨0, rfl, rfl⟩
  | false => exact ⟨1, rfl, rfl⟩

theorem Balanced.steps {past : List Event} {r next : Reporter} {event : Event}
    (h : Balanced past r) (hstep : Steps r event next) : Balanced (past ++ [event]) next := by
  obtain ⟨lost, hdropped, hcount⟩ := h
  rw [Balanced, reported_concat, List.length_append]
  rw [records_append, List.length_append] at hcount
  cases hstep with
  | accept service operation message hroom =>
      refine ⟨lost, hdropped, ?_⟩
      show (reported past).length + 1 + (if r.worker = .missing then 1 else 0) =
        r.written.length + (records (r.inHand ++ (r.queue ++ [_]))).length + lost + r.refused +
          r.uncounted
      simp only [records_append, records_record, records_nil, List.length_append,
        List.length_singleton]
      omega
  | refuse service operation message =>
      refine ⟨lost, hdropped, ?_⟩
      show (reported past).length + 1 + (if r.worker = .missing then 1 else 0) =
        r.written.length + (records (r.inHand ++ r.queue)).length + lost + (r.refused + 1) +
          r.uncounted
      rw [records_append, List.length_append]
      omega
  | count hrefused =>
      refine ⟨lost + 1, ofNat_succ hdropped, ?_⟩
      show (reported past).length + 0 + (if r.worker = .missing then 1 else 0) =
        r.written.length + (records (r.inHand ++ r.queue)).length + (lost + 1) + (r.refused - 1) +
          r.uncounted
      rw [records_append, List.length_append]
      omega
  | flush hroom =>
      refine ⟨lost, hdropped, ?_⟩
      show (reported past).length + 0 + (if r.worker = .missing then 1 else 0) =
        r.written.length + (records (r.inHand ++ (r.queue ++ [_]))).length + lost + r.refused +
          r.uncounted
      simp only [records_append, records_flush, records_nil, List.length_append, List.length_nil]
      omega
  | refuseFlush =>
      refine ⟨lost, hdropped, ?_⟩
      rw [records_append, List.length_append]
      exact hcount
  | takeRecord entry queue hworker hqueue =>
      refine ⟨lost, hdropped, ?_⟩
      simp [Reporter.inHand, Reporter.uncounted, hworker, hqueue, reported] at hcount ⊢
      omega
  | takeFlush position queue hworker hqueue =>
      refine ⟨lost, hdropped, ?_⟩
      simp [Reporter.inHand, Reporter.uncounted, hworker, hqueue, reported] at hcount ⊢
      omega
  | write entry hworker =>
      refine ⟨lost, hdropped, ?_⟩
      simp [Reporter.inHand, Reporter.uncounted, hworker, reported] at hcount ⊢
      omega
  | fail entry hworker =>
      refine ⟨lost, hdropped, ?_⟩
      simp [Reporter.inHand, Reporter.uncounted, hworker, reported] at hcount ⊢
      omega
  | countFailure hworker =>
      refine ⟨lost + 1, ofNat_succ hdropped, ?_⟩
      simp [Reporter.inHand, Reporter.uncounted, hworker, reported] at hcount ⊢
      omega
  | acknowledge position hworker =>
      refine ⟨lost, hdropped, ?_⟩
      simp [Reporter.inHand, Reporter.uncounted, hworker, reported] at hcount ⊢
      omega

/-- What is accepted was reported, in this order. -/
theorem accepted_steps {past : List Event} {r next : Reporter} {event : Event}
    (h : (records r.accepted).Sublist (reported past)) (hstep : Steps r event next) :
    (records next.accepted).Sublist (reported (past ++ [event])) := by
  rw [reported_concat]
  cases hstep with
  | accept service operation message hroom =>
      change (records (r.accepted ++ [_])).Sublist _
      rw [records_append]
      exact h.append (.refl _)
  | flush hroom =>
      change (records (r.accepted ++ [_])).Sublist _
      rw [records_append]
      exact h.append (.refl _)
  | _ => exact h.trans (List.sublist_append_left _ _)

/-! ## Texts -/

/-- A text of at most so many characters, without a NUL. -/
def Short (limit : ℕ) (s : String) : Prop :=
  s.toList.length ≤ limit ∧ '\x00' ∉ s.toList

theorem short_bounded (value : String) (limit : ℕ) : Short limit (bounded value limit) := by
  rw [Short, bounded, String.toList_ofList]
  constructor
  · exact Nat.le_trans (List.length_filter_le _ _) (List.length_take_le limit _)
  · intro hnul
    simpa using (List.mem_filter.mp hnul).2

/-- The log gets short texts only. -/
structure Record.Short (entry : Record) : Prop where
  service : Diagnostics.Short 256 entry.service
  operation : Diagnostics.Short 128 entry.operation
  message : Diagnostics.Short 2048 entry.message

theorem short_of_reported {events : List Event} {entry : Record}
    (h : entry ∈ reported events) : entry.Short := by
  obtain ⟨event, -, hevent⟩ := List.mem_filterMap.mp h
  cases event with
  | report service operation message =>
      cases hevent
      exact ⟨short_bounded _ _, short_bounded _ _, short_bounded _ _⟩
  | _ => cases hevent

/-! ## The reporter over a run -/

/-- Whatever the threads report and the log does: the records that are written were reported in
this order, none twice, and are short; each report is written, waits or is counted as dropped;
when a flush is acknowledged, everything accepted before it has been handled; and a report never
waits. -/
theorem reporter_conserves {spawned : Bool} {events : List Event} {r : Reporter}
    (hrun : Runs.run step (.new spawned) events = some r) :
    r.written.Sublist (reported events) ∧ (∀ entry ∈ r.written, entry.Short) ∧
      r.queue.length ≤ queueBound ∧ Balanced events r ∧
      r.accepted = r.handled ++ r.inHand ++ r.queue ∧
      (∀ position ∈ r.acknowledged, r.accepted.take (position + 1) <+: r.handled) ∧
      ∀ service operation message, (step r (.report service operation message)).isSome := by
  have hordered : Ordered r := Runs.run_invariant Ordered (.new spawned)
    (fun _ _ _ h hstep => h.steps (steps_of_step hstep)) hrun
  have hbalanced : Balanced events r := Runs.run_history Balanced (.new spawned)
    (fun _ _ _ _ h hstep => h.steps (steps_of_step hstep)) hrun
  have haccepted : (records r.accepted).Sublist (reported events) :=
    Runs.run_history (fun past mid => (records mid.accepted).Sublist (reported past))
      (by cases spawned <;> exact List.Sublist.refl [])
      (fun _ _ _ _ h hstep => accepted_steps h (steps_of_step hstep)) hrun
  have hwritten : r.written.Sublist (reported events) := by
    refine hordered.written.trans (List.Sublist.trans ?_ haccepted)
    rw [hordered.order, List.append_assoc, records_append]
    exact List.sublist_append_left _ _
  refine ⟨hwritten, fun entry hentry => short_of_reported (hwritten.subset hentry),
    hordered.capacity, hbalanced, hordered.order, fun position hposition => ?_,
    fun service operation message => ?_⟩
  · have hhandled := hordered.acknowledged position hposition
    rw [hordered.order, List.append_assoc, List.take_append_of_le_length hhandled]
    exact List.take_prefix _ _
  · rw [step]
    split <;> rfl

/-! ### A full round -/

/-- A record is written, a second one is refused by the log, and a flush is acknowledged. -/
def flushedEvents : List Event :=
  [.report "svc" "hook" "slow", .report "svc" "hook" "stuck", .flush, .recv, .write true, .recv,
    .write false, .countFailure, .recv, .acknowledge]

theorem flushed_conserves :
    ∃ r, Runs.run step (.new true) flushedEvents = some r ∧ r.acknowledged = [2] ∧
      r.accepted.take 3 <+: r.handled := by
  refine ⟨_, rfl, rfl, ?_⟩
  exact (@reporter_conserves true flushedEvents _ rfl).2.2.2.2.2.1 2 (by decide)

end Ngsm.Supervisor.Diagnostics
