/-
# The watchdog of a connection

The thread that serves a connection reads and writes synchronously, so a second thread watches
it.  Both use one lock: the first notes under it when an I/O operation begins and ends, the
second looks under it whether the operation has taken too long or the connection is too old.
Then it cancels what is pending and disconnects the pipe, outside the lock and through a handle
of its own.

What happens outside the lock can interleave freely: an operation may return between the look
of the watchdog and its cancellation, and the thread may already be on its way out.
-/

import Ngsm.Broker.Activity

namespace Ngsm.Broker

open Ngsm.Lib

structure ConnectionLimits where
  ioTimeout : ℕ
  lifetime : ℕ
deriving DecidableEq, Repr

/-! ## The shared state -/

structure IoWatchState where
  waitingSince : Option Instant := none
  done : Bool := false
  timedOut : Bool := false
deriving DecidableEq, Repr

namespace IoWatchState

/-- Begin an operation, unless the watchdog has given up. -/
def beginIo (now : Instant) (state : IoWatchState) : Option IoWatchState :=
  if state.timedOut then none else some { state with waitingSince := some now }

/-- The drop of the guard of an operation. -/
def endIo (state : IoWatchState) : IoWatchState :=
  { state with waitingSince := none }

def ioStalled (limits : ConnectionLimits) (now : Instant) (state : IoWatchState) : Bool :=
  state.waitingSince.any fun since => limits.ioTimeout ≤ now - since

end IoWatchState

/-- What the watchdog does after a look. -/
inductive Look where
  | ends
  | fires
  | waits
deriving DecidableEq, Repr

def look (limits : ConnectionLimits) (started now : Instant) (state : IoWatchState) : Look :=
  if state.done then .ends
  else if state.ioStalled limits now || limits.lifetime ≤ now - started then .fires
  else .waits

/-! ## The two threads -/

/-- An operation on the pipe; a response that ends the conversation is drained after it is
written. -/
inductive IoOperation where
  | read
  | write (terminal : Bool)
  | flush
deriving DecidableEq, Repr

/-- Where the serving thread goes when the guard of an operation is dropped. -/
inductive Next where
  | process
  | again
  | leave
deriving DecidableEq, Repr

/-- Where the serving thread stands. -/
inductive ServerPc where
  | top
  | pending (operation : IoOperation) (since : Instant)
  | returned (next : Next) (since : Instant)
  | processing
  | sending (terminal : Bool)
  | leaving
  | disconnecting
  | joining
  | closing
  | closed
deriving DecidableEq, Repr

inductive WatchdogPc where
  | watching
  | cancelling
  | disconnecting
  | ended
deriving DecidableEq, Repr

/-- A connection.  `fired` remembers when the watchdog gave up, and since when an operation was
pending then. -/
structure Connection where
  started : Instant
  watch : IoWatchState := {}
  server : ServerPc
  watchdog : WatchdogPc := .watching
  fired : Option (Instant × Option Instant) := none
deriving DecidableEq, Repr

/-- How an operation returns: with a frame, at the end of the stream, with what was written, or
with an error. -/
inductive IoResult where
  | frame
  | endOfStream
  | done
  | failed
deriving DecidableEq, Repr

/-- The steps of the two threads.  `process` is `process_request`, which has a response unless
the broker is about to exit. -/
inductive ConnectionEvent where
  | beginIo (now : Instant)
  | serializeFails
  | ioReturns (result : IoResult)
  | dropGuard
  | process (terminal : Option Bool)
  | setDone
  | disconnect
  | join
  | close
  | look (now : Instant)
  | cancelIo
  | watchdogDisconnect
deriving DecidableEq, Repr

namespace Connection

/-- What follows an operation that returned, while its guard is held. -/
def afterIo (since : Instant) : IoOperation → IoResult → Option ServerPc
  | .read, .frame => some (.returned .process since)
  | .read, .endOfStream => some (.returned .leave since)
  | .write true, .done => some (.pending .flush since)
  | .write false, .done => some (.returned .again since)
  | .flush, .done => some (.returned .leave since)
  | _, .failed => some (.returned .leave since)
  | _, _ => none

def afterGuard : Next → ServerPc
  | .process => .processing
  | .again => .top
  | .leave => .leaving

def beginOperation (operation : IoOperation) (now : Instant) (c : Connection) : Connection :=
  match c.watch.beginIo now with
  | none => { c with server := .leaving }
  | some watch => { c with watch, server := .pending operation now }

/-- The loop of `handle_connection` and the drop of the connection. -/
def serve (c : Connection) : ConnectionEvent → Option Connection
  | .beginIo now =>
      match c.server with
      | .top => some (c.beginOperation .read now)
      | .sending terminal => some (c.beginOperation (.write terminal) now)
      | _ => none
  | .serializeFails =>
      match c.server with
      | .sending _ => some { c with server := .leaving }
      | _ => none
  | .ioReturns result =>
      match c.server with
      | .pending operation since =>
          (afterIo since operation result).map fun server => { c with server }
      | _ => none
  | .dropGuard =>
      match c.server with
      | .returned next _ => some { c with watch := c.watch.endIo, server := afterGuard next }
      | _ => none
  | .process response =>
      match c.server with
      | .processing => some { c with server := response.elim .leaving .sending }
      | _ => none
  | .setDone =>
      match c.server with
      | .leaving => some { c with watch := { c.watch with done := true }, server := .disconnecting }
      | _ => none
  | .disconnect =>
      match c.server with
      | .disconnecting => some { c with server := .joining }
      | _ => none
  | .join =>
      match c.server, c.watchdog with
      | .joining, .ended => some { c with server := .closing }
      | _, _ => none
  | .close =>
      match c.server with
      | .closing => some { c with server := .closed }
      | _ => none
  | _ => none

/-- The loop of `connection_watchdog`. -/
def guard (limits : ConnectionLimits) (c : Connection) : ConnectionEvent → Option Connection
  | .look now =>
      match c.watchdog with
      | .watching =>
          match Broker.look limits c.started now c.watch with
          | .ends => some { c with watchdog := .ended }
          | .fires => some { c with
              watch := { c.watch with timedOut := true }
              watchdog := .cancelling
              fired := some (now, c.watch.waitingSince) }
          | .waits => some c
      | _ => none
  | .cancelIo =>
      match c.watchdog with
      | .cancelling => some { c with watchdog := .disconnecting }
      | _ => none
  | .watchdogDisconnect =>
      match c.watchdog with
      | .disconnecting => some { c with watchdog := .ended }
      | _ => none
  | _ => none

def step (limits : ConnectionLimits) (c : Connection) (e : ConnectionEvent) : Option Connection :=
  (c.serve e).or (c.guard limits e)

/-- A connection that serves a client. -/
def new (now : Instant) : Connection where
  started := now
  server := .top

/-- A connection that tells a client that the broker is busy. -/
def busy (now : Instant) : Connection where
  started := now
  server := .sending true

end Connection

/-! ## What always holds -/

/-- Since when the guard of an operation is held. -/
def ServerPc.since : ServerPc → Option Instant
  | .pending _ since => some since
  | .returned _ since => some since
  | _ => none

/-- The thread has told the watchdog that it is done. -/
def ServerPc.pastDone : ServerPc → Bool
  | .disconnecting | .joining | .closing | .closed => true
  | _ => false

def ServerPc.joined : ServerPc → Bool
  | .closing | .closed => true
  | _ => false

/-- Why the watchdog gave up at a look. -/
def GaveUp (limits : ConnectionLimits) (started now : Instant) (waitingSince : Option Instant) :
    Prop :=
  limits.lifetime ≤ now - started ∨
    ∃ since, waitingSince = some since ∧ limits.ioTimeout ≤ now - since

namespace Connection

structure Sound (limits : ConnectionLimits) (c : Connection) : Prop where
  held : c.watch.waitingSince = c.server.since
  done_eq : c.watch.done = c.server.pastDone
  timedOut_eq : c.watch.timedOut = c.fired.isSome
  watching : c.watchdog = .watching → c.fired = none
  cancelling : c.watchdog = .cancelling ∨ c.watchdog = .disconnecting → c.fired.isSome = true
  ended : c.watchdog = .ended → c.fired.isSome = true ∨ c.server.pastDone = true
  joined : c.server.joined = true → c.watchdog = .ended
  gaveUp : ∀ now waitingSince, c.fired = some (now, waitingSince) →
    GaveUp limits c.started now waitingSince ∧
      ∀ since, c.server.since = some since → waitingSince = some since

variable {limits : ConnectionLimits} {c next : Connection} {e : ConnectionEvent}

theorem sound_new (now : Instant) : (new now).Sound limits := by
  constructor <;> simp [new, ServerPc.since, ServerPc.pastDone, ServerPc.joined]

theorem sound_busy (now : Instant) : (busy now).Sound limits := by
  constructor <;> simp [busy, ServerPc.since, ServerPc.pastDone, ServerPc.joined]

/-- The serving thread moves on without the lock. -/
theorem Sound.move (h : c.Sound limits) {server : ServerPc} (hsince : server.since = c.server.since)
    (hdone : server.pastDone = c.server.pastDone)
    (hjoined : server.joined = true → c.watchdog = .ended) :
    ({ c with server } : Connection).Sound limits where
  held := h.held.trans hsince.symm
  done_eq := h.done_eq.trans hdone.symm
  timedOut_eq := h.timedOut_eq
  watching := h.watching
  cancelling := h.cancelling
  ended hended := (h.ended hended).imp_right hdone.trans
  joined := hjoined
  gaveUp now waitingSince hfired :=
    ⟨(h.gaveUp now waitingSince hfired).1, fun since hheld =>
      (h.gaveUp now waitingSince hfired).2 since (hsince ▸ hheld)⟩

theorem beginOperation_refused (h : c.watch.timedOut = true) (operation : IoOperation)
    (now : Instant) : c.beginOperation operation now = { c with server := .leaving } := by
  rw [beginOperation, IoWatchState.beginIo, if_pos h]

theorem beginOperation_admitted (h : c.watch.timedOut = false) (operation : IoOperation)
    (now : Instant) : c.beginOperation operation now =
      { c with
        watch := { c.watch with waitingSince := some now }
        server := .pending operation now } := by
  rw [beginOperation, IoWatchState.beginIo, if_neg (by simp [h])]

theorem Sound.fired_eq_none (h : c.Sound limits) (htimedOut : c.watch.timedOut = false) :
    c.fired = none := by
  rw [h.timedOut_eq, Option.isSome_eq_false_iff, Option.isNone_iff_eq_none] at htimedOut
  exact htimedOut

theorem Sound.beginOperation (h : c.Sound limits) (hidle : c.server.since = none)
    (hundone : c.server.pastDone = false) (operation : IoOperation) (now : Instant) :
    (c.beginOperation operation now).Sound limits := by
  cases htimedOut : c.watch.timedOut with
  | true =>
      rw [beginOperation_refused htimedOut]
      exact h.move hidle.symm hundone.symm nofun
  | false =>
      have hfired := h.fired_eq_none htimedOut
      rw [beginOperation_admitted htimedOut]
      refine ⟨rfl, h.done_eq.trans hundone, h.timedOut_eq, h.watching, h.cancelling, ?_, nofun, ?_⟩
      · intro hended
        have hreason := h.ended hended
        rw [hfired, hundone] at hreason
        simp at hreason
      · intro fired waitingSince hsome
        rw [hfired] at hsome
        cases hsome

/-- The guard is dropped under the lock. -/
theorem Sound.release (h : c.Sound limits) {server : ServerPc} (hsince : server.since = none)
    (hdone : server.pastDone = c.server.pastDone) (hjoined : server.joined = false) :
    ({ c with watch := c.watch.endIo, server } : Connection).Sound limits where
  held := hsince.symm
  done_eq := h.done_eq.trans hdone.symm
  timedOut_eq := h.timedOut_eq
  watching := h.watching
  cancelling := h.cancelling
  ended hended := (h.ended hended).imp_right hdone.trans
  joined htrue := absurd htrue (by simp [hjoined])
  gaveUp now waitingSince hfired :=
    ⟨(h.gaveUp now waitingSince hfired).1, fun since hheld => by
      rw [hsince] at hheld
      cases hheld⟩

/-- A step of the serving thread. -/
theorem Sound.serve (h : c.Sound limits) (hstep : c.serve e = some next) : next.Sound limits := by
  cases e with
  | beginIo now =>
      simp only [Connection.serve] at hstep
      split at hstep
      · rename_i hserver
        cases hstep
        exact h.beginOperation (by rw [hserver]; rfl) (by rw [hserver]; rfl) _ _
      · rename_i hserver
        cases hstep
        exact h.beginOperation (by rw [hserver]; rfl) (by rw [hserver]; rfl) _ _
      · cases hstep
  | serializeFails =>
      simp only [Connection.serve] at hstep
      split at hstep
      · rename_i hserver
        cases hstep
        exact h.move (by rw [hserver]; rfl) (by rw [hserver]; rfl) nofun
      · cases hstep
  | ioReturns result =>
      simp only [Connection.serve] at hstep
      split at hstep
      · rename_i operation since hserver
        rw [Option.map_eq_some_iff] at hstep
        obtain ⟨server, hafter, rfl⟩ := hstep
        have hkeeps : server.since = some since ∧ server.pastDone = false ∧
            server.joined = false := by
          unfold afterIo at hafter
          split at hafter <;> cases hafter <;> exact ⟨rfl, rfl, rfl⟩
        refine h.move (hkeeps.1.trans ?_) (hkeeps.2.1.trans ?_) fun htrue => ?_
        · rw [hserver]
          rfl
        · rw [hserver]
          rfl
        · rw [hkeeps.2.2] at htrue
          cases htrue
      · cases hstep
  | dropGuard =>
      simp only [Connection.serve] at hstep
      split at hstep
      · rename_i after since hserver
        cases hstep
        cases after <;> exact h.release rfl (by rw [hserver]; rfl) rfl
      · cases hstep
  | process response =>
      simp only [Connection.serve] at hstep
      split at hstep
      · rename_i hserver
        cases hstep
        cases response <;> exact h.move (by rw [hserver]; rfl) (by rw [hserver]; rfl) nofun
      · cases hstep
  | setDone =>
      simp only [Connection.serve] at hstep
      split at hstep
      · rename_i hserver
        cases hstep
        refine ⟨?_, rfl, h.timedOut_eq, h.watching, h.cancelling, fun _ => .inr rfl, nofun, ?_⟩
        · rw [h.held, hserver]
          rfl
        · exact fun now waitingSince hfired =>
            ⟨(h.gaveUp now waitingSince hfired).1, nofun⟩
      · cases hstep
  | disconnect =>
      simp only [Connection.serve] at hstep
      split at hstep
      · rename_i hserver
        cases hstep
        exact h.move (by rw [hserver]; rfl) (by rw [hserver]; rfl) nofun
      · cases hstep
  | join =>
      simp only [Connection.serve] at hstep
      split at hstep
      · rename_i hserver hwatchdog
        cases hstep
        exact h.move (by rw [hserver]; rfl) (by rw [hserver]; rfl) fun _ => hwatchdog
      · cases hstep
  | close =>
      simp only [Connection.serve] at hstep
      split at hstep
      · rename_i hserver
        cases hstep
        refine h.move (by rw [hserver]; rfl) (by rw [hserver]; rfl) fun _ => h.joined ?_
        rw [hserver]
        rfl
      · cases hstep
  | look now => cases hstep
  | cancelIo => cases hstep
  | watchdogDisconnect => cases hstep

/-- A step of the watchdog. -/
theorem Sound.guard (h : c.Sound limits) (hstep : c.guard limits e = some next) :
    next.Sound limits := by
  cases e with
  | look now =>
      simp only [Connection.guard] at hstep
      split at hstep
      · rename_i hwatchdog
        have hfired := h.watching hwatchdog
        split at hstep
        · rename_i hlook
          cases hstep
          have hdone : c.watch.done = true := by
            unfold look at hlook
            split at hlook
            · rename_i hdone
              exact hdone
            · split at hlook <;> cases hlook
          refine ⟨h.held, h.done_eq, h.timedOut_eq, nofun, fun hcases => ?_, fun _ => ?_,
            fun _ => rfl, h.gaveUp⟩
          · rcases hcases with hcase | hcase <;> cases hcase
          · exact .inr (h.done_eq.symm.trans hdone)
        · rename_i hlook
          cases hstep
          have hreason : GaveUp limits c.started now c.watch.waitingSince := by
            unfold look at hlook
            split at hlook
            · cases hlook
            · split at hlook
              · rename_i hor
                rw [Bool.or_eq_true, decide_eq_true_eq, IoWatchState.ioStalled,
                  Option.any_eq_true] at hor
                cases hor with
                | inl hstalled =>
                    obtain ⟨since, hsince, hlong⟩ := hstalled
                    exact .inr ⟨since, hsince, of_decide_eq_true hlong⟩
                | inr hold => exact .inl hold
              · cases hlook
          refine ⟨h.held, h.done_eq, rfl, nofun, fun _ => rfl, nofun, fun hjoined => ?_, ?_⟩
          · rw [h.joined hjoined] at hwatchdog
            cases hwatchdog
          · intro fired waitingSince hsome
            cases hsome
            exact ⟨hreason, fun since hsince => h.held.trans hsince⟩
        · cases hstep
          exact h
      · cases hstep
  | cancelIo =>
      simp only [Connection.guard] at hstep
      split at hstep
      · rename_i hwatchdog
        cases hstep
        refine ⟨h.held, h.done_eq, h.timedOut_eq, nofun, fun _ => h.cancelling (.inl hwatchdog),
          nofun, fun hjoined => ?_, h.gaveUp⟩
        rw [h.joined hjoined] at hwatchdog
        cases hwatchdog
      · cases hstep
  | watchdogDisconnect =>
      simp only [Connection.guard] at hstep
      split at hstep
      · rename_i hwatchdog
        cases hstep
        exact ⟨h.held, h.done_eq, h.timedOut_eq, nofun, fun _ => h.cancelling (.inr hwatchdog),
          fun _ => .inl (h.cancelling (.inr hwatchdog)), fun _ => rfl, h.gaveUp⟩
      · cases hstep
  | beginIo now => cases hstep
  | serializeFails => cases hstep
  | ioReturns result => cases hstep
  | dropGuard => cases hstep
  | process response => cases hstep
  | setDone => cases hstep
  | disconnect => cases hstep
  | join => cases hstep
  | close => cases hstep

theorem step_cases (hstep : c.step limits e = some next) :
    c.serve e = some next ∨ c.guard limits e = some next := by
  rw [Connection.step, Option.or_eq_some_iff] at hstep
  exact hstep.imp_right And.right

theorem Sound.step (h : c.Sound limits) (hstep : c.step limits e = some next) :
    next.Sound limits := by
  cases step_cases hstep with
  | inl hserve => exact h.serve hserve
  | inr hguard => exact h.guard hguard

/-! ## Cutting an operation off -/

/-- The watchdog interferes only while the pipe is open, and an operation that is pending then
took too long, or the connection is too old. -/
theorem Sound.interferes (h : c.Sound limits)
    (hwatchdog : c.watchdog = .cancelling ∨ c.watchdog = .disconnecting) :
    c.server.joined = false ∧ ∃ now waitingSince, c.fired = some (now, waitingSince) ∧
      GaveUp limits c.started now waitingSince ∧
        ∀ operation since, c.server = .pending operation since →
          limits.lifetime ≤ now - c.started ∨ limits.ioTimeout ≤ now - since := by
  constructor
  · cases hjoined : c.server.joined with
    | false => rfl
    | true =>
        have hended := h.joined hjoined
        rw [hended] at hwatchdog
        simp at hwatchdog
  · obtain ⟨⟨now, waitingSince⟩, hfired⟩ := Option.isSome_iff_exists.mp (h.cancelling hwatchdog)
    obtain ⟨hgaveUp, hpending⟩ := h.gaveUp now waitingSince hfired
    refine ⟨now, waitingSince, hfired, hgaveUp, fun operation since hserver => ?_⟩
    have hsince := hpending since (by rw [hserver]; rfl)
    cases hgaveUp with
    | inl hold => exact .inl hold
    | inr hstalled =>
        obtain ⟨since', hsince', hlong⟩ := hstalled
        rw [hsince] at hsince'
        cases hsince'
        exact .inr hlong

/-- After the watchdog has given up no operation begins. -/
theorem Sound.quiet (h : c.Sound limits) (hfired : c.fired.isSome = true) {now : Instant}
    (hstep : c.step limits (.beginIo now) = some next) : next.server = .leaving := by
  have htimedOut : c.watch.timedOut = true := h.timedOut_eq.trans hfired
  cases step_cases hstep with
  | inl hserve =>
      simp only [Connection.serve, beginOperation_refused htimedOut] at hserve
      split at hserve <;> cases hserve <;> rfl
  | inr hguard => cases hguard

/-! ## The end of a connection -/

/-- How many steps of the serving thread are left at most when no operation begins. -/
def serverRank : ServerPc → ℕ
  | .pending .read _ => 12
  | .returned .process _ => 11
  | .processing => 10
  | .sending _ => 9
  | .pending (.write _) _ => 8
  | .pending .flush _ => 7
  | .returned .again _ => 7
  | .top => 6
  | .returned .leave _ => 6
  | .leaving => 5
  | .disconnecting => 4
  | .joining => 3
  | .closing => 2
  | .closed => 0

def watchdogRank : WatchdogPc → ℕ
  | .watching => 3
  | .cancelling => 2
  | .disconnecting => 1
  | .ended => 0

def rank (c : Connection) : ℕ :=
  serverRank c.server + watchdogRank c.watchdog

/-- The connection is about to end. -/
def Ending (c : Connection) : Prop :=
  c.fired.isSome = true ∨ c.server.pastDone = true

theorem rank_le (c : Connection) : c.rank ≤ 15 := by
  have hserver : serverRank c.server ≤ 12 := by
    unfold serverRank
    split <;> omega
  have hwatchdog : watchdogRank c.watchdog ≤ 3 := by
    unfold watchdogRank
    split <;> omega
  unfold rank
  omega

theorem serverRank_afterIo {operation : IoOperation} {since : Instant} {result : IoResult}
    {server : ServerPc} (hafter : afterIo since operation result = some server) :
    serverRank server < serverRank (.pending operation since) := by
  cases operation with
  | read => cases result <;> cases hafter <;> simp [serverRank]
  | flush => cases result <;> cases hafter <;> simp [serverRank]
  | write terminal => cases terminal <;> cases result <;> cases hafter <;> simp [serverRank]

/-- A thread that is on its way out goes on, and one that is refused leaves. -/
theorem Sound.serve_rank (h : c.Sound limits) (hending : c.Ending)
    (hstep : c.serve e = some next) :
    serverRank next.server < serverRank c.server ∧ next.watchdog = c.watchdog ∧ next.Ending := by
  cases e with
  | beginIo now =>
      have hrefused : c.server.pastDone = false → c.watch.timedOut = true := by
        intro hundone
        rw [Ending, hundone] at hending
        rw [h.timedOut_eq]
        simpa using hending
      simp only [Connection.serve] at hstep
      split at hstep
      · rename_i hserver
        have htimedOut := hrefused (by rw [hserver]; rfl)
        rw [beginOperation_refused htimedOut] at hstep
        cases hstep
        rw [hserver]
        exact ⟨by simp [serverRank], rfl, .inl (h.timedOut_eq.symm.trans htimedOut)⟩
      · rename_i hserver
        have htimedOut := hrefused (by rw [hserver]; rfl)
        rw [beginOperation_refused htimedOut] at hstep
        cases hstep
        rw [hserver]
        exact ⟨by simp [serverRank], rfl, .inl (h.timedOut_eq.symm.trans htimedOut)⟩
      · cases hstep
  | serializeFails =>
      simp only [Connection.serve] at hstep
      split at hstep
      · rename_i hserver
        cases hstep
        rw [Ending, hserver] at hending
        rw [hserver]
        exact ⟨by simp [serverRank], rfl, .inl (hending.resolve_right nofun)⟩
      · cases hstep
  | ioReturns result =>
      simp only [Connection.serve] at hstep
      split at hstep
      · rename_i operation since hserver
        rw [Option.map_eq_some_iff] at hstep
        obtain ⟨server, hafter, rfl⟩ := hstep
        rw [Ending, hserver] at hending
        rw [hserver]
        exact ⟨serverRank_afterIo hafter, rfl, .inl (hending.resolve_right nofun)⟩
      · cases hstep
  | dropGuard =>
      simp only [Connection.serve] at hstep
      split at hstep
      · rename_i after since hserver
        cases hstep
        rw [Ending, hserver] at hending
        rw [hserver]
        refine ⟨?_, rfl, .inl (hending.resolve_right nofun)⟩
        cases after <;> simp [afterGuard, serverRank]
      · cases hstep
  | process response =>
      simp only [Connection.serve] at hstep
      split at hstep
      · rename_i hserver
        cases hstep
        rw [Ending, hserver] at hending
        rw [hserver]
        refine ⟨?_, rfl, .inl (hending.resolve_right nofun)⟩
        cases response <;> simp [serverRank]
      · cases hstep
  | setDone =>
      simp only [Connection.serve] at hstep
      split at hstep
      · rename_i hserver
        cases hstep
        rw [hserver]
        exact ⟨by simp [serverRank], rfl, .inr rfl⟩
      · cases hstep
  | disconnect =>
      simp only [Connection.serve] at hstep
      split at hstep
      · rename_i hserver
        cases hstep
        rw [hserver]
        exact ⟨by simp [serverRank], rfl, .inr rfl⟩
      · cases hstep
  | join =>
      simp only [Connection.serve] at hstep
      split at hstep
      · rename_i hserver hwatchdog
        cases hstep
        rw [hserver]
        exact ⟨by simp [serverRank], rfl, .inr rfl⟩
      · cases hstep
  | close =>
      simp only [Connection.serve] at hstep
      split at hstep
      · rename_i hserver
        cases hstep
        rw [hserver]
        exact ⟨by simp [serverRank], rfl, .inr rfl⟩
      · cases hstep
  | look now => cases hstep
  | cancelIo => cases hstep
  | watchdogDisconnect => cases hstep

/-- The watchdog of a connection that is about to end goes on too. -/
theorem Sound.guard_rank (h : c.Sound limits) (hending : c.Ending)
    (hstep : c.guard limits e = some next) :
    watchdogRank next.watchdog < watchdogRank c.watchdog ∧ next.server = c.server ∧
      next.Ending := by
  cases e with
  | look now =>
      simp only [Connection.guard] at hstep
      split at hstep
      · rename_i hwatchdog
        have hnone := h.watching hwatchdog
        have hdone : c.server.pastDone = true := by
          rw [Ending, hnone] at hending
          exact hending.resolve_left nofun
        have hlook : look limits c.started now c.watch = .ends := by
          rw [look, if_pos (h.done_eq.trans hdone)]
        rw [hlook] at hstep
        cases hstep
        rw [hwatchdog]
        exact ⟨by simp [watchdogRank], rfl, .inr hdone⟩
      · cases hstep
  | cancelIo =>
      simp only [Connection.guard] at hstep
      split at hstep
      · rename_i hwatchdog
        cases hstep
        rw [hwatchdog]
        exact ⟨by simp [watchdogRank], rfl, hending⟩
      · cases hstep
  | watchdogDisconnect =>
      simp only [Connection.guard] at hstep
      split at hstep
      · rename_i hwatchdog
        cases hstep
        rw [hwatchdog]
        exact ⟨by simp [watchdogRank], rfl, hending⟩
      · cases hstep
  | beginIo now => cases hstep
  | serializeFails => cases hstep
  | ioReturns result => cases hstep
  | dropGuard => cases hstep
  | process response => cases hstep
  | setDone => cases hstep
  | disconnect => cases hstep
  | join => cases hstep
  | close => cases hstep

theorem Sound.step_rank (h : c.Sound limits) (hending : c.Ending)
    (hstep : c.step limits e = some next) : next.rank < c.rank ∧ next.Ending := by
  cases step_cases hstep with
  | inl hserve =>
      obtain ⟨hless, hwatchdog, hnext⟩ := h.serve_rank hending hserve
      unfold rank
      rw [hwatchdog]
      exact ⟨Nat.add_lt_add_right hless _, hnext⟩
  | inr hguard =>
      obtain ⟨hless, hserver, hnext⟩ := h.guard_rank hending hguard
      unfold rank
      rw [hserver]
      exact ⟨Nat.add_lt_add_left hless _, hnext⟩

/-- The same step at another time, or with another outcome of the request. -/
def Alike : ConnectionEvent → ConnectionEvent → Prop
  | .look _, .look _ | .beginIo _, .beginIo _ | .process _, .process _ => True
  | e, e' => e = e'

/-- The steps that are certain to come: a pending operation returns once the pipe has been
disconnected under it.  A response that cannot be serialised is not counted on. -/
def Promised (c : Connection) : ConnectionEvent → Prop
  | .ioReturns result => c.watchdog = .ended ∧ result = .failed
  | .serializeFails => False
  | _ => True

/-- Something is left to do until the connection is closed, and it will be done, whatever the
clock shows then and however the request was processed. -/
theorem Sound.exists_promised (h : c.Sound limits) (hending : c.Ending)
    (hopen : c.server ≠ .closed) :
    ∃ e, c.Promised e ∧ ∀ e', Alike e e' → (c.step limits e').isSome = true := by
  cases hwatchdog : c.watchdog with
  | watching =>
      have hdone : c.server.pastDone = true := by
        rw [Ending, h.watching hwatchdog] at hending
        exact hending.resolve_left nofun
      refine ⟨.look 0, trivial, fun e' halike => ?_⟩
      cases e' with
      | look now =>
          simp [Connection.step, Connection.serve, Connection.guard, hwatchdog, look,
            h.done_eq.trans hdone]
      | _ => cases halike
  | cancelling =>
      refine ⟨.cancelIo, trivial, ?_⟩
      rintro _ rfl
      simp [Connection.step, Connection.serve, Connection.guard, hwatchdog]
  | disconnecting =>
      refine ⟨.watchdogDisconnect, trivial, ?_⟩
      rintro _ rfl
      simp [Connection.step, Connection.serve, Connection.guard, hwatchdog]
  | ended =>
      cases hserver : c.server with
      | top =>
          refine ⟨.beginIo 0, trivial, fun e' halike => ?_⟩
          cases e' with
          | beginIo now => simp [Connection.step, Connection.serve, hserver]
          | _ => cases halike
      | pending operation since =>
          refine ⟨.ioReturns .failed, ⟨hwatchdog, rfl⟩, ?_⟩
          rintro _ rfl
          rcases operation with _ | terminal | _ <;>
            simp [Connection.step, Connection.serve, hserver, afterIo]
      | returned after since =>
          refine ⟨.dropGuard, trivial, ?_⟩
          rintro _ rfl
          simp [Connection.step, Connection.serve, hserver]
      | processing =>
          refine ⟨.process none, trivial, fun e' halike => ?_⟩
          cases e' with
          | process outcome => simp [Connection.step, Connection.serve, hserver]
          | _ => cases halike
      | sending terminal =>
          refine ⟨.beginIo 0, trivial, fun e' halike => ?_⟩
          cases e' with
          | beginIo now => simp [Connection.step, Connection.serve, hserver]
          | _ => cases halike
      | leaving =>
          refine ⟨.setDone, trivial, ?_⟩
          rintro _ rfl
          simp [Connection.step, Connection.serve, hserver]
      | disconnecting =>
          refine ⟨.disconnect, trivial, ?_⟩
          rintro _ rfl
          simp [Connection.step, Connection.serve, hserver]
      | joining =>
          refine ⟨.join, trivial, ?_⟩
          rintro _ rfl
          simp [Connection.step, Connection.serve, hserver, hwatchdog]
      | closing =>
          refine ⟨.close, trivial, ?_⟩
          rintro _ rfl
          simp [Connection.step, Connection.serve, hserver]
      | closed => exact absurd hserver hopen

/-- A look at a connection whose operation takes too long is its last one. -/
theorem Sound.fires (h : c.Sound limits) {now : Instant} (hwatchdog : c.watchdog = .watching)
    (hgaveUp : GaveUp limits c.started now c.server.since) :
    ∃ next, c.step limits (.look now) = some next ∧ next.Ending := by
  have hlook : look limits c.started now c.watch = .ends ∨
      look limits c.started now c.watch = .fires := by
    unfold look IoWatchState.ioStalled
    rw [h.held]
    split
    · exact .inl rfl
    · refine .inr (if_pos ?_)
      rw [Bool.or_eq_true, decide_eq_true_eq]
      cases hgaveUp with
      | inl hold => exact .inr hold
      | inr hstalled =>
          obtain ⟨since, hsince, hlong⟩ := hstalled
          rw [hsince]
          exact .inl (decide_eq_true hlong)
  cases hlook with
  | inl hends =>
      refine ⟨{ c with watchdog := .ended }, ?_, .inr ?_⟩
      · simp [Connection.step, Connection.serve, Connection.guard, hwatchdog, hends]
      · unfold look at hends
        split at hends
        · rename_i hdone
          exact h.done_eq.symm.trans hdone
        · split at hends <;> cases hends
  | inr hfires =>
      refine ⟨{ c with
        watch := { c.watch with timedOut := true }
        watchdog := .cancelling
        fired := some (now, c.watch.waitingSince) }, ?_, .inl rfl⟩
      simp [Connection.step, Connection.serve, Connection.guard, hwatchdog, hfires]

/-- A run of a connection that is about to end is shorter than its rank. -/
theorem Sound.run_rank (h : c.Sound limits) (hending : c.Ending) {es : List ConnectionEvent}
    (hrun : Runs.run (Connection.step limits) c es = some next) :
    next.Sound limits ∧ next.Ending ∧ es.length + next.rank ≤ c.rank := by
  refine Runs.run_history (fun past mid => mid.Sound limits ∧ mid.Ending ∧
    past.length + mid.rank ≤ c.rank) ⟨h, hending, by simp⟩ ?_ hrun
  intro past mid e after hmid hstep
  obtain ⟨hless, hafter⟩ := hmid.1.step_rank hmid.2.1 hstep
  refine ⟨hmid.1.step hstep, hafter, ?_⟩
  have hle := hmid.2.2
  rw [List.length_append, List.length_singleton]
  omega

end Connection

end Ngsm.Broker
