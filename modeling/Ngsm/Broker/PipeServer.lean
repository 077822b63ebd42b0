/-
# The pipe server

One thread creates an instance of the pipe, waits for a client, takes a slot for it and hands it
to a thread of its own.  Sixteen clients are served at a time; the next one is told that the
broker is busy, and whoever comes then is turned away.

The system refuses an instance beyond the maximum the server gave it.  So an instance has to be
closed before its slot is free again: on every way out of a connection, whatever its two
threads and the system do.
-/

import Ngsm.Broker.Watch

namespace Ngsm.Broker

open Ngsm.Lib

def maxConcurrentConnections : Counter :=
  16

def maxBusyConnections : Counter :=
  1

/-- The maximum that the server gives the system: one instance for each slot, and the one that
waits for a client. -/
def maxPipeInstances : ℕ :=
  (maxConcurrentConnections + maxBusyConnections + 1).toNat

/-- A client that is told that the broker is busy has less time to listen. -/
def limitsOf (busy : Bool) : ConnectionLimits where
  ioTimeout := if busy then 2000000000 else 30000000000
  lifetime := 600000000000

/-! ## Connection threads -/

/-- Where the thread of a connection stands.  It has the slot from the start, and the pipe until
it closes it. -/
inductive WorkerPhase where
  | starting
  | serving (connection : Connection)
  | closed
  | gone
deriving DecidableEq, Repr

def WorkerPhase.isGone : WorkerPhase → Bool
  | .gone => true
  | _ => false

structure Worker where
  busy : Bool
  phase : WorkerPhase := .starting
deriving DecidableEq, Repr

namespace Worker

def holdsPipe (worker : Worker) : Bool :=
  match worker.phase with
  | .starting => true
  | .serving connection => connection.server != .closed
  | .closed => false
  | .gone => false

def holdsSlot (busy : Bool) (worker : Worker) : Bool :=
  worker.busy == busy && !worker.phase.isGone

/-- The steps of a connection thread: the broker exits before a busy response, the watchdog
does not start, it starts, and what follows. -/
inductive Event where
  | notAdmitted
  | notWatched
  | watched (now : Instant)
  | connection (e : ConnectionEvent)
  | released
deriving DecidableEq, Repr

def step (worker : Worker) : Event → Option Worker
  | .notAdmitted =>
      match worker.phase with
      | .starting => if worker.busy then some { worker with phase := .closed } else none
      | _ => none
  | .notWatched =>
      match worker.phase with
      | .starting => some { worker with phase := .closed }
      | _ => none
  | .watched now =>
      match worker.phase with
      | .starting => some { worker with
          phase := .serving (if worker.busy then Connection.busy now else Connection.new now) }
      | _ => none
  | .connection e =>
      match worker.phase with
      | .serving connection =>
          (connection.step (limitsOf worker.busy) e).map fun connection =>
            { worker with phase := .serving connection }
      | _ => none
  | .released =>
      if worker.holdsPipe || worker.phase.isGone then none
      else some { worker with phase := .gone }

end Worker

/-! ## The accept loop -/

/-- Where the loop of `run_server` stands. -/
inductive AcceptPc where
  | creating
  | connecting
  | choosing
  | choosingBusy
  | refusing
  | spawning (busy : Bool)
  | stopped
deriving DecidableEq, Repr

def AcceptPc.holdsPipe : AcceptPc → Bool
  | .connecting | .choosing | .choosingBusy | .refusing | .spawning _ => true
  | _ => false

def AcceptPc.holdsSlot (busy : Bool) : AcceptPc → Bool
  | .spawning reserved => reserved == busy
  | _ => false

structure PipeServer where
  accept : AcceptPc := .creating
  first : Bool := true
  activeConnections : Counter := 0
  busyConnections : Counter := 0
  workers : List Worker := []
deriving DecidableEq, Repr

/-- The steps of the server; a flag tells whether the system did what it was asked. -/
inductive ServerEvent where
  | create (ok : Bool)
  | connect (ok : Bool)
  | choose
  | chooseBusy
  | refuse
  | spawn (ok : Bool)
  | worker (i : ℕ) (e : Worker.Event)
deriving DecidableEq, Repr

namespace PipeServer

def counter (busy : Bool) (server : PipeServer) : Counter :=
  if busy then server.busyConnections else server.activeConnections

def setCounter (busy : Bool) (count : Counter) (server : PipeServer) : PipeServer :=
  if busy then { server with busyConnections := count }
  else { server with activeConnections := count }

/-- The drop of a slot. -/
def releaseSlot (busy : Bool) (server : PipeServer) : PipeServer :=
  server.setCounter busy (release (server.counter busy))

def step (server : PipeServer) : ServerEvent → Option PipeServer
  | .create ok =>
      if server.accept = .creating then
        if ok then some { server with accept := .connecting, first := false }
        else if server.first then some { server with accept := .stopped }
        else some server
      else none
  | .connect ok =>
      if server.accept = .connecting then
        some { server with accept := if ok then .choosing else .creating }
      else none
  | .choose =>
      if server.accept = .choosing then
        match reserve server.activeConnections maxConcurrentConnections with
        | some count => some { server with activeConnections := count, accept := .spawning false }
        | none => some { server with accept := .choosingBusy }
      else none
  | .chooseBusy =>
      if server.accept = .choosingBusy then
        match reserve server.busyConnections maxBusyConnections with
        | some count => some { server with busyConnections := count, accept := .spawning true }
        | none => some { server with accept := .refusing }
      else none
  | .refuse =>
      if server.accept = .refusing then some { server with accept := .creating } else none
  | .spawn ok =>
      match server.accept with
      | .spawning busy =>
          if ok then
            some { server with accept := .creating, workers := server.workers ++ [{ busy }] }
          else some { server.releaseSlot busy with accept := .creating }
      | _ => none
  | .worker i e => do
      let worker ← server.workers[i]?
      let next ← worker.step e
      let server := { server with workers := server.workers.set i next }
      return if e = .released then server.releaseSlot worker.busy else server

/-- The instances of the pipe that are open. -/
def instances (server : PipeServer) : ℕ :=
  server.workers.countP Worker.holdsPipe + server.accept.holdsPipe.toNat

/-- The slots that are taken. -/
def slots (busy : Bool) (server : PipeServer) : ℕ :=
  server.workers.countP (Worker.holdsSlot busy) + (server.accept.holdsSlot busy).toNat

end PipeServer

/-! ## What always holds -/

namespace Worker

variable {worker next : Worker} {e : Event} {busy : Bool}

/-- A thread that has the pipe has its slot. -/
theorem holdsSlot_of_holdsPipe (h : worker.holdsPipe = true) :
    worker.holdsSlot worker.busy = true := by
  unfold holdsPipe at h
  unfold holdsSlot
  cases hphase : worker.phase with
  | gone =>
      rw [hphase] at h
      cases h
  | starting | serving connection | closed => simp [WorkerPhase.isGone]

/-- A step gives the slot back or keeps it. -/
theorem step_slot (hstep : worker.step e = some next) (busy : Bool) :
    (e = .released ∧ worker.holdsSlot busy = (worker.busy == busy) ∧
      next.holdsSlot busy = false) ∨
    (e ≠ .released ∧ next.holdsSlot busy = worker.holdsSlot busy) := by
  cases e with
  | released =>
      simp only [step] at hstep
      split at hstep
      · cases hstep
      · rename_i hkeeps
        cases hstep
        refine .inl ⟨rfl, ?_, ?_⟩
        · rw [Bool.or_eq_true, not_or, Bool.not_eq_true, Bool.not_eq_true] at hkeeps
          rw [holdsSlot, hkeeps.2, Bool.not_false, Bool.and_true]
        · rw [holdsSlot, WorkerPhase.isGone, Bool.not_true, Bool.and_false]
  | notAdmitted =>
      simp only [step] at hstep
      split at hstep
      · rename_i hstarting
        split at hstep <;> cases hstep
        exact .inr ⟨nofun, by simp [holdsSlot, hstarting, WorkerPhase.isGone]⟩
      · cases hstep
  | notWatched =>
      simp only [step] at hstep
      split at hstep
      · rename_i hstarting
        cases hstep
        exact .inr ⟨nofun, by simp [holdsSlot, hstarting, WorkerPhase.isGone]⟩
      · cases hstep
  | watched now =>
      simp only [step] at hstep
      split at hstep
      · rename_i hstarting
        cases hstep
        exact .inr ⟨nofun, by simp [holdsSlot, hstarting, WorkerPhase.isGone]⟩
      · cases hstep
  | connection e =>
      simp only [step] at hstep
      split at hstep
      · rename_i connection hserving
        rw [Option.map_eq_some_iff] at hstep
        obtain ⟨after, -, rfl⟩ := hstep
        exact .inr ⟨nofun, by simp [holdsSlot, hserving, WorkerPhase.isGone]⟩
      · cases hstep

/-- The connection of a thread is sound. -/
def Sound (worker : Worker) : Prop :=
  ∀ connection, worker.phase = .serving connection → connection.Sound (limitsOf worker.busy)

theorem Sound.step (h : worker.Sound) (hstep : worker.step e = some next) : next.Sound := by
  intro connection hserving
  cases e with
  | connection e =>
      simp only [Worker.step] at hstep
      split at hstep
      · rename_i before hbefore
        rw [Option.map_eq_some_iff] at hstep
        obtain ⟨after, hafter, rfl⟩ := hstep
        cases hserving
        exact (h before hbefore).step hafter
      · cases hstep
  | watched now =>
      simp only [Worker.step] at hstep
      split at hstep
      · cases hstep
        cases hserving
        cases worker.busy with
        | true => exact Connection.sound_busy now
        | false => exact Connection.sound_new now
      · cases hstep
  | notAdmitted =>
      simp only [Worker.step] at hstep
      split at hstep
      · split at hstep <;> cases hstep
        cases hserving
      · cases hstep
  | notWatched | released =>
      simp only [Worker.step] at hstep
      split at hstep <;> cases hstep
      cases hserving

end Worker

namespace PipeServer

def slotLimit (busy : Bool) : Counter :=
  if busy then maxBusyConnections else maxConcurrentConnections

/-- The counters count the slots, and every connection is sound. -/
structure Orderly (server : PipeServer) : Prop where
  slots : ∀ busy, Slots.Bounded (slotLimit busy) ⟨server.counter busy, server.slots busy⟩
  sound : ∀ worker ∈ server.workers, worker.Sound

variable {server next : PipeServer} {e : ServerEvent}

theorem orderly_start : Orderly {} where
  slots busy := by
    have hslots : ({} : PipeServer).slots busy = 0 := by cases busy <;> rfl
    have hcounter : ({} : PipeServer).counter busy = 0 := by cases busy <;> rfl
    rw [hslots, hcounter]
    exact ⟨UInt64.toNat_zero, Nat.zero_le _⟩
  sound worker hmem := absurd hmem List.not_mem_nil

/-- The accept loop goes on without touching a slot. -/
theorem Orderly.goto (h : server.Orderly) {accept : AcceptPc} {first : Bool}
    (hslot : ∀ busy, accept.holdsSlot busy = server.accept.holdsSlot busy) :
    ({ server with accept, first } : PipeServer).Orderly where
  slots busy := by
    have hslots : ({ server with accept, first } : PipeServer).slots busy = server.slots busy := by
      unfold PipeServer.slots
      rw [hslot]
    rw [hslots]
    exact h.slots busy
  sound := h.sound

/-! ### Slots -/

theorem counter_setCounter (busy other : Bool) (count : Counter) :
    (server.setCounter busy count).counter other =
      if other = busy then count else server.counter other := by
  cases busy <;> cases other <;> rfl

theorem slots_setCounter (busy other : Bool) (count : Counter) :
    (server.setCounter busy count).slots other = server.slots other := by
  cases busy <;> rfl

theorem workers_setCounter (busy : Bool) (count : Counter) :
    (server.setCounter busy count).workers = server.workers := by
  cases busy <;> rfl

/-- One slot more is counted where one was free. -/
theorem bounded_reserve {limit counter count : Counter} {live : ℕ}
    (h : Slots.Bounded limit ⟨counter, live⟩) (hreserve : reserve counter limit = some count) :
    Slots.Bounded limit ⟨count, live + 1⟩ := by
  refine h.step (e := .reserve) ?_
  simp only [Slots.step, hreserve]

/-- One slot less is counted where one was taken. -/
theorem bounded_release {limit counter : Counter} {live : ℕ}
    (h : Slots.Bounded limit ⟨counter, live + 1⟩) :
    Slots.Bounded limit ⟨release counter, live⟩ := by
  refine h.step (e := .drop) ?_
  simp only [Slots.step, Nat.succ_ne_zero, if_false, Nat.add_sub_cancel]

/-- A slot that nobody holds any more is given back. -/
theorem Orderly.giveBack (h : server.Orderly) {busy : Bool} {after : PipeServer}
    (hcounter : ∀ other, after.counter other = server.counter other)
    (hslots : ∀ other, after.slots other + (other == busy).toNat = server.slots other)
    (hsound : ∀ worker ∈ after.workers, worker.Sound) : (after.releaseSlot busy).Orderly where
  slots other := by
    have hbounded := h.slots other
    rw [releaseSlot, counter_setCounter, slots_setCounter]
    split
    · rename_i hsame
      have hone := hslots other
      rw [hsame, beq_self_eq_true, Bool.toNat_true] at hone
      rw [← hcounter other, hsame, ← hone] at hbounded
      rw [hsame]
      exact bounded_release hbounded
    · rename_i hother
      have hzero := hslots other
      rw [beq_false_of_ne hother, Bool.toNat_false, Nat.add_zero] at hzero
      rw [hcounter, hzero]
      exact hbounded
  sound := by
    rw [releaseSlot, workers_setCounter]
    exact hsound

theorem countP_set_add (p : Worker → Bool) {workers : List Worker} {i : ℕ} {worker after : Worker}
    (hget : workers[i]? = some worker) : (workers.set i after).countP p + (p worker).toNat =
      workers.countP p + (p after).toNat := by
  obtain ⟨hi, rfl⟩ := List.getElem?_eq_some_iff.mp hget
  have hle : (if p workers[i] then 1 else 0) ≤ workers.countP p :=
    List.boole_getElem_le_countP hi
  rw [List.countP_set hi]
  cases hbefore : p workers[i] <;> cases p after <;>
    simp only [hbefore, reduceIte, Bool.false_eq_true, Bool.toNat_true, Bool.toNat_false] at hle ⊢
  all_goals omega

theorem Orderly.step_worker (h : server.Orderly) {i : ℕ} {e : Worker.Event}
    (hstep : server.step (.worker i e) = some next) : next.Orderly := by
  simp only [PipeServer.step] at hstep
  obtain ⟨worker, hget, hstep⟩ := Option.bind_eq_some_iff.mp hstep
  obtain ⟨after, hafter, hstep⟩ := Option.bind_eq_some_iff.mp hstep
  have hsound : ∀ other ∈ server.workers.set i after, other.Sound := by
    intro other hmem
    cases List.mem_or_eq_of_mem_set hmem with
    | inl hold => exact h.sound other hold
    | inr hnew =>
        subst hnew
        exact (h.sound worker (List.mem_of_getElem? hget)).step hafter
  have hcount : ∀ busy, (server.workers.set i after).countP (Worker.holdsSlot busy) +
      (worker.holdsSlot busy).toNat = server.workers.countP (Worker.holdsSlot busy) +
        (after.holdsSlot busy).toNat := fun busy => countP_set_add _ hget
  by_cases hreleased : e = .released
  · subst hreleased
    simp only [if_true, Option.pure_def, Option.some.injEq] at hstep
    subst hstep
    refine h.giveBack (fun other => by cases other <;> rfl) (fun other => ?_) hsound
    have hother := hcount other
    cases Worker.step_slot hafter other with
    | inl hgone =>
        rw [hgone.2.1, hgone.2.2, Bool.toNat_false, Bool.beq_comm] at hother
        unfold PipeServer.slots
        simp only
        omega
    | inr hkept => exact absurd rfl hkept.1
  · simp only [hreleased, if_false, Option.pure_def, Option.some.injEq] at hstep
    subst hstep
    refine ⟨fun busy => ?_, hsound⟩
    have hbusy := hcount busy
    have hkept := (Worker.step_slot hafter busy).resolve_left fun hgone => hreleased hgone.1
    rw [hkept.2, Nat.add_right_cancel_iff] at hbusy
    have hslots : ({ server with workers := server.workers.set i after } : PipeServer).slots busy =
        server.slots busy := by
      unfold PipeServer.slots
      rw [hbusy]
    rw [hslots]
    exact h.slots busy

theorem Orderly.step (h : server.Orderly) (hstep : server.step e = some next) : next.Orderly := by
  cases e with
  | create ok =>
      simp only [PipeServer.step] at hstep
      split at hstep
      · rename_i haccept
        have hnone : ∀ accept : AcceptPc, (∀ busy, accept.holdsSlot busy = false) →
            ∀ busy, accept.holdsSlot busy = server.accept.holdsSlot busy := by
          intro accept hnone busy
          rw [hnone, haccept]
          rfl
        split at hstep
        · cases hstep
          exact h.goto (hnone _ fun _ => rfl)
        · split at hstep
          · cases hstep
            exact h.goto (hnone _ fun _ => rfl)
          · cases hstep
            exact h
      · cases hstep
  | connect ok =>
      simp only [PipeServer.step] at hstep
      split at hstep
      · rename_i haccept
        cases hstep
        refine h.goto fun busy => ?_
        rw [haccept]
        cases ok <;> rfl
      · cases hstep
  | choose =>
      simp only [PipeServer.step] at hstep
      split at hstep
      · rename_i haccept
        split at hstep
        · rename_i count hreserve
          cases hstep
          refine ⟨fun busy => ?_, h.sound⟩
          have hbounded := h.slots busy
          unfold PipeServer.slots at hbounded ⊢
          rw [haccept] at hbounded
          cases busy with
          | false => exact bounded_reserve hbounded hreserve
          | true => exact hbounded
        · cases hstep
          refine h.goto fun busy => ?_
          rw [haccept]
          rfl
      · cases hstep
  | chooseBusy =>
      simp only [PipeServer.step] at hstep
      split at hstep
      · rename_i haccept
        split at hstep
        · rename_i count hreserve
          cases hstep
          refine ⟨fun busy => ?_, h.sound⟩
          have hbounded := h.slots busy
          unfold PipeServer.slots at hbounded ⊢
          rw [haccept] at hbounded
          cases busy with
          | false => exact hbounded
          | true => exact bounded_reserve hbounded hreserve
        · cases hstep
          refine h.goto fun busy => ?_
          rw [haccept]
          rfl
      · cases hstep
  | refuse =>
      simp only [PipeServer.step] at hstep
      split at hstep
      · rename_i haccept
        cases hstep
        refine h.goto fun busy => ?_
        rw [haccept]
        rfl
      · cases hstep
  | spawn ok =>
      simp only [PipeServer.step] at hstep
      split at hstep
      · rename_i busy haccept
        split at hstep
        · cases hstep
          refine ⟨fun other => ?_, fun worker hmem => ?_⟩
          · have hbounded := h.slots other
            unfold PipeServer.slots at hbounded ⊢
            rw [haccept] at hbounded
            have hnew : [({ busy } : Worker)].countP (Worker.holdsSlot other) =
                (AcceptPc.holdsSlot other (.spawning busy)).toNat := by
              cases busy <;> cases other <;> rfl
            rw [List.countP_append, hnew]
            exact hbounded
          · cases List.mem_append.mp hmem with
            | inl hold => exact h.sound worker hold
            | inr hnew =>
                rw [List.mem_singleton] at hnew
                subst hnew
                exact nofun
        · cases hstep
          have hback : ({ server.releaseSlot busy with accept := .creating } : PipeServer) =
              ({ server with accept := .creating } : PipeServer).releaseSlot busy := by
            cases busy <;> rfl
          rw [hback]
          refine h.giveBack (fun other => by cases other <;> rfl) (fun other => ?_) h.sound
          unfold PipeServer.slots
          rw [haccept]
          cases busy <;> cases other <;> rfl
      · cases hstep
  | worker i e => exact h.step_worker hstep

/-! ### Instances -/

/-- Whoever has the pipe has a slot. -/
theorem countP_holdsPipe_le (workers : List Worker) : workers.countP Worker.holdsPipe ≤
    workers.countP (Worker.holdsSlot false) + workers.countP (Worker.holdsSlot true) := by
  induction workers with
  | nil => exact Nat.zero_le _
  | cons worker workers ih =>
      have hslot := worker.holdsSlot_of_holdsPipe
      simp only [List.countP_cons]
      cases hpipe : worker.holdsPipe with
      | false =>
          simp only [Bool.false_eq_true, if_false]
          omega
      | true =>
          have hone := hslot hpipe
          cases hbusy : worker.busy with
          | false =>
              rw [hbusy] at hone
              simp only [hone, if_true]
              omega
          | true =>
              rw [hbusy] at hone
              simp only [hone, if_true]
              omega

theorem Orderly.slots_le (h : server.Orderly) (busy : Bool) :
    server.slots busy ≤ (slotLimit busy).toNat :=
  (h.slots busy).2

/-- There is room for one more instance whenever one is created. -/
theorem Orderly.instances_le (h : server.Orderly) : server.instances ≤ maxPipeInstances ∧
    (server.accept = .creating → server.instances < maxPipeInstances) := by
  have hnormal : server.slots false ≤ 16 := h.slots_le false
  have hbusy : server.slots true ≤ 1 := h.slots_le true
  have hmax : maxPipeInstances = 18 := by decide
  have hworkers := countP_holdsPipe_le server.workers
  unfold instances
  unfold PipeServer.slots at hnormal hbusy
  rw [hmax]
  constructor
  · cases haccept : server.accept with
    | spawning busy =>
        rw [haccept] at hnormal hbusy
        cases busy <;>
          simp only [AcceptPc.holdsSlot, AcceptPc.holdsPipe, Bool.toNat_true, beq_self_eq_true]
            at hnormal hbusy ⊢ <;> omega
    | creating | connecting | choosing | choosingBusy | refusing | stopped =>
        have hone := Bool.toNat_le (AcceptPc.holdsPipe server.accept)
        rw [haccept] at hone
        omega
  · intro haccept
    rw [haccept]
    simp only [AcceptPc.holdsPipe, Bool.toNat_false]
    omega

/-! ## The protocol -/

theorem orderly {es : List ServerEvent} (hrun : Runs.run step {} es = some server) :
    server.Orderly :=
  Runs.run_invariant Orderly orderly_start (fun _ _ _ h hstep => h.step hstep) hrun

/-- In every run the server keeps within its instances and its slots.  A watchdog interferes only
with a pipe that is open and has given up before: the operation that is pending took too long, or
the connection is too old.  Then `begin_io` is refused; what goes on under the guard of the pending
operation, as the flush of a last response, is still done. -/
theorem pipe_server_safe {es : List ServerEvent} (hrun : Runs.run step {} es = some server) :
    server.instances ≤ maxPipeInstances ∧
      (server.accept = .creating → server.instances < maxPipeInstances) ∧
      (∀ busy, server.slots busy ≤ (slotLimit busy).toNat) ∧
      ∀ worker ∈ server.workers, ∀ connection, worker.phase = .serving connection →
        (connection.watchdog = .cancelling ∨ connection.watchdog = .disconnecting →
          connection.server.joined = false ∧ ∃ now waitingSince,
            connection.fired = some (now, waitingSince) ∧
            GaveUp (limitsOf worker.busy) connection.started now waitingSince ∧
            ∀ operation since, connection.server = .pending operation since →
              (limitsOf worker.busy).lifetime ≤ now - connection.started ∨
                (limitsOf worker.busy).ioTimeout ≤ now - since) ∧
        (connection.fired.isSome = true → ∀ now after,
          connection.step (limitsOf worker.busy) (.beginIo now) = some after →
            after.server = .leaving) := by
  have h := orderly hrun
  refine ⟨h.instances_le.1, h.instances_le.2, h.slots_le, ?_⟩
  intro worker hworker connection hserving
  have hsound := h.sound worker hworker connection hserving
  exact ⟨hsound.interferes, fun hfired now after => hsound.quiet hfired⟩

/-- A connection ends.  The next look of the watchdog at an operation that takes too long makes it
give up.  From then on, and from when the thread is done, the connection takes fifteen steps at
most, and as long as it is not closed one of them is certain to come, whatever the clock shows then
and however the request was processed. -/
theorem server_connection_ends {es : List ServerEvent}
    (hrun : Runs.run step {} es = some server) {worker : Worker} (hworker : worker ∈ server.workers)
    {connection : Connection} (hserving : worker.phase = .serving connection) :
    (∀ now, connection.watchdog = .watching →
      GaveUp (limitsOf worker.busy) connection.started now connection.server.since →
        ∃ next, connection.step (limitsOf worker.busy) (.look now) = some next ∧ next.Ending) ∧
    (connection.Ending → ∀ es later,
      Runs.run (Connection.step (limitsOf worker.busy)) connection es = some later →
        es.length ≤ 15 ∧ (later.server = .closed ∨
          ∃ e, later.Promised e ∧ ∀ e', Connection.Alike e e' →
            (later.step (limitsOf worker.busy) e').isSome = true)) := by
  have hsound := (orderly hrun).sound worker hworker connection hserving
  refine ⟨fun now hwatchdog hgaveUp => hsound.fires hwatchdog hgaveUp, ?_⟩
  intro hending later_es later hlater
  obtain ⟨hlaterSound, hlaterEnding, hlength⟩ := hsound.run_rank hending hlater
  have hrank := connection.rank_le
  refine ⟨by omega, ?_⟩
  by_cases hclosed : later.server = .closed
  · exact .inl hclosed
  · exact .inr (hlaterSound.exists_promised hlaterEnding hclosed)

/-! ### A client that does not read -/

/-- A client connects and sends nothing for thirty seconds. -/
def silentClient : List ServerEvent :=
  [.create true, .connect true, .choose, .spawn true, .worker 0 (.watched 0),
    .worker 0 (.connection (.beginIo 5)), .worker 0 (.connection (.look 30000000005))]

def silentConnection : Connection where
  started := 0
  watch := { waitingSince := some 5, timedOut := true }
  server := .pending .read 5
  watchdog := .cancelling
  fired := some (30000000005, some 5)

def silentServer : PipeServer where
  first := false
  activeConnections := 1
  workers := [{ busy := false, phase := .serving silentConnection }]

theorem silentClient_run : Runs.run step {} silentClient = some silentServer := by
  decide +kernel

theorem silentClient_safe : silentServer.instances < maxPipeInstances :=
  (pipe_server_safe silentClient_run).2.1 rfl

theorem silentClient_ends : ∃ e, silentConnection.Promised e ∧ ∀ e', Connection.Alike e e' →
    (silentConnection.step (limitsOf false) e').isSome = true := by
  have hworker : (⟨false, .serving silentConnection⟩ : Worker) ∈ silentServer.workers :=
    List.mem_singleton.mpr rfl
  have hends := server_connection_ends silentClient_run hworker rfl
  have hserver : silentConnection.server ≠ .closed := by decide
  exact (hends.2 (.inl rfl) [] silentConnection rfl).2.resolve_left hserver

end PipeServer

end Ngsm.Broker
