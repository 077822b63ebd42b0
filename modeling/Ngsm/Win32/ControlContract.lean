/-
# What the channel of service controls guarantees

A ledger notes what a run of the channel has promised and delivered: the controls that the
queue took and those that a receive returned, the stops that wait to be taken, the claims.
The contract says of each step which one may follow a ledger, and every run keeps it.
-/

import Ngsm.Lib.History
import Ngsm.Lib.Runs
import Ngsm.Win32.ControlChannel

namespace Ngsm.Win32.ControlChannel

open Ngsm.Lib

variable {ι : Type}

/-- What a run has promised and delivered. -/
structure Ledger (ι : Type) where
  /-- A stop or a shutdown won the decision. -/
  requested : Bool
  /-- A stop or a shutdown was answered with 0. -/
  acknowledged : Bool
  claims : List Bool
  /-- The call of a thread has set its terminal bit. -/
  posted : ι → Bool
  /-- The stops that wait to be taken; `true` is a shutdown. -/
  pending : List Bool
  /-- Those that waited when the last receive began. -/
  begun : List Bool
  /-- What the last receive has taken of them. -/
  taken : Option ServiceControl
  /-- The ordinary controls that the queue took. -/
  accepted : List ServiceControl
  /-- The ordinary controls that a receive returned. -/
  delivered : List ServiceControl
  /-- What had been accepted when the queue was last found empty. -/
  seen : List ServiceControl
  /-- The receiver is being dropped. -/
  closed : Bool

def Ledger.start : Ledger ι where
  requested := false
  acknowledged := false
  claims := []
  posted := fun _ => false
  pending := []
  begun := []
  taken := none
  accepted := []
  delivered := []
  seen := []
  closed := false

/-- The receiver's steps in the ledger. -/
def Ledger.noteReceive (ledger : Ledger ι) : Receive → Ledger ι
  | .began _ => { ledger with begun := ledger.pending, taken := none }
  | .swapped (some terminal) => { ledger with pending := [], taken := some terminal }
  | .emptied _ => { ledger with seen := ledger.accepted }
  | .returned _ (.ok control) =>
      if control.isTerminal then ledger
      else { ledger with delivered := ledger.delivered ++ [control] }
  | .closing => { ledger with closed := true }
  | _ => ledger

section

variable [DecidableEq ι]

/-- The steps of a call in the ledger. -/
def Ledger.noteDispatch (ledger : Ledger ι) (thread : ι) : Dispatch → Ledger ι
  | .called _ => { ledger with posted := Function.update ledger.posted thread false }
  | .updated true => { ledger with requested := true }
  | .posted shutdown =>
      { ledger with
        pending := ledger.pending ++ [shutdown]
        posted := Function.update ledger.posted thread true }
  | .sent (.ordinary control) true =>
      { ledger with accepted := ledger.accepted ++ [control] }
  | .answered control code =>
      { ledger with
        acknowledged := ledger.acknowledged || control.isTerminal && code == 0 }
  | _ => ledger

def Ledger.note (ledger : Ledger ι) : Event ι → Ledger ι
  | .dispatch thread d => ledger.noteDispatch thread d
  | .receive r => ledger.noteReceive r
  | .claimed result => { ledger with claims := ledger.claims ++ [result] }

/-- The ledger of a run. -/
def ledgerOf (events : List (Event ι)) : Ledger ι :=
  events.foldl Ledger.note .start

end

/-- What the waiting stops ask for together. -/
def asked (pending : List Bool) : Option ServiceControl :=
  if true ∈ pending then some .shutdown
  else if false ∈ pending then some .stop
  else none

/-- The answer to a receive: a stop that waited when it began comes first, as a shutdown
when one of them was one; what was taken is returned; and nothing that was accepted before
the queue was found empty is held back. -/
structure Ledger.Answers (ledger : Ledger ι) (result : Except RecvError ServiceControl) :
    Prop where
  first : ledger.begun ≠ [] → ∃ terminal, ledger.taken = some terminal ∧
    (true ∈ ledger.begun → terminal = .shutdown)
  returned : ∀ terminal, ledger.taken = some terminal → result = .ok terminal
  drained : ∀ error, result = .error error → ledger.delivered = ledger.seen

/-- The answer to a stop or a shutdown: it is accepted only when no claim answered `false`,
and then its bit was set; it is refused only after a claim or by a receiver that is being
dropped. -/
def Ledger.Replies (ledger : Ledger ι) (thread : ι) (code : UInt32) : Prop :=
  if code = 0 then false ∉ ledger.claims ∧ ledger.posted thread = true
  else ledger.claims ≠ [] ∨ ledger.closed = true

/-- Which step may follow a ledger. -/
def Ledger.Allows (ledger : Ledger ι) : Event ι → Prop
  | .dispatch thread (.answered control code) =>
      control.isTerminal = true → ledger.Replies thread code
  | .receive (.swapped taken) => taken = asked ledger.pending
  | .receive (.emptied _) => ledger.accepted = ledger.delivered
  | .receive (.returned _ result) => ledger.Answers result
  | .claimed true => false ∉ ledger.claims
  | .claimed false => true ∉ ledger.claims ∧ ledger.acknowledged = false
  | _ => True

/-! ## The bits -/

def decisionBits (requested committed : Bool) : UInt8 :=
  (if requested then stopRequested else 0) ||| (if committed then terminalCommitted else 0)

def terminalBits (pending : List Bool) : UInt8 :=
  (if false ∈ pending then 1 else 0) ||| (if true ∈ pending then 2 else 0)

theorem decisionBits_start : 0 = decisionBits false false := by
  decide

theorem terminalBits_nil : 0 = terminalBits [] := by
  decide

theorem decisionBits_committed (requested committed : Bool) :
    decisionBits requested committed &&& terminalCommitted = 0 ↔ committed = false := by
  cases requested <;> cases committed <;> decide

theorem decisionBits_requested (requested committed : Bool) :
    decide (decisionBits requested committed &&& stopRequested ≠ 0) = requested := by
  cases requested <;> cases committed <;> decide

theorem decisionBits_or_requested (requested committed : Bool) :
    decisionBits requested committed ||| stopRequested = decisionBits true committed := by
  cases requested <;> cases committed <;> decide

theorem decisionBits_or_committed (requested committed : Bool) :
    decisionBits requested committed ||| terminalCommitted = decisionBits requested true := by
  cases requested <;> cases committed <;> decide

theorem terminalOf_terminalBits (pending : List Bool) :
    terminalOf (terminalBits pending) = asked pending := by
  unfold terminalBits asked
  by_cases hstop : false ∈ pending <;> by_cases hshutdown : true ∈ pending <;>
    simp only [hstop, hshutdown, if_true, if_false] <;> decide

theorem terminalBits_post (pending : List Bool) (shutdown : Bool) :
    terminalBits pending ||| (if shutdown then 2 else 1) =
      terminalBits (pending ++ [shutdown]) := by
  unfold terminalBits
  by_cases hstop : false ∈ pending <;> by_cases hshutdown : true ∈ pending <;>
    cases shutdown <;> simp [hstop, hshutdown] <;> rfl

theorem asked_eq_none {pending : List Bool} (h : none = asked pending) : pending = [] := by
  unfold asked at h
  split at h
  · cases h
  · split at h
    · cases h
    · rename_i hshutdown hstop
      refine List.eq_nil_iff_forall_not_mem.mpr fun request hrequest => ?_
      cases request with
      | false => exact hstop hrequest
      | true => exact hshutdown hrequest

theorem asked_shutdown {pending : List Bool} {terminal : ServiceControl}
    (h : some terminal = asked pending) (hshutdown : true ∈ pending) : terminal = .shutdown := by
  rw [asked, if_pos hshutdown] at h
  exact Option.some.inj h

theorem asked_isTerminal {pending : List Bool} {terminal : ServiceControl}
    (h : some terminal = asked pending) : terminal.isTerminal = true := by
  unfold asked at h
  split at h
  · cases h
    rfl
  · split at h
    · cases h
      rfl
    · cases h

/-! ## The invariant -/

/-- The ordinary controls in the queue. -/
def queued (queue : List ControlMessage) : List ServiceControl :=
  queue.filterMap fun message =>
    match message with
    | .ordinary control => some control
    | .wake => none

/-- The ordinary control that the receiver is about to return or to deliver. -/
def ReceiverPc.inHand : ReceiverPc → List ServiceControl
  | .answer _ (.ok control) => if control.isTerminal then [] else [control]
  | .deliver _ control => [control]
  | _ => []

/-- The ordinary controls that were accepted and are not yet returned, the oldest first. -/
def Channel.held (channel : Channel ι) : List ServiceControl :=
  channel.receiver.inHand ++ channel.deferred.toList ++ queued channel.queue

/-- What a call of the handler has done up to where it stands. -/
def Ledger.Calls (ledger : Ledger ι) (thread : ι) : SenderPc → Prop
  | .fetchUpdate control => control.isTerminal = true
  | .fetchOr control => control.isTerminal = true ∧ ledger.requested = true
  | .trySend control =>
      control.isTerminal = true → ledger.requested = true ∧ ledger.posted thread = true
  | .answer control code => control.isTerminal = true →
      (code = 0 → ledger.requested = true ∧ ledger.posted thread = true) ∧
        (code ≠ 0 → ledger.claims ≠ [] ∨ ledger.closed = true)
  | _ => True

/-- What a receive has found up to where it stands. -/
def Ledger.Receives (ledger : Ledger ι) : ReceiverPc → Prop
  | .ready _ => ledger.taken = none ∧ ledger.begun <+: ledger.pending
  | .deferred _ | .receive _ | .deliver _ _ => ledger.taken = none ∧ ledger.begun = []
  | .failing _ _ =>
      ledger.taken = none ∧ ledger.begun = [] ∧ ledger.delivered = ledger.seen
  | .answer _ result => ledger.Answers result
  | .dropping | .dropped => ledger.closed = true
  | .idle => True

/-- The receiver found the deferred slot empty. -/
def ReceiverPc.pastDeferred : ReceiverPc → Bool
  | .receive _ | .deliver _ _ | .failing _ _ => true
  | _ => false

/-- How a ledger and a channel agree. -/
structure Agrees (ledger : Ledger ι) (channel : Channel ι) : Prop where
  decision : channel.decision = decisionBits ledger.requested (!ledger.claims.isEmpty)
  claims : ∀ result ∈ ledger.claims, result = ledger.requested
  acknowledged : ledger.acknowledged = true → ledger.requested = true
  terminal : channel.terminal = terminalBits ledger.pending
  alive : channel.alive = false → ledger.closed = true
  calls : ∀ thread, ledger.Calls thread (channel.senders thread)
  receives : ledger.Receives channel.receiver
  slot : channel.receiver.pastDeferred = true → channel.deferred = none
  accounts : ledger.accepted = ledger.delivered ++ channel.held
  ordinary : ∀ control ∈ ledger.accepted, control.isTerminal = false

theorem agrees_start : Agrees (Ledger.start : Ledger ι) controlChannel where
  decision := decisionBits_start
  claims := by simp [Ledger.start]
  acknowledged := by simp [Ledger.start]
  terminal := terminalBits_nil
  alive := by simp [controlChannel]
  calls := fun _ => trivial
  receives := trivial
  slot := by simp [controlChannel]
  accounts := rfl
  ordinary := by simp [Ledger.start]

section

variable {ledger ledger' : Ledger ι} {channel channel' : Channel ι} {thread : ι}

theorem queued_append (queue : List ControlMessage) (message : ControlMessage) :
    queued (queue ++ [message]) = queued queue ++ queued [message] :=
  List.filterMap_append

theorem Ledger.Calls.mono {pc : SenderPc} (h : ledger.Calls thread pc)
    (hrequested : ledger.requested = true → ledger'.requested = true)
    (hposted : ledger'.posted thread = ledger.posted thread)
    (hclaims : ledger.claims ≠ [] → ledger'.claims ≠ [])
    (hclosed : ledger.closed = true → ledger'.closed = true) : ledger'.Calls thread pc := by
  cases pc with
  | fetchOr control => exact ⟨h.1, hrequested h.2⟩
  | trySend control =>
      intro hterminal
      rw [hposted]
      exact (h hterminal).imp_left hrequested
  | answer control code =>
      intro hterminal
      rw [hposted]
      exact ⟨fun hcode => ((h hterminal).1 hcode).imp_left hrequested,
        fun hcode => ((h hterminal).2 hcode).imp hclaims hclosed⟩
  | _ => exact h

/-- A ledger in which a stop has won agrees with every claim that there was. -/
theorem Agrees.not_mem_claims (h : Agrees ledger channel) (hrequested : ledger.requested = true) :
    false ∉ ledger.claims := by
  intro hmem
  have hfalse := h.claims false hmem
  rw [hrequested] at hfalse
  cases hfalse

/-- A control that is held back is an ordinary one. -/
theorem Agrees.held_isTerminal (h : Agrees ledger channel) {control : ServiceControl}
    (hmem : control ∈ channel.held) : control.isTerminal = false := by
  apply h.ordinary
  rw [h.accounts]
  exact List.mem_append_right _ hmem

/-! ## A step of the receiver -/

theorem Ledger.Answers.of_taken {terminal : ServiceControl}
    (htaken : ledger.taken = some terminal)
    (hfirst : true ∈ ledger.begun → terminal = .shutdown) : ledger.Answers (.ok terminal) := by
  refine ⟨fun _ => ⟨terminal, htaken, hfirst⟩, fun other hother => ?_, fun _ herror => ?_⟩
  · rw [htaken] at hother
    cases hother
    rfl
  · cases herror

theorem Ledger.Answers.of_ordinary (hbegun : ledger.begun = []) (htaken : ledger.taken = none)
    {control : ServiceControl} : ledger.Answers (.ok control) := by
  refine ⟨fun hne => absurd hbegun hne, fun other hother => ?_, fun _ herror => ?_⟩
  · rw [htaken] at hother
    cases hother
  · cases herror

theorem Ledger.Answers.of_error (hbegun : ledger.begun = []) (htaken : ledger.taken = none)
    (hdrained : ledger.delivered = ledger.seen) {error : RecvError} :
    ledger.Answers (.error error) := by
  refine ⟨fun hne => absurd hbegun hne, fun other hother => ?_, fun _ _ => hdrained⟩
  rw [htaken] at hother
  cases hother

theorem Agrees.receives_at {pc : ReceiverPc} (h : Agrees ledger channel)
    (hpc : channel.receiver = pc) : ledger.Receives pc :=
  hpc ▸ h.receives

theorem Agrees.slot_at {pc : ReceiverPc} (h : Agrees ledger channel)
    (hpc : channel.receiver = pc) (hpast : pc.pastDeferred = true) : channel.deferred = none :=
  h.slot (hpc ▸ hpast)

theorem held_at {pc : ReceiverPc} (hpc : channel.receiver = pc) :
    channel.held = pc.inHand ++ channel.deferred.toList ++ queued channel.queue := by
  rw [Channel.held, hpc]

/-- The receiver goes on with what its new place asks for, and gives up no control. -/
theorem Agrees.move {pc : ReceiverPc} {terminal : UInt8} {queue : List ControlMessage}
    {deferred taken : Option ServiceControl} {pending begun : List Bool}
    {seen : List ServiceControl} (h : Agrees ledger channel)
    (hterminal : terminal = terminalBits pending)
    (hreceives : Ledger.Receives { ledger with pending, begun, taken, seen } pc)
    (hslot : pc.pastDeferred = true → deferred = none)
    (hheld : channel.held = pc.inHand ++ deferred.toList ++ queued queue) :
    Agrees { ledger with pending, begun, taken, seen }
      { channel with terminal, queue, deferred, receiver := pc } := by
  refine { h with
    terminal := hterminal
    calls := fun thread => (h.calls thread).mono id rfl id id
    receives := hreceives
    slot := hslot
    accounts := ?_ }
  have haccounts := h.accounts
  rw [hheld] at haccounts
  exact haccounts

/-- A swap of the terminal bits that takes a stop. -/
theorem Agrees.take_stop {method : Method} {terminal : ServiceControl}
    {deferred : Option ServiceControl} (h : Agrees ledger channel)
    (htaken : some terminal = terminalOf channel.terminal)
    (hbegun : true ∈ ledger.begun → true ∈ ledger.pending)
    (hheld : channel.held = deferred.toList ++ queued channel.queue) :
    ledger.Allows (.receive (.swapped (some terminal))) ∧
      Agrees (ledger.noteReceive (.swapped (some terminal)))
        { channel with
          terminal := 0
          deferred
          receiver := .answer method (.ok terminal) } := by
  rw [h.terminal, terminalOf_terminalBits] at htaken
  refine ⟨htaken, h.move terminalBits_nil ?_ (fun hpast => by cases hpast) ?_⟩
  · exact .of_taken rfl fun hmem => asked_shutdown htaken (hbegun hmem)
  · rw [hheld, ReceiverPc.inHand, if_pos (asked_isTerminal htaken), List.nil_append]

/-- A swap of the terminal bits that finds none set. -/
theorem Agrees.find_no_stop {pc : ReceiverPc} (h : Agrees ledger channel)
    (htaken : none = terminalOf channel.terminal)
    (hreceives : ledger.pending = [] → ledger.Receives pc)
    (hslot : pc.pastDeferred = true → channel.deferred = none)
    (hhand : channel.receiver.inHand = pc.inHand) :
    ledger.Allows (.receive (.swapped none)) ∧
      Agrees (ledger.noteReceive (.swapped none))
        { channel with terminal := 0, receiver := pc } := by
  rw [h.terminal, terminalOf_terminalBits] at htaken
  have hpending := asked_eq_none htaken
  refine ⟨htaken, h.move ?_ (hreceives hpending) hslot ?_⟩
  · rw [hpending]
    exact terminalBits_nil
  · rw [Channel.held, hhand]

/-- A receive returns: an ordinary control that it returns leaves the receiver's hand. -/
theorem Agrees.returned {method : Method} {result : Except RecvError ServiceControl}
    (h : Agrees ledger channel) (hpc : channel.receiver = .answer method result) :
    Agrees (ledger.noteReceive (.returned method result)) { channel with receiver := .idle } := by
  have hheld := held_at hpc
  cases result with
  | error error => exact h.move h.terminal trivial (fun hpast => by cases hpast) hheld
  | ok control =>
      change Agrees (if control.isTerminal then ledger
        else { ledger with delivered := ledger.delivered ++ [control] }) _
      cases hcontrol : control.isTerminal with
      | true =>
          rw [ReceiverPc.inHand, if_pos hcontrol] at hheld
          exact h.move h.terminal trivial (fun hpast => by cases hpast) hheld
      | false =>
          have haccounts := h.accounts
          rw [hheld, ReceiverPc.inHand, hcontrol] at haccounts
          refine { h with
            calls := fun thread => (h.calls thread).mono id rfl id id
            receives := trivial
            slot := fun hpast => by cases hpast
            accounts := ?_ }
          simpa [Channel.held, ReceiverPc.inHand] using haccounts

/-- Every step of the receiver is allowed, and the ledger follows it. -/
theorem Agrees.receive {r : Receive} (h : Agrees ledger channel)
    (hstep : Received channel r channel') :
    ledger.Allows (.receive r) ∧ Agrees (ledger.noteReceive r) channel' := by
  cases hstep with
  | began method hpc =>
      have hheld := held_at hpc
      exact ⟨trivial, h.move h.terminal ⟨rfl, List.prefix_refl _⟩
        (fun hpast => by cases hpast) hheld⟩
  | readyTerminal method terminal hpc htaken =>
      have hready := h.receives_at hpc
      exact h.take_stop htaken (fun hmem => hready.2.subset hmem) (held_at hpc)
  | readyNone method hpc htaken =>
      have hready := h.receives_at hpc
      refine h.find_no_stop htaken (fun hpending => ?_) (fun hpast => by cases hpast) ?_
      · exact ⟨hready.1, List.prefix_nil.mp (hpending ▸ hready.2)⟩
      · rw [hpc]
        rfl
  | deliverTerminal method control terminal hpc htaken =>
      have hdeliver := h.receives_at hpc
      refine h.take_stop htaken (fun hmem => ?_) ?_
      · rw [hdeliver.2] at hmem
        cases hmem
      · rw [held_at hpc, h.slot_at hpc rfl]
        rfl
  | deliverNone method control hpc htaken =>
      have hdeliver := h.receives_at hpc
      have hcontrol : control.isTerminal = false :=
        h.held_isTerminal (by simp [held_at hpc, ReceiverPc.inHand])
      refine h.find_no_stop htaken (fun _ => .of_ordinary hdeliver.2 hdeliver.1)
        (fun hpast => by cases hpast) ?_
      rw [hpc]
      simp [ReceiverPc.inHand, hcontrol]
  | failingTerminal method error terminal hpc htaken =>
      have hfailing := h.receives_at hpc
      refine h.take_stop htaken (fun hmem => ?_) (held_at hpc)
      rw [hfailing.2.1] at hmem
      cases hmem
  | failingNone method error hpc htaken =>
      have hfailing := h.receives_at hpc
      refine h.find_no_stop htaken
        (fun _ => .of_error hfailing.2.1 hfailing.1 hfailing.2.2)
        (fun hpast => by cases hpast) ?_
      rw [hpc]
      rfl
  | tookDeferred method control hpc hdeferred =>
      have hbefore := h.receives_at hpc
      have hcontrol : control.isTerminal = false :=
        h.held_isTerminal (by simp [Channel.held, hdeferred])
      refine ⟨trivial, h.move h.terminal (.of_ordinary hbefore.2 hbefore.1)
        (fun hpast => by cases hpast) ?_⟩
      rw [held_at hpc, hdeferred]
      simp [ReceiverPc.inHand, hcontrol]
  | noDeferred method hpc hdeferred =>
      have hbefore := h.receives_at hpc
      have hheld := held_at hpc
      exact ⟨trivial, h.move h.terminal hbefore (fun _ => hdeferred) hheld⟩
  | poppedOrdinary method control queue hpc hqueue =>
      have hbefore := h.receives_at hpc
      have hslot := h.slot_at hpc rfl
      refine ⟨trivial, h.move h.terminal hbefore (fun _ => hslot) ?_⟩
      rw [held_at hpc, hslot, hqueue]
      rfl
  | poppedWake method queue hpc hqueue =>
      have hbefore := h.receives_at hpc
      refine ⟨trivial, h.move h.terminal ⟨hbefore.1, ?_⟩ (fun hpast => by cases hpast) ?_⟩
      · change ledger.begun <+: ledger.pending
        rw [hbefore.2]
        exact List.nil_prefix
      · rw [held_at hpc, hqueue]
        rfl
  | emptied method error hpc hqueue =>
      have hbefore := h.receives_at hpc
      have hheld := held_at hpc
      have hslot := h.slot_at hpc rfl
      have hdelivered : ledger.accepted = ledger.delivered := by
        rw [h.accounts, hheld, hslot, hqueue]
        exact List.append_nil _
      exact ⟨hdelivered, h.move h.terminal ⟨hbefore.1, hbefore.2, hdelivered.symm⟩
        (fun _ => hslot) hheld⟩
  | returned method result hpc => exact ⟨h.receives_at hpc, h.returned hpc⟩
  | closing hpc =>
      have haccounts := h.accounts
      rw [held_at hpc] at haccounts
      exact ⟨trivial, { h with
        alive := fun _ => rfl
        calls := fun thread => (h.calls thread).mono id rfl id fun _ => rfl
        receives := rfl
        slot := fun hpast => by cases hpast
        accounts := haccounts }⟩
  | dropped hpc =>
      have hclosed := h.receives_at hpc
      have hheld := held_at hpc
      exact ⟨trivial, h.move h.terminal hclosed (fun hpast => by cases hpast) hheld⟩

/-! ## A step of the handler -/

theorem Agrees.claimed_of_committed (h : Agrees ledger channel)
    (hdecision : channel.decision &&& terminalCommitted ≠ 0) : ledger.claims ≠ [] := by
  intro hclaims
  rw [h.decision, hclaims] at hdecision
  exact hdecision ((decisionBits_committed _ _).mpr rfl)

theorem Agrees.unclaimed (h : Agrees ledger channel)
    (hdecision : channel.decision &&& terminalCommitted = 0) : ledger.claims = [] := by
  rw [h.decision, decisionBits_committed, Bool.not_eq_false', List.isEmpty_iff] at hdecision
  exact hdecision

/-- The code with which the queue refuses a message. -/
theorem refusal_eq_some {control : ServiceControl} {code : UInt32}
    (h : refusal channel (messageOf control) = some code) (hterminal : control.isTerminal = true) :
    (code = errorServiceNotActive ∧ channel.receiver = .dropped) ∨ code = 0 := by
  unfold refusal at h
  rw [messageOf, if_pos hterminal] at h
  split at h
  · rename_i hdropped
    cases h
    exact .inl ⟨rfl, hdropped⟩
  · split at h
    · cases h
    · cases h
      exact .inr rfl

theorem Ledger.Receives.mono {pc : ReceiverPc} (h : ledger.Receives pc)
    (hbegun : ledger'.begun = ledger.begun) (htaken : ledger'.taken = ledger.taken)
    (hpending : ledger.pending <+: ledger'.pending)
    (hdelivered : ledger'.delivered = ledger.delivered) (hseen : ledger'.seen = ledger.seen)
    (hclosed : ledger'.closed = ledger.closed) : ledger'.Receives pc := by
  cases pc with
  | ready method => exact ⟨htaken.trans h.1, hbegun ▸ h.2.trans hpending⟩
  | deferred method => exact ⟨htaken.trans h.1, hbegun.trans h.2⟩
  | receive method => exact ⟨htaken.trans h.1, hbegun.trans h.2⟩
  | deliver method control => exact ⟨htaken.trans h.1, hbegun.trans h.2⟩
  | failing method error =>
      exact ⟨htaken.trans h.1, hbegun.trans h.2.1, hdelivered.trans (h.2.2.trans hseen.symm)⟩
  | answer method result =>
      obtain ⟨hfirst, hreturned, hdrained⟩ := h
      refine ⟨?_, ?_, ?_⟩
      · rw [hbegun, htaken]
        exact hfirst
      · rw [htaken]
        exact hreturned
      · rw [hdelivered, hseen]
        exact hdrained
  | dropping => exact hclosed.trans h
  | dropped => exact hclosed.trans h
  | idle => trivial

/-- What a call knows where it stands. -/
theorem Agrees.calls_at {pc : SenderPc} (h : Agrees ledger channel)
    (hpc : channel.senders thread = pc) : ledger.Calls thread pc :=
  hpc ▸ h.calls thread

/-- A call that found the receiver gone, or the decision claimed, is refused. -/
theorem Ledger.Calls.not_active {control : ServiceControl}
    (h : ledger.claims ≠ [] ∨ ledger.closed = true) :
    ledger.Calls thread (.answer control errorServiceNotActive) :=
  fun _ => ⟨fun hcode => absurd hcode (by decide), fun _ => h⟩

variable [DecidableEq ι]

/-- A call that goes on leaves the others where they are. -/
theorem calls_goto {pc : SenderPc} (hcalls : ∀ thread, ledger.Calls thread (channel.senders thread))
    (hself : ledger'.Calls thread pc)
    (hothers : ∀ other, other ≠ thread → ledger.Calls other (channel.senders other) →
      ledger'.Calls other (channel.senders other)) :
    ∀ other, ledger'.Calls other (Function.update channel.senders thread pc other) := by
  intro other
  by_cases hother : other = thread
  · rw [hother, Function.update_self]
    exact hself
  · rw [Function.update_of_ne hother]
    exact hothers other hother (hcalls other)

/-- A call that goes on and leaves the ledger as it is. -/
theorem Agrees.go_on {pc : SenderPc} (h : Agrees ledger channel) (hself : ledger.Calls thread pc) :
    Agrees ledger (goto channel thread pc) :=
  { h with calls := calls_goto h.calls hself fun _ _ hbefore => hbefore }

/-- A call begins: its bit is not yet set. -/
theorem Agrees.begin_call {control : ServiceControl} {pc : SenderPc} (h : Agrees ledger channel)
    (hself : (ledger.noteDispatch thread (.called control)).Calls thread pc) :
    Agrees (ledger.noteDispatch thread (.called control)) (goto channel thread pc) :=
  { h with
    calls := calls_goto h.calls hself
      fun _ hother hbefore => hbefore.mono id (Function.update_of_ne hother ..) id id
    receives := h.receives.mono rfl rfl (List.prefix_refl _) rfl rfl rfl }

/-- A stop or a shutdown wins the decision. -/
theorem Agrees.win {control : ServiceControl} (h : Agrees ledger channel)
    (hterminal : control.isTerminal = true)
    (hdecision : channel.decision &&& terminalCommitted = 0) :
    Agrees (ledger.noteDispatch thread (.updated true))
      { goto channel thread (.fetchOr control) with
        decision := channel.decision ||| stopRequested } := by
  have hunclaimed := h.unclaimed hdecision
  refine { h with
    decision := ?_
    claims := ?_
    acknowledged := fun _ => rfl
    calls := calls_goto h.calls ⟨hterminal, rfl⟩
      fun _ _ hbefore => hbefore.mono (fun _ => rfl) rfl id id
    receives := h.receives.mono rfl rfl (List.prefix_refl _) rfl rfl rfl }
  · change channel.decision ||| stopRequested = decisionBits true (!ledger.claims.isEmpty)
    rw [h.decision, decisionBits_or_requested]
  · change ∀ result ∈ ledger.claims, result = true
    simp [hunclaimed]

/-- A call sets its terminal bit. -/
theorem Agrees.post {control : ServiceControl} (h : Agrees ledger channel)
    (hrequested : ledger.requested = true) :
    Agrees (ledger.noteDispatch thread (.posted (decide (control = .shutdown))))
      { goto channel thread (.trySend control) with
        terminal := channel.terminal ||| if control = .shutdown then 2 else 1 } := by
  refine { h with
    terminal := ?_
    calls := calls_goto h.calls
      (fun _ => ⟨hrequested, Function.update_self ..⟩)
      fun other hother hbefore => hbefore.mono id (Function.update_of_ne hother ..) id id
    receives := h.receives.mono rfl rfl (List.prefix_append ..) rfl rfl rfl }
  change channel.terminal ||| _ =
    terminalBits (ledger.pending ++ [decide (control = .shutdown)])
  rw [h.terminal]
  have hpost := terminalBits_post ledger.pending (decide (control = .shutdown))
  simpa using hpost

/-- The queue takes the message that wakes the receiver. -/
theorem Agrees.enqueue_wake {control : ServiceControl} (h : Agrees ledger channel)
    (hself : ledger.Calls thread (.answer control 0)) :
    Agrees ledger
      { goto channel thread (.answer control 0) with queue := channel.queue ++ [.wake] } := by
  refine { h.go_on hself with accounts := ?_ }
  change ledger.accepted = ledger.delivered ++
    (channel.receiver.inHand ++ channel.deferred.toList ++ queued (channel.queue ++ [.wake]))
  rw [queued_append, h.accounts, Channel.held]
  simp [queued]

/-- The queue takes an ordinary control. -/
theorem Agrees.enqueue_ordinary {control : ServiceControl} (h : Agrees ledger channel)
    (hordinary : control.isTerminal = false) :
    Agrees (ledger.noteDispatch thread (.sent (.ordinary control) true))
      { goto channel thread (.answer control 0) with
        queue := channel.queue ++ [.ordinary control] } := by
  refine { h with
    calls := calls_goto h.calls (fun htrue => ?_)
      fun _ _ hbefore => hbefore.mono id rfl id id
    receives := h.receives.mono rfl rfl (List.prefix_refl _) rfl rfl rfl
    accounts := ?_
    ordinary := ?_ }
  · rw [hordinary] at htrue
    cases htrue
  · change ledger.accepted ++ [control] = ledger.delivered ++ (channel.receiver.inHand ++
      channel.deferred.toList ++ queued (channel.queue ++ [.ordinary control]))
    rw [queued_append, h.accounts, Channel.held]
    simp [queued]
  · change ∀ other ∈ ledger.accepted ++ [control], other.isTerminal = false
    intro other hother
    rcases List.mem_append.mp hother with hother | hother
    · exact h.ordinary other hother
    · rw [List.mem_singleton.mp hother]
      exact hordinary

/-- A call returns its code to the service control manager. -/
theorem Agrees.answer {control : ServiceControl} {code : UInt32} (h : Agrees ledger channel)
    (hself : ledger.Calls thread (.answer control code)) :
    ledger.Allows (.dispatch thread (.answered control code)) ∧
      Agrees (ledger.noteDispatch thread (.answered control code))
        (goto channel thread .idle) := by
  refine ⟨fun hterminal => ?_, { h with
    acknowledged := ?_
    calls := calls_goto h.calls trivial fun _ _ hbefore => hbefore.mono id rfl id id
    receives := h.receives.mono rfl rfl (List.prefix_refl _) rfl rfl rfl }⟩
  · unfold Ledger.Replies
    split
    · rename_i hcode
      obtain ⟨hrequested, hposted⟩ := (hself hterminal).1 hcode
      exact ⟨h.not_mem_claims hrequested, hposted⟩
    · rename_i hcode
      exact (hself hterminal).2 hcode
  · intro hacknowledged
    rcases Bool.or_eq_true_iff.mp hacknowledged with hbefore | hnow
    · exact h.acknowledged hbefore
    · obtain ⟨hterminal, hcode⟩ := Bool.and_eq_true_iff.mp hnow
      exact ((hself hterminal).1 (beq_iff_eq.mp hcode)).1

/-- Every step of the handler is allowed, and the ledger follows it. -/
theorem Agrees.dispatch {d : Dispatch} (h : Agrees ledger channel)
    (hstep : Dispatched channel thread d channel') :
    ledger.Allows (.dispatch thread d) ∧ Agrees (ledger.noteDispatch thread d) channel' := by
  cases hstep with
  | interrogate hpc => exact ⟨trivial, h.begin_call fun hterminal => by cases hterminal⟩
  | called control hpc => exact ⟨trivial, h.begin_call trivial⟩
  | alive control hpc => exact ⟨trivial, h.go_on trivial⟩
  | notAlive control hpc halive =>
      exact ⟨trivial, h.go_on (.not_active (.inr (h.alive halive)))⟩
  | committed control hpc hdecision =>
      exact ⟨trivial, h.go_on (.not_active (.inl (h.claimed_of_committed hdecision)))⟩
  | terminal control hpc hterminal => exact ⟨trivial, h.go_on hterminal⟩
  | ordinary control hpc hordinary =>
      refine ⟨trivial, h.go_on fun hterminal => ?_⟩
      rw [hordinary] at hterminal
      cases hterminal
  | won control hpc hdecision => exact ⟨trivial, h.win (h.calls_at hpc) hdecision⟩
  | lost control hpc hdecision =>
      exact ⟨trivial, h.go_on (.not_active (.inl (h.claimed_of_committed hdecision)))⟩
  | posted control hpc => exact ⟨trivial, h.post (h.calls_at hpc).2⟩
  | accepted control hpc =>
      have hself := h.calls_at hpc
      cases hterminal : control.isTerminal with
      | true =>
          rw [messageOf, if_pos hterminal]
          refine ⟨trivial, h.enqueue_wake fun _ => ⟨fun _ => hself hterminal, ?_⟩⟩
          exact fun hcode => absurd rfl hcode
      | false =>
          rw [messageOf, if_neg (Bool.eq_false_iff.mp hterminal)]
          exact ⟨trivial, h.enqueue_ordinary hterminal⟩
  | refused control code hpc hrefusal =>
      have hself := h.calls_at hpc
      have hledger : ledger.noteDispatch thread (.sent (messageOf control) false) = ledger := by
        cases messageOf control <;> rfl
      rw [hledger]
      refine ⟨trivial, h.go_on fun hterminal => ?_⟩
      rcases refusal_eq_some hrefusal hterminal with ⟨rfl, hdropped⟩ | rfl
      · exact Ledger.Calls.not_active (.inr (h.receives_at hdropped)) hterminal
      · exact ⟨fun _ => hself hterminal, fun hcode => absurd rfl hcode⟩
  | answered control code hpc => exact h.answer (h.calls_at hpc)

/-! ## Every run -/

theorem Agrees.claim {result : Bool} (h : Agrees ledger channel)
    (hresult : result = decide (channel.decision &&& stopRequested ≠ 0)) :
    ledger.Allows (.claimed result) ∧
      Agrees (ledger.note (.claimed result))
        { channel with decision := channel.decision ||| terminalCommitted } := by
  rw [h.decision, decisionBits_requested] at hresult
  refine ⟨?_, { h with
    decision := ?_
    claims := ?_
    calls := fun thread => (h.calls thread).mono id rfl
      (fun _ => List.append_ne_nil_of_right_ne_nil _ (List.cons_ne_nil _ _)) id
    receives := h.receives.mono rfl rfl (List.prefix_refl _) rfl rfl rfl }⟩
  · cases result with
    | true => exact h.not_mem_claims hresult.symm
    | false =>
        refine ⟨fun htrue => ?_, Bool.eq_false_iff.mpr fun hacknowledged => ?_⟩
        · have hrequested := h.claims true htrue
          rw [← hresult] at hrequested
          cases hrequested
        · have hrequested := h.acknowledged hacknowledged
          rw [← hresult] at hrequested
          cases hrequested
  · change channel.decision ||| terminalCommitted =
      decisionBits ledger.requested (!(ledger.claims ++ [result]).isEmpty)
    rw [h.decision, decisionBits_or_committed]
    cases ledger.claims <;> rfl
  · change ∀ other ∈ ledger.claims ++ [result], other = ledger.requested
    intro other hother
    rcases List.mem_append.mp hother with hother | hother
    · exact h.claims other hother
    · rw [List.mem_singleton.mp hother, hresult]

/-- Every step of the channel is allowed, and the ledger follows it. -/
theorem Agrees.step {e : Event ι} (h : Agrees ledger channel)
    (hstep : step channel e = some channel') :
    ledger.Allows e ∧ Agrees (ledger.note e) channel' := by
  cases e with
  | dispatch thread d => exact h.dispatch (dispatchStep_cases hstep)
  | receive r => exact h.receive (receiveStep_cases hstep)
  | claimed result =>
      simp only [ControlChannel.step] at hstep
      split at hstep
      · cases hstep
      · split at hstep
        · rename_i hresult
          cases hstep
          exact h.claim hresult
        · cases hstep

end

variable [DecidableEq ι]

/-- What a run of the channel guarantees: each step was allowed by the ledger before it, the
ordinary controls are delivered in the order in which the queue took them, and a control is
deferred only into an empty slot. -/
structure Guaranteed (events : List (Event ι)) (channel : Channel ι) : Prop where
  allowed : EachEvent (fun before e => (ledgerOf before).Allows e) events
  inOrder : (ledgerOf events).delivered <+: (ledgerOf events).accepted
  slot : ∀ method control, channel.receiver = .deliver method control → channel.deferred = none

/-- Every interleaving of the handler, the receives and the claims keeps the contract. -/
theorem guaranteed_of_run {events : List (Event ι)} {channel : Channel ι}
    (hrun : Runs.run step controlChannel events = some channel) : Guaranteed events channel := by
  have hboth : EachEvent (fun before e => (ledgerOf before).Allows e) events ∧
      Agrees (ledgerOf events) channel := by
    refine Runs.run_history (fun past mid =>
      EachEvent (fun before e => (ledgerOf before).Allows e) past ∧ Agrees (ledgerOf past) mid)
      ⟨.nil, agrees_start⟩ ?_ hrun
    rintro past mid e next ⟨hpast, hagrees⟩ hstep
    obtain ⟨hallowed, hnext⟩ := hagrees.step hstep
    refine ⟨hpast.concat hallowed, ?_⟩
    unfold ledgerOf at hnext ⊢
    rw [List.foldl_append]
    exact hnext
  obtain ⟨hallowed, hagrees⟩ := hboth
  refine ⟨hallowed, ?_, fun method control hpc => hagrees.slot ?_⟩
  · rw [hagrees.accounts]
    exact List.prefix_append _ _
  · rw [hpc]
    rfl

/-- A shutdown overtakes a control that was queued before it. -/
def overtaken : List (Event Bool) :=
  [.dispatch false (.called .pause), .dispatch false .loadedAlive,
    .dispatch false .loadedDecision, .dispatch false (.sent (.ordinary .pause) true),
    .dispatch true (.called .shutdown), .dispatch true .loadedAlive,
    .dispatch true .loadedDecision, .dispatch true (.updated true),
    .dispatch true (.posted true), .receive (.began .tryRecv),
    .receive (.swapped (some .shutdown)), .dispatch true (.sent .wake true),
    .receive (.returned .tryRecv (.ok .shutdown)), .dispatch true (.answered .shutdown 0),
    .claimed true]

theorem guaranteed_overtaken :
    Guaranteed overtaken ((Runs.run step controlChannel overtaken).get (by decide)) :=
  guaranteed_of_run (Option.some_get _).symm

end Ngsm.Win32.ControlChannel
