/-
# Every request is answered

A pause or continue request waits in the queue until the supervisor serves it, or
until the final drain rejects it.  Along the run every request is answered or still
queued.  The final drain takes 1024 messages at most and ends when it finds the queue
empty, so what matters is where the last requests stand: `Answerable` says that the
drain gets to each of them, and then none is left without an answer.
-/

import Ngsm.Supervisor.Lasting

namespace Ngsm.Supervisor

open Ngsm.Core Ngsm.Lib Ngsm.Lib.Prog

variable {s : Sup} {apart : Option Nat} {id : Nat}

/-! ## Answered or queued -/

def Answered (request : Request) : Prop :=
  ∃ outcome, request.phase = .finished outcome

/-- The request is in the queue, untouched. -/
def Queued (id : Nat) (request : Request) (s : Sup) : Prop :=
  request.phase = .queued ∧ ∃ message ∈ s.queue, message.request = some id

/-- Every request is answered or queued, apart from one that is being answered. -/
def AwaitedBut (apart : Option Nat) (s : Sup) : Prop :=
  ∀ id request, s.requests[id]? = some request → some id ≠ apart →
    Answered request ∨ Queued id request s

/-- The request that was taken from the queue is not being executed yet. -/
def Fresh (apart : Option Nat) (s : Sup) : Prop :=
  ∀ id request, s.requests[id]? = some request → some id = apart → request.phase ≠ .executing

theorem AwaitedBut.of_queue {s' : Sup} (h : AwaitedBut apart s)
    (hrequests : s'.requests = s.requests) (hqueue : s.queue ⊆ s'.queue) :
    AwaitedBut apart s' := by
  intro id request hrequest hapart
  rw [hrequests] at hrequest
  refine (h id request hrequest hapart).imp_right ?_
  rintro ⟨hphase, message, hin, hmessage⟩
  exact ⟨hphase, message, hqueue hin, hmessage⟩

theorem getElem?_append_singleton {α : Type} {xs : List α} {x y : α} {i : Nat}
    (h : (xs ++ [x])[i]? = some y) : xs[i]? = some y ∨ (i = xs.length ∧ y = x) := by
  rw [List.getElem?_append] at h
  split at h
  · exact .inl h
  · rename_i hge
    rw [List.getElem?_singleton] at h
    split at h
    · exact .inr ⟨by omega, (Option.some.inj h).symm⟩
    · cases h

theorem AwaitedBut.request (h : AwaitedBut apart s) (pause : Bool) :
    AwaitedBut apart (s.request pause) := by
  unfold Sup.request
  split
  · intro id request hrequest hapart
    rcases getElem?_append_singleton hrequest with hold | ⟨rfl, rfl⟩
    · refine (h id request hold hapart).imp_right ?_
      rintro ⟨hphase, message, hin, hmessage⟩
      exact ⟨hphase, message, List.mem_append_left _ hin, hmessage⟩
    · refine .inr ⟨rfl, _, List.mem_append_right _ (List.mem_singleton_self _), ?_⟩
      cases pause <;> rfl
  · intro id request hrequest hapart
    rcases getElem?_append_singleton hrequest with hold | ⟨rfl, rfl⟩
    · exact h id request hold hapart
    · exact .inl ⟨_, rfl⟩

theorem getElem?_modify_eq {α : Type} {xs : List α} {f : α → α} {i j : Nat} {y : α}
    (h : (xs.modify i f)[j]? = some y) : ∃ x, xs[j]? = some x ∧ y = if i = j then f x else x := by
  rw [List.getElem?_modify] at h
  obtain ⟨x, hx, rfl⟩ := Option.map_eq_some_iff.mp h
  refine ⟨x, hx, ?_⟩
  split <;> rfl

theorem AwaitedBut.cancel (h : AwaitedBut apart s) (request : Nat) :
    AwaitedBut apart (s.cancelRequest request) := by
  intro id r hr hapart
  obtain ⟨old, hold, rfl⟩ := getElem?_modify_eq hr
  split
  · rcases h id old hold hapart with ⟨outcome, hphase⟩ | ⟨hphase, -⟩
    · exact .inl ⟨outcome, by simp [hphase]⟩
    · exact .inl ⟨.cancelled, by simp [hphase]⟩
  · exact h id old hold hapart

theorem yielding_awaited (apart : Option Nat) : Yielding (AwaitedBut apart) where
  turn _ h := h
  plant _ _ _ h := h
  stop s h := by
    unfold Sup.setStop
    split
    · exact h
    · exact h
  send _ _ _ h := h.of_queue rfl (List.subset_append_left _ _)
  request _ pause h := h.request pause
  cancel _ request h := h.cancel request
  exit _ _ _ h := h
  terminal _ _ h := h
  hook _ _ _ h := h

theorem steady_awaited (apart : Option Nat) : Steady (AwaitedBut apart) :=
  (yielding_awaited apart).steady

theorem steady_fresh (apart : Option Nat) : Steady (Fresh apart) :=
  Yielding.steady {
    turn _ h := h
    plant _ _ _ h := h
    stop s h := by
      unfold Sup.setStop
      split
      · exact h
      · exact h
    send _ _ _ h := h
    request s pause h := by
      unfold Sup.request
      split
      · intro id request hrequest hapart
        rcases getElem?_append_singleton hrequest with hold | ⟨-, rfl⟩
        · exact h id request hold hapart
        · nofun
      · intro id request hrequest hapart
        rcases getElem?_append_singleton hrequest with hold | ⟨-, rfl⟩
        · exact h id request hold hapart
        · nofun
    cancel s request h := by
      intro id r hr hapart
      obtain ⟨old, hold, rfl⟩ := getElem?_modify_eq hr
      have hphase := h id old hold hapart
      split
      · simp only
        split
        · nofun
        · exact hphase
      · exact hphase
    exit _ _ _ h := h
    terminal _ _ h := h
    hook _ _ _ h := h }

theorem lasting_awaited : Lasting (AwaitedBut none) where
  toSteady := steady_awaited none
  kept _ _ _ h := h
  applied _ _ h := h
  trouble _ _ _ h := h
  own _ _ _ _ _ _ h := h
  record _ _ _ h := h
  released _ _ _ h := h

theorem tolerant_awaited (apart : Option Nat) : Tolerant (AwaitedBut apart) where
  toSteady := steady_awaited apart
  kept _ _ _ h := h
  applied _ _ h := h
  trouble _ _ _ h := h

/-! ## Answering one request -/

/-- A message leaves the queue, and its request with it. -/
theorem AwaitedBut.pop {message : SupervisorMessage} {rest : List SupervisorMessage}
    (h : AwaitedBut none s) (hqueue : s.queue = message :: rest) :
    AwaitedBut message.request { s with queue := rest } ∧
      Fresh message.request { s with queue := rest } := by
  constructor
  · intro id request hrequest hapart
    refine (h id request hrequest nofun).imp_right ?_
    rintro ⟨hphase, other, hin, hother⟩
    rw [hqueue, List.mem_cons] at hin
    rcases hin with rfl | hin
    · exact absurd hother.symm hapart
    · exact ⟨hphase, other, hin, hother⟩
  · intro id request hrequest hapart
    rcases h id request hrequest nofun with ⟨outcome, hphase⟩ | ⟨hphase, -⟩
    · rw [hphase]
      nofun
    · rw [hphase]
      nofun

theorem AwaitedBut.setPhase (h : AwaitedBut (some id) s) (phase : Transition.Phase) :
    AwaitedBut (some id) (s.setPhase id phase) := by
  intro other request hrequest hapart
  obtain ⟨old, hold, rfl⟩ := getElem?_modify_eq hrequest
  split
  · rename_i heq
    exact absurd (congrArg some heq.symm) hapart
  · exact h other old hold hapart

/-- Once the request is answered, none is apart. -/
theorem AwaitedBut.answer (h : AwaitedBut (some id) s)
    (hanswer : ∀ request, s.requests[id]? = some request → Answered request) :
    AwaitedBut none s := by
  intro other request hrequest _
  by_cases heq : other = id
  · subst heq
    exact .inl (hanswer request hrequest)
  · exact h other request hrequest fun hsome => heq (Option.some.inj hsome)

theorem wp_execute {operation : SupM TransitionOutcome}
    (hoperation : Keeps (AwaitedBut (some id)) (fun _ => False) operation)
    (hs : AwaitedBut (some id) s ∧ Fresh (some id) s) {R : Halt → Sup → Prop} :
    (execute id operation).wp (fun _ => AwaitedBut none) R s := by
  unfold execute
  rw [Prog.wp_bind]
  refine (keeps_turn ((steady_awaited _).and (steady_fresh _))).returns hs fun _ s₁ hs₁ => ?_
  rw [Prog.wp_bind, Prog.wp_get]
  have hrun : (do
      modify (Sup.setPhase id .executing)
      let outcome ← operation
      modify (Sup.setPhase id (.finished outcome))
      return outcome : SupM TransitionOutcome).wp (fun _ => AwaitedBut none) R s₁ := by
    rw [Prog.wp_bind, Prog.wp_modify, Prog.wp_bind]
    refine hoperation.returns (hs₁.1.setPhase .executing) fun outcome s₂ hs₂ => ?_
    rw [Prog.wp_bind, Prog.wp_modify]
    refine (hs₂.setPhase (.finished outcome)).answer fun request hrequest => ?_
    obtain ⟨old, -, rfl⟩ := getElem?_modify_eq hrequest
    rw [if_pos rfl]
    exact ⟨outcome, rfl⟩
  have hphase : ∀ phase, s₁.phase id = some phase →
      ∃ request, s₁.requests[id]? = some request ∧ request.phase = phase :=
    fun _ h => Option.map_eq_some_iff.mp h
  split
  · rename_i hexecuting
    obtain ⟨request, hrequest, hexecuting⟩ := hphase _ hexecuting
    exact absurd hexecuting (hs₁.2 id request hrequest rfl)
  · rename_i outcome hfinished
    obtain ⟨request, hrequest, hfinished⟩ := hphase _ hfinished
    refine hs₁.1.answer fun other hother => ?_
    rw [hrequest] at hother
    cases hother
    exact ⟨outcome, hfinished⟩
  · exact hrun

/-! ## Serving the queue -/

theorem wp_cancelPopped (hs : AwaitedBut (some id) s ∧ Fresh (some id) s) :
    AwaitedBut none (s.cancelRequest id) := by
  refine (hs.1.cancel id).answer fun request hrequest => ?_
  obtain ⟨old, hold, rfl⟩ := getElem?_modify_eq hrequest
  rw [if_pos rfl]
  have hfresh := hs.2 id old hold rfl
  cases hphase : old.phase with
  | queued => exact ⟨.cancelled, by simp⟩
  | executing => exact absurd hphase hfresh
  | finished outcome => exact ⟨outcome, by simp⟩

theorem wp_changePause (pause : Bool) (hs : AwaitedBut (some id) s ∧ Fresh (some id) s) :
    (changePause pause id).wp (fun _ => AwaitedBut none)
      (fun e s' => Failed e ∧ AwaitedBut none s') s := by
  unfold changePause
  rw [Prog.wp_bind]
  refine Prog.wp_mono _ (fun outcome s₁ hs₁ => ?_) (fun _ _ h => h)
    (wp_execute (keeps_applyPause (tolerant_awaited _) pause id) hs)
  exact keeps_failDegraded outcome s₁ hs₁

theorem serves_awaited : Serves (AwaitedBut none) (AwaitedBut none) := by
  intro s message rest hs hqueue
  have hsteady := (steady_awaited (message.request)).and (steady_fresh message.request)
  have hpop := hsteady.taken (hs.pop hqueue)
  rw [wp_handleControl]
  refine wp_noting (D := AwaitedBut none) ?_ fun _ _ h => h
  unfold dispatch
  rw [Prog.wp_bind]
  refine (keeps_stopping hsteady).returns hpop fun stop s₁ hs₁ => ?_
  cases hrequest : message.request with
  | none =>
      rw [hrequest] at hs₁
      rw [Prog.wp_ite]
      split
      · exact hs₁.1
      · exact keeps_handlePlain (steady_awaited none) hrequest s₁ hs₁.1
  | some id =>
      rw [hrequest] at hs₁
      rw [Prog.wp_ite]
      split
      · exact wp_cancelPopped hs₁
      · cases message with
        | pause request =>
            cases hrequest
            exact wp_changePause true hs₁
        | «continue» request =>
            cases hrequest
            exact wp_changePause false hs₁
        | _ => cases hrequest

/-! ## The final drain -/

/-- The drain gets to every request: no request stands behind so many messages that the
drain ends before it, neither when it begins nor when the request is sent. -/
structure Answerable (trace : List Event) : Prop where
  drained : ∀ queue, .draining queue ∈ trace → ∀ message ∈ queue.drop drainLimit,
    message.request = none
  requested : ∀ ahead left, .requested ahead (some left) ∈ trace → ahead < left

theorem Answerable.of_append {trace : List Event} {event : Event}
    (h : Answerable (trace ++ [event])) : Answerable trace where
  drained queue hin := h.drained queue (List.mem_append_left _ hin)
  requested ahead left hin := h.requested ahead left (List.mem_append_left _ hin)

/-- With so many receives left, the drain gets to the requests that are queued. -/
def Reached (left : Nat) (s : Sup) : Prop :=
  s.draining = some left ∧
    (Answerable s.trace → ∀ message ∈ s.queue.drop left, message.request = none)

theorem Reached.emit {left : Nat} (h : Reached left s) (event : Event) :
    Reached left (s.emit event) :=
  ⟨h.1, fun hanswerable => h.2 hanswerable.of_append⟩

theorem governed_reached (left : Nat) : Governed (Reached left) where
  toSteady := Yielding.steady {
    turn _ h := h
    plant _ _ _ h := h
    stop s h := by
      unfold Sup.setStop
      split
      · exact h
      · exact h.emit _
    send s message hmessage h := by
      refine ⟨h.1, fun hanswerable other hother => ?_⟩
      rw [List.drop_append, List.mem_append] at hother
      rcases hother with hold | hnew
      · exact h.2 hanswerable other hold
      · rw [List.mem_singleton.mp (List.mem_of_mem_drop hnew)]
        exact hmessage
    request s pause h := by
      unfold Sup.request
      split
      · refine ⟨h.1, fun hanswerable other hother => ?_⟩
        have hahead : s.queue.length < left := by
          refine hanswerable.requested _ _ (List.mem_append_right _ ?_)
          rw [h.1]
          exact List.mem_singleton_self _
        have hlength : (s.queue ++ [if pause then SupervisorMessage.pause s.requests.length
            else .continue s.requests.length]).length ≤ left := by
          rw [List.length_append]
          exact hahead
        rw [List.drop_eq_nil_of_le hlength] at hother
        exact absurd hother List.not_mem_nil
      · exact h
    cancel _ _ h := h
    exit _ _ _ h := h
    terminal _ _ h := h
    hook _ _ _ h := h.emit _ }
  kept _ _ _ h := h
  applied _ _ h := ⟨h.1, fun hanswerable => h.2 hanswerable.of_append⟩
  trouble _ _ _ h := h.emit _
  phase _ _ _ h := h

/-- The state of the drain between two receives. -/
def Draining (left : Nat) (s : Sup) : Prop :=
  Reached left s ∧ AwaitedBut none s

theorem steady_draining (left : Nat) : Steady (Draining left) :=
  (governed_reached left).toSteady.and (steady_awaited none)

theorem wp_reject (left : Nat) (message : String) (hreached : Reached left s)
    (hs : AwaitedBut (some id) s ∧ Fresh (some id) s) {R : Halt → Sup → Prop} :
    (reject id message).wp (fun _ => Draining left) R s := by
  unfold reject
  rw [Prog.wp_bind]
  refine Prog.wp_mono _ (fun _ s₁ hs₁ => ⟨hs₁.2, hs₁.1⟩) (fun _ _ h => h.1)
    (Prog.wp_and _ (wp_execute (Keeps.pure _) hs)
      (keeps_execute (E := fun _ => True) (governed_reached left) id (Keeps.pure _) s hreached))

theorem wp_drain (receives : Nat) (hs : Draining receives s) {R : Halt → Sup → Prop} :
    (drain receives).wp (fun _ => Draining 0) R s := by
  induction receives generalizing s with
  | zero => exact hs
  | succ receives ih =>
      unfold drain
      rw [Prog.wp_bind]
      refine wp_tryRecv (steady_draining (receives + 1)) (n := 0) hs (Nat.zero_le _)
        (fun s₁ hs₁ _ hempty => ?_) fun s₁ message rest hs₁ _ hqueue => ?_
      · refine ⟨⟨rfl, fun _ other hother => ?_⟩, hs₁.2⟩
        change other ∈ s₁.queue.drop 0 at hother
        rw [hempty] at hother
        exact absurd hother List.not_mem_nil
      · have hpop := hs₁.2.pop hqueue
        have hreached : Reached receives { s₁ with queue := rest, draining := some receives } := by
          refine ⟨rfl, fun hanswerable other hother => ?_⟩
          refine hs₁.1.2 hanswerable other ?_
          rw [hqueue]
          exact hother
        simp only
        rw [Prog.wp_bind, Prog.wp_modify, Prog.wp_bind]
        cases hrequest : message.request with
        | none =>
            rw [hrequest] at hpop
            exact ih ⟨hreached, hpop.1⟩
        | some id =>
            rw [hrequest] at hpop
            change (reject id _ >>= fun _ => pure ()).wp _ _ _
            rw [Prog.wp_bind]
            exact Prog.wp_mono _ (fun _ s₂ hs₂ => ih hs₂) (fun _ _ h => h)
              (wp_reject receives _ hreached hpop)

theorem wp_finalDrain (hs : AwaitedBut none s) {R : Halt → Sup → Prop} :
    finalDrain.wp (fun _ => Draining 0) R s := by
  unfold finalDrain
  rw [Prog.wp_bind, Prog.wp_modify]
  apply wp_drain
  refine ⟨⟨rfl, fun hanswerable => ?_⟩, hs⟩
  exact hanswerable.drained s.queue (List.mem_append_right _ (List.mem_singleton_self _))

/-- When the receiver goes, nobody is left waiting. -/
theorem wp_dropReceiver (hs : Draining 0 s) {R : Halt → Sup → Prop} :
    dropReceiver.wp
      (fun _ s' => Answerable s'.trace → ∀ request ∈ s'.requests, Answered request) R s := by
  unfold dropReceiver
  rw [Prog.wp_bind]
  refine (keeps_turn (steady_draining 0)).returns hs fun _ s₁ hs₁ => ?_
  rw [Prog.wp_modify]
  intro hanswerable request hin
  obtain ⟨id, hrequest⟩ := List.mem_iff_getElem?.mp hin
  rcases hs₁.2 id request hrequest nofun with hanswered | ⟨-, message, hqueued, hmessage⟩
  · exact hanswered
  · rw [hs₁.1.2 hanswerable message hqueued] at hmessage
    cases hmessage

theorem wp_run_answers (rounds : Nat) (hs : AwaitedBut none s) :
    (run rounds).wp
      (fun _ s' => Answerable s'.trace → ∀ request ∈ s'.requests, Answered request)
      (fun e s' => e ≠ .unfinished → Answerable s'.trace → ∀ request ∈ s'.requests,
        Answered request) s := by
  have hgate := lasting_awaited.gate serves_awaited (fun _ h => h) fun _ _ h => h
  unfold run
  rw [Prog.wp_bind]
  refine Prog.wp_mono _ (fun result s₁ hs₁ => ?_) (fun e s' he hfinished => absurd he.1 hfinished)
    (hgate.wp_supervise rounds hs)
  rw [Prog.wp_bind]
  refine Prog.wp_mono _ (fun _ s₂ hs₂ => ?_) (fun _ _ h => h) (wp_finalDrain hs₁)
  cases result with
  | error error =>
      simp only
      rw [Prog.wp_bind]
      refine (keeps_reportThat (steady_draining 0) _ _).returns hs₂ fun _ s₃ hs₃ => ?_
      rw [Prog.wp_bind]
      exact Prog.wp_mono _ (fun _ _ h _ => h) (fun _ _ h => h) (wp_dropReceiver hs₃)
  | ok reason =>
      simp only
      rw [Prog.wp_bind]
      exact Prog.wp_mono _ (fun _ _ h => h) (fun _ _ h => h) (wp_dropReceiver hs₂)

/-! ## Every run -/

theorem start_awaited (config : ManagedApplicationConfig) (script : Nat → Turn) (gate : Bool)
    (before : List Move) : AwaitedBut none (Sup.start config script gate before) := by
  refine (yielding_awaited none).moves before fun id request hrequest _ => ?_
  cases hrequest

/-- In every run that returns and whose final drain gets to the requests, every
request that was made before the receiver is dropped has its answer. -/
theorem run_answers_requests (config : ManagedApplicationConfig) (script : Nat → Turn)
    (gate : Bool) (before : List Move) (rounds : Nat)
    (hreturned : ((run rounds).exec (Sup.start config script gate before)).1 ≠
      .error .unfinished)
    (hanswerable : Answerable ((run rounds).exec (Sup.start config script gate before)).2.trace) :
    ∀ request ∈ ((run rounds).exec (Sup.start config script gate before)).2.requests,
      Answered request := by
  have hanswers := wp_run_answers rounds (start_awaited config script gate before)
  rcases hrun : (run rounds).exec (Sup.start config script gate before) with ⟨outcome, s⟩
  rw [hrun] at hreturned hanswerable
  cases outcome with
  | ok reason => exact Prog.wp_ok _ hanswers hrun hanswerable
  | error e =>
      refine Prog.wp_error _ hanswers hrun (fun he => hreturned ?_) hanswerable
      rw [he]

/-- An event that leaves the drain able to get to every request. -/
def Event.reachable : Event → Bool
  | .draining queue => (queue.drop drainLimit).all (·.request.isNone)
  | .requested ahead (some left) => ahead < left
  | _ => true

theorem answerable_of_all {trace : List Event} (h : trace.all Event.reachable = true) :
    Answerable trace where
  drained queue hin message hmessage := by
    have hevent := List.all_eq_true.mp h _ hin
    have hnone := List.all_eq_true.mp hevent message hmessage
    simpa using hnone
  requested ahead left hin := by
    have hevent := List.all_eq_true.mp h _ hin
    simpa [Event.reachable] using hevent

/-- A pause is requested before the stop, and the drain rejects it. -/
theorem stoppedRun_answers :
    ((run 1).exec (Sup.start {} (fun _ => {}) false [.request true, .stop])).2.requests ≠ [] ∧
      ∀ request ∈
        ((run 1).exec (Sup.start {} (fun _ => {}) false [.request true, .stop])).2.requests,
        Answered request :=
  ⟨by decide +kernel, run_answers_requests {} _ false _ 1 (by decide +kernel)
    (answerable_of_all (by decide +kernel))⟩

/-- A pause is requested after the drain has found the queue empty. -/
def lateScript (turn : Nat) : Turn where
  moves := if turn = 11 then [.request true] else []

/-- Its holder waits for ever. -/
theorem lateRequest_unanswered :
    ¬∀ (config : ManagedApplicationConfig) (script : Nat → Turn) (gate : Bool)
      (before : List Move) (rounds : Nat),
      ((run rounds).exec (Sup.start config script gate before)).1 ≠ .error .unfinished →
      ∀ request ∈ ((run rounds).exec (Sup.start config script gate before)).2.requests,
        Answered request := by
  intro hall
  have hreturned : ((run 1).exec (Sup.start {} lateScript false [.stop])).1 ≠
      .error .unfinished := by
    decide +kernel
  have hqueued : ((run 1).exec (Sup.start {} lateScript false [.stop])).2.requests =
      [{ phase := .queued }] := by
    decide +kernel
  have hanswered := hall {} lateScript false [.stop] 1 hreturned
  rw [hqueued] at hanswered
  obtain ⟨outcome, hphase⟩ := hanswered _ (List.mem_singleton_self _)
  cases hphase

end Ngsm.Supervisor
