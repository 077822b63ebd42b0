/-
# Controls and the loops that serve them

A control may change the pause state and settle a request, and it may fail; nothing
else about the supervisor changes.  `Governed` says what an assertion must allow for
this, `Serves` that it survives taking the first message of the queue and handling
it.  The waiting loops need no more than that.  They also keep count of their turns:
a loop that runs out of rounds has seen no stop request in any of them.
-/

import Ngsm.Supervisor.Steady

namespace Ngsm.Supervisor

open Ngsm.Core Ngsm.Lib Ngsm.Lib.Prog

variable {I : Sup → Prop} {E : Halt → Prop} {s : Sup}

/-! ## The change of the pause state -/

section Change

variable {W : Sup → Prop}

/-- The world is as `W` says, and the flag has not changed. -/
def Unchanged (W : Sup → Prop) (flag : Bool) (p : Pausing Sup) : Prop :=
  W p.world ∧ p.state.paused = flag

theorem stable_unchanged (hW : Steady W) (request : Option Nat) (flag : Bool) :
    PauseState.Stable (Sup.processes request) (Unchanged W flag) :=
  ⟨fun _ h => ⟨hW.next h.1, h.2⟩, fun _ h => ⟨hW.next h.1, h.2⟩⟩

theorem wp_control (hW : Steady W) {flag : Bool} {Q : Bool → Pausing Sup → Prop}
    {p : Pausing Sup} (h : Unchanged W flag p)
    (hok : ∀ answer p', Unchanged W flag p' → p'.changed = p.changed → p'.state = p.state →
      Q answer p') :
    (PauseState.onWorld Sup.control).wp Q (fun _ => Unchanged W flag) p := by
  rw [PauseState.wp_onWorld]
  have hnext := hW.next h.1
  simp only [Sup.control, Prog.wp_step]
  cases hfault : p.world.next.1.fault with
  | some message => exact ⟨hnext, h.2⟩
  | none => exact hok _ _ ⟨hnext, h.2⟩ rfl rfl

theorem wp_members (hW : Steady W) {flag : Bool} {p : Pausing Sup} (h : Unchanged W flag p) :
    (PauseState.onWorld Sup.members).wp (fun _ => Unchanged W flag)
      (fun _ => Unchanged W flag) p := by
  rw [PauseState.wp_onWorld]
  have hnext := hW.next h.1
  simp only [Sup.members, Prog.wp_step]
  by_cases hjob : p.world.plant.job = true
  · simp only [if_pos hjob]
    cases hfault : p.world.next.1.fault with
    | some message => exact ⟨hnext, h.2⟩
    | none => exact ⟨hnext, h.2⟩
  · simp only [if_neg hjob]
    exact h

theorem wp_undoing (hW : Steady W) {flag : Bool} (request : Option Nat) (processes : List Nat)
    (suspend : Bool) (deadline : Nat) {p : Pausing Sup} (h : Unchanged W flag p) :
    (PauseState.rollbackUntil (Sup.processes request) processes suspend deadline).wp
      (fun _ => Unchanged W flag) (fun _ => Unchanged W flag) p := by
  have hstable := stable_unchanged hW request flag
  have hcontrol : ∀ (process : Nat) (p : Pausing Sup), Unchanged W flag p →
      (PauseState.onWorld (if suspend then (Sup.processes request).suspend process
        else (Sup.processes request).resume process)).wp
        (fun _ => Unchanged W flag) (fun _ => Unchanged W flag) p := by
    intro process p h
    have hsame : (if suspend then (Sup.processes request).suspend process
        else (Sup.processes request).resume process) = Sup.control := by
      cases suspend <;> rfl
    rw [hsame]
    exact wp_control hW h fun _ _ h' _ _ => h'
  have hrunning : ∀ (process : Nat) (p : Pausing Sup), Unchanged W flag p →
      (PauseState.onWorld ((Sup.processes request).running process)).wp
        (fun _ => Unchanged W flag) (fun _ => Unchanged W flag) p :=
    fun process p h => wp_control hW h fun _ _ h' _ _ => h'
  refine PauseState.wp_rollbackUntil (K := fun _ => Unchanged W flag) hstable (fun _ => hstable)
    (fun _ _ h => h) (fun process _ p h => ?_) (fun process _ p h => hcontrol process p h)
    hrunning hcontrol processes deadline h
  refine Prog.wp_mono _ (fun answer p' h' => ?_) (fun _ _ h' => h') (hrunning process p h)
  cases answer <;> exact h'

/-- What a change comes to: only one that was applied has moved the flag. -/
structure Changed (W : Sup → Prop) (pause flag : Bool) (outcome : TransitionOutcome)
    (p : Pausing Sup) : Prop where
  world : W p.world
  applied : outcome = .applied → p.state.paused = pause
  kept : outcome ≠ .applied → p.state.paused = flag

theorem Changed.of_undone {pause flag : Bool} {outcome : TransitionOutcome} {p : Pausing Sup}
    (h : Unchanged W flag p) (hundone : PauseState.Undone outcome) :
    Changed W pause flag outcome p := by
  refine ⟨h.1, fun happlied => ?_, fun _ => h.2⟩
  subst happlied
  rcases hundone with hundone | ⟨error, hundone⟩
  · cases hundone
  · cases hundone

theorem Changed.of_degraded {pause flag : Bool} {message : String} {p : Pausing Sup}
    (h : Unchanged W flag p) : Changed W pause flag (.degraded message) p :=
  ⟨h.1, nofun, fun _ => h.2⟩

theorem wp_pausing (hW : Steady W) {flag : Bool} (request : Option Nat) {p : Pausing Sup}
    (h : Unchanged W flag p) :
    (PauseState.pauseMembers (Sup.processes request)).wp (Changed W true flag)
      (fun _ _ => False) p := by
  have hstable := stable_unchanged hW request flag
  refine PauseState.wp_pauseMembers (J := Unchanged W flag) hstable hstable hstable h
    (fun deadline passes p h => ?_) (fun deadline p h => wp_undoing hW request _ _ _ h)
    (fun p h => ⟨h.1, fun _ => rfl, fun h => absurd rfl h⟩)
    (fun _ _ h hundone => .of_undone h hundone) (fun _ _ h => .of_degraded h)
  refine PauseState.wp_suspendPasses (K := fun _ _ => Unchanged W flag) hstable
    (fun _ _ => hstable) (fun _ _ _ h => h) (fun p h => wp_members hW h) (fun _ _ _ _ h _ => h)
    (fun _ process rest p h _ => ?_) deadline passes h
  refine wp_control hW h fun applied p' h' _ _ => ?_
  cases applied <;> exact h'

theorem wp_continuing (hW : Steady W) {flag : Bool} (request : Option Nat) {p : Pausing Sup}
    (h : Unchanged W flag p) :
    (PauseState.resumeOwned (Sup.processes request)).wp (Changed W false flag)
      (fun _ _ => False) p := by
  have hstable := stable_unchanged hW request flag
  refine PauseState.wp_resumeOwned (J := Unchanged W flag) (M := Unchanged W flag) hstable hstable
    hstable h (fun deadline p h _ => ?_) (fun deadline p h => wp_undoing hW request _ _ _ h)
    (fun deadline p h => ?_) (fun p h => ⟨h.1, fun _ => rfl, fun h => absurd rfl h⟩)
    (fun _ _ h hundone => .of_undone h hundone) (fun _ _ h => .of_degraded h)
  · refine PauseState.wp_resumeMembers (K := fun _ => Unchanged W flag) (fun _ => hstable)
      (fun _ _ h => h) (fun process rest p h => ?_) deadline h
    refine wp_control hW h fun applied p' h' _ _ => ?_
    cases applied <;> exact h'
  · refine PauseState.wp_restorePausedMembers (K := fun _ _ => Unchanged W flag) hstable
      (fun _ _ => hstable) (fun _ _ _ h => h) (fun p h => wp_members hW h) (fun _ _ _ _ h _ => h)
      (fun _ process rest p h _ => ?_) deadline 0 _ h
    refine wp_control hW h fun applied p' h' _ _ => ?_
    cases applied <;> exact h'

/-- The rule for a change: the others have moved, and the flag is the wanted one or
the old one. -/
theorem wp_changeState (hW : Steady W) (request : Option Nat) (pause : Bool) (hs : W s)
    {Q : TransitionOutcome → Sup → Prop} {R : Halt → Sup → Prop}
    (happlied : ∀ s' state, W s' → state.paused = pause → Q .applied { s' with pause := state })
    (hkept : ∀ outcome s' state, outcome ≠ .applied → W s' → state.paused = s.pause.paused →
      Q outcome { s' with pause := state }) :
    (changeState request pause).wp Q R s := by
  have hstable := stable_unchanged hW request s.pause.paused
  have hchange : (PauseState.change (Sup.processes request) pause).wp
      (Changed W pause s.pause.paused) (fun _ _ => False) { world := s, state := s.pause } := by
    refine PauseState.wp_change hstable pause ⟨hs, rfl⟩ (fun p h => .of_undone h (.inl rfl))
      (fun p h hsame => ⟨h.1, fun _ => hsame, fun h => absurd rfl h⟩) ?_ ?_
    · rintro rfl p h -
      exact wp_pausing hW request h
    · rintro rfl p h -
      exact wp_continuing hW request h
  obtain ⟨outcome, p, hrun, hpost⟩ := Prog.exists_ok_of_wp _ hchange
  simp only [changeState, Prog.wp_step, hrun]
  by_cases houtcome : outcome = .applied
  · subst houtcome
    exact happlied p.world p.state hpost.world (hpost.applied rfl)
  · exact hkept outcome p.world p.state houtcome hpost.world (hpost.kept houtcome)

end Change

/-! ## Controls -/

/-- A steady assertion that allows what a control does, apart from the phases of its
request: the pause flag stays or an application moves it, an error is noted. -/
structure Tolerant (I : Sup → Prop) : Prop extends Steady I where
  kept : ∀ (s : Sup) state, state.paused = s.pause.paused → I s → I { s with pause := state }
  applied : ∀ (s : Sup) state, I s →
    I (({ s with pause := state } : Sup).emit (.applied state.paused))
  trouble : ∀ (s : Sup) source error, I s → I (s.emit (.trouble source error))

/-- A request may be settled too. -/
structure Governed (I : Sup → Prop) : Prop extends Tolerant I where
  phase : ∀ (s : Sup) request phase, I s → I (s.setPhase request phase)

theorem keeps_execute (h : Governed I) {operation : SupM TransitionOutcome} (request : Nat)
    (hoperation : Keeps I E operation) : Keeps I E (execute request operation) := by
  refine Keeps.bind (keeps_turn h.toSteady) fun _ => Keeps.bind Keeps.get fun s => ?_
  have hrun : Keeps I E (do
      modify (Sup.setPhase request .executing)
      let outcome ← operation
      modify (Sup.setPhase request (.finished outcome))
      return outcome) := by
    refine Keeps.bind (Keeps.modify fun s hs => h.phase s _ _ hs) fun _ => ?_
    refine Keeps.bind hoperation fun outcome => ?_
    exact Keeps.bind (Keeps.modify fun s hs => h.phase s _ _ hs) fun _ => Keeps.pure _
  split
  · exact Keeps.pure _
  · exact Keeps.pure _
  · exact hrun

/-- The operation of a pause or continue request. -/
theorem keeps_applyPause (h : Tolerant I) (pause : Bool) (request : Nat) :
    Keeps I E (do
      let outcome ← changeState (some request) pause
      onlyIf (outcome = .applied) do emit (.applied pause)
      return outcome) := by
  intro s hs
  rw [Prog.wp_bind]
  refine wp_changeState (h.toSteady.and (steady_pause (· = s.pause))) (some request) pause ⟨hs, rfl⟩
    (fun s' state hs' hflag => ?_) fun outcome s' state houtcome hs' hflag => ?_
  · subst hflag
    exact h.applied s' state hs'.1
  · have hno : decide (outcome = .applied) = false := by simpa using houtcome
    rw [hno]
    exact h.kept s' state (hflag.trans (by rw [hs'.2])) hs'.1

theorem keeps_failDegraded (outcome : TransitionOutcome) :
    Keeps I Failed (match outcome with
      | .degraded error => fail (.degraded error)
      | _ => return : SupM Unit) := by
  cases outcome with
  | degraded error => exact keeps_fail _
  | applied => exact Keeps.pure _
  | cancelled => exact Keeps.pure _
  | rejected message => exact Keeps.pure _

theorem keeps_changePause (h : Governed I) (pause : Bool) (request : Nat) :
    Keeps I Failed (changePause pause request) :=
  Keeps.bind (keeps_execute h request (keeps_applyPause h.toTolerant pause request))
    keeps_failDegraded

theorem keeps_isCurrent (id : UInt64) : Keeps I E (isCurrent id) :=
  Keeps.bind Keeps.get fun _ => Keeps.pure _

/-- The messages that carry no request. -/
theorem keeps_handlePlain (h : Steady I) {message : SupervisorMessage}
    (hrequest : message.request = none) : Keeps I Failed (handleMessage message) := by
  cases message with
  | stop => exact Keeps.modify fun s hs => h.stop s hs
  | pause request => cases hrequest
  | «continue» request => cases hrequest
  | rotate =>
      refine Keeps.bind Keeps.get fun _ => Keeps.ite ?_ (keeps_report h _ _)
      exact Keeps.bind Keeps.get fun _ => keeps_rotateSinks h _ _ _
  | autoRotate id =>
      refine Keeps.bind (keeps_isCurrent id) fun _ => Keeps.ite ?_ (Keeps.pure _)
      exact Keeps.bind Keeps.get fun _ => keeps_rotateSinks h _ _ _
  | readerFailed id =>
      exact Keeps.bind (keeps_isCurrent id) fun _ => Keeps.ite (keeps_fail _) (Keeps.pure _)
  | powerEvent event =>
      refine Keeps.bind (keeps_currentPid h) fun _ => keeps_fireHook h _ ?_
      cases isResumeEvent event <;> rfl
  | childExited id => exact Keeps.pure _

theorem keeps_handleMessage (h : Governed I) (message : SupervisorMessage) :
    Keeps I Failed (handleMessage message) := by
  cases hrequest : message.request with
  | none => exact keeps_handlePlain h.toSteady hrequest
  | some request =>
      cases message with
      | pause request => exact keeps_changePause h true request
      | «continue» request => exact keeps_changePause h false request
      | _ => cases hrequest

theorem wp_noting {α : Type} {m : SupM α} {source : Source} {Q : α → Sup → Prop}
    {D D' : Sup → Prop} (hm : m.wp Q (fun e s' => Failed e ∧ D s') s)
    (htrouble : ∀ (s : Sup) error, D s → D' (s.emit (.trouble source error))) :
    (noting source m).wp Q (fun e s' => Failed e ∧ D' s') s := by
  unfold noting
  rw [Prog.wp_bind, Prog.wp_attempt]
  refine Prog.wp_mono _ (fun a s' hs' => hs') (fun e s' he => ?_) hm
  obtain ⟨⟨error, rfl⟩, hs'⟩ := he
  exact ⟨failed_failed error, htrouble s' error hs'⟩

/-- The note is there whenever an error comes out. -/
theorem wp_settle_noted {α : Type} (source : Source) (m : SupM α) :
    (settle (noting source m)).wp
      (fun result s' => ∀ error, result = .error error → .trouble source error ∈ s'.trace)
      (fun _ _ => True) s := by
  unfold settle noting
  rw [Prog.wp_bind, Prog.wp_attempt, Prog.wp_bind, Prog.wp_attempt]
  refine Prog.wp_of_forall _ (fun _ _ => nofun) fun e s' => ?_
  cases e with
  | failed error =>
      rintro _ ⟨⟩
      exact List.mem_append_right _ (List.mem_singleton_self _)
  | panicked => trivial
  | unfinished => trivial

theorem keeps_noting {α : Type} {m : SupM α} {source : Source}
    (htrouble : ∀ (s : Sup) error, I s → I (s.emit (.trouble source error)))
    (hm : Keeps I Failed m) : Keeps I Failed (noting source m) :=
  fun s hs => wp_noting (hm s hs) htrouble

/-- An error is handed over as a value. -/
theorem wp_settle_of {α : Type} {m : SupM α} {Q : Except SupervisorError α → Sup → Prop}
    {R : Halt → Sup → Prop}
    (hm : m.wp (fun a => Q (.ok a)) (fun e s' => ∃ error, e = .failed error ∧ Q (.error error) s')
      s) : (settle m).wp Q R s := by
  unfold settle
  rw [Prog.wp_bind, Prog.wp_attempt]
  refine Prog.wp_mono _ (fun a s' hs' => hs') (fun e s' he => ?_) hm
  obtain ⟨error, rfl, hs'⟩ := he
  exact hs'

theorem wp_settle {α : Type} {m : SupM α} {Q : Except SupervisorError α → Sup → Prop}
    {R : Halt → Sup → Prop} {D : Sup → Prop}
    (hm : m.wp (fun a => Q (.ok a)) (fun e s' => Failed e ∧ D s') s)
    (herror : ∀ (s : Sup) error, D s → Q (.error error) s) : (settle m).wp Q R s := by
  refine wp_settle_of (Prog.wp_mono _ (fun _ _ hs' => hs') (fun e s' he => ?_) hm)
  obtain ⟨⟨error, rfl⟩, hs'⟩ := he
  exact ⟨error, rfl, herror s' error hs'⟩

theorem keeps_settle {α : Type} {m : SupM α} (hm : Keeps I Failed m) :
    Keeps I E (settle m) :=
  fun s hs => wp_settle (hm s hs) fun _ _ hs' => hs'

theorem keeps_dispatch (h : Governed I) (message : SupervisorMessage) :
    Keeps I Failed (dispatch message) := by
  refine Keeps.bind (keeps_stopping h.toSteady) fun _ => Keeps.ite ?_ (keeps_handleMessage h message)
  cases message.request with
  | some request => exact Keeps.modify fun s hs => h.toSteady.cancel s request hs
  | none => exact Keeps.pure _

/-- The stop, a power event and the note of an exit are handled without an error. -/
theorem keeps_dispatch_control (h : Governed I) {message : SupervisorMessage}
    (hsource : message.source = .control) : Keeps I E (dispatch message) := by
  have hsteady := h.toSteady
  refine Keeps.bind (keeps_stopping hsteady) fun _ => ?_
  cases message with
  | stop => exact Keeps.ite (Keeps.pure _) (Keeps.modify fun s hs => hsteady.stop s hs)
  | powerEvent event =>
      refine Keeps.ite (Keeps.pure _) ?_
      refine Keeps.bind (keeps_currentPid hsteady) fun _ => keeps_fireHook hsteady _ ?_
      cases isResumeEvent event <;> rfl
  | childExited id => exact Keeps.ite (Keeps.pure _) (Keeps.pure _)
  | rotate => cases hsource
  | autoRotate id => cases hsource
  | pause request => cases hsource
  | «continue» request => cases hsource
  | readerFailed id => cases hsource

theorem Steady.taken (h : Steady I) (hs : I s) : I s.taken :=
  h.plant s _ ⟨le_rfl, Nat.le_succ _, le_rfl⟩ hs

theorem wp_handleControl {message : SupervisorMessage} {Q : Unit → Sup → Prop}
    {R : Halt → Sup → Prop} :
    (handleControl message).wp Q R s ↔
      (noting message.source (dispatch message)).wp Q R s.taken :=
  Iff.rfl

theorem keeps_noted (h : Governed I) (message : SupervisorMessage) :
    Keeps I Failed (noting message.source (dispatch message)) :=
  keeps_noting (fun s error hs => h.trouble s _ error hs) (keeps_dispatch h message)

theorem keeps_handleControl (h : Governed I) (message : SupervisorMessage) :
    Keeps I Failed (handleControl message) :=
  Keeps.bind (Keeps.modify fun _ hs => h.taken hs) fun _ => keeps_noted h message

/-! ## Serving the queue -/

/-- Taking the first message and handling it keeps the assertion, or it fails with
`D`. -/
def Serves (I D : Sup → Prop) : Prop :=
  ∀ (s : Sup) message rest, I s → s.queue = message :: rest →
    (handleControl message).wp (fun _ => I) (fun e s' => Failed e ∧ D s') { s with queue := rest }

theorem Governed.serves (h : Governed I)
    (hpop : ∀ (s : Sup) message rest, s.queue = message :: rest → I s →
      I { s with queue := rest }) : Serves I I :=
  fun s message rest hs hqueue =>
    keeps_handleControl h message _ (hpop s message rest hqueue hs)

theorem Serves.and {D J D' : Sup → Prop} (h : Serves I D) (h' : Serves J D') :
    Serves (fun s => I s ∧ J s) fun s => D s ∧ D' s := by
  intro s message rest hs hqueue
  refine Prog.wp_mono _ (fun _ _ h => h) (fun _ _ h => ⟨h.1.1, h.1.2, h.2.2⟩)
    (Prog.wp_and _ (h s message rest hs.1 hqueue) (h' s message rest hs.2 hqueue))

/-- At least so many turns have passed. -/
def Turned (n : Nat) (s : Sup) : Prop :=
  n ≤ s.turns

theorem yielding_turned (n : Nat) : Yielding (Turned n) where
  turn _ h := Nat.le_succ_of_le h
  plant _ _ _ h := h
  stop s h := by
    unfold Sup.setStop
    split
    · exact h
    · exact h
  send _ _ _ h := h
  request s pause h := by
    unfold Sup.request
    split
    · exact h
    · exact h
  cancel _ _ h := h
  exit _ _ _ h := h
  terminal _ _ h := h
  hook _ _ _ h := h

theorem governed_turned (n : Nat) : Governed (Turned n) where
  toSteady := (yielding_turned n).steady
  phase _ _ _ h := h
  kept _ _ _ h := h
  applied _ _ h := h
  trouble _ _ _ h := h

theorem serves_turned (n : Nat) : Serves (Turned n) (Turned n) :=
  (governed_turned n).serves fun _ _ _ _ h => h

/-- The turn a look at the stop flag takes. -/
theorem wp_turn (h : Steady I) {n : Nat} {Q : Turn → Sup → Prop} {R : Halt → Sup → Prop}
    (hs : I s) (hn : Turned n s) (hok : ∀ answer s', I s' → Turned (n + 1) s' → Q answer s') :
    turn.wp Q R s :=
  hok _ _ (h.next hs)
    ((yielding_turned (n + 1)).moves _ (Nat.succ_le_succ hn))

theorem wp_stopping (h : Steady I) {n : Nat} {Q : Bool → Sup → Prop} {R : Halt → Sup → Prop}
    (hs : I s) (hn : Turned n s)
    (hok : ∀ s', I s' → Turned (n + 1) s' → Q s'.stopRequested s') : stopping.wp Q R s := by
  unfold stopping
  rw [Prog.wp_bind]
  exact wp_turn h hs hn fun _ s' hs' hn' => hok s' hs' hn'

/-- How a loop ends early: with a reported error, or with no rounds left and no
stop request seen. -/
def Broken (I D : Sup → Prop) (limit : Nat) (e : Halt) (s : Sup) : Prop :=
  (Failed e ∧ D s) ∨ (e = .unfinished ∧ I s ∧ s.stopRequested = false ∧ limit ≤ s.turns)

theorem Broken.of_failed {D : Sup → Prop} {limit : Nat} {e : Halt} (he : Failed e) (hs : D s) :
    Broken I D limit e s :=
  .inl ⟨he, hs⟩

theorem Broken.mono {D I' D' : Sup → Prop} {limit : Nat} {e : Halt} (h : Broken I D limit e s)
    (hI : I s → I' s) (hD : D s → D' s) : Broken I' D' limit e s :=
  h.imp (fun h => ⟨h.1, hD h.2⟩) fun h => ⟨h.1, hI h.2.1, h.2.2⟩

theorem wp_tryRecv (h : Steady I) {n : Nat} {Q : Option SupervisorMessage → Sup → Prop}
    {R : Halt → Sup → Prop} (hs : I s) (hn : Turned n s)
    (hnone : ∀ s', I s' → Turned (n + 1) s' → s'.queue = [] → Q none s')
    (hsome : ∀ s' message rest, I s' → Turned (n + 1) s' → s'.queue = message :: rest →
      Q (some message) { s' with queue := rest }) :
    tryRecv.wp Q R s := by
  unfold tryRecv
  rw [Prog.wp_bind]
  refine wp_turn h hs hn fun _ s' hs' hn' => ?_
  rw [Prog.wp_bind, Prog.wp_get]
  cases hqueue : s'.queue with
  | nil => exact hnone s' hs' hn' hqueue
  | cons message rest => exact hsome s' message rest hs' hn' hqueue

theorem wp_receiveControl {D : Sup → Prop} (h : Steady I) (hserve : Serves I D) {n limit : Nat}
    (delay : Nat) (hs : I s) (hn : Turned n s) :
    (receiveControl delay).wp (fun _ s' => I s' ∧ Turned n s') (Broken I D limit) s := by
  unfold receiveControl
  rw [Prog.wp_bind]
  refine wp_stopping h hs hn fun s₁ hs₁ hn₁ => ?_
  rw [Prog.wp_ite]
  split
  · exact ⟨hs₁, Nat.le_of_succ_le hn₁⟩
  · unfold recvTimeout
    rw [Prog.wp_bind, Prog.wp_bind]
    refine wp_tryRecv h hs₁ hn₁ (fun s₂ hs₂ hn₂ _ => ?_) fun s₂ message rest hs₂ hn₂ hqueue => ?_
    · refine ⟨h.plant s₂ _ ⟨Nat.le_add_right _ _, le_rfl⟩ hs₂, ?_⟩
      exact Nat.le_of_succ_le (Nat.le_of_succ_le hn₂)
    · change (handleControl message).wp _ _ _
      refine Prog.wp_mono _ (fun _ s₃ hs₃ => ⟨hs₃.1, ?_⟩) (fun _ _ he => .of_failed he.1 he.2.1)
        (hserve.and (serves_turned (n + 2)) s₂ message rest ⟨hs₂, hn₂⟩ hqueue)
      exact Nat.le_of_succ_le (Nat.le_of_succ_le hs₃.2)

section Loops

/-- A round that the pause flag prolongs is counted. -/
theorem progress_held (plant : Plant) (paused : Bool) :
    plant.progress ≤ { plant with held := plant.held + paused.toNat }.progress :=
  ⟨le_rfl, le_rfl, Nat.le_add_right _ _⟩

variable {K D : Sup → Prop} {n limit : Nat}

/-- `K` is what is known once a look at the flag has seen no stop. -/
theorem wp_takeBatch (h : Steady I) (hserve : Serves I D) (hK : Steady K)
    (hclear : ∀ s, I s → s.stopRequested = false → K s) (hweaken : ∀ s, K s → I s) (batch : Nat)
    (hs : K s) (hn : Turned n s) :
    (takeBatch batch).wp
      (fun go s' => (if go then K s' else I s' ∧ s'.stopRequested = true) ∧ Turned n s')
      (Broken I D limit) s := by
  induction batch generalizing s with
  | zero => exact ⟨hs, hn⟩
  | succ batch ih =>
      unfold takeBatch
      rw [Prog.wp_bind]
      refine wp_tryRecv hK hs hn (fun s₁ hs₁ hn₁ _ => ⟨hs₁, Nat.le_of_succ_le hn₁⟩)
        fun s₁ message rest hs₁ hn₁ hqueue => ?_
      simp only
      rw [Prog.wp_bind]
      refine Prog.wp_mono _ (fun _ s₂ hs₂ => ?_) (fun _ _ he => .of_failed he.1 he.2.1)
        (hserve.and (serves_turned (n + 1)) s₁ message rest ⟨hweaken s₁ hs₁, hn₁⟩ hqueue)
      rw [Prog.wp_bind]
      refine wp_stopping h hs₂.1 (Nat.le_of_succ_le hs₂.2) fun s₃ hs₃ hn₃ => ?_
      cases hstop : s₃.stopRequested with
      | true => exact ⟨⟨hs₃, hstop⟩, Nat.le_of_succ_le hn₃⟩
      | false => exact ih (hclear s₃ hs₃ hstop) (Nat.le_of_succ_le hn₃)

/-- How a wait ends: unpaused, after its deadline and a look that saw no stop, or by
a stop. -/
def Awake (I K : Sup → Prop) (deadline : Nat) (go : Bool) (s : Sup) : Prop :=
  if go then K s ∧ s.pause.paused = false ∧ deadline ≤ s.plant.clock
  else I s ∧ s.stopRequested = true

theorem wp_sleepUntil (h : Steady I) (hserve : Serves I D) (hK : Steady K)
    (hclear : ∀ s, I s → s.stopRequested = false → K s) (hweaken : ∀ s, K s → I s)
    (deadline rounds : Nat) (hlimit : limit ≤ n + rounds) (hs : I s) (hn : Turned n s) :
    (sleepUntil deadline rounds).wp (fun go s' => Awake I K deadline go s' ∧ Turned n s')
      (Broken I D limit) s := by
  induction rounds generalizing s n with
  | zero =>
      unfold sleepUntil
      rw [Prog.wp_bind]
      refine wp_stopping h hs hn fun s₁ hs₁ hn₁ => ?_
      cases hstop : s₁.stopRequested with
      | true => exact ⟨⟨hs₁, hstop⟩, Nat.le_of_succ_le hn₁⟩
      | false =>
          exact .inr ⟨rfl, hs₁, hstop, Nat.le_trans hlimit (Nat.le_of_succ_le hn₁)⟩
  | succ rounds ih =>
      unfold sleepUntil
      rw [Prog.wp_bind]
      refine wp_stopping h hs hn fun s₁ hs₁ hn₁ => ?_
      cases hstop : s₁.stopRequested with
      | true => exact ⟨⟨hs₁, hstop⟩, Nat.le_of_succ_le hn₁⟩
      | false =>
          have hreceive : ∀ delay s, I s → Turned (n + 1) s →
              (do receiveControl delay; sleepUntil deadline rounds : SupM Bool).wp
                (fun go s' => Awake I K deadline go s' ∧ Turned n s') (Broken I D limit) s := by
            intro delay s hs hn
            rw [Prog.wp_bind]
            refine Prog.wp_mono _ (fun _ s' hs' => ?_) (fun _ _ he => he)
              (wp_receiveControl h hserve delay hs hn)
            exact Prog.wp_mono _ (fun _ _ hs'' => ⟨hs''.1, Nat.le_of_succ_le hs''.2⟩)
              (fun _ _ he => he) (ih (by omega) hs'.1 hs'.2)
          simp only [Bool.false_eq_true, if_false]
          rw [Prog.wp_bind]
          refine Prog.wp_mono _ (fun go s₂ hs₂ => ?_) (fun _ _ he => he)
            (wp_takeBatch h hserve hK hclear hweaken 32 (hclear s₁ hs₁ hstop) hn₁)
          cases go with
          | false => exact ⟨hs₂.1, Nat.le_of_succ_le hs₂.2⟩
          | true =>
              have hs₂K : K s₂ := hs₂.1
              simp only [Bool.not_true, Bool.false_eq_true, if_false]
              unfold paused
              rw [Prog.wp_bind, Prog.wp_bind, Prog.wp_get]
              cases hpaused : s₂.pause.paused with
              | true =>
                  simp only [Prog.wp_pure, if_true]
                  unfold noteHeld
                  rw [Prog.wp_bind, Prog.wp_modify]
                  have hheld := h.plant s₂ _ (progress_held s₂.plant true) (hweaken s₂ hs₂K)
                  rw [← hpaused] at hheld
                  exact hreceive controlPoll _ hheld hs₂.2
              | false =>
                  simp only [Prog.wp_pure, Bool.false_eq_true, if_false]
                  unfold now
                  rw [Prog.wp_bind, Prog.wp_bind]
                  have hboth := hK.and (steady_pause (· = s₂.pause))
                  refine wp_turn hboth ⟨hs₂K, rfl⟩ hs₂.2 fun _ s₃ hs₃ hn₃ => ?_
                  rw [Prog.wp_bind, Prog.wp_get, Prog.wp_pure, Prog.wp_ite]
                  have hn₃' : Turned (n + 1) s₃ := Nat.le_of_succ_le hn₃
                  split
                  · rename_i hdeadline
                    refine ⟨⟨hs₃.1, ?_, hdeadline⟩, Nat.le_of_succ_le hn₃'⟩
                    rw [hs₃.2]
                    exact hpaused
                  · rw [Prog.wp_bind, Prog.wp_bind]
                    refine wp_turn hK hs₃.1 hn₃' fun _ s₄ hs₄ hn₄ => ?_
                    exact hreceive _ s₄ (hweaken s₄ hs₄) (Nat.le_of_succ_le hn₄)

theorem wp_sleepOrStop (h : Steady I) (hserve : Serves I D) (hK : Steady K)
    (hclear : ∀ s, I s → s.stopRequested = false → K s) (hweaken : ∀ s, K s → I s)
    (delay rounds : Nat) (hlimit : limit ≤ n + 1 + rounds) (hs : I s) (hn : Turned n s) :
    (sleepOrStop delay rounds).wp
      (fun go s' => (∃ deadline, Awake I K deadline go s') ∧ Turned (n + 1) s')
      (Broken I D limit) s := by
  unfold sleepOrStop now
  rw [Prog.wp_bind, Prog.wp_bind]
  refine wp_turn h hs hn fun _ s₁ hs₁ hn₁ => ?_
  rw [Prog.wp_bind, Prog.wp_get, Prog.wp_pure]
  exact Prog.wp_mono _ (fun _ _ hs₂ => ⟨⟨_, hs₂.1⟩, hs₂.2⟩) (fun _ _ he => he)
    (wp_sleepUntil h hserve hK hclear hweaken _ rounds hlimit hs₁ hn₁)

theorem wp_waitForStopQuiesced (h : Steady I) (hserve : Serves I D) (rounds : Nat)
    (hlimit : limit ≤ n + rounds) (hs : I s) (hn : Turned n s) :
    (waitForStopQuiesced rounds).wp
      (fun reason s' => I s' ∧ reason = .stopped ∧ s'.stopRequested = true)
      (Broken I D limit) s := by
  induction rounds generalizing s n with
  | zero =>
      unfold waitForStopQuiesced
      rw [Prog.wp_bind]
      refine wp_stopping h hs hn fun s₁ hs₁ hn₁ => ?_
      cases hstop : s₁.stopRequested with
      | true => exact ⟨hs₁, rfl, hstop⟩
      | false => exact .inr ⟨rfl, hs₁, hstop, Nat.le_trans hlimit (Nat.le_of_succ_le hn₁)⟩
  | succ rounds ih =>
      unfold waitForStopQuiesced
      rw [Prog.wp_bind]
      refine wp_stopping h hs hn fun s₁ hs₁ hn₁ => ?_
      cases hstop : s₁.stopRequested with
      | true => exact ⟨hs₁, rfl, hstop⟩
      | false =>
          simp only [Bool.false_eq_true, if_false]
          rw [Prog.wp_bind]
          refine Prog.wp_mono _ (fun _ s₂ hs₂ => ?_) (fun _ _ he => he)
            (wp_receiveControl h hserve controlPoll hs₁ hn₁)
          exact ih (by omega) hs₂.1 hs₂.2

theorem wp_awaitExit (h : Steady I) (hserve : Serves I D) (rounds : Nat)
    (hlimit : limit ≤ n + rounds) (hs : I s) (hn : Turned n s) :
    (awaitExit rounds).wp
      (fun go s' => I s' ∧ Turned n s' ∧
        (go = true → s'.generation.any (·.exit.isSome) = true) ∧
        (go = false → s'.stopRequested = true))
      (Broken I D limit) s := by
  induction rounds generalizing s n with
  | zero =>
      unfold awaitExit
      rw [Prog.wp_bind]
      refine wp_stopping h hs hn fun s₁ hs₁ hn₁ => ?_
      cases hstop : s₁.stopRequested with
      | true => exact ⟨hs₁, Nat.le_of_succ_le hn₁, nofun, fun _ => hstop⟩
      | false =>
          simp only [Bool.false_eq_true, if_false]
          rw [Prog.wp_bind, Prog.wp_get, Prog.wp_ite]
          split
          · rename_i hexit
            exact ⟨hs₁, Nat.le_of_succ_le hn₁, fun _ => hexit, nofun⟩
          · exact .inr ⟨rfl, hs₁, hstop, Nat.le_trans hlimit (Nat.le_of_succ_le hn₁)⟩
  | succ rounds ih =>
      unfold awaitExit
      rw [Prog.wp_bind]
      refine wp_stopping h hs hn fun s₁ hs₁ hn₁ => ?_
      cases hstop : s₁.stopRequested with
      | true => exact ⟨hs₁, Nat.le_of_succ_le hn₁, nofun, fun _ => hstop⟩
      | false =>
          simp only [Bool.false_eq_true, if_false]
          rw [Prog.wp_bind, Prog.wp_get, Prog.wp_ite]
          split
          · rename_i hexit
            exact ⟨hs₁, Nat.le_of_succ_le hn₁, fun _ => hexit, nofun⟩
          · rw [Prog.wp_bind]
            refine Prog.wp_mono _ (fun _ s₂ hs₂ => ?_) (fun _ _ he => he)
              (wp_receiveControl h hserve controlPoll hs₁ hn₁)
            exact Prog.wp_mono _
              (fun _ _ hs₃ => ⟨hs₃.1, Nat.le_of_succ_le hs₃.2.1, hs₃.2.2⟩)
              (fun _ _ he => he) (ih (by omega) hs₂.1 hs₂.2)

end Loops

end Ngsm.Supervisor
