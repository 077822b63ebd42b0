/-
# The hand-off to the runner

At the end of a run the supervisor says that it is ready and waits until the runner has released
it; then it looks at the stop flag once more.  A runner that publishes every stop it knows of
before it releases therefore has no stop overlooked: the shutdown ends the run.

The signals that decide this evolve by the moves of the others alone, whatever the supervisor
does meanwhile.
-/

import Ngsm.Supervisor.Bookkeeping

namespace Ngsm.Supervisor

open Ngsm.Core Ngsm.Lib Ngsm.Lib.Prog

/-! ## The signals -/

/-- What the other threads signal to the supervisor, and how much of the script has passed. -/
structure Signals where
  script : Nat → Turn
  turns : Nat
  stopRequested : Bool
  terminal : Option TerminalState

def Sup.signals (s : Sup) : Signals where
  script := s.script
  turns := s.turns
  stopRequested := s.stopRequested
  terminal := s.terminal

namespace Signals

def apply (g : Signals) : Move → Signals
  | .stop => { g with stopRequested := true }
  | .release => { g with terminal := g.terminal.map fun t => { t with released := true } }
  | _ => g

def next (g : Signals) : Signals :=
  (g.script g.turns).moves.foldl apply { g with turns := g.turns + 1 }

def released (g : Signals) : Bool :=
  g.terminal.any (·.released)

variable (moves : List Move) (g : Signals)

theorem foldl_script : (moves.foldl apply g).script = g.script := by
  induction moves generalizing g with
  | nil => rfl
  | cons move moves ih =>
      rw [List.foldl_cons, ih]
      cases move <;> rfl

theorem foldl_turns : (moves.foldl apply g).turns = g.turns := by
  induction moves generalizing g with
  | nil => rfl
  | cons move moves ih =>
      rw [List.foldl_cons, ih]
      cases move <;> rfl

/-- The gate stays where it is. -/
theorem foldl_gate : (moves.foldl apply g).terminal.isSome = g.terminal.isSome := by
  induction moves generalizing g with
  | nil => rfl
  | cons move moves ih =>
      rw [List.foldl_cons, ih]
      cases move <;> first | rfl | exact Option.isSome_map

theorem foldl_stopRequested :
    (moves.foldl apply g).stopRequested = true ↔ g.stopRequested = true ∨ .stop ∈ moves := by
  induction moves generalizing g with
  | nil => simp
  | cons move moves ih =>
      rw [List.foldl_cons, ih]
      cases move <;> simp [apply]

theorem released_foldl (h : (moves.foldl apply g).released = true) :
    g.released = true ∨ .release ∈ moves := by
  induction moves generalizing g with
  | nil => exact .inl h
  | cons move moves ih =>
      rcases ih (g.apply move) h with hold | hmem
      · cases move with
        | release => exact .inr List.mem_cons_self
        | _ => exact .inl hold
      · exact .inr (List.mem_cons_of_mem _ hmem)

end Signals

theorem signals_setStop (s : Sup) : s.setStop.signals = { s.signals with stopRequested := true } := by
  unfold Sup.setStop
  split
  · rename_i hstop
    change s.signals = { s.signals with stopRequested := true }
    rw [← hstop]
    rfl
  · rfl

theorem signals_apply (s : Sup) (move : Move) : (s.apply move).signals = s.signals.apply move := by
  cases move with
  | stop => exact signals_setStop s
  | send message =>
      simp only [Sup.apply]
      split <;> rfl
  | request pause =>
      simp only [Sup.apply, Sup.request]
      split <;> rfl
  | cancel request => rfl
  | exit code error =>
      simp only [Sup.apply]
      split <;> rfl
  | release => rfl
  | tick time => rfl

theorem signals_foldl (moves : List Move) (s : Sup) :
    (moves.foldl Sup.apply s).signals = moves.foldl Signals.apply s.signals := by
  induction moves generalizing s with
  | nil => rfl
  | cons move moves ih => rw [List.foldl_cons, ih, signals_apply, List.foldl_cons]

theorem signals_next (s : Sup) : s.next.2.signals = s.signals.next :=
  signals_foldl _ _

/-- An assertion about the signals has to survive a turn, a stop and the supervisor's word that
it is ready. -/
theorem throughout_signals {P : Signals → Prop} (hnext : ∀ g, P g → P g.next)
    (hstop : ∀ g, P g → P { g with stopRequested := true })
    (hready : ∀ g, P g → P { g with terminal := g.terminal.map fun t => { t with ready := true } }) :
    Throughout fun s => P s.signals where
  next {s} h := by
    rw [signals_next]
    exact hnext _ h
  plant _ _ _ h := h
  stop s h := by
    rw [signals_setStop]
    exact hstop _ h
  cancel _ _ h := h
  exit _ _ _ h := h
  ready _ h := hready _ h
  hook _ _ _ h := h
  phase _ _ _ h := h
  kept _ _ _ h := h
  applied _ _ h := h
  trouble _ _ _ h := h
  own _ _ _ _ _ _ h := h
  record _ _ _ h := h
  released _ _ _ h := h
  queue _ _ h := h
  draining _ _ h := h
  drained _ _ h := h
  receiving _ _ h := h

/-! ## What the script says about the signals -/

variable {script : Nat → Turn} {s s' : Sup}

/-- The signals are those that the script has given so far. -/
structure Heard (script : Nat → Turn) (g : Signals) : Prop where
  same : g.script = script
  gate : g.terminal.isSome = true
  stop : ∀ k < g.turns, .stop ∈ (script k).moves → g.stopRequested = true
  release : g.released = true → ∃ k < g.turns, .release ∈ (script k).moves

theorem Heard.next {g : Signals} (h : Heard script g) : Heard script g.next := by
  have hturns : g.next.turns = g.turns + 1 := Signals.foldl_turns _ _
  obtain ⟨rfl, hgate, hstop, hrelease⟩ := h
  refine ⟨Signals.foldl_script _ _, ?_, fun k hk hmem => ?_, fun hreleased => ?_⟩
  · exact (Signals.foldl_gate _ _).trans hgate
  · refine (Signals.foldl_stopRequested _ _).mpr ?_
    rcases Nat.lt_succ_iff_lt_or_eq.mp (hturns ▸ hk) with hbefore | rfl
    · exact .inl (hstop k hbefore hmem)
    · exact .inr hmem
  · rw [hturns]
    rcases Signals.released_foldl _ _ hreleased with hbefore | hmem
    · obtain ⟨k, hk, hmem⟩ := hrelease hbefore
      exact ⟨k, Nat.lt_succ_of_lt hk, hmem⟩
    · exact ⟨g.turns, Nat.lt_succ_self _, hmem⟩

theorem throughout_heard (script : Nat → Turn) : Throughout fun s => Heard script s.signals := by
  refine throughout_signals (fun g h => h.next) (fun g h => ?_) fun g h => ?_
  · exact ⟨h.same, h.gate, fun _ _ _ => rfl, h.release⟩
  · refine ⟨h.same, ?_, h.stop, fun hreleased => h.release ?_⟩
    · exact Option.isSome_map.trans h.gate
    · unfold Signals.released at hreleased ⊢
      rwa [Option.any_map] at hreleased

/-- The supervisor was released in a turn up to which no stop was published. -/
def Unwarned (script : Nat → Turn) (g : Signals) : Prop :=
  ∃ k < g.turns, .release ∈ (script k).moves ∧ ∀ j ≤ k, .stop ∉ (script j).moves

theorem throughout_unwarned (script : Nat → Turn) :
    Throughout fun s => Unwarned script s.signals := by
  refine throughout_signals (fun g h => ?_) (fun _ h => h) fun _ h => h
  obtain ⟨k, hk, hrest⟩ := h
  refine ⟨k, ?_, hrest⟩
  have hturns : g.next.turns = g.turns + 1 := Signals.foldl_turns _ _
  omega

/-- A supervisor that is released has been asked to stop, unless it was not warned. -/
theorem Heard.warned {g : Signals} (h : Heard script g) (hreleased : g.released = true) :
    g.stopRequested = true ∨ Unwarned script g := by
  cases hstop : g.stopRequested with
  | true => exact .inl rfl
  | false =>
      obtain ⟨k, hk, hmem⟩ := h.release hreleased
      refine .inr ⟨k, hk, hmem, fun j hj hasked => ?_⟩
      rw [h.stop j (Nat.lt_of_le_of_lt hj hk) hasked] at hstop
      cases hstop

/-! ## The wait for the runner -/

/-- The wait of the hand-off: whether the runner has released the supervisor in time. -/
def awaitRunner : SupM Bool := do
  modify fun s => { s with terminal := s.terminal.map fun t => { t with ready := true } }
  let deadline := (← now) + 5000
  awaitRelease deadline (deadline - (← get).plant.clock + 1)
  let _ ← turn
  return (← get).terminal.any (·.released)

/-- The run up to the end of that wait. -/
def reachHandOff (rounds : Nat) : SupM (Outcome × Bool) := do
  let result ← settle (runGenerations rounds true 0)
  let result ← conclude result
  let result ← recheck result
  let released ← awaitRunner
  return (result, released)

/-- The look at the stop flag that follows the wait. -/
def afterRelease (result : Outcome) (released : Bool) : SupM Outcome := do
  onlyIf (!released) do
    report "terminal handoff" "runner did not commit within the bounded handoff deadline"
  recheck result

theorem handOff_eq (result : Outcome) :
    handOff result = do
      if (← get).terminal.isSome then
        let released ← awaitRunner
        afterRelease result released
      else
        return result := by
  unfold handOff awaitRunner afterRelease
  simp only [bind_assoc, pure_bind]

/-- The deadline of the hand-off does not expire: a wait that ends was ended by the release. -/
def ReleasedInTime (rounds : Nat) (s : Sup) : Prop :=
  ∀ result released, ((reachHandOff rounds).exec s).1 = .ok (result, released) → released = true

theorem ReleasedInTime.wp {rounds : Nat} (h : ReleasedInTime rounds s) :
    (reachHandOff rounds).wp (fun answer _ => answer.2 = true) (fun _ _ => True) s := by
  refine Prog.wp_mono _ (fun answer s' hrun => ?_) (fun _ _ _ => trivial)
    (Prog.wp_exec (reachHandOff rounds))
  exact h answer.1 answer.2 (congrArg Prod.fst hrun)

theorem wp_awaitRunner {I : Sup → Prop} (h : Lasting I) (hs : I s) {R : Halt → Sup → Prop} :
    awaitRunner.wp (fun released s' => I s' ∧ s'.signals.released = released) R s := by
  have hsteady := h.toSteady
  unfold awaitRunner
  rw [Prog.wp_bind, Prog.wp_modify, Prog.wp_bind]
  refine (keeps_now hsteady).returns (hsteady.ready s hs) fun _ s₁ hs₁ => ?_
  rw [Prog.wp_bind, Prog.wp_get, Prog.wp_bind]
  refine (keeps_awaitRelease hsteady _ _).returns hs₁ fun _ s₂ hs₂ => ?_
  rw [Prog.wp_bind]
  refine (keeps_turn hsteady).returns hs₂ fun _ s₃ hs₃ => ?_
  rw [Prog.wp_bind, Prog.wp_get]
  exact ⟨hs₃, rfl⟩

theorem wp_settleGenerations {I : Sup → Prop} (h : Gate I I I) (rounds : Nat) (hs : I s) :
    (settle (runGenerations rounds true 0)).wp (fun _ => I) (fun e _ => e = .unfinished) s := by
  unfold settle
  rw [Prog.wp_bind, Prog.wp_attempt]
  refine Prog.wp_mono _ (fun reason s₁ hs₁ => hs₁) (fun e s₁ he => ?_)
    (h.wp_runGenerations rounds true 0 (Nat.le_refl _) hs (Nat.le_refl s.turns))
  rcases he with ⟨⟨error, rfl⟩, hs₁⟩ | ⟨rfl, -⟩
  · exact hs₁
  · rfl

/-- The rule for a run that is released in time: what remains is the last look at the flag. -/
theorem wp_supervise_released {I : Sup → Prop} (h : Gate I I I)
    (hgate : ∀ s, I s → s.terminal.isSome = true) {rounds : Nat} (hintime : ReleasedInTime rounds s)
    (hs : I s) {Q : Outcome → Sup → Prop} {R : Halt → Sup → Prop}
    (hlast : ∀ result s', I s' → s'.signals.released = true → (recheck result).wp Q R s')
    (hunfinished : ∀ s', R .unfinished s') : (supervise rounds).wp Q R s := by
  have hlasting := h.lasting
  have hintime := hintime.wp
  unfold reachHandOff at hintime
  unfold supervise
  rw [Prog.wp_bind] at hintime ⊢
  refine Prog.wp_mono _ (fun result s₁ hs₁ => ?_) (fun e s₁ he => ?_)
    (Prog.wp_and _ hintime (wp_settleGenerations h rounds hs))
  swap
  · obtain ⟨-, rfl⟩ := he
    exact hunfinished s₁
  obtain ⟨hintime₁, hs₁⟩ := hs₁
  rw [Prog.wp_bind] at hintime₁ ⊢
  refine Prog.wp_mono _ (fun result s₂ hs₂ => ?_) (fun _ _ he => he.2.1.elim)
    (Prog.wp_and _ hintime₁ (Gate.keeps_conclude (E := fun _ => False) hlasting result s₁ hs₁))
  obtain ⟨hintime₂, hs₂⟩ := hs₂
  rw [Prog.wp_bind] at hintime₂ ⊢
  refine Prog.wp_mono _ (fun result s₃ hs₃ => ?_) (fun _ _ he => he.2.1.elim)
    (Prog.wp_and _ hintime₂ (Gate.keeps_recheck (E := fun _ => False) hlasting result s₂ hs₂))
  obtain ⟨hintime₃, hs₃⟩ := hs₃
  rw [handOff_eq, Prog.wp_bind, Prog.wp_get, Prog.wp_ite, if_pos (hgate s₃ hs₃)]
  rw [Prog.wp_bind] at hintime₃ ⊢
  refine Prog.wp_mono _ (fun released s₄ hs₄ => ?_) (fun _ _ he => he.2.elim)
    (Prog.wp_and _ hintime₃ (wp_awaitRunner (R := fun _ _ => False) hlasting hs₃))
  obtain ⟨hintime₄, hs₄, hreleased⟩ := hs₄
  obtain rfl : released = true := hintime₄
  exact hlast result s₄ hs₄ hreleased

/-! ## A supervisor that was warned -/

/-- The shutdown ends the run, or nobody has warned the supervisor. -/
def Honoured (script : Nat → Turn) (s : Sup) : Prop :=
  StopBeforeCheck s.trace ∨ Unwarned script s.signals

/-- A check after the stop was published sees it. -/
theorem wp_recheck_asked (result : Outcome) (hasked : Asked s) (hstop : s.stopRequested = true)
    {R : Halt → Sup → Prop} :
    (recheck result).wp (fun _ s' => StopBeforeCheck s'.trace) R s := by
  have hboth : Lasting fun s => Asked s ∧ s.stopRequested = true :=
    throughout_asked.toLasting.and lasting_stop
  unfold recheck checkStop
  rw [Prog.wp_bind, Prog.wp_bind]
  refine wp_stopping hboth.toSteady (n := 0) ⟨hasked, hstop⟩ (Nat.zero_le _) fun s₁ hs₁ _ => ?_
  obtain ⟨hasked₁, hstop₁⟩ := hs₁
  have hbefore : StopBeforeCheck (s₁.emit .check).trace :=
    stopBeforeCheck_check.mpr (hasked₁.mp hstop₁)
  rw [Prog.wp_bind]
  change ((get : SupM Sup) >>= _).wp _ _ (s₁.emit .check)
  rw [Prog.wp_bind, Prog.wp_get, Prog.wp_ite]
  split
  · exact Gate.keeps_finishStop_of_stop throughout_stopBeforeCheck.toLasting hbefore hstop₁
      fun _ _ hs' => hs'
  · exact hbefore

/-- A run that is released in time honours every stop that it was warned of. -/
theorem wp_run_released {rounds : Nat} (hintime : ReleasedInTime rounds s) (hasked : Asked s)
    (hheard : Heard script s.signals) :
    (run rounds).wp (fun _ s' => Honoured script s')
      (fun e s' => e = .unfinished ∨ Honoured script s') s := by
  have hlasting := (throughout_heard script).toLasting.and throughout_asked.toLasting
  have hsettling := (throughout_heard script).toSettling.and throughout_asked.toSettling
  have hgate : Gate (fun s => Heard script s.signals ∧ Asked s)
      (fun s => Heard script s.signals ∧ Asked s) fun s => Heard script s.signals ∧ Asked s :=
    hlasting.gate hsettling.serves (fun s hs => ⟨hs.1, Asked.append hs.2 nofun⟩)
      fun s _ hs => ⟨hs.1, Asked.append hs.2 nofun⟩
  unfold run
  rw [Prog.wp_bind]
  refine Prog.wp_mono _ (fun result s₁ hs₁ => ?_) (fun e _ he => he)
    (wp_supervise_released (Q := fun _ s' => Honoured script s') hgate (fun _ hs => hs.1.gate)
      hintime ⟨hheard, hasked⟩ (fun result s' hs' hreleased => ?_) fun _ => .inl rfl)
  · rcases hs₁ with hs₁ | hs₁
    · refine Prog.wp_mono _ (fun _ _ hs₂ => .inl hs₂.2) (fun e s₂ he => ?_)
        (throughout_stopBeforeCheck.toSettling.wp_leave result hs₁)
      obtain ⟨-, -, -, hs₂⟩ := he
      exact .inr (.inl hs₂)
    · refine Prog.wp_mono _ (fun _ _ hs₂ => .inr hs₂.2) (fun e s₂ he => ?_)
        ((throughout_unwarned script).toSettling.wp_leave result hs₁)
      obtain ⟨-, -, -, hs₂⟩ := he
      exact .inr (.inr hs₂)
  · rcases hs'.1.warned hreleased with hstop | hunwarned
    · exact Prog.wp_mono _ (fun _ _ hs₂ => .inl hs₂) (fun _ _ he => he)
        (wp_recheck_asked result hs'.2 hstop)
    · exact (Gate.keeps_recheck (throughout_unwarned script).toLasting result).returns hunwarned
        fun _ _ hs₂ => .inr hs₂

/-- The shutdown was executed: the stop is recorded once, and its hook fired at most once. -/
structure ShutDown (trace : List Event) : Prop where
  stopped : stops trace = 1
  hook : hooks .stopPre trace ≤ 1

theorem heard_start (config : ManagedApplicationConfig) (script : Nat → Turn) :
    Heard script (Sup.start config script true []).signals :=
  ⟨rfl, rfl, nofun, nofun⟩

/-- A supervisor that is released in time, and not before it was warned, has been shut down when
`run` returns. -/
theorem shutDown_of_run {config : ManagedApplicationConfig} {rounds : Nat}
    {outcome : Except Halt ExitReason}
    (hrun : (run rounds).exec (Sup.start config script true []) = (outcome, s))
    (hintime : ReleasedInTime rounds (Sup.start config script true []))
    (hreturned : outcome ≠ .error .unfinished) (hwarned : ¬Unwarned script s.signals) :
    ShutDown s.trace := by
  have hasked : Asked (Sup.start config script true []) := by
    simp [Asked, Sup.start]
  have hhonoured : Honoured script s := by
    have hwp := wp_run_released hintime hasked (heard_start config script)
    unfold Prog.wp at hwp
    rw [hrun] at hwp
    cases outcome with
    | ok reason => exact hwp
    | error e => exact hwp.resolve_left fun he => hreturned (congrArg Except.error he)
  have hbefore : StopBeforeCheck s.trace := hhonoured.resolve_right hwarned
  have hbookkeeping := run_bookkeeping config script true [] rounds
  rw [hrun] at hbookkeeping
  obtain ⟨hbooks, -, hrecorded, -⟩ := hbookkeeping
  have hmem : .stopped ∈ s.trace := (hrecorded hreturned).mpr hbefore
  have hpositive : 0 < stops s.trace := List.countP_pos_iff.mpr ⟨.stopped, hmem, rfl⟩
  have hatMost := hbooks.stopped
  exact ⟨by omega, hbooks.stopHook⟩

end Ngsm.Supervisor
