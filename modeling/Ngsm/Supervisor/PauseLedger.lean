/-
# Who owns a suspend count

The ledger keeps, for every member, how many suspends minus resumes have been
applied to it, whatever the snapshots, the controls, the clock and the
cancellation answer.  A control that answers `true` was applied once, `false` says
that the member has exited, and an error says that nothing was applied.  The state
owns exactly the counts it has left behind, unless it said that it is degraded.
-/

import Mathlib.Data.List.Nodup
import Mathlib.Tactic.Ring
import Ngsm.Supervisor.PauseState

namespace Ngsm.Supervisor

open Ngsm.Lib

/-- The answers to one question, and the members that have exited meanwhile. -/
structure LedgerTurn where
  exits : List Nat := []
  answer : Except String Bool := .ok true
  snapshot : Except String (List Nat) := .ok []
  cancelled : Bool := false
  now : Nat := 0

structure Ledger where
  turns : List LedgerTurn := []
  counts : Nat → Int := fun _ => 0
  gone : Nat → Bool := fun _ => false

namespace Ledger

/-- The next answers.  A schedule that has run out answers as if nothing happened. -/
def next (l : Ledger) : LedgerTurn × Ledger :=
  match l.turns with
  | [] => ({}, l)
  | turn :: rest =>
      (turn, { l with turns := rest, gone := fun m => l.gone m || turn.exits.contains m })

/-- A control that adds `delta` to the count of the member it is applied to. -/
def control (delta : Int) (process : Nat) : Prog Ledger String Bool :=
  Prog.step fun l =>
    let (turn, l) := l.next
    match turn.answer with
    | .ok true =>
        (.ok true, { l with counts := Function.update l.counts process (l.counts process + delta) })
    | .ok false => (.ok false, { l with gone := Function.update l.gone process true })
    | .error error => (.error error, l)

def running (process : Nat) : Prog Ledger String Bool :=
  Prog.step fun l =>
    let (turn, l) := l.next
    match turn.answer with
    | .ok false => (.ok false, { l with gone := Function.update l.gone process true })
    | answer => (answer, l)

def members : Prog Ledger String (List Nat) :=
  Prog.step fun l => (l.next.1.snapshot, l.next.2)

def interface : Control Ledger where
  members := members
  running := running
  suspend := control 1
  resume := control (-1)
  cancelled l := (l.next.1.cancelled, l.next.2)
  now l := (l.next.1.now, l.next.2)

/-! ## What one question does to the counts -/

/-- One for the members of a list. -/
def ind (members : List Nat) (m : Nat) : Int :=
  if m ∈ members then 1 else 0

/-- The members that are live now were live before and have gained `f` since. -/
def Gained (before : Ledger) (f : Nat → Int) (l : Ledger) : Prop :=
  ∀ m, l.gone m = false → before.gone m = false ∧ l.counts m = before.counts m + f m

variable {before l : Ledger} {f g : Nat → Int}

theorem Gained.congr (h : Gained before f l) (hfg : ∀ m, l.gone m = false → f m = g m) :
    Gained before g l := by
  intro m hm
  rw [← hfg m hm]
  exact h m hm

theorem next_counts (l : Ledger) : l.next.2.counts = l.counts := by
  unfold next
  split <;> rfl

theorem live_of_next {m : Nat} (h : l.next.2.gone m = false) : l.gone m = false := by
  unfold next at h
  split at h
  · exact h
  · exact (Bool.or_eq_false_iff.mp h).1

theorem Gained.next (h : Gained before f l) : Gained before f l.next.2 := by
  intro m hm
  rw [next_counts]
  exact h m (live_of_next hm)

theorem Gained.gone (h : Gained before f l) {process : Nat}
    (hfg : ∀ m, m ≠ process → f m = g m) :
    Gained before g { l with gone := Function.update l.gone process true } := by
  intro m hm
  have hne : m ≠ process := by
    rintro rfl
    simp at hm
  simp only [Function.update_of_ne hne] at hm
  rw [← hfg m hne]
  exact h m hm

theorem Gained.apply (h : Gained before f l) {process : Nat} {delta : Int}
    (hfg : ∀ m, g m = f m + if m = process then delta else 0) :
    Gained before g { l with
      counts := Function.update l.counts process (l.counts process + delta) } := by
  intro m hm
  obtain ⟨hlive, hcount⟩ := h m hm
  refine ⟨hlive, ?_⟩
  rw [hfg m]
  by_cases heq : m = process
  · subst heq
    simp only [Function.update_self, if_true, hcount]
    omega
  · simp only [Function.update_of_ne heq, if_neg heq, hcount]
    omega

/-- Nobody comes back to life. -/
def Later (l l' : Ledger) : Prop :=
  ∀ m, l'.gone m = false → l.gone m = false

/-- A control is applied, or its member has exited, or nothing has happened. -/
theorem wp_control {process : Nat} {delta : Int} {Q : Bool → Ledger → Prop}
    {R : String → Ledger → Prop} (h : Gained before f l)
    (happlied : ∀ l', Later l l' →
      Gained before (fun m => f m + if m = process then delta else 0) l' → Q true l')
    (hexited : ∀ l', Later l l' → l'.gone process = true → Gained before f l' → Q false l')
    (hfailed : ∀ error l', Gained before f l' → R error l') :
    (control delta process).wp Q R l := by
  unfold control
  rw [Prog.wp_step]
  cases hturn : l.next with
  | mk turn l' =>
      have hl' : Gained before f l' := by
        have hnext := h.next
        rwa [hturn] at hnext
      have hlater : Later l l' := by
        intro m hm
        refine live_of_next ?_
        rwa [hturn]
      simp only
      cases turn.answer with
      | error error => exact hfailed error l' hl'
      | ok answer =>
          cases answer with
          | true => exact happlied _ hlater (hl'.apply fun _ => rfl)
          | false =>
              refine hexited _ (fun m hm => hlater m ?_) (by simp) (hl'.gone fun _ _ => rfl)
              by_cases heq : m = process
              · subst heq
                simp at hm
              · simpa [Function.update_of_ne heq] using hm

theorem wp_running {process : Nat} {Q : Bool → Ledger → Prop}
    {R : String → Ledger → Prop} (h : Gained before f l)
    (hrunning : ∀ l', Gained before f l' → Q true l')
    (hexited : ∀ l', l'.gone process = true → Gained before f l' → Q false l')
    (hfailed : ∀ error l', Gained before f l' → R error l') :
    (running process).wp Q R l := by
  unfold running
  rw [Prog.wp_step]
  cases hturn : l.next with
  | mk turn l' =>
      have hl' : Gained before f l' := by
        have hnext := h.next
        rwa [hturn] at hnext
      simp only
      cases turn.answer with
      | error error => exact hfailed error l' hl'
      | ok answer =>
          cases answer with
          | true => exact hrunning l' hl'
          | false => exact hexited _ (by simp) (hl'.gone fun _ _ => rfl)

theorem wp_members {Q : List Nat → Ledger → Prop} {R : String → Ledger → Prop}
    (h : Gained before f l) (hQ : ∀ snapshot l', Gained before f l' → Q snapshot l')
    (hR : ∀ error l', Gained before f l' → R error l') : members.wp Q R l := by
  unfold members
  rw [Prog.wp_step]
  cases l.next.1.snapshot with
  | ok snapshot => exact hQ snapshot _ h.next
  | error error => exact hR error _ h.next

/-! ## A pause -/

open PauseState

section Change

variable {before : Ledger} {st : PauseState}

theorem stable_of_gained {f : Pausing Ledger → Nat → Int} {P : Pausing Ledger → Prop}
    (hf : ∀ p w, f { p with world := w } = f p) (hP : ∀ p w, P p → P { p with world := w }) :
    Stable interface fun p => P p ∧ Gained before (f p) p.world := by
  constructor
  · rintro p ⟨hp, hgained⟩
    refine ⟨hP p _ hp, ?_⟩
    rw [hf]
    exact hgained.next
  · rintro p ⟨hp, hgained⟩
    refine ⟨hP p _ hp, ?_⟩
    rw [hf]
    exact hgained.next

theorem ind_append_singleton {members : List Nat} {process : Nat} (hnew : process ∉ members)
    (m : Nat) : ind (members ++ [process]) m = ind members m + if m = process then 1 else 0 := by
  unfold ind
  by_cases heq : m = process
  · subst heq
    simp [hnew]
  · simp [heq]

theorem nodup_snoc {members : List Nat} {process : Nat} (hnodup : members.Nodup)
    (hnew : process ∉ members) : (members ++ [process]).Nodup := by
  rw [← List.concat_eq_append]
  exact hnodup.concat hnew

theorem ind_cons {rest : List Nat} {process : Nat} (hnew : process ∉ rest) (m : Nat) :
    ind (process :: rest) m = ind rest m + if m = process then 1 else 0 := by
  unfold ind
  by_cases heq : m = process
  · subst heq
    simp [hnew]
  · simp [heq]

theorem ind_reverse (members : List Nat) : ind members.reverse = ind members := by
  funext m
  simp [ind]

/-- The members this call has suspended are counted once each. -/
def Suspending (before : Ledger) (st : PauseState) (p : Pausing Ledger) : Prop :=
  (p.state = st ∧ p.changed.Nodup) ∧ Gained before (ind p.changed) p.world

theorem stable_suspending : Stable interface (Suspending before st) :=
  stable_of_gained (fun _ _ => rfl) fun _ _ h => h

/-- What is left to undo is counted with the given sign. -/
def Undoing (before : Ledger) (st : PauseState) (sign : Int) (rest : List Nat)
    (p : Pausing Ledger) : Prop :=
  (p.state = st ∧ rest.Nodup) ∧ Gained before (fun m => sign * ind rest m) p.world

theorem stable_undoing (sign : Int) (rest : List Nat) :
    Stable interface (Undoing before st sign rest) :=
  stable_of_gained (fun _ _ => rfl) fun _ _ h => h

theorem stable_state (P : PauseState → Prop) :
    Stable interface fun p : Pausing Ledger => P p.state :=
  ⟨fun _ h => h, fun _ h => h⟩

theorem wp_passes (deadline passes : Nat) {p : Pausing Ledger} (h : Suspending before st p) :
    (suspendPasses interface deadline passes).wp (fun _ => Suspending before st)
      (fun _ => Suspending before st) p := by
  refine wp_suspendPasses (K := fun _ _ => Suspending before st) stable_suspending
    (fun _ _ => stable_suspending) (fun _ _ _ h => h) ?_ (fun _ _ _ _ h _ => h) ?_ deadline
    passes h
  · rintro p ⟨hstate, hgained⟩
    rw [wp_onWorld]
    exact wp_members hgained (fun _ _ h' => ⟨hstate, h'⟩) fun _ _ h' => ⟨hstate, h'⟩
  · rintro - process rest p ⟨⟨hstate, hnodup⟩, hgained⟩ hnew
    rw [wp_onWorld]
    refine wp_control hgained (fun l' _ h' => ?_) (fun l' _ _ h' => ?_) fun _ _ h' => ?_
    · refine ⟨⟨hstate, ?_⟩, h'.congr fun m _ => (ind_append_singleton hnew m).symm⟩
      simp only
      exact nodup_snoc hnodup hnew
    · exact ⟨⟨hstate, hnodup⟩, h'⟩
    · exact ⟨⟨hstate, hnodup⟩, h'⟩

/-- Undoing what is counted brings the counts back, or reports an error. -/
theorem wp_undo (suspend : Bool) (deadline : Nat) {p : Pausing Ledger} {sign : Int}
    (hsign : sign = if suspend then -1 else 1) {processes : List Nat}
    (h : Undoing before st sign processes p) :
    (rollbackUntil interface processes suspend deadline).wp
      (fun _ => Undoing before st sign []) (fun _ p => p.state = st) p := by
  have hcontrol : ∀ process, (if suspend then interface.suspend process
      else interface.resume process) = control (-sign) process := by
    intro process
    cases suspend <;> simp [hsign, interface]
  refine wp_rollbackUntil (I := fun p => p.state = st) (stable_state (· = st))
    (stable_undoing sign) (fun _ _ h => h.1.1) ?_ ?_ ?_ ?_ processes deadline ?_
  · rintro process rest p ⟨⟨hstate, hnodup⟩, hgained⟩
    rw [wp_onWorld]
    refine wp_running hgained (fun l' h' => ?_) (fun l' hgone h' => ?_) fun _ _ h' => ?_
    · exact ⟨⟨hstate, hnodup⟩, h'⟩
    · refine ⟨⟨hstate, (List.nodup_cons.mp hnodup).2⟩, h'.congr fun m hm => ?_⟩
      have hne : m ≠ process := by
        rintro rfl
        rw [hgone] at hm
        cases hm
      simp [ind_cons (List.nodup_cons.mp hnodup).1, hne]
    · exact ⟨⟨hstate, hnodup⟩, h'⟩
  · rintro process rest p ⟨⟨hstate, hnodup⟩, hgained⟩
    have hnew := (List.nodup_cons.mp hnodup).1
    have hrest := (List.nodup_cons.mp hnodup).2
    rw [hcontrol, wp_onWorld]
    refine wp_control hgained (fun l' _ h' => ?_) (fun l' _ hgone h' => ?_) fun _ _ h' => hstate
    · refine ⟨⟨hstate, hrest⟩, h'.congr fun m _ => ?_⟩
      rw [ind_cons hnew]
      split
      · ring
      · ring
    · refine ⟨⟨hstate, hrest⟩, h'.congr fun m hm => ?_⟩
      have hne : m ≠ process := by
        rintro rfl
        rw [hgone] at hm
        cases hm
      simp [ind_cons hnew, hne]
  · intro process p hstate
    rw [wp_onWorld]
    exact Prog.wp_of_forall _ (fun _ _ => hstate) fun _ _ => hstate
  · intro process p hstate
    rw [wp_onWorld]
    exact Prog.wp_of_forall _ (fun _ _ => hstate) fun _ _ => hstate
  · obtain ⟨⟨hstate, hnodup⟩, hgained⟩ := h
    refine ⟨⟨hstate, List.nodup_reverse.mpr hnodup⟩, ?_⟩
    rw [ind_reverse]
    exact hgained

/-- What holds of the state whatever the controls answered. -/
structure WellFormed (st : PauseState) : Prop where
  distinct : st.owned.Nodup
  unpaused : st.paused = false → st.owned = []

/-- What a change does to the state and to the counts. -/
def Accounted (before : Ledger) (st : PauseState) (outcome : TransitionOutcome)
    (p : Pausing Ledger) : Prop :=
  WellFormed p.state ∧ (outcome ≠ .applied → p.state.paused = st.paused) ∧
    ((∀ message, outcome ≠ .degraded message) →
      Gained before (fun m => ind p.state.owned m - ind st.owned m) p.world)

theorem accounted_of_gained (outcome : TransitionOutcome)
    {p : Pausing Ledger} (hwell : WellFormed p.state) (hpaused : p.state.paused = st.paused)
    (hgained : Gained before (fun m => ind p.state.owned m - ind st.owned m) p.world) :
    Accounted before st outcome p :=
  ⟨hwell, fun _ => hpaused, fun _ => hgained⟩

theorem accounted_of_degraded (message : String) {p : Pausing Ledger} (hwell : WellFormed p.state)
    (hpaused : p.state.paused = st.paused) : Accounted before st (.degraded message) p :=
  ⟨hwell, fun _ => hpaused, fun hnot => absurd rfl (hnot message)⟩

/-- Nothing has been changed yet. -/
def Untouched (before : Ledger) (st : PauseState) (p : Pausing Ledger) : Prop :=
  p.state = st ∧ Gained before (fun _ => 0) p.world

theorem stable_untouched : Stable interface (Untouched before st) :=
  stable_of_gained (fun _ _ => rfl) fun _ _ h => h

theorem wp_pause (hwell : WellFormed st) (hpaused : st.paused = false) {p : Pausing Ledger}
    (h : Untouched before st p) :
    (pauseMembers interface).wp (Accounted before st) (fun _ _ => False) p := by
  have howned := hwell.unpaused hpaused
  refine wp_pauseMembers (I := Suspending before st) (J := Suspending before st)
    (U := Undoing before st 1 []) (D := fun p => p.state = st) stable_suspending
    (stable_undoing 1 []) (stable_state (· = st)) ?_ (fun _ _ _ h => wp_passes _ _ h) ?_ ?_ ?_ ?_
  · exact ⟨⟨h.1, List.nodup_nil⟩, h.2.congr fun m _ => by simp [ind]⟩
  · intro deadline p hp
    refine wp_undo false deadline (by simp) ⟨hp.1, hp.2.congr fun m _ => ?_⟩
    exact (one_mul _).symm
  · intro p hp
    refine ⟨⟨hp.1.2, nofun⟩, fun hnot => absurd rfl hnot, fun _ => hp.2.congr fun m _ => ?_⟩
    simp [howned, ind]
  · intro outcome p hp _
    obtain ⟨⟨hstate, -⟩, hgained⟩ := hp
    refine accounted_of_gained outcome (hstate ▸ hwell) (by rw [hstate]) (hgained.congr fun m _ => ?_)
    simp [hstate, ind]
  · intro message p hstate
    exact accounted_of_degraded message (hstate ▸ hwell) (by rw [hstate])

/-! ## A continue -/

/-- The resumed members have lost one count each, and the live members that are
still owned and not yet resumed are in the rest. -/
def Resuming (before : Ledger) (st : PauseState) (rest : List Nat) (p : Pausing Ledger) :
    Prop :=
  (p.state = st ∧ (p.changed ++ rest).Nodup ∧ p.changed ++ rest ⊆ st.owned) ∧
    Gained before (fun m => -ind p.changed m) p.world ∧
    ∀ m ∈ st.owned, p.world.gone m = false → m ∈ p.changed ∨ m ∈ rest

theorem stable_resuming (rest : List Nat) : Stable interface (Resuming before st rest) := by
  constructor
  · rintro p ⟨hstate, hgained, hcover⟩
    exact ⟨hstate, hgained.next, fun m hm hlive => hcover m hm (live_of_next hlive)⟩
  · rintro p ⟨hstate, hgained, hcover⟩
    exact ⟨hstate, hgained.next, fun m hm hlive => hcover m hm (live_of_next hlive)⟩

/-- Some members have lost one count each. -/
def Resumed (before : Ledger) (st : PauseState) (p : Pausing Ledger) : Prop :=
  (p.state = st ∧ p.changed.Nodup ∧ p.changed ⊆ st.owned) ∧
    Gained before (fun m => -ind p.changed m) p.world

theorem stable_resumed : Stable interface (Resumed before st) :=
  stable_of_gained (f := fun p m => -ind p.changed m) (fun _ _ => rfl) fun _ _ h => h

/-- The owned members have grown by newly suspended ones. -/
def Restoring (before : Ledger) (st : PauseState) (p : Pausing Ledger) : Prop :=
  (p.state.paused = true ∧ p.state.owned.Nodup) ∧
    Gained before (fun m => ind p.state.owned m - ind st.owned m) p.world

theorem stable_restoring : Stable interface (Restoring before st) :=
  stable_of_gained (f := fun p m => ind p.state.owned m - ind st.owned m) (fun _ _ => rfl)
    fun _ _ h => h

theorem resumed_of_resuming {rest : List Nat} {p : Pausing Ledger}
    (h : Resuming before st rest p) : Resumed before st p :=
  ⟨⟨h.1.1, (List.nodup_append.mp h.1.2.1).1, fun _ hm => h.1.2.2 (List.mem_append_left _ hm)⟩,
    h.2.1⟩

theorem wp_resumeAll (hwell : WellFormed st) (deadline : Nat) {p : Pausing Ledger}
    (h : Resumed before st p) (hnone : p.changed = []) :
    (resumeMembers interface deadline).wp (fun _ => Resuming before st [])
      (fun _ => Resumed before st) p := by
  refine wp_resumeMembers (K := Resuming before st) stable_resuming
    (fun _ _ => resumed_of_resuming) ?_ deadline ?_
  · rintro process rest p ⟨⟨hstate, hnodup, hsub⟩, hgained, hcover⟩
    rw [wp_onWorld]
    refine wp_control hgained (fun l' hlater h' => ?_) (fun l' hlater hgone h' => ?_) fun _ _ h' => ?_
    · have hnew : process ∉ p.changed := by
        intro hin
        exact (List.nodup_append.mp hnodup).2.2 process hin process (by simp) rfl
      simp only [if_true]
      refine ⟨⟨hstate, by simpa using hnodup, by simpa using hsub⟩, h'.congr fun m _ => ?_,
        fun m hm hlive => ?_⟩
      · simp only
        rw [ind_append_singleton hnew]
        split <;> ring
      · rcases hcover m hm (hlater m hlive) with hin | hin
        · exact .inl (List.mem_append_left _ hin)
        · rcases List.mem_cons.mp hin with rfl | hin
          · exact .inl (by simp)
          · exact .inr hin
    · simp only [Bool.false_eq_true, if_false]
      have hsublist : (p.changed ++ rest).Sublist (p.changed ++ process :: rest) :=
        (List.sublist_cons_self process rest).append_left p.changed
      refine ⟨⟨hstate, hnodup.sublist hsublist, fun m hm => hsub (hsublist.subset hm)⟩, h',
        fun m hm hlive => ?_⟩
      rcases hcover m hm (hlater m hlive) with hin | hin
      · exact .inl hin
      · rcases List.mem_cons.mp hin with rfl | hin
        · rw [hgone] at hlive
          cases hlive
        · exact .inr hin
    · exact ⟨⟨hstate, (List.nodup_append.mp hnodup).1,
        fun m hm => hsub (List.mem_append_left _ hm)⟩, h'⟩
  · obtain ⟨⟨hstate, -, -⟩, hgained⟩ := h
    refine ⟨⟨hstate, ?_, ?_⟩, hgained, fun m hm _ => .inr ?_⟩
    · rw [hnone, hstate]
      simpa using hwell.distinct
    · rw [hnone, hstate]
      intro m hm
      simpa using hm
    · rw [hstate]
      simpa using hm

theorem wp_restore (deadline : Nat) {p : Pausing Ledger} (h : Restoring before st p) :
    (restorePausedMembers interface deadline 0 maxMemberPasses).wp (fun _ => Restoring before st)
      (fun _ => Restoring before st) p := by
  refine wp_restorePausedMembers (K := fun _ _ => Restoring before st) stable_restoring
    (fun _ _ => stable_restoring) (fun _ _ _ h => h) ?_ (fun _ _ _ _ h _ => h) ?_ deadline 0 _ h
  · rintro p ⟨hstate, hgained⟩
    rw [wp_onWorld]
    exact wp_members hgained (fun _ _ h' => ⟨hstate, h'⟩) fun _ _ h' => ⟨hstate, h'⟩
  · rintro - process rest p ⟨⟨hpaused, hnodup⟩, hgained⟩ hnew
    rw [wp_onWorld]
    refine wp_control hgained (fun l' _ h' => ?_) (fun l' _ _ h' => ?_) fun _ _ h' => ?_
    · refine ⟨⟨hpaused, nodup_snoc hnodup hnew⟩, h'.congr fun m _ => ?_⟩
      simp only
      rw [ind_append_singleton hnew]
      ring
    · exact ⟨⟨hpaused, hnodup⟩, h'⟩
    · exact ⟨⟨hpaused, hnodup⟩, h'⟩

theorem wp_resume (hwell : WellFormed st) (hpaused : st.paused = true) {p : Pausing Ledger}
    (h : Untouched before st p) :
    (resumeOwned interface).wp (Accounted before st) (fun _ _ => False) p := by
  have hdegraded : Stable interface fun p : Pausing Ledger =>
      p.state.paused = true ∧ p.state.owned.Nodup :=
    stable_state fun st => st.paused = true ∧ st.owned.Nodup
  refine wp_resumeOwned (I := Resumed before st) (J := Resuming before st [])
    (M := Restoring before st) (U := Restoring before st)
    (D := fun p => p.state.paused = true ∧ p.state.owned.Nodup) stable_resumed stable_restoring
    hdegraded ?_ (fun _ _ h hnone => wp_resumeAll hwell _ h hnone) ?_ ?_ ?_ ?_ ?_
  · exact ⟨⟨h.1, List.nodup_nil, nofun⟩, h.2.congr fun m _ => by simp [ind]⟩
  · rintro deadline p ⟨⟨hstate, hnodup, -⟩, hgained⟩
    have hundoing : Undoing before st (-1) p.changed p :=
      ⟨⟨hstate, hnodup⟩, hgained.congr fun m _ => by ring⟩
    refine Prog.wp_mono _ ?_ ?_ (wp_undo true deadline (by simp) hundoing)
    · rintro _ p' ⟨⟨hstate', -⟩, hgained'⟩
      refine ⟨by rw [hstate']; exact ⟨hpaused, hwell.distinct⟩, hgained'.congr fun m _ => ?_⟩
      simp [hstate', ind]
    · rintro _ p' hstate'
      rw [hstate']
      exact ⟨hpaused, hwell.distinct⟩
  · intro deadline p hp
    exact Prog.wp_mono _ (fun _ _ h' => h') (fun _ _ h' => h'.1) (wp_restore deadline hp)
  · rintro p ⟨⟨hstate, hnodup, hsub⟩, hgained, hcover⟩
    refine ⟨⟨List.nodup_nil, fun _ => rfl⟩, fun hnot => absurd rfl hnot, fun _ => ?_⟩
    refine hgained.congr fun m hlive => ?_
    by_cases hm : m ∈ st.owned
    · have hin : m ∈ p.changed := (hcover m hm hlive).resolve_right nofun
      simp [ind, hm, hin]
    · have hout : m ∉ p.changed := fun hin => hm (hsub (List.mem_append_left _ hin))
      simp [ind, hm, hout]
  · rintro outcome p ⟨⟨hpaused', hnodup⟩, hgained⟩ _
    exact accounted_of_gained outcome ⟨hnodup, fun hnot => by rw [hpaused'] at hnot; cases hnot⟩
      (hpaused'.trans hpaused.symm) hgained
  · rintro message p ⟨hpaused', hnodup⟩
    exact accounted_of_degraded message
      ⟨hnodup, fun hnot => by rw [hpaused'] at hnot; cases hnot⟩ (hpaused'.trans hpaused.symm)

/-- The specification of a change, for every answer it may get. -/
theorem wp_accounted (hwell : WellFormed st) (pause : Bool) {p : Pausing Ledger}
    (h : Untouched before st p) :
    (change interface pause).wp (Accounted before st) (fun _ _ => False) p := by
  have hnothing : ∀ outcome p, Untouched before st p → Accounted before st outcome p := by
    rintro outcome p ⟨hstate, hgained⟩
    refine accounted_of_gained outcome (hstate ▸ hwell) (by rw [hstate]) ?_
    exact hgained.congr fun m _ => by simp [hstate]
  refine wp_change stable_untouched pause h (hnothing .cancelled)
    (fun p hp _ => hnothing .applied p hp) ?_ ?_
  · intro _ p hp hpaused
    exact wp_pause hwell (by rw [← hp.1]; exact hpaused) hp
  · intro _ p hp hpaused
    exact wp_resume hwell (by rw [← hp.1]; exact hpaused) hp

end Change

/-! ## Whole runs -/

/-- A request to the pause state.  The answers come with a change; a new
generation begins with members that nobody has touched. -/
inductive Request where
  | change (pause : Bool) (turns : List LedgerTurn)
  | clearGeneration

structure Book where
  ledger : Ledger := {}
  state : PauseState := {}
  degraded : Bool := false

/-- One change on the books. -/
def Book.change (b : Book) (pause : Bool) (turns : List LedgerTurn) : TransitionOutcome × Book :=
  match (PauseState.change interface pause).exec
      { world := { b.ledger with turns }, state := b.state } with
  | (.ok outcome, p) =>
      (outcome, {
        ledger := p.world
        state := p.state
        degraded := b.degraded || match outcome with | .degraded _ => true | _ => false })
  | (.error error, p) => (.degraded error, { ledger := p.world, state := p.state, degraded := true })

def Book.perform (b : Book) : Request → Book
  | .change pause turns => (b.change pause turns).2
  | .clearGeneration =>
      { b with ledger := {}, state := PauseState.clearGeneration b.state }

/-- The books balance: every live member has the count the state says it owns. -/
structure Balanced (b : Book) : Prop where
  wellFormed : WellFormed b.state
  counts : b.degraded = false → ∀ m, b.ledger.gone m = false →
    b.ledger.counts m = ind b.state.owned m

/-- The specification on the books. -/
theorem change_accounted {b : Book} (hwell : WellFormed b.state) (pause : Bool)
    (turns : List LedgerTurn) :
    Accounted b.ledger b.state (b.change pause turns).1
      { world := (b.change pause turns).2.ledger, state := (b.change pause turns).2.state } := by
  have hstart : Untouched b.ledger b.state
      { world := { b.ledger with turns }, state := b.state } :=
    ⟨rfl, fun m hlive => ⟨hlive, (add_zero _).symm⟩⟩
  obtain ⟨outcome, p, hexec, hpost⟩ :=
    Prog.exists_ok_of_wp _ (wp_accounted hwell pause hstart)
  unfold Book.change
  rw [hexec]
  exact hpost

theorem not_degraded_of_change {b : Book} {pause : Bool} {turns : List LedgerTurn}
    (h : (b.change pause turns).2.degraded = false) :
    b.degraded = false ∧ ∀ message, (b.change pause turns).1 ≠ .degraded message := by
  unfold Book.change at h ⊢
  split at h
  · rename_i outcome p _
    simp only [Bool.or_eq_false_iff] at h
    refine ⟨h.1, fun message heq => ?_⟩
    simp only at heq
    rw [heq] at h
    cases h.2
  · cases h

theorem balanced_perform {b : Book} (h : Balanced b) (request : Request) :
    Balanced (b.perform request) := by
  cases request with
  | clearGeneration =>
      refine ⟨⟨List.nodup_nil, fun _ => rfl⟩, fun _ m _ => ?_⟩
      simp [Book.perform, PauseState.clearGeneration, ind]
  | change pause turns =>
      obtain ⟨hwell, -, hgained⟩ := change_accounted h.wellFormed pause turns
      refine ⟨hwell, fun hdegraded m hlive => ?_⟩
      obtain ⟨hclean, houtcome⟩ := not_degraded_of_change hdegraded
      obtain ⟨hbefore, hcount⟩ := hgained houtcome m hlive
      rw [h.counts hclean m hbefore] at hcount
      rw [Book.perform, hcount]
      ring

/-- The run of a list of requests from a fresh state. -/
def Book.run (requests : List Request) : Book :=
  requests.foldl Book.perform {}

theorem balanced_run (requests : List Request) : Balanced (Book.run requests) :=
  List.foldlRecOn requests Book.perform
    ⟨⟨List.nodup_nil, fun _ => rfl⟩, fun _ _ _ => by simp [ind]⟩
    fun _ h request _ => balanced_perform h request

/-- After every finite sequence of requests, whatever was answered: the owned
members are distinct, and none while not paused; as long as no change was degraded
every live member has the count that the owned list says.  And for the next change:
only an applied one moves the paused flag, and one that leaves a live member with a
count it does not record says that it is degraded. -/
theorem suspend_counts_owned (requests : List Request) (pause : Bool) (turns : List LedgerTurn) :
    ((Book.run requests).state.owned.Nodup ∧
      ((Book.run requests).state.paused = false → (Book.run requests).state.owned = []) ∧
      ((Book.run requests).degraded = false → ∀ m, (Book.run requests).ledger.gone m = false →
        (Book.run requests).ledger.counts m =
          if m ∈ (Book.run requests).state.owned then 1 else 0)) ∧
    (((Book.run requests).change pause turns).1 ≠ .applied →
      ((Book.run requests).change pause turns).2.state.paused =
        (Book.run requests).state.paused) ∧
    ((∃ m, ((Book.run requests).change pause turns).2.ledger.gone m = false ∧
        ((Book.run requests).change pause turns).2.ledger.counts m -
            (Book.run requests).ledger.counts m ≠
          ind ((Book.run requests).change pause turns).2.state.owned m -
            ind (Book.run requests).state.owned m) →
      ∃ message, ((Book.run requests).change pause turns).1 = .degraded message) := by
  have hbalanced := balanced_run requests
  generalize Book.run requests = b at hbalanced ⊢
  obtain ⟨-, hpaused, hgained⟩ := change_accounted hbalanced.wellFormed pause turns
  refine ⟨⟨hbalanced.wellFormed.distinct, hbalanced.wellFormed.unpaused, hbalanced.counts⟩,
    hpaused, ?_⟩
  rintro ⟨m, hlive, hcount⟩
  by_contra hclean
  push Not at hclean
  refine hcount ?_
  rw [(hgained hclean m hlive).2]
  ring

end Ledger

end Ngsm.Supervisor
