/-
# When the broker may exit

The broker exits once it has been idle for a while.  Requests are admitted, and their
work guards dropped, on the threads of the connections; the watchdog asks from time to
time whether it may exit.  All of them take the same lock, so a history is a sequence
of these calls, each with a reading of the clock.

Work without a valid token counts as work, and its response is still sent, but it
does not move the time of the last activity.
-/

import Ngsm.Lib.Runs

namespace Ngsm.Broker

open Ngsm.Lib

/-- The clock is read in nanoseconds. -/
abbrev Instant := ℕ

structure ActivityState where
  lastActivity : Instant
  activeWork : ℕ := 0
  authenticatedWork : ℕ := 0
  draining : Bool := false
  shutdownClaimed : Bool := false
  deriving DecidableEq, Repr

namespace ActivityState

def new (now : Instant) : ActivityState :=
  { lastActivity := now }

/-- Admit a request, unless the broker is about to exit. -/
def admitAt (authenticated : Bool) (now : Instant) (state : ActivityState) :
    Option ActivityState :=
  if state.draining || state.shutdownClaimed then
    none
  else if authenticated then
    some { state with
      activeWork := state.activeWork + 1
      authenticatedWork := state.authenticatedWork + 1
      lastActivity := now }
  else
    some { state with activeWork := state.activeWork + 1 }

/-- A subtraction that would underflow has no result. -/
def checkedPred : ℕ → Option ℕ
  | 0 => none
  | count + 1 => some count

/-- The drop of a work guard. -/
def finish (authenticated : Bool) (now : Instant) (state : ActivityState) :
    Option ActivityState :=
  if authenticated then do
    let authenticatedWork ← checkedPred state.authenticatedWork
    let activeWork ← checkedPred state.activeWork
    some { state with lastActivity := now, authenticatedWork, activeWork }
  else do
    let activeWork ← checkedPred state.activeWork
    some { state with activeWork }

/-- The watchdog's question, with its answer. -/
def claimIdleShutdown (now timeout : ℕ) (state : ActivityState) : Bool × ActivityState :=
  if state.shutdownClaimed || state.authenticatedWork != 0 then
    (false, state)
  else
    let draining := state.draining || timeout ≤ now - state.lastActivity
    if draining && state.activeWork == 0 then
      (true, { state with draining, shutdownClaimed := true })
    else
      (false, { state with draining })

/-- A question that finds no authenticated work. -/
theorem claimIdleShutdown_free {state : ActivityState} (hclaimed : state.shutdownClaimed = false)
    (hwork : state.authenticatedWork = 0) (now timeout : ℕ) :
    state.claimIdleShutdown now timeout =
      let draining := state.draining || timeout ≤ now - state.lastActivity
      let exit := draining && state.activeWork == 0
      (exit, { state with draining, shutdownClaimed := exit }) := by
  have hfree : ¬ (state.shutdownClaimed || state.authenticatedWork != 0) = true := by
    simp [hclaimed, hwork]
  rw [claimIdleShutdown, if_neg hfree, hclaimed]
  dsimp only
  split
  · rename_i hexit
    rw [hexit]
  · rename_i hexit
    rw [Bool.not_eq_true] at hexit
    rw [hexit]

end ActivityState

/-! ## Histories -/

inductive Event where
  | admitAt (authenticated : Bool) (now : Instant)
  | finish (authenticated : Bool) (now : Instant)
  | claim (now timeout : ℕ)
  deriving DecidableEq, Repr

namespace Event

def now : Event → Instant
  | admitAt _ now | finish _ now | claim now _ => now

/-- The calls that are not made for a request without a valid token. -/
def authentic : Event → Option Event
  | admitAt false _ | finish false _ => none
  | event => some event

end Event

/-- The lock's contents, with what nobody keeps: the guards that are alive, how often
the watchdog was told to exit, and when authenticated work was admitted or completed. -/
structure Server where
  activity : ActivityState
  live : List Bool := []
  exits : ℕ := 0
  touched : List Instant

namespace Server

def new (now : Instant) : Server :=
  { activity := .new now, touched := [now] }

/-- The authenticated work leaves its time. -/
def touch (authenticated : Bool) (now : Instant) (touched : List Instant) : List Instant :=
  if authenticated then touched ++ [now] else touched

/-- One call under the lock; only a live guard can be dropped. -/
def step (server : Server) : Event → Option Server
  | .admitAt authenticated now =>
      match server.activity.admitAt authenticated now with
      | some activity => some { server with
          activity, live := authenticated :: server.live,
          touched := touch authenticated now server.touched }
      | none => some server
  | .finish authenticated now =>
      if authenticated ∈ server.live then
        (server.activity.finish authenticated now).map fun activity => { server with
          activity, live := server.live.erase authenticated,
          touched := touch authenticated now server.touched }
      else
        none
  | .claim now timeout =>
      let (exit, activity) := server.activity.claimIdleShutdown now timeout
      some { server with activity, exits := server.exits + exit.toNat }

/-- What every history keeps: the counters are the numbers of live guards, and the
watchdog is told to exit once and only without work. -/
structure Counted (server : Server) : Prop where
  active : server.activity.activeWork = server.live.length
  authenticated : server.activity.authenticatedWork = server.live.count true
  exits : server.exits = server.activity.shutdownClaimed.toNat
  draining : server.activity.shutdownClaimed = true → server.activity.draining = true
  last : server.touched.getLast? = some server.activity.lastActivity

theorem Counted.new (now : Instant) : Counted (new now) := by
  apply Counted.mk
  · rfl
  · rfl
  · rfl
  · intro h
    cases h
  · rfl

/-- What an admission leaves. -/
def admitted (server : Server) (authenticated : Bool) (now : Instant) : Server where
  activity := { server.activity with
    activeWork := server.activity.activeWork + 1
    authenticatedWork := server.activity.authenticatedWork + authenticated.toNat
    lastActivity := if authenticated then now else server.activity.lastActivity }
  live := authenticated :: server.live
  exits := server.exits
  touched := touch authenticated now server.touched

/-- What the drop of a live guard leaves. -/
def finished (server : Server) (authenticated : Bool) (now : Instant) : Server where
  activity := { server.activity with
    activeWork := server.activity.activeWork - 1
    authenticatedWork := server.activity.authenticatedWork - authenticated.toNat
    lastActivity := if authenticated then now else server.activity.lastActivity }
  live := server.live.erase authenticated
  exits := server.exits
  touched := touch authenticated now server.touched

/-- What a question leaves that finds no authenticated work. -/
def asked (server : Server) (now timeout : ℕ) : Server :=
  let draining :=
    server.activity.draining || decide (timeout ≤ now - server.activity.lastActivity)
  let exit := draining && server.live.isEmpty
  { server with
    activity := { server.activity with draining, shutdownClaimed := exit }
    exits := server.exits + exit.toNat }

section

variable {server next : Server} {e : Event}

theorem Counted.finish (h : Counted server) {authenticated : Bool}
    (hlive : authenticated ∈ server.live) (now : Instant) :
    server.activity.finish authenticated now =
      some (server.finished authenticated now).activity := by
  have hactive : 0 < server.activity.activeWork := by
    rw [h.active]
    exact List.length_pos_of_mem hlive
  obtain ⟨active, hactive⟩ := Nat.exists_eq_add_one.mpr hactive
  unfold ActivityState.finish finished
  cases authenticated with
  | false => simp [hactive, ActivityState.checkedPred]
  | true =>
      have hauthenticated : 0 < server.activity.authenticatedWork := by
        rw [h.authenticated]
        exact List.count_pos_iff.mpr hlive
      obtain ⟨work, hwork⟩ := Nat.exists_eq_add_one.mpr hauthenticated
      simp [hactive, hwork, ActivityState.checkedPred]

theorem Counted.admitAt (h : Counted server) (authenticated : Bool) (now : Instant) :
    server.step (.admitAt authenticated now) =
      some (if server.activity.draining then server else server.admitted authenticated now) := by
  have hgate : (server.activity.draining || server.activity.shutdownClaimed) =
      server.activity.draining := by
    cases hclaimed : server.activity.shutdownClaimed with
    | false => exact Bool.or_false _
    | true => rw [h.draining hclaimed, Bool.true_or]
  rw [step, ActivityState.admitAt, hgate]
  by_cases hdraining : server.activity.draining = true
  · rw [if_pos hdraining, if_pos hdraining]
  · rw [if_neg hdraining, if_neg hdraining]
    cases authenticated <;> rfl

theorem Counted.drop (h : Counted server) {authenticated : Bool}
    (hlive : authenticated ∈ server.live) (now : Instant) :
    server.step (.finish authenticated now) = some (server.finished authenticated now) := by
  rw [step, if_pos hlive, h.finish hlive]
  rfl

/-- A question is refused while authenticated work is live, and after an exit was
granted. -/
theorem Counted.claim (h : Counted server) (now timeout : ℕ) :
    server.step (.claim now timeout) =
      some (if server.activity.shutdownClaimed = true ∨ true ∈ server.live then server
        else server.asked now timeout) := by
  by_cases hbusy : server.activity.shutdownClaimed = true ∨ true ∈ server.live
  · have hrefused : (server.activity.shutdownClaimed ||
        server.activity.authenticatedWork != 0) = true := by
      rw [Bool.or_eq_true, bne_iff_ne, h.authenticated, ← Nat.pos_iff_ne_zero,
        List.count_pos_iff]
      exact hbusy
    rw [if_pos hbusy, step, ActivityState.claimIdleShutdown, if_pos hrefused]
    rfl
  · rw [if_neg hbusy]
    rw [not_or, Bool.not_eq_true] at hbusy
    have hwork : server.activity.authenticatedWork = 0 := by
      rw [h.authenticated, List.count_eq_zero]
      exact hbusy.2
    have hempty : (server.activity.activeWork == 0) = server.live.isEmpty := by
      rw [h.active, Bool.eq_iff_iff, beq_iff_eq, List.isEmpty_iff, List.length_eq_zero_iff]
    rw [step, ActivityState.claimIdleShutdown_free hbusy.1 hwork, hempty]
    rfl

/-- Everything that a call can do. -/
theorem Counted.step_cases (h : Counted server) (hstep : server.step e = some next) :
    (∃ authenticated now, e = .admitAt authenticated now ∧ server.activity.draining = true ∧
      next = server) ∨
    (∃ authenticated now, e = .admitAt authenticated now ∧ server.activity.draining = false ∧
      next = server.admitted authenticated now) ∨
    (∃ authenticated now, e = .finish authenticated now ∧ authenticated ∈ server.live ∧
      next = server.finished authenticated now) ∨
    (∃ now timeout, e = .claim now timeout ∧
      (server.activity.shutdownClaimed = true ∨ true ∈ server.live) ∧ next = server) ∨
    (∃ now timeout, e = .claim now timeout ∧ server.activity.shutdownClaimed = false ∧
      true ∉ server.live ∧ next = server.asked now timeout) := by
  cases e with
  | admitAt authenticated now =>
      rw [h.admitAt] at hstep
      cases hstep
      by_cases hdraining : server.activity.draining = true
      · rw [if_pos hdraining]
        exact .inl ⟨authenticated, now, rfl, hdraining, rfl⟩
      · rw [if_neg hdraining]
        exact .inr (.inl ⟨authenticated, now, rfl, Bool.not_eq_true _ ▸ hdraining, rfl⟩)
  | finish authenticated now =>
      by_cases hlive : authenticated ∈ server.live
      · rw [h.drop hlive] at hstep
        cases hstep
        exact .inr (.inr (.inl ⟨authenticated, now, rfl, hlive, rfl⟩))
      · rw [step, if_neg hlive] at hstep
        cases hstep
  | claim now timeout =>
      rw [h.claim] at hstep
      cases hstep
      by_cases hbusy : server.activity.shutdownClaimed = true ∨ true ∈ server.live
      · rw [if_pos hbusy]
        exact .inr (.inr (.inr (.inl ⟨now, timeout, rfl, hbusy, rfl⟩)))
      · rw [if_neg hbusy]
        rw [not_or, Bool.not_eq_true] at hbusy
        exact .inr (.inr (.inr (.inr ⟨now, timeout, rfl, hbusy.1, hbusy.2, rfl⟩)))

theorem Counted.step (h : Counted server) (hstep : server.step e = some next) :
    Counted next := by
  rcases h.step_cases hstep with ⟨_, _, -, -, rfl⟩ | ⟨authenticated, now, -, hdraining, rfl⟩ |
    ⟨authenticated, now, -, hlive, rfl⟩ | ⟨_, _, -, -, rfl⟩ | ⟨now, timeout, -, hclaimed, -, rfl⟩
  · exact h
  · have hnot : server.activity.shutdownClaimed ≠ true := fun hclaimed => by
      rw [h.draining hclaimed] at hdraining
      cases hdraining
    apply Counted.mk
    · exact congrArg (· + 1) h.active
    · cases authenticated <;> simp [admitted, h.authenticated]
    · exact h.exits
    · exact fun hclaimed => absurd hclaimed hnot
    · cases authenticated with
      | false => exact h.last
      | true => exact List.getLast?_concat
  · apply Counted.mk
    · rw [finished, List.length_erase_of_mem hlive, ← h.active]
    · cases authenticated <;> simp [finished, h.authenticated]
    · exact h.exits
    · exact h.draining
    · cases authenticated with
      | false => exact h.last
      | true => exact List.getLast?_concat
  · exact h
  · apply Counted.mk
    · exact h.active
    · exact h.authenticated
    · rw [asked, h.exits, hclaimed]
      exact Nat.zero_add _
    · exact fun hexit => ((Bool.and_eq_true _ _).mp hexit).1
    · exact h.last

/-- An exit is granted when no work is live, and none is admitted from then on. -/
theorem Counted.exit_idle (h : Counted server) (hstep : server.step e = some next)
    (hexits : next.exits ≠ server.exits) :
    next.exits = server.exits + 1 ∧ server.live = [] ∧ next.live = [] := by
  rcases h.step_cases hstep with ⟨_, _, -, -, rfl⟩ | ⟨_, _, -, -, rfl⟩ |
    ⟨_, _, -, -, rfl⟩ | ⟨_, _, -, -, rfl⟩ | ⟨now, timeout, -, -, -, rfl⟩
  · exact absurd rfl hexits
  · exact absurd rfl hexits
  · exact absurd rfl hexits
  · exact absurd rfl hexits
  · have hexit : (server.asked now timeout).activity.shutdownClaimed = true := by
      by_contra hnot
      rw [Bool.not_eq_true] at hnot
      exact hexits (congrArg (fun exit : Bool => server.exits + exit.toNat) hnot)
    have hidle : server.live = [] := List.isEmpty_iff.mp ((Bool.and_eq_true _ _).mp hexit).2
    exact ⟨congrArg (fun exit : Bool => server.exits + exit.toNat) hexit, hidle, hidle⟩

/-- Once the broker drains it admits nothing and goes on draining. -/
theorem Counted.draining_step (h : Counted server) (hstep : server.step e = some next)
    (hdraining : server.activity.draining = true) :
    next.activity.draining = true ∧ ∀ authenticated now, e = .admitAt authenticated now →
      next = server := by
  rcases h.step_cases hstep with ⟨_, _, -, -, rfl⟩ | ⟨_, _, -, hnot, rfl⟩ |
    ⟨_, _, rfl, -, rfl⟩ | ⟨_, _, -, -, rfl⟩ | ⟨now, timeout, rfl, -, -, rfl⟩
  · exact ⟨hdraining, fun _ _ _ => rfl⟩
  · rw [hdraining] at hnot
    cases hnot
  · refine ⟨hdraining, fun _ _ h => ?_⟩
    cases h
  · exact ⟨hdraining, fun _ _ _ => rfl⟩
  · refine ⟨?_, fun _ _ h => ?_⟩
    · simp [asked, hdraining]
    · cases h

/-- Draining begins with a question, without authenticated work, and after the
timeout. -/
theorem Counted.draining_begins (h : Counted server) (hstep : server.step e = some next)
    (hbefore : server.activity.draining = false) (hafter : next.activity.draining = true) :
    ∃ now timeout, e = .claim now timeout ∧ true ∉ server.live ∧
      timeout ≤ now - server.activity.lastActivity := by
  rcases h.step_cases hstep with ⟨_, _, -, -, rfl⟩ | ⟨_, _, -, -, rfl⟩ |
    ⟨_, _, -, -, rfl⟩ | ⟨_, _, -, -, rfl⟩ | ⟨now, timeout, rfl, -, hidle, rfl⟩
  · rw [hbefore] at hafter
    cases hafter
  · exact absurd (hbefore.symm.trans hafter) (by simp)
  · exact absurd (hbefore.symm.trans hafter) (by simp)
  · rw [hbefore] at hafter
    cases hafter
  · refine ⟨now, timeout, rfl, hidle, ?_⟩
    simpa [asked, hbefore] using hafter

end

/-! ## Whole histories -/

section

variable {start : Instant} {es : List Event} {server next : Server} {e : Event}

theorem counted (hrun : Runs.run step (new start) es = some server) : Counted server :=
  Runs.run_invariant Counted (Counted.new start) (fun _ _ _ h => h.step) hrun

/-- The recorded times are readings of the history. -/
theorem touched_sublist (hrun : Runs.run step (new start) es = some server) :
    server.touched.Sublist (start :: es.map Event.now) := by
  have hboth := Runs.run_history
    (fun past (server : Server) => Counted server ∧
      server.touched.Sublist (start :: past.map Event.now))
    ⟨Counted.new start, List.Sublist.refl _⟩ ?_ hrun
  · exact hboth.2
  · rintro past mid e next ⟨hmid, hsub⟩ hstep
    refine ⟨hmid.step hstep, ?_⟩
    rw [List.map_append, ← List.cons_append]
    have hsame : mid.touched.Sublist ((start :: past.map Event.now) ++ [e].map Event.now) :=
      hsub.trans (List.sublist_append_left _ _)
    have hmore : ∀ authenticated now, e.now = now → (touch authenticated now mid.touched).Sublist
        ((start :: past.map Event.now) ++ [e].map Event.now) := by
      rintro authenticated now rfl
      cases authenticated with
      | false => exact hsame
      | true => exact hsub.append (List.Sublist.refl _)
    rcases hmid.step_cases hstep with ⟨_, _, -, -, rfl⟩ | ⟨authenticated, now, rfl, -, rfl⟩ |
      ⟨authenticated, now, rfl, -, rfl⟩ | ⟨_, _, -, -, rfl⟩ | ⟨now, timeout, rfl, -, -, rfl⟩
    · exact hsame
    · exact hmore authenticated now rfl
    · exact hmore authenticated now rfl
    · exact hsame
    · exact hsame

/-- With readings that do not decrease, the last authenticated work is the latest. -/
theorem touched_le (hrun : Runs.run step (new start) es = some server) {now : Instant}
    (hclock : (start :: (es.map Event.now ++ [now])).Pairwise (· ≤ ·)) :
    server.activity.lastActivity ≤ now ∧
      ∀ t ∈ server.touched, t ≤ server.activity.lastActivity := by
  have hsub := touched_sublist hrun
  obtain ⟨earlier, hearlier⟩ := List.getLast?_eq_some_iff.mp (counted hrun).last
  rw [← List.cons_append, List.pairwise_append] at hclock
  obtain ⟨hsorted, -, hnow⟩ := hclock
  have htouched := hsorted.sublist hsub
  have hmem : server.activity.lastActivity ∈ start :: es.map Event.now :=
    hsub.subset (by rw [hearlier]; exact List.mem_concat_self)
  refine ⟨hnow _ hmem _ List.mem_cons_self, ?_⟩
  intro t ht
  rw [hearlier] at htouched ht
  rcases List.mem_append.mp ht with hbefore | hlast
  · exact (List.pairwise_append.mp htouched).2.2 t hbefore _ List.mem_cons_self
  · exact Nat.le_of_eq (List.mem_singleton.mp hlast)

/-- Two servers that saw the same authenticated work. -/
structure Agrees (server silent : Server) : Prop where
  counts : Counted server
  silentCounts : Counted silent
  live : silent.live.count true = server.live.count true
  last : silent.activity.lastActivity = server.activity.lastActivity
  draining : silent.activity.draining = server.activity.draining
  touched : silent.touched = server.touched

theorem Agrees.mem_live {silent : Server} (h : Agrees server silent) :
    true ∈ silent.live ↔ true ∈ server.live := by
  rw [← List.count_pos_iff, ← List.count_pos_iff, h.live]

/-- Work without a valid token changes nothing that the drain depends on. -/
theorem Agrees.silent_step {silent : Server} (h : Agrees server silent)
    (hauthentic : e.authentic = none) (hstep : server.step e = some next) :
    Agrees next silent := by
  have hnext := h.counts.step hstep
  rcases h.counts.step_cases hstep with ⟨_, _, -, -, rfl⟩ | ⟨authenticated, now, rfl, -, rfl⟩ |
    ⟨authenticated, now, rfl, -, rfl⟩ | ⟨_, _, rfl, -, -⟩ | ⟨_, _, rfl, -, -, -⟩
  · exact h
  · cases authenticated with
    | true => cases hauthentic
    | false =>
        refine ⟨hnext, h.silentCounts, ?_, h.last, h.draining, h.touched⟩
        simp [admitted, h.live]
  · cases authenticated with
    | true => cases hauthentic
    | false =>
        refine ⟨hnext, h.silentCounts, ?_, h.last, h.draining, h.touched⟩
        simp [finished, h.live]
  · cases hauthentic
  · cases hauthentic

theorem Agrees.admitAt {silent : Server} (h : Agrees server silent) (now : Instant)
    (hstep : server.step (.admitAt true now) = some next) :
    ∃ silent', silent.step (.admitAt true now) = some silent' ∧ Agrees next silent' := by
  have hnext := h.counts.step hstep
  have hsilent := h.silentCounts.admitAt true now
  refine ⟨_, hsilent, ?_⟩
  have hsilentCounts := h.silentCounts.step hsilent
  rw [h.counts.admitAt] at hstep
  cases hstep
  rw [h.draining] at hsilentCounts ⊢
  split
  · exact h
  · rename_i hdraining
    rw [if_neg hdraining] at hnext hsilentCounts
    refine ⟨hnext, hsilentCounts, ?_, rfl, h.draining, ?_⟩
    · simp [admitted, h.live]
    · exact congrArg (touch true now) h.touched

theorem Agrees.drop {silent : Server} (h : Agrees server silent) (now : Instant)
    (hstep : server.step (.finish true now) = some next) :
    ∃ silent', silent.step (.finish true now) = some silent' ∧ Agrees next silent' := by
  have hnext := h.counts.step hstep
  by_cases hlive : true ∈ server.live
  · have hsilent := h.silentCounts.drop (h.mem_live.mpr hlive) now
    refine ⟨_, hsilent, ?_⟩
    have hsilentCounts := h.silentCounts.step hsilent
    rw [h.counts.drop hlive] at hstep
    cases hstep
    refine ⟨hnext, hsilentCounts, ?_, rfl, h.draining, ?_⟩
    · simp [finished, h.live]
    · exact congrArg (touch true now) h.touched
  · rw [Server.step, if_neg hlive] at hstep
    cases hstep

/-- What the answer to a question depends on, apart from exits. -/
theorem Counted.claim_effect (h : Counted server) {now timeout : ℕ}
    (hstep : server.step (.claim now timeout) = some next) :
    next.live = server.live ∧ next.touched = server.touched ∧
      next.activity.lastActivity = server.activity.lastActivity ∧
      (next.activity.draining = true ↔ server.activity.draining = true ∨
        (true ∉ server.live ∧ timeout ≤ now - server.activity.lastActivity)) := by
  rw [h.claim] at hstep
  cases hstep
  split
  · rename_i hbusy
    refine ⟨rfl, rfl, rfl, Iff.intro .inl fun hdraining => ?_⟩
    rcases hdraining with hdraining | ⟨hidle, -⟩
    · exact hdraining
    · exact h.draining (hbusy.resolve_right hidle)
  · rename_i hbusy
    have hidle : true ∉ server.live := fun hlive => hbusy (.inr hlive)
    exact ⟨rfl, rfl, rfl, by simp [asked, hidle]⟩

/-- A question begins the drain of both, though one of them may have exited. -/
theorem Agrees.claim {silent : Server} (h : Agrees server silent) (now timeout : ℕ)
    (hstep : server.step (.claim now timeout) = some next) :
    ∃ silent', silent.step (.claim now timeout) = some silent' ∧ Agrees next silent' := by
  have hnext := h.counts.step hstep
  have hsilent := h.silentCounts.claim now timeout
  refine ⟨_, hsilent, ?_⟩
  have hsilentCounts := h.silentCounts.step hsilent
  obtain ⟨hlive, htouched, hlast, hdraining⟩ := h.counts.claim_effect hstep
  obtain ⟨hlive', htouched', hlast', hdraining'⟩ := h.silentCounts.claim_effect hsilent
  apply Agrees.mk hnext hsilentCounts
  · rw [hlive, hlive', h.live]
  · rw [hlast, hlast', h.last]
  · rw [Bool.eq_iff_iff, hdraining, hdraining', h.draining, h.mem_live, h.last]
  · rw [htouched, htouched', h.touched]

theorem agrees (hrun : Runs.run step (new start) es = some server) :
    ∃ silent, Runs.run step (new start) (es.filterMap Event.authentic) = some silent ∧
      Agrees server silent := by
  have hstart : Agrees (new start) (new start) :=
    ⟨Counted.new start, Counted.new start, rfl, rfl, rfl, rfl⟩
  apply Runs.run_follows Event.authentic Agrees hstart _ _ hrun
  · intro mid e next silent hauthentic hagrees hstep
    exact hagrees.silent_step hauthentic hstep
  · intro mid e next silent f hauthentic hagrees hstep
    cases e with
    | admitAt authenticated now =>
        cases authenticated with
        | true =>
            cases hauthentic
            exact hagrees.admitAt now hstep
        | false => cases hauthentic
    | finish authenticated now =>
        cases authenticated with
        | true =>
            cases hauthentic
            exact hagrees.drop now hstep
        | false => cases hauthentic
    | claim now timeout =>
        cases hauthentic
        exact hagrees.claim now timeout hstep

end

end Server

/-! ## Connection slots -/

/-- The number of taken slots is a word. -/
abbrev Counter := UInt64

def reserve (counter limit : Counter) : Option Counter :=
  if counter < limit then some (counter + 1) else none

def release (counter : Counter) : Counter :=
  counter - 1

inductive SlotEvent where
  | reserve
  | drop
  deriving DecidableEq, Repr

/-- A counter with the number of slots that are alive. -/
structure Slots where
  counter : Counter := 0
  live : ℕ := 0

namespace Slots

def step (limit : Counter) (slots : Slots) : SlotEvent → Option Slots
  | .reserve =>
      match Broker.reserve slots.counter limit with
      | some counter => some { counter, live := slots.live + 1 }
      | none => some slots
  | .drop =>
      if slots.live = 0 then none
      else some { counter := release slots.counter, live := slots.live - 1 }

/-- The counter counts the live slots, and they stay within the limit. -/
def Bounded (limit : Counter) (slots : Slots) : Prop :=
  slots.counter.toNat = slots.live ∧ slots.live ≤ limit.toNat

theorem Bounded.step {limit : Counter} {slots next : Slots} {e : SlotEvent}
    (h : Bounded limit slots) (hstep : slots.step limit e = some next) : Bounded limit next := by
  obtain ⟨hcounter, hlimit⟩ := h
  cases e with
  | reserve =>
      rw [Slots.step, Broker.reserve] at hstep
      by_cases hroom : slots.counter < limit
      · rw [if_pos hroom] at hstep
        cases hstep
        have hless : slots.counter.toNat < limit.toNat := UInt64.lt_iff_toNat_lt.mp hroom
        have hword := limit.toNat_lt
        have hsum : (slots.counter + 1).toNat = slots.counter.toNat + 1 := by
          rw [UInt64.toNat_add]
          exact Nat.mod_eq_of_lt (by simp; omega)
        have hroom' : slots.live + 1 ≤ limit.toNat := by omega
        exact ⟨by rw [hsum, hcounter], hroom'⟩
      · rw [if_neg hroom] at hstep
        cases hstep
        exact ⟨hcounter, hlimit⟩
  | drop =>
      rw [Slots.step] at hstep
      by_cases hnone : slots.live = 0
      · rw [if_pos hnone] at hstep
        cases hstep
      · rw [if_neg hnone] at hstep
        cases hstep
        have hone : (1 : UInt64) ≤ slots.counter := by
          rw [UInt64.le_iff_toNat_le, hcounter]
          exact Nat.pos_of_ne_zero hnone
        have hless : (slots.counter - 1).toNat = slots.counter.toNat - 1 :=
          UInt64.toNat_sub_of_le _ _ hone
        exact ⟨by rw [release, hless, hcounter], Nat.le_trans (Nat.sub_le _ _) hlimit⟩

theorem bounded {limit : Counter} {es : List SlotEvent} {slots : Slots}
    (hrun : Runs.run (step limit) {} es = some slots) : Bounded limit slots :=
  Runs.run_invariant (Bounded limit) ⟨rfl, Nat.zero_le _⟩ (fun _ _ _ h => h.step) hrun

end Slots

/-! ## The protocol -/

section

variable {start : Instant} {es : List Event} {server : Server}

theorem work_counted (hrun : Runs.run Server.step (Server.new start) es = some server) :
    server.activity.activeWork = server.live.length ∧
      server.activity.authenticatedWork = server.live.count true ∧
      server.activity.authenticatedWork ≤ server.activity.activeWork ∧ server.exits ≤ 1 ∧
      ∀ authenticated ∈ server.live, ∀ now,
        (server.activity.finish authenticated now).isSome = true := by
  have h := Server.counted hrun
  refine ⟨h.active, h.authenticated, ?_, ?_, ?_⟩
  · rw [h.active, h.authenticated]
    exact List.count_le_length
  · rw [h.exits]
    exact Bool.toNat_le _
  · intro authenticated hlive now
    rw [h.finish hlive]
    rfl

/-- When draining begins, the timeout has passed since all authenticated work. -/
theorem draining_after_timeout (hrun : Runs.run Server.step (Server.new start) es = some server)
    {e : Event} {next : Server} (hstep : server.step e = some next)
    (hclock : (start :: (es.map Event.now ++ [e.now])).Pairwise (· ≤ ·))
    (hbefore : server.activity.draining = false) (hafter : next.activity.draining = true) :
    ∃ now timeout, e = .claim now timeout ∧ true ∉ server.live ∧
      ∀ t ∈ server.touched, t + timeout ≤ now := by
  obtain ⟨now, timeout, rfl, hidle, htimeout⟩ :=
    (Server.counted hrun).draining_begins hstep hbefore hafter
  obtain ⟨hlast, htouched⟩ := Server.touched_le hrun hclock
  refine ⟨now, timeout, rfl, hidle, ?_⟩
  intro t ht
  calc t + timeout ≤ server.activity.lastActivity + timeout :=
        Nat.add_le_add_right (htouched t ht) timeout
    _ ≤ now := (Nat.le_sub_iff_add_le' hlast).mp htimeout

/-- The broker exits at most once, without work, and not before the timeout; work
without a valid token does not postpone the drain; and connection slots stay within
their limit. -/
theorem idle_shutdown_protocol
    (hrun : Runs.run Server.step (Server.new start) es = some server) {limit : Counter}
    {slotEvents : List SlotEvent} {slots : Slots}
    (hslots : Runs.run (Slots.step limit) {} slotEvents = some slots) :
    (server.activity.activeWork = server.live.length ∧
      server.activity.authenticatedWork = server.live.count true ∧
      server.activity.authenticatedWork ≤ server.activity.activeWork ∧ server.exits ≤ 1 ∧
      ∀ authenticated ∈ server.live, ∀ now,
        (server.activity.finish authenticated now).isSome = true) ∧
    (∀ e next, server.step e = some next →
      (next.exits ≠ server.exits → server.live = []) ∧
      (server.activity.draining = true → next.activity.draining = true ∧
        ∀ authenticated now, e = .admitAt authenticated now → next = server) ∧
      ((start :: (es.map Event.now ++ [e.now])).Pairwise (· ≤ ·) →
        server.activity.draining = false → next.activity.draining = true →
        ∃ now timeout, e = .claim now timeout ∧ true ∉ server.live ∧
          ∀ t ∈ server.touched, t + timeout ≤ now)) ∧
    (∃ silent, Runs.run Server.step (Server.new start) (es.filterMap Event.authentic) =
        some silent ∧ silent.activity.draining = server.activity.draining ∧
      silent.touched = server.touched) ∧
    slots.counter.toNat = slots.live ∧ slots.live ≤ limit.toNat := by
  have hcounted := Server.counted hrun
  refine ⟨work_counted hrun, ?_, ?_, Slots.bounded hslots⟩
  · intro e next hstep
    refine ⟨?_, hcounted.draining_step hstep, ?_⟩
    · intro hexits
      exact (hcounted.exit_idle hstep hexits).2.1
    · intro hclock
      exact draining_after_timeout hrun hstep hclock
  · obtain ⟨silent, hsilent, hagrees⟩ := Server.agrees hrun
    exact ⟨silent, hsilent, hagrees.draining, hagrees.touched⟩

end

/-- A request comes and goes, the broker drains while a refused client is still being
answered, and then exits. -/
def drainedHistory : List Event :=
  [.admitAt true 1, .finish true 3, .admitAt false 9, .claim 10 5, .admitAt true 11, .finish false 12,
    .claim 13 5]

def drainedServer : Server where
  activity := { lastActivity := 3, draining := true, shutdownClaimed := true }
  exits := 1
  touched := [0, 1, 3]

theorem drainedHistory_protocol :
    drainedServer.exits ≤ 1 ∧ ∃ silent,
      Runs.run Server.step (Server.new 0) (drainedHistory.filterMap Event.authentic) =
          some silent ∧
        silent.activity.draining = drainedServer.activity.draining ∧
        silent.touched = drainedServer.touched := by
  have hrun : Runs.run Server.step (Server.new 0) drainedHistory = some drainedServer := rfl
  have hslots : Runs.run (Slots.step 1) {} [.reserve, .reserve, .drop] =
      some { counter := 0, live := 0 } := rfl
  obtain ⟨hwork, -, hsilent, -⟩ := idle_shutdown_protocol hrun hslots
  exact ⟨hwork.2.2.2.1, hsilent⟩

end Ngsm.Broker
