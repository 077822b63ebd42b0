/-
# Programs that keep an assertion

A program keeps an assertion when it holds again however the program ends.  Most
of the code of a large system touches little of the state, and about such code
this is all a caller has to know.  `Keeps I E m` says in addition which errors the
program may end with.

The rules follow the way a program is composed, so that the proof for a function
only has to treat the places where it touches the state.
-/

import Ngsm.Lib.Program

namespace Ngsm.Lib

namespace Prog

variable {σ ε α β : Type} {I : σ → Prop} {E : ε → Prop}

/-- From a state with `I`, the program ends in one, and its errors are in `E`. -/
def Keeps (I : σ → Prop) (E : ε → Prop) (m : Prog σ ε α) : Prop :=
  ∀ s, I s → m.wp (fun _ => I) (fun e s' => E e ∧ I s') s

namespace Keeps

theorem pure (a : α) : Keeps I E (pure a : Prog σ ε α) :=
  fun _ h => h

theorem throw {e : ε} (he : E e) : Keeps I E (throw e : Prog σ ε α) :=
  fun _ h => ⟨he, h⟩

/-- A check keeps everything. -/
theorem liftExcept {x : Except ε α} (hx : ∀ e, x = .error e → E e) :
    Keeps I E (liftExcept x : Prog σ ε α) := by
  intro s h
  rw [wp_liftExcept]
  cases x with
  | ok a => exact h
  | error e => exact ⟨hx e rfl, h⟩

theorem bind {m : Prog σ ε α} {f : α → Prog σ ε β} (hm : Keeps I E m)
    (hf : ∀ a, Keeps I E (f a)) : Keeps I E (m >>= f) := by
  intro s h
  rw [wp_bind]
  exact wp_mono _ (fun a s' h' => hf a s' h') (fun _ _ h' => h') (hm s h)

theorem ite {c : Prop} [Decidable c] {m m' : Prog σ ε α} (hm : Keeps I E m)
    (hm' : Keeps I E m') : Keeps I E (if c then m else m') := by
  split
  · exact hm
  · exact hm'

theorem get : Keeps I E (get : Prog σ ε σ) :=
  fun _ h => h

theorem modify {f : σ → σ} (hf : ∀ s, I s → I (f s)) :
    Keeps I E (modify f : Prog σ ε PUnit) :=
  fun s h => hf s h

/-- A step that leads from states with the assertion to such states. -/
theorem step {f : σ → Except ε α × σ} (hf : ∀ s, I s → I (f s).2) :
    Keeps I (fun _ => True) (Prog.step f) := by
  intro s h
  rw [wp_step]
  have hnext := hf s h
  split
  · rename_i heq
    rwa [heq] at hnext
  · rename_i heq
    rw [heq] at hnext
    exact ⟨trivial, hnext⟩

theorem attempt {m : Prog σ ε α} {D : ε → Prop} (hm : Keeps I D m) :
    Keeps I E m.attempt := by
  intro s h
  rw [wp_attempt]
  exact wp_mono _ (fun _ _ h' => h') (fun _ _ h' => h'.2) (hm s h)

theorem forM {xs : List α} {f : α → Prog σ ε PUnit} (hf : ∀ x ∈ xs, Keeps I E (f x)) :
    Keeps I E (xs.forM f) := by
  induction xs with
  | nil => exact pure _
  | cons x xs ih =>
      exact bind (hf x (by simp)) fun _ => ih fun y hy => hf y (by simp [hy])

theorem foldlM {xs : List α} {f : β → α → Prog σ ε β} {b : β}
    (hf : ∀ b x, Keeps I E (f b x)) : Keeps I E (xs.foldlM f b) := by
  induction xs generalizing b with
  | nil => exact pure _
  | cons x xs ih =>
      rw [List.foldlM_cons]
      exact bind (hf b x) fun _ => ih

/-- Consequence: what the caller needs follows from the assertion. -/
theorem wp {m : Prog σ ε α} (hm : Keeps I E m) {Q : α → σ → Prop} {R : ε → σ → Prop} {s : σ}
    (h : I s) (hok : ∀ a s', I s' → Q a s') (herr : ∀ e s', E e → I s' → R e s') :
    m.wp Q R s :=
  wp_mono _ hok (fun e s' h' => herr e s' h'.1 h'.2) (hm s h)

/-- A program without errors always returns. -/
theorem returns {m : Prog σ ε α} (hm : Keeps I (fun _ => False) m) {Q : α → σ → Prop}
    {R : ε → σ → Prop} {s : σ} (h : I s) (hok : ∀ a s', I s' → Q a s') : m.wp Q R s :=
  hm.wp h hok fun _ _ he _ => he.elim

/-- Two assertions are kept together. -/
theorem and {J : σ → Prop} {m : Prog σ ε α} (hm : Keeps I E m) (hm' : Keeps J E m) :
    Keeps (fun s => I s ∧ J s) E m := by
  intro s h
  exact wp_mono _ (fun _ _ h' => h') (fun _ _ h' => ⟨h'.1.1, h'.1.2, h'.2.2⟩)
    (wp_and _ (hm s h.1) (hm' s h.2))

end Keeps

end Prog

end Ngsm.Lib
