/-
# Programs that ask their surroundings

A program that knows the world only through its calls is a dialogue: it makes a call, waits
for the answer, and goes on as the answer says.  A code of conduct keeps notes of the exchanges
so far and says which exchange is proper after them.  A dialogue that keeps to the code does so
whatever it is answered, and wherever it is cut off.
-/

import Ngsm.Lib.History
import Ngsm.Lib.Runs

namespace Ngsm.Lib

/-- A program that makes calls and goes on with their answers. -/
inductive Dialogue (C : Type) (A : C → Type) (α : Type) where
  | done (a : α)
  | call (c : C) (next : A c → Dialogue C A α)

/-- A call and its answer. -/
structure Exchange {C : Type} (A : C → Type) where
  call : C
  answer : A call

namespace Dialogue

variable {C : Type} {A : C → Type} {α β : Type}

def bind : Dialogue C A α → (α → Dialogue C A β) → Dialogue C A β
  | .done a, f => f a
  | .call c next, f => .call c fun answer => (next answer).bind f

instance : Monad (Dialogue C A) where
  pure := .done
  bind := bind

def ask (c : C) : Dialogue C A (A c) :=
  .call c .done

section

variable [DecidableEq C]

/-- The dialogue after an exchange, when it waits for the answer of that call. -/
def resume : Dialogue C A α → Exchange A → Option (Dialogue C A α)
  | .done _, _ => none
  | .call c next, x => if h : x.call = c then some (next (h ▸ x.answer)) else none

theorem resume_eq_some {p p' : Dialogue C A α} {x : Exchange A} (h : p.resume x = some p') :
    ∃ next, p = .call x.call next ∧ p' = next x.answer := by
  cases p with
  | done a => cases h
  | call c next =>
      simp only [resume] at h
      split at h
      · rename_i hcall
        subst hcall
        cases h
        exact ⟨next, rfl, rfl⟩
      · cases h

end

/-! ## Codes of conduct -/

/-- Notes about the exchanges so far, and what is proper after them. -/
structure Code (A : C → Type) (σ : Type) where
  note : σ → Exchange A → σ
  proper : σ → Exchange A → Prop

variable {σ : Type} {code : Code A σ}

/-- The dialogue keeps to the code after these notes, and `Q` holds of its result. -/
def Keeps (code : Code A σ) : Dialogue C A α → (α → σ → Prop) → σ → Prop
  | .done a, Q, s => Q a s
  | .call c next, Q, s =>
      ∀ answer, code.proper s ⟨c, answer⟩ ∧ (next answer).Keeps code Q (code.note s ⟨c, answer⟩)

variable {Q Q' : α → σ → Prop} {s : σ}

theorem keeps_pure (a : α) : (pure a : Dialogue C A α).Keeps code Q s ↔ Q a s :=
  Iff.rfl

theorem keeps_ask (c : C) {Q : A c → σ → Prop} :
    (ask c).Keeps code Q s ↔
      ∀ answer, code.proper s ⟨c, answer⟩ ∧ Q answer (code.note s ⟨c, answer⟩) :=
  Iff.rfl

theorem keeps_bind (p : Dialogue C A α) (f : α → Dialogue C A β) {Q : β → σ → Prop} :
    (p >>= f).Keeps code Q s ↔ p.Keeps code (fun a => (f a).Keeps code Q) s := by
  change (p.bind f).Keeps code Q s ↔ _
  induction p generalizing s with
  | done a => rfl
  | call c next ih =>
      apply forall_congr'
      intro answer
      exact and_congr_right fun _ => ih answer

theorem Keeps.bind {p : Dialogue C A α} {f : α → Dialogue C A β} {Q : β → σ → Prop}
    (h : p.Keeps code (fun a => (f a).Keeps code Q) s) : (p >>= f).Keeps code Q s :=
  (keeps_bind p f).mpr h

theorem keeps_ite {c : Prop} [Decidable c] {p p' : Dialogue C A α} (h : c → p.Keeps code Q s)
    (h' : ¬c → p'.Keeps code Q s) : (if c then p else p').Keeps code Q s := by
  split
  · rename_i hc
    exact h hc
  · rename_i hc
    exact h' hc

theorem Keeps.mono {p : Dialogue C A α} (h : p.Keeps code Q s)
    (himp : ∀ a s', Q a s' → Q' a s') : p.Keeps code Q' s := by
  induction p generalizing s with
  | done a => exact himp a s h
  | call c next ih =>
      intro answer
      exact ⟨(h answer).1, ih answer (h answer).2⟩

/-- Rounds that return a value or go on, each from what the last one left. -/
def repeatUpTo (round : β → Dialogue C A (α ⊕ β)) : ℕ → β → Dialogue C A (Option α)
  | 0, _ => pure none
  | rounds + 1, b => do
      match ← round b with
      | .inl a => return some a
      | .inr b => repeatUpTo round rounds b

/-- The rule for a loop: a round keeps the invariant or ends with the result. -/
theorem keeps_repeatUpTo {round : β → Dialogue C A (α ⊕ β)} {Q : Option α → σ → Prop}
    (I : β → σ → Prop) (hleft : ∀ b s, I b s → Q none s)
    (hround : ∀ b s, I b s → (round b).Keeps code
      (fun result s' => match result with
        | .inl a => Q (some a) s'
        | .inr b' => I b' s') s)
    (rounds : ℕ) {b : β} (hb : I b s) : (repeatUpTo round rounds b).Keeps code Q s := by
  induction rounds generalizing b s with
  | zero => exact hleft b s hb
  | succ rounds ih =>
      unfold repeatUpTo
      rw [keeps_bind]
      refine (hround b s hb).mono fun result s' hresult => ?_
      cases result with
      | inl a => exact hresult
      | inr b' => exact ih hresult

end Dialogue

end Ngsm.Lib
