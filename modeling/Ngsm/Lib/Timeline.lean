/-
# States with their past

A timeline is a state and all states before it.  A program that keeps its timeline can be asked
what held at every moment of its run, and not only at the end.  When all moments follow one
another by a relation, what the relation preserves has held from some moment on.
-/

import Mathlib.Data.List.Chain

namespace Ngsm.Lib

/-- A state and its past, the latest state first. -/
structure Timeline (σ : Type) where
  now : σ
  past : List σ

namespace Timeline

variable {σ : Type} {R : σ → σ → Prop} {t : Timeline σ}

/-- The beginning of a timeline. -/
def begin (s : σ) : Timeline σ where
  now := s
  past := []

/-- The state changes. -/
def push (t : Timeline σ) (s : σ) : Timeline σ where
  now := s
  past := t.now :: t.past

/-- All states of a timeline, the latest first. -/
def moments (t : Timeline σ) : List σ :=
  t.now :: t.past

/-- Every state comes from the one before it. -/
def Follows (R : σ → σ → Prop) (t : Timeline σ) : Prop :=
  t.moments.IsChain fun later earlier => R earlier later

theorem moments_push (t : Timeline σ) (s : σ) : (t.push s).moments = s :: t.moments :=
  rfl

theorem follows_begin (s : σ) : (begin s).Follows R :=
  List.isChain_singleton s

theorem Follows.push {s : σ} (h : t.Follows R) (hstep : R t.now s) : (t.push s).Follows R :=
  List.isChain_cons_cons.mpr ⟨hstep, h⟩

theorem Follows.mono {S : σ → σ → Prop} (h : t.Follows R) (himp : ∀ s s', R s s' → S s s') :
    t.Follows S :=
  List.IsChain.imp (fun later earlier hstep => himp earlier later hstep) h

/-- What the steps preserve goes on to hold. -/
theorem Follows.persists {P : σ → Prop} (h : t.Follows R) (hstep : ∀ s s', R s s' → P s → P s')
    {later earlier : List σ} {s : σ} (hsplit : t.moments = later ++ s :: earlier) (hs : P s) :
    ∀ s' ∈ later, P s' := by
  have hchain : (later ++ s :: earlier).IsChain fun later earlier => R earlier later :=
    hsplit ▸ h
  clear hsplit h
  induction later with
  | nil => simp
  | cons s' later ih =>
      have hrest : ∀ s'' ∈ later, P s'' := ih (List.IsChain.tail hchain)
      rw [List.forall_mem_cons]
      refine ⟨?_, hrest⟩
      cases later with
      | nil => exact hstep s s' (List.isChain_cons_cons.mp hchain).1 hs
      | cons next later =>
          exact hstep next s' (List.isChain_cons_cons.mp hchain).1 (hrest next List.mem_cons_self)

end Timeline

end Ngsm.Lib
