/-
# Interleavings of two threads

Some steps of an interleaving are the turns of one thread, the others are what the rest does
between them.  Cut at its turns, the interleaving becomes a script for that thread: what is done
before each of its turns.  The notes that are taken step by step along an interleaving are
compared at two places with the lemmas about folds.
-/

import Mathlib.Data.List.Basic
import Ngsm.Lib.History

namespace Ngsm.Lib

/-! ## Notes -/

section Notes

variable {σ ε : Type} {note : σ → ε → σ} {P : σ → Prop}

theorem foldl_keeps (hkeep : ∀ s e, P s → P (note s e)) (es : List ε) {s : σ} (hs : P s) :
    P (es.foldl note s) := by
  induction es generalizing s with
  | nil => exact hs
  | cons e es ih => exact ih (hkeep s e hs)

/-- What an event notes for good is noted in the end. -/
theorem foldl_of_mem (hkeep : ∀ s e, P s → P (note s e)) {es : List ε} {e : ε} (hmem : e ∈ es)
    (hhit : ∀ s, P (note s e)) (s : σ) : P (es.foldl note s) := by
  obtain ⟨before, after, rfl⟩ := List.append_of_mem hmem
  rw [List.foldl_append]
  exact foldl_keeps hkeep after (hhit _)

/-- What is noted in the end was noted at the start or by one of the events. -/
theorem mem_of_foldl (P : σ → Prop) (hit : ε → Prop)
    (hback : ∀ s e, P (note s e) → P s ∨ hit e) {es : List ε} {s : σ}
    (h : P (es.foldl note s)) : P s ∨ ∃ e ∈ es, hit e := by
  induction es generalizing s with
  | nil => exact .inl h
  | cons e es ih =>
      rcases ih h with hnoted | ⟨e', hmem, hhit⟩
      · exact (hback s e hnoted).imp id fun hhit => ⟨e, List.mem_cons_self, hhit⟩
      · exact .inr ⟨e', List.mem_cons_of_mem _ hmem, hhit⟩

end Notes

/-! ## The script of a thread -/

namespace Interleaving

variable {S M : Type} (turn : S → Bool) (acts : S → List M)

/-- What is done after so many turns and before the next one. -/
def between : List S → ℕ → List M
  | [], _ => []
  | s :: steps, 0 => if turn s then [] else acts s ++ between steps 0
  | s :: steps, k + 1 => if turn s then between steps k else between steps (k + 1)

variable {turn acts} {steps front front' rest rest' : List S} {s s' : S} {m : M} {k : ℕ}

/-- The script has at each place what is done there. -/
theorem mem_between : m ∈ between turn acts steps k ↔
    ∃ front s rest, steps = front ++ s :: rest ∧ turn s = false ∧ m ∈ acts s ∧
      front.countP turn = k := by
  induction steps generalizing k with
  | nil =>
      refine ⟨nofun, ?_⟩
      rintro ⟨front, s, rest, hsplit, -⟩
      simp at hsplit
  | cons step steps ih =>
      have hcons : ∀ k, (∃ front s rest, step :: steps = front ++ s :: rest ∧ turn s = false ∧
          m ∈ acts s ∧ front.countP turn = k) ↔
          (turn step = false ∧ m ∈ acts step ∧ k = 0) ∨
            ∃ front s rest, steps = front ++ s :: rest ∧ turn s = false ∧ m ∈ acts s ∧
              front.countP turn + (turn step).toNat = k := by
        intro k
        constructor
        · rintro ⟨front, s, rest, hsplit, hturn, hmem, hcount⟩
          cases front with
          | nil =>
              cases hsplit
              exact .inl ⟨hturn, hmem, hcount.symm⟩
          | cons first front =>
              cases hsplit
              refine .inr ⟨front, s, rest, rfl, hturn, hmem, ?_⟩
              rw [List.countP_cons] at hcount
              cases hfirst : turn step <;> simpa [hfirst] using hcount
        · rintro (⟨hturn, hmem, rfl⟩ | ⟨front, s, rest, rfl, hturn, hmem, hcount⟩)
          · exact ⟨[], step, steps, rfl, hturn, hmem, rfl⟩
          · refine ⟨step :: front, s, rest, rfl, hturn, hmem, ?_⟩
            rw [List.countP_cons, ← hcount]
            cases turn step <;> rfl
      rw [hcons]
      cases k with
      | zero => cases hstep : turn step <;> simp [between, hstep, ih]
      | succ k => cases hstep : turn step <;> simp [between, hstep, ih]

/-- Fewer turns come earlier. -/
theorem prefix_of_countP_lt (h : front ++ s :: rest = front' ++ s' :: rest')
    (hlt : front.countP turn < front'.countP turn) : front ++ [s] <+: front' := by
  have hfront : front ++ [s] <+: front' ++ s' :: rest' := by
    rw [← h]
    exact ⟨rest, by simp⟩
  refine List.prefix_of_prefix_length_le hfront (List.prefix_append _ _) ?_
  rw [List.length_append, List.length_singleton]
  by_contra hlength
  have hle : front'.length ≤ front.length := by omega
  have hshort : front' <+: front := by
    refine List.prefix_of_prefix_length_le (List.prefix_append front' (s' :: rest')) ?_ hle
    rw [← h]
    exact List.prefix_append _ _
  exact absurd (hshort.sublist.countP_le (p := turn)) (by omega)

end Interleaving

end Ngsm.Lib
