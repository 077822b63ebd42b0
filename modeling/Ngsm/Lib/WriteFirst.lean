/-
# Write-first reconciliation

A store is brought from its old content to a wanted content entry by entry.  The
order that survives an interruption is to write every wanted entry before the
first unwanted one is removed: while entries are written nothing has been lost,
and once removal begins everything wanted is in place.

`WriteFirst` is the invariant of such a run, over any type of keys and values.
Its two phases are `Writing` and `Pruning`; `retains` is what an interrupted run
guarantees.
-/

import Mathlib.Logic.Function.Basic

namespace Ngsm.Lib

variable {κ α : Type}

/-- Entries are being written: each key holds its old or its wanted entry. -/
def Writing (old wanted now : κ → Option α) : Prop :=
  ∀ k, now k = old k ∨ (∃ a, wanted k = some a ∧ now k = some a)

/-- Stale entries are being removed: each wanted entry is in place. -/
def Pruning (old wanted now : κ → Option α) : Prop :=
  ∀ k, (∃ a, wanted k = some a ∧ now k = some a) ∨
    (wanted k = none ∧ (now k = old k ∨ now k = none))

/-- The content of a store at any point of a write-first reconciliation. -/
def WriteFirst (old wanted now : κ → Option α) : Prop :=
  Writing old wanted now ∨ Pruning old wanted now

variable {old wanted now now' : κ → Option α}

theorem Writing.refl (old wanted : κ → Option α) : Writing old wanted old :=
  fun _ => .inl rfl

/-- Entries are being written, and those of the keys `ks` are in place. -/
structure WrittenUpTo (old wanted now : κ → Option α) (ks : List κ) : Prop where
  writing : Writing old wanted now
  placed : ∀ k ∈ ks, now k = wanted k

theorem WrittenUpTo.nil (old wanted : κ → Option α) : WrittenUpTo old wanted old [] :=
  ⟨Writing.refl old wanted, by simp⟩

theorem WrittenUpTo.congr {ks : List κ} (h : WrittenUpTo old wanted now ks)
    (hnow : ∀ k, now' k = now k) : WrittenUpTo old wanted now' ks := by
  have heq : now' = now := funext hnow
  rwa [heq]

/-- Writing one more wanted entry. -/
theorem WrittenUpTo.set [DecidableEq κ] {ks : List κ} (h : WrittenUpTo old wanted now ks)
    {k : κ} {a : α} (hk : wanted k = some a)
    (hnow : ∀ j, now' j = if j = k then some a else now j) :
    WrittenUpTo old wanted now' (ks ++ [k]) := by
  constructor
  · intro j
    rw [hnow j]
    by_cases hj : j = k
    · subst hj
      rw [if_pos rfl]
      exact .inr ⟨a, hk, rfl⟩
    · rw [if_neg hj]
      exact h.writing j
  · intro j hmem
    rw [hnow j]
    by_cases hj : j = k
    · rw [if_pos hj, hj, hk]
    · rw [if_neg hj]
      rcases List.mem_append.mp hmem with hearlier | hlast
      · exact h.placed j hearlier
      · exact absurd (List.mem_singleton.mp hlast) hj

/-- Writing is over once every wanted entry is in place. -/
theorem WrittenUpTo.pruning {ks : List κ} (h : WrittenUpTo old wanted now ks)
    (hall : ∀ k a, wanted k = some a → k ∈ ks) : Pruning old wanted now := by
  intro k
  rcases hk : wanted k with _ | a
  · refine .inr ⟨rfl, .inl ?_⟩
    rcases h.writing k with hold | ⟨a, ha, -⟩
    · exact hold
    · rw [hk] at ha
      cases ha
  · exact .inl ⟨a, rfl, (h.placed k (hall k a hk)).trans hk⟩

/-- Pruning may remove any set of unwanted entries. -/
theorem Pruning.erase (h : Pruning old wanted now)
    (hnow : ∀ k, now' k = now k ∨ (now' k = none ∧ wanted k = none)) :
    Pruning old wanted now' := by
  intro k
  rcases hnow k with hsame | ⟨hgone, hunwanted⟩
  · rw [hsame]
    exact h k
  · exact .inr ⟨hunwanted, .inr hgone⟩

theorem Pruning.wanted_present (h : Pruning old wanted now) {k : κ} {a : α}
    (hk : wanted k = some a) : now k = some a := by
  rcases h k with ⟨b, hb, hnow⟩ | ⟨hnone, -⟩
  · rw [hk] at hb
    cases hb
    exact hnow
  · rw [hk] at hnone
    cases hnone

/-- A reconciliation that has removed every unwanted entry holds the wanted
content. -/
theorem Pruning.eq_wanted (h : Pruning old wanted now)
    (hgone : ∀ k, wanted k = none → now k = none) (k : κ) : now k = wanted k := by
  rcases hk : wanted k with _ | a
  · exact hgone k hk
  · exact h.wanted_present hk

/-- At any point a key holds its old entry, its wanted entry, or nothing, and it
holds nothing only when it had nothing or nothing is wanted there. -/
theorem WriteFirst.cases (h : WriteFirst old wanted now) (k : κ) :
    now k = old k ∨ now k = wanted k := by
  rcases h with hwriting | hpruning
  · rcases hwriting k with hold | ⟨a, ha, hnow⟩
    · exact .inl hold
    · exact .inr (hnow.trans ha.symm)
  · rcases hpruning k with ⟨a, ha, hnow⟩ | ⟨hnone, hold | hgone⟩
    · exact .inr (hnow.trans ha.symm)
    · exact .inl hold
    · exact .inr (hgone.trans hnone.symm)

/-- Nothing wanted is ever lost. -/
theorem WriteFirst.retains (h : WriteFirst old wanted now) {k : κ} {a b : α}
    (hold : old k = some a) (hwanted : wanted k = some b) :
    now k = some a ∨ now k = some b := by
  rcases h.cases k with hnow | hnow
  · exact .inl (hnow.trans hold)
  · exact .inr (hnow.trans hwanted)

end Ngsm.Lib
