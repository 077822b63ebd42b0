/-
# Histories that a rule allows event by event

A rule says which event may follow what has happened.  A history obeys the rule when each
of its events was allowed at its time.  A history grows at the end, so the rule is checked
for one event at a time.
-/

import Mathlib.Data.List.Basic

namespace Ngsm.Lib

/-- Every event of a history was allowed by what had happened before it. -/
def EachEvent {ε : Type} (allowed : List ε → ε → Prop) (history : List ε) : Prop :=
  ∀ before event after, history = before ++ event :: after → allowed before event

namespace EachEvent

variable {ε : Type} {allowed : List ε → ε → Prop} {history : List ε} {event : ε}

theorem nil : EachEvent allowed [] := by
  intro before event after hsplit
  simp at hsplit

theorem concat (h : EachEvent allowed history) (hallowed : allowed history event) :
    EachEvent allowed (history ++ [event]) := by
  intro before other after hsplit
  rcases List.eq_nil_or_concat after with rfl | ⟨front, last, rfl⟩
  · obtain ⟨rfl, hlast⟩ := List.append_inj' hsplit rfl
    cases hlast
    exact hallowed
  · have hfront : history ++ [event] = (before ++ other :: front) ++ [last] := by
      rw [hsplit]
      simp
    exact h before other front (List.append_inj' hfront rfl).1

theorem iff_get : EachEvent allowed history ↔
    ∀ i : Fin history.length, allowed (history.take i) (history.get i) := by
  constructor
  · intro h i
    refine h _ _ (history.drop (i + 1)) ?_
    rw [List.get_eq_getElem, List.getElem_cons_drop, List.take_append_drop]
  · intro h before event after hsplit
    subst hsplit
    have hplace := h ⟨before.length, by simp⟩
    simpa using hplace

/-- A history can be checked when the rule can. -/
instance [∀ before event, Decidable (allowed before event)] :
    Decidable (EachEvent allowed history) :=
  decidable_of_iff _ iff_get.symm

end EachEvent

end Ngsm.Lib
