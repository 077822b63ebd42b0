/-
# Records in the order of their times

A record has a time and a place in its source.  Sorting by time alone keeps the order of
the source among equal times, so on a list in source order it is the same as sorting by
time and place.  Part of a chronicle can therefore be taken before or after sorting, and
a sorted chronicle falls into what lies before a moment and what follows it.
-/

import Mathlib.Data.List.Sort
import Mathlib.Data.Int.Order.Basic

namespace Ngsm.Lib

namespace Chronicle

variable {α : Type} (time : α → ℤ) (place : α → ℕ)

def byTime (a b : α) : Bool :=
  decide (time a ≤ time b)

/-- By time, and by place among equal times. -/
def byKey (a b : α) : Bool :=
  decide (time a < time b ∨ (time a = time b ∧ place a ≤ place b))

/-- The places of a list are in increasing order. -/
def InOrder (l : List α) : Prop :=
  l.Pairwise fun a b => place a < place b

variable {time place} {l m : List α} {a b : α}

theorem byKey_total (a b : α) : (byKey time place a b || byKey time place b a) = true := by
  rw [Bool.or_eq_true, byKey, byKey, decide_eq_true_iff, decide_eq_true_iff]
  omega

theorem byKey_trans (a b c : α) (hab : byKey time place a b = true)
    (hbc : byKey time place b c = true) : byKey time place a c = true := by
  rw [byKey, decide_eq_true_iff] at *
  omega

theorem byTime_of_byKey (h : byKey time place a b = true) : byTime time a b = true := by
  rw [byKey, decide_eq_true_iff] at h
  rw [byTime, decide_eq_true_iff]
  omega

theorem InOrder.nodup (h : InOrder place l) : l.Nodup :=
  List.Pairwise.imp (fun hlt heq => by rw [heq] at hlt; exact lt_irrefl _ hlt) h

/-- In a list in source order the places break ties as the positions do. -/
theorem InOrder.le_iff (h : InOrder place l) {i j : ℕ} (hi : i < l.length) (hj : j < l.length) :
    i ≤ j ↔ place l[i] ≤ place l[j] := by
  have hlt : ∀ {i j : ℕ} (hi : i < l.length) (hj : j < l.length), i < j →
      place l[i] < place l[j] := fun hi hj hij => List.pairwise_iff_getElem.mp h _ _ hi hj hij
  constructor
  · intro hij
    rcases Nat.lt_or_eq_of_le hij with hless | rfl
    · exact le_of_lt (hlt hi hj hless)
    · exact le_refl _
  · intro hplace
    by_contra hji
    exact absurd (hlt hj hi (not_le.mp hji)) (not_lt.mpr hplace)

theorem InOrder.place_injective (h : InOrder place l) (ha : a ∈ l) (hb : b ∈ l)
    (heq : place a = place b) : a = b := by
  obtain ⟨i, hi, rfl⟩ := List.getElem_of_mem ha
  obtain ⟨j, hj, rfl⟩ := List.getElem_of_mem hb
  have hij : i = j := le_antisymm ((h.le_iff hi hj).mpr heq.le) ((h.le_iff hj hi).mpr heq.ge)
  subst hij
  rfl

/-- A sort by time keeps the order of the source among equal times. -/
theorem InOrder.sort_eq (h : InOrder place l) :
    l.mergeSort (byTime time) = l.mergeSort (byKey time place) := by
  have hsame : ∀ x ∈ l.zipIdx, ∀ y ∈ l.zipIdx,
      List.zipIdxLE (byTime time) x y = byKey time place x.1 y.1 := by
    rintro ⟨a, i⟩ hx ⟨b, j⟩ hy
    obtain ⟨hi, ha⟩ := List.mem_zipIdx' hx
    obtain ⟨hj, hb⟩ := List.mem_zipIdx' hy
    have hplace := h.le_iff hi hj
    rw [← ha, ← hb] at hplace
    unfold List.zipIdxLE byTime byKey
    simp only [decide_eq_true_eq, hplace]
    split
    · split
      · exact decide_eq_decide.mpr (by omega)
      · exact (decide_eq_true (by omega)).symm
    · exact (decide_eq_false (by omega)).symm
  rw [← List.mergeSort_zipIdx, List.map_mergeSort hsame, List.zipIdx_map_fst]

/-- What is sorted after a selection is the selection of what is sorted. -/
theorem InOrder.sort_filter (h : InOrder place l) (p : α → Bool) (hperm : m.Perm (l.filter p)) :
    m.mergeSort (byKey time place) = (l.mergeSort (byKey time place)).filter p := by
  have hsorted : (l.mergeSort (byKey time place)).Pairwise
      fun a b => byKey time place a b = true :=
    List.pairwise_mergeSort byKey_trans byKey_total l
  have hsorted' : (m.mergeSort (byKey time place)).Pairwise
      fun a b => byKey time place a b = true :=
    List.pairwise_mergeSort byKey_trans byKey_total m
  have hboth : (m.mergeSort (byKey time place)).Perm
      ((l.mergeSort (byKey time place)).filter p) :=
    ((List.mergeSort_perm m _).trans hperm).trans ((List.mergeSort_perm l _).filter p).symm
  refine List.Perm.eq_of_pairwise ?_ hsorted' (hsorted.filter p) hboth
  intro a b ha hb hab hba
  have hmem : ∀ c ∈ m.mergeSort (byKey time place), c ∈ l := fun c hc =>
    (List.mem_filter.mp (hperm.subset (List.mem_mergeSort.mp hc))).1
  have hb' : b ∈ l := List.mem_mergeSort.mp (List.mem_filter.mp hb).1
  rw [byKey, decide_eq_true_iff] at hab hba
  exact h.place_injective (hmem a ha) hb' (by omega)

/-- A sorted chronicle is what lies before a moment, followed by the rest. -/
theorem split_at {t : ℤ} (hsorted : l.Pairwise fun a b => time a ≤ time b) :
    l = l.filter (fun a => decide (time a < t)) ++ l.filter (fun a => !decide (time a < t)) := by
  induction l with
  | nil => rfl
  | cons a l ih =>
      rw [List.pairwise_cons] at hsorted
      by_cases hbefore : time a < t
      · rw [List.filter_cons_of_pos (by simpa using hbefore),
          List.filter_cons_of_neg (by simpa using hbefore), List.cons_append, ← ih hsorted.2]
      · have hlater : ∀ b ∈ l, ¬ time b < t := by
          intro b hb
          have hle := hsorted.1 b hb
          omega
        have hnone : l.filter (fun a => decide (time a < t)) = [] := by
          rw [List.filter_eq_nil_iff]
          simpa using hlater
        have hall : l.filter (fun a => !decide (time a < t)) = l := by
          rw [List.filter_eq_self]
          simpa using hlater
        rw [List.filter_cons_of_neg (by simpa using hbefore),
          List.filter_cons_of_pos (by simpa using hbefore), hnone, hall, List.nil_append]

end Chronicle

end Ngsm.Lib
