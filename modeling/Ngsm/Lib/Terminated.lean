/-
# Pieces with terminators

A list of pieces is stored in one run of symbols, each piece followed by a terminator, and an
empty piece ends the list.  A piece that is not empty and holds no terminator is found again;
from a run that is cut anywhere the pieces are found whose terminators are still there.
-/

import Mathlib.Data.List.Basic
import Mathlib.Data.List.Infix

namespace Ngsm.Lib

namespace Terminated

variable {α : Type} {z : α}

/-- The pieces one after the other, each with its terminator. -/
def join (z : α) (pieces : List (List α)) : List α :=
  pieces.flatMap (· ++ [z])

/-- The pieces that can be told apart. -/
def Separable (z : α) (piece : List α) : Prop :=
  piece ≠ [] ∧ z ∉ piece

@[simp]
theorem join_nil : join z [] = [] :=
  rfl

@[simp]
theorem join_cons (piece : List α) (pieces : List (List α)) :
    join z (piece :: pieces) = piece ++ z :: join z pieces := by
  simp [join]

theorem join_append (pieces later : List (List α)) :
    join z (pieces ++ later) = join z pieces ++ join z later := by
  simp [join]

/-- A terminator with a terminator after it stands at the end of the list only. -/
theorem end_of_double {pieces : List (List α)} (hpieces : ∀ piece ∈ pieces, Separable z piece)
    {i : Nat} (hfirst : (join z pieces ++ [z])[i]? = some z)
    (hsecond : (join z pieces ++ [z])[i + 1]? = some z) : i + 1 = (join z pieces).length := by
  induction pieces generalizing i with
  | nil => simp at hsecond
  | cons piece pieces ih =>
      rw [List.forall_mem_cons] at hpieces
      obtain ⟨⟨-, hclean⟩, hpieces⟩ := hpieces
      have hrun : join z (piece :: pieces) ++ [z] = (piece ++ [z]) ++ (join z pieces ++ [z]) := by
        simp
      have hlength : (join z (piece :: pieces)).length =
          piece.length + 1 + (join z pieces).length := by
        simp [Nat.add_assoc, Nat.add_comm 1]
      rw [hrun] at hfirst hsecond
      rw [hlength]
      rcases Nat.lt_trichotomy i piece.length with hbefore | hat | hafter
      · rw [List.getElem?_append_left (by simp; omega), List.getElem?_append_left hbefore]
          at hfirst
        exact absurd (List.mem_of_getElem? hfirst) hclean
      · rw [List.getElem?_append_right (by simp; omega)] at hsecond
        have hnext : i + 1 - (piece ++ [z]).length = 0 := by simp [hat]
        rw [hnext] at hsecond
        cases pieces with
        | nil => simp [hat]
        | cons next pieces =>
            obtain ⟨hsome, hclean⟩ := hpieces next (by simp)
            obtain ⟨c, rest, rfl⟩ := List.exists_cons_of_ne_nil hsome
            simp only [join_cons, List.cons_append, List.getElem?_cons_zero, Option.some.injEq]
              at hsecond
            exact absurd (by simp [hsecond]) hclean
      · rw [List.getElem?_append_right (by simp; omega)] at hfirst hsecond
        have hnext : i + 1 - (piece ++ [z]).length = (i - (piece ++ [z]).length) + 1 := by
          simp
          omega
        rw [hnext] at hsecond
        have hend := ih hpieces hfirst hsecond
        simp only [List.length_append, List.length_singleton] at hend
        omega

/-- The end of a list of pieces is a double terminator. -/
theorem double_at_end {pieces : List (List α)} (hsome : pieces ≠ []) :
    2 ≤ (join z pieces ++ [z]).length ∧
      (join z pieces ++ [z])[(join z pieces).length - 1]? = some z ∧
        (join z pieces ++ [z])[(join z pieces).length]? = some z := by
  obtain ⟨before, piece, rfl⟩ := List.eq_nil_or_concat pieces |>.resolve_left hsome
  simp only [List.concat_eq_append, join_append, join_cons, join_nil]
  refine ⟨by simp; omega, ?_, by simp⟩
  rw [List.getElem?_append_left (by simp)]
  simp

variable [DecidableEq α]

/-- Collect the symbols of a piece up to its terminator; an empty piece is the end, and so is
the end of the run. -/
def splitFrom (z : α) : List α → List α → List (List α)
  | _, [] => []
  | piece, c :: rest =>
      if c = z then
        if piece = [] then [] else piece :: splitFrom z [] rest
      else
        splitFrom z (piece ++ [c]) rest

/-- The pieces of a run. -/
def split (z : α) (run : List α) : List (List α) :=
  splitFrom z [] run

/-- The symbols of a piece are collected. -/
theorem splitFrom_append {piece : List α} (hclean : z ∉ piece) (found rest : List α) :
    splitFrom z found (piece ++ rest) = splitFrom z (found ++ piece) rest := by
  induction piece generalizing found with
  | nil => simp
  | cons c piece ih =>
      rw [List.mem_cons, not_or] at hclean
      rw [List.cons_append, splitFrom, if_neg (Ne.symm hclean.1), ih hclean.2]
      simp

theorem splitFrom_of_clean {run : List α} (hclean : z ∉ run) (found : List α) :
    splitFrom z found run = [] := by
  have hall := splitFrom_append hclean found []
  rwa [List.append_nil] at hall

theorem split_cons {piece : List α} (hpiece : Separable z piece) (rest : List α) :
    split z (piece ++ z :: rest) = piece :: split z rest := by
  rw [split, splitFrom_append hpiece.2, List.nil_append, splitFrom, if_pos rfl, if_neg hpiece.1]
  rfl

/-- A list of pieces is read back from a run that has all of it. -/
theorem split_join {pieces : List (List α)} (hpieces : ∀ piece ∈ pieces, Separable z piece) :
    split z (join z pieces) = pieces := by
  induction pieces with
  | nil => rfl
  | cons piece pieces ih =>
      rw [List.forall_mem_cons] at hpieces
      rw [join_cons, split_cons hpieces.1, ih hpieces.2]

/-- From the first symbols of a run the first pieces are read. -/
theorem split_take {pieces : List (List α)} (hpieces : ∀ piece ∈ pieces, Separable z piece)
    (n : Nat) : split z ((join z pieces).take n) <+: pieces := by
  induction pieces generalizing n with
  | nil => simp [split, splitFrom]
  | cons piece pieces ih =>
      rw [List.forall_mem_cons] at hpieces
      obtain ⟨hpiece, hpieces⟩ := hpieces
      rw [join_cons]
      rcases Nat.lt_or_ge piece.length n with hwhole | hcut
      · obtain ⟨m, rfl⟩ := Nat.exists_eq_add_of_lt hwhole
        have htake : (piece ++ z :: join z pieces).take (piece.length + m + 1) =
            piece ++ z :: (join z pieces).take m := by
          rw [Nat.add_assoc, List.take_length_add_append, List.take_succ_cons]
        rw [htake, split_cons hpiece]
        exact List.cons_prefix_cons.mpr ⟨rfl, ih hpieces m⟩
      · have hclean : z ∉ (piece ++ z :: join z pieces).take n := by
          rw [List.take_append_of_le_length hcut]
          exact fun hmem => hpiece.2 (List.mem_of_mem_take hmem)
        rw [split, splitFrom_of_clean hclean]
        exact List.nil_prefix

end Terminated

end Ngsm.Lib
