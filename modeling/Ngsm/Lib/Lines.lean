/-
# Lines and windows

A sequence is cut into lines at a separator, and every line has a place.  Of a window on the
sequence, the pieces between the separators are lines of the sequence, except that the first
one may lack its beginning and the last one its end.
-/

import Mathlib.Data.List.Basic

namespace Ngsm.Lib

namespace Lines

variable {α : Type} {z : α} {seq window before after : List α} {i : Nat}
  {line : List α}

/-- A line stands at a place of a sequence: between separators, or the ends of the sequence. -/
def IsLine (z : α) (seq : List α) (i : Nat) (line : List α) : Prop :=
  ∃ before after, seq = before ++ line ++ after ∧ before.length = i ∧ z ∉ line ∧
    (before = [] ∨ ∃ earlier, before = earlier ++ [z]) ∧
      (after = [] ∨ ∃ later, after = z :: later)

theorem IsLine.end_le (hline : IsLine z seq i line) : i + line.length ≤ seq.length := by
  obtain ⟨before, after, rfl, rfl, -⟩ := hline
  simp only [List.length_append]
  omega

/-- The places of lines that follow each other, with one separator between two lines. -/
def placed (i : Nat) : List (List α) → List (Nat × List α)
  | [] => []
  | line :: lines => (i, line) :: placed (i + line.length + 1) lines

theorem le_of_mem_placed {lines : List (List α)} (hmem : (i, line) ∈ placed n lines) : n ≤ i := by
  induction lines generalizing n with
  | nil => cases hmem
  | cons first lines ih =>
      rcases List.mem_cons.mp hmem with heq | hmem
      · exact Nat.le_of_eq (congrArg Prod.fst heq).symm
      · have hle := ih hmem
        omega

/-- The places rise. -/
theorem pairwise_placed (n : Nat) (lines : List (List α)) :
    (placed n lines).Pairwise (fun first later => first.1 < later.1) := by
  induction lines generalizing n with
  | nil => exact .nil
  | cons first lines ih =>
      refine .cons ?_ (ih _)
      rintro ⟨i, line⟩ hmem
      have hle := le_of_mem_placed hmem
      dsimp only
      omega

theorem mem_drop_placed {lines : List (List α)} :
    (i, line) ∈ (placed n lines).drop 1 ↔ (i, line) ∈ placed n lines ∧ n < i := by
  cases lines with
  | nil => simp [placed]
  | cons first lines =>
      rw [placed, List.drop_one, List.tail_cons, List.mem_cons, Prod.mk.injEq]
      constructor
      · intro hmem
        have hle := le_of_mem_placed hmem
        exact ⟨.inr hmem, by omega⟩
      · rintro ⟨⟨rfl, rfl⟩ | hmem, hlt⟩
        · omega
        · exact hmem

theorem map_placed (n : Nat) (lines : List (List α)) : (placed n lines).map Prod.snd = lines := by
  induction lines generalizing n with
  | nil => rfl
  | cons first lines ih => rw [placed, List.map_cons, ih]

/-- The first separator, and any separator. -/
theorem append_cons_cases {first rest earlier tail : List α} (hfirst : z ∉ first)
    (hseq : first ++ z :: rest = earlier ++ z :: tail) :
    (earlier = first ∧ rest = tail) ∨
      ∃ between, earlier = first ++ z :: between ∧ rest = between ++ z :: tail := by
  rcases List.append_eq_append_iff.mp hseq with ⟨middle, rfl, htail⟩ | ⟨middle, rfl, htail⟩
  · cases middle with
    | nil =>
        rw [List.nil_append, List.cons.injEq] at htail
        exact .inl ⟨List.append_nil first, htail.2⟩
    | cons c between =>
        rw [List.cons_append, List.cons.injEq] at htail
        obtain ⟨rfl, hrest⟩ := htail
        exact .inr ⟨between, rfl, hrest⟩
  · cases middle with
    | nil =>
        rw [List.nil_append, List.cons.injEq] at htail
        exact .inl ⟨(List.append_nil earlier).symm, htail.2.symm⟩
    | cons c between =>
        rw [List.cons_append, List.cons.injEq] at htail
        exact absurd (by simp [htail.1]) hfirst

/-- A sequence without a separator is one line. -/
theorem isLine_of_not_mem (hnone : z ∉ seq) : IsLine z seq i line ↔ i = 0 ∧ line = seq := by
  constructor
  · rintro ⟨before, after, rfl, rfl, -, hbefore, hafter⟩
    have hempty : before = [] := by
      rcases hbefore with rfl | ⟨earlier, rfl⟩
      · rfl
      · exact absurd (by simp) hnone
    have hempty' : after = [] := by
      rcases hafter with rfl | ⟨later, rfl⟩
      · rfl
      · exact absurd (by simp) hnone
    simp [hempty, hempty']
  · rintro ⟨rfl, rfl⟩
    exact ⟨[], [], by simp, rfl, hnone, .inl rfl, .inl rfl⟩

/-- The lines of a sequence are its first line and the lines behind the first separator. -/
theorem isLine_append {first rest : List α} (hfirst : z ∉ first) :
    IsLine z (first ++ z :: rest) i line ↔
      (i = 0 ∧ line = first) ∨ ∃ j, i = first.length + 1 + j ∧ IsLine z rest j line := by
  constructor
  · rintro ⟨before, after, hseq, rfl, hline, hbefore, hafter⟩
    rcases hbefore with rfl | ⟨earlier, rfl⟩
    · left
      refine ⟨rfl, ?_⟩
      rw [List.nil_append] at hseq
      rcases hafter with rfl | ⟨later, rfl⟩
      · rw [List.append_nil] at hseq
        exact absurd (hseq ▸ by simp) hline
      · rcases append_cons_cases hfirst hseq with ⟨heq, -⟩ | ⟨between, rfl, -⟩
        · exact heq
        · exact absurd (by simp) hline
    · right
      rw [List.append_assoc, List.append_assoc, List.singleton_append] at hseq
      rcases append_cons_cases hfirst hseq with ⟨rfl, hrest⟩ | ⟨between, rfl, hrest⟩
      · exact ⟨0, by simp, [], after, by simp [hrest], rfl, hline, .inl rfl, hafter⟩
      · refine ⟨between.length + 1, by simp; omega, between ++ [z], after, by simp [hrest], by simp,
          hline, .inr ⟨between, rfl⟩, hafter⟩
  · rintro (⟨rfl, rfl⟩ | ⟨j, rfl, before, after, rfl, rfl, hline, hbefore, hafter⟩)
    · exact ⟨[], z :: rest, rfl, rfl, hfirst, .inl rfl, .inr ⟨rest, rfl⟩⟩
    · refine ⟨first ++ z :: before, after, by simp, by simp; omega, hline, .inr ?_, hafter⟩
      rcases hbefore with rfl | ⟨earlier, rfl⟩
      · exact ⟨first, rfl⟩
      · exact ⟨first ++ z :: earlier, by simp⟩

/-- Splitting at the separators gives the lines, in their places. -/
theorem mem_placed_splitOn [DecidableEq α] (n : Nat) :
    (i, line) ∈ placed n (seq.splitOn z) ↔ ∃ j, i = n + j ∧ IsLine z seq j line := by
  induction hlength : seq.length using Nat.strongRecOn generalizing seq n with
  | ind length ih =>
  by_cases hmem : z ∈ seq
  · obtain ⟨first, rest, rfl, hfirst⟩ := List.eq_append_cons_of_mem hmem
    rw [List.splitOn_append_cons_self_of_not_mem hfirst, placed, List.mem_cons,
      ih rest.length (by simp [← hlength]; omega) _ rfl, Prod.mk.injEq]
    simp only [isLine_append hfirst]
    constructor
    · rintro (⟨rfl, rfl⟩ | ⟨j, rfl, hline⟩)
      · exact ⟨0, rfl, .inl ⟨rfl, rfl⟩⟩
      · exact ⟨first.length + 1 + j, by omega, .inr ⟨j, rfl, hline⟩⟩
    · rintro ⟨j, rfl, ⟨rfl, rfl⟩ | ⟨k, rfl, hline⟩⟩
      · exact .inl ⟨rfl, rfl⟩
      · exact .inr ⟨k, by omega, hline⟩
  · rw [List.splitOn_eq_singleton hmem]
    simp only [placed, List.mem_singleton, Prod.mk.injEq, isLine_of_not_mem hmem]
    constructor
    · rintro ⟨rfl, rfl⟩
      exact ⟨0, rfl, rfl, rfl⟩
    · rintro ⟨j, rfl, rfl, rfl⟩
      exact ⟨rfl, rfl⟩

/-! ## Windows -/

/-- What comes before the first separator. -/
theorem exists_first [DecidableEq α] (z : α) (seq : List α) :
    ∃ first rest, seq = first ++ rest ∧ z ∉ first ∧
      (rest = [] ∨ ∃ later, rest = z :: later) := by
  by_cases hmem : z ∈ seq
  · obtain ⟨first, rest, rfl, hfirst⟩ := List.eq_append_cons_of_mem hmem
    exact ⟨first, z :: rest, rfl, hfirst, .inr ⟨rest, rfl⟩⟩
  · exact ⟨seq, [], by simp, hmem, .inl rfl⟩

/-- Of two ways to cut a sequence, the longer first part has the shorter one in front. -/
theorem exists_between {first rest first' rest' : List α} (hseq : first ++ rest = first' ++ rest')
    (hle : first.length ≤ first'.length) :
    ∃ between, first' = first ++ between ∧ rest = between ++ rest' := by
  rcases List.append_eq_append_iff.mp hseq with ⟨between, rfl, hrest⟩ | ⟨between, rfl, hrest⟩
  · exact ⟨between, rfl, hrest⟩
  · have hnone : between = [] := by
      rw [List.length_append] at hle
      exact List.eq_nil_of_length_eq_zero (by omega)
    subst hnone
    exact ⟨[], by simp, by simpa using hrest.symm⟩

/-- A line that lies in a window is a line of the window. -/
theorem isLine_window (hseq : seq = before ++ window ++ after) (hline : IsLine z seq i line)
    (hstart : before.length ≤ i) (hstop : i + line.length ≤ before.length + window.length) :
    IsLine z window (i - before.length) line := by
  obtain ⟨head, tail, rfl, rfl, hclean, hhead, htail⟩ := hline
  rw [List.append_assoc, List.append_assoc] at hseq
  obtain ⟨between, rfl, hrest⟩ := exists_between hseq.symm hstart
  rw [← List.append_assoc between] at hrest
  obtain ⟨later, rfl, rfl⟩ := exists_between hrest.symm (by
    rw [List.length_append] at hstop ⊢
    omega)
  refine ⟨between, later, rfl, by simp, hclean, ?_, ?_⟩
  · rcases List.eq_nil_or_concat between with rfl | ⟨earlier, c, rfl⟩
    · exact .inl rfl
    · right
      rcases hhead with hnone | ⟨start, hsome⟩
      · simp at hnone
      · rw [List.concat_eq_append, ← List.append_assoc] at hsome
        have hc := (List.append_inj' hsome rfl).2
        rw [List.cons.injEq] at hc
        exact ⟨earlier, by rw [List.concat_eq_append, hc.1]⟩
  · cases later with
    | nil => exact .inl rfl
    | cons c later =>
        right
        rcases htail with hnone | ⟨rest, hsome⟩
        · simp at hnone
        · rw [List.cons_append, List.cons.injEq] at hsome
          exact ⟨later, by rw [hsome.1]⟩

/-- A piece of a window that does not start the window is a line, or the part of a line that
lies before the end of the window. -/
theorem isLine_of_window [DecidableEq α] (hseq : seq = before ++ window ++ after) {j : Nat}
    (hpiece : IsLine z window j line) (hinside : 0 < j ∨ before = []) :
    IsLine z seq (before.length + j) line ∨
      (j + line.length = window.length ∧ ∃ rest, rest ≠ [] ∧
        IsLine z seq (before.length + j) (line ++ rest)) := by
  obtain ⟨head, tail, rfl, rfl, hclean, hhead, htail⟩ := hpiece
  have hstart : before ++ head = [] ∨ ∃ earlier, before ++ head = earlier ++ [z] := by
    rcases hhead with rfl | ⟨earlier, rfl⟩
    · left
      rw [List.append_nil]
      exact hinside.resolve_left (by simp)
    · right
      exact ⟨before ++ earlier, by rw [List.append_assoc]⟩
  have hall : seq = (before ++ head) ++ line ++ (tail ++ after) := by
    rw [hseq]
    simp only [List.append_assoc]
  have hlength : (before ++ head).length = before.length + head.length := List.length_append
  rcases htail with rfl | ⟨later, rfl⟩
  · rw [List.nil_append] at hall
    by_cases hwhole : after = [] ∨ ∃ later, after = z :: later
    · left
      exact ⟨before ++ head, after, hall, hlength, hclean, hstart, hwhole⟩
    · right
      obtain ⟨rest, remainder, rfl, hrest, hremainder⟩ := exists_first z after
      refine ⟨by simp, rest, ?_, before ++ head, remainder, ?_, hlength, ?_, hstart, hremainder⟩
      · rintro rfl
        exact hwhole hremainder
      · rw [hall]
        simp only [List.append_assoc]
      · rw [List.mem_append, not_or]
        exact ⟨hclean, hrest⟩
  · left
    exact ⟨before ++ head, z :: later ++ after, hall, hlength, hclean, hstart,
      .inr ⟨later ++ after, rfl⟩⟩

end Lines

end Ngsm.Lib
