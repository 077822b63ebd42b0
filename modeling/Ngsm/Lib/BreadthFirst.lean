/-
# Breadth-first walks

A walk takes nodes from a queue, visits each node once and appends the successors of the node
that it visits.  The graph is arbitrary except that finitely many nodes have successors, which
is what makes the walk end.

The order of a walk is described in three ways: it is the list of first occurrences in the
sequence of all nodes that enter the queue, it goes through the graph layer by layer, and the
distance from the start never falls.
-/

import Mathlib.Data.Finset.Card
import Mathlib.Logic.Relation

namespace Ngsm.Lib

namespace BreadthFirst

/-- The successors of every node, in order; only listed nodes have any. -/
structure Graph (α : Type) where
  successors : α → List α
  sources : Finset α
  successors_of_not_mem : ∀ x, x ∉ sources → successors x = []

/-- A node can be reached in at most so many steps. -/
def Within {α : Type} (step : α → α → Prop) (start : α) : Nat → α → Prop
  | 0, x => x = start
  | n + 1, x => Within step start n x ∨ ∃ y, Within step start n y ∧ step y x

theorem Within.mono {α : Type} {step : α → α → Prop} {start x : α} {n m : Nat}
    (hx : Within step start n x) (hle : n ≤ m) : Within step start m x := by
  induction hle with
  | refl => exact hx
  | step _ ih => exact .inl ih

variable {α : Type} [DecidableEq α] (g : Graph α)

/-- One node is a successor of another. -/
def Graph.Step (x y : α) : Prop :=
  y ∈ g.successors x

/-- The nodes of a list that were not seen before, each where it occurs first. -/
def firsts (seen : Finset α) : List α → List α
  | [] => []
  | x :: rest => if x ∈ seen then firsts seen rest else x :: firsts (insert x seen) rest

/-- A node that is new leaves fewer sources, or has no successors. -/
theorem Graph.measure_lt {x : α} {seen : Finset α} (hnew : x ∉ seen) (queue : List α) :
    Prod.Lex (· < ·) (· < ·)
      ((g.sources \ insert x seen).card, (queue ++ g.successors x).length)
      ((g.sources \ seen).card, (x :: queue).length) := by
  by_cases hsource : x ∈ g.sources
  · apply Prod.Lex.left
    apply Finset.card_lt_card
    rw [Finset.ssubset_iff_of_subset (Finset.sdiff_subset_sdiff le_rfl (by simp))]
    exact ⟨x, by simp [hsource, hnew], by simp⟩
  · have hsame : g.sources \ insert x seen = g.sources \ seen := by
      ext y
      simp only [Finset.mem_sdiff, Finset.mem_insert, not_or]
      constructor
      · rintro ⟨hy, -, hnot⟩
        exact ⟨hy, hnot⟩
      · rintro ⟨hy, hnot⟩
        exact ⟨hy, fun heq => hsource (heq ▸ hy), hnot⟩
    rw [hsame, g.successors_of_not_mem x hsource, List.append_nil]
    apply Prod.Lex.right
    simp

/-- The nodes that a walk visits, in order. -/
def Graph.walk (seen : Finset α) : List α → List α
  | [] => []
  | x :: queue =>
      if x ∈ seen then
        walk seen queue
      else
        x :: walk (insert x seen) (queue ++ g.successors x)
termination_by queue => ((g.sources \ seen).card, queue.length)
decreasing_by
  · apply Prod.Lex.right
    simp
  · rename_i hnew
    exact g.measure_lt hnew queue

/-! ## First occurrences -/

section

variable {seen : Finset α} {l l' : List α} {x : α}

theorem mem_firsts : x ∈ firsts seen l ↔ x ∈ l ∧ x ∉ seen := by
  induction l generalizing seen with
  | nil => simp [firsts]
  | cons y l ih =>
      rw [firsts]
      by_cases hy : y ∈ seen
      · rw [if_pos hy, ih, List.mem_cons]
        constructor
        · rintro ⟨hx, hnew⟩
          exact ⟨.inr hx, hnew⟩
        · rintro ⟨rfl | hx, hnew⟩
          · exact absurd hy hnew
          · exact ⟨hx, hnew⟩
      · rw [if_neg hy, List.mem_cons, ih, List.mem_cons, Finset.mem_insert, not_or]
        constructor
        · rintro (rfl | ⟨hx, -, hnew⟩)
          · exact ⟨.inl rfl, hy⟩
          · exact ⟨.inr hx, hnew⟩
        · rintro ⟨rfl | hx, hnew⟩
          · exact .inl rfl
          · by_cases hxy : x = y
            · exact .inl hxy
            · exact .inr ⟨hx, hxy, hnew⟩

theorem nodup_firsts (seen : Finset α) (l : List α) : (firsts seen l).Nodup := by
  induction l generalizing seen with
  | nil => exact List.nodup_nil
  | cons y l ih =>
      rw [firsts]
      by_cases hy : y ∈ seen
      · rw [if_pos hy]
        exact ih seen
      · rw [if_neg hy, List.nodup_cons, mem_firsts]
        exact ⟨by simp, ih _⟩

end

/-! ## Walks -/

section

variable {g} {seen : Finset α} {queue : List α} {x : α}

@[simp]
theorem Graph.walk_nil : g.walk seen [] = [] := by
  rw [Graph.walk]

theorem Graph.walk_of_mem (hseen : x ∈ seen) : g.walk seen (x :: queue) = g.walk seen queue := by
  rw [Graph.walk, if_pos hseen]

theorem Graph.walk_of_not_mem (hnew : x ∉ seen) :
    g.walk seen (x :: queue) = x :: g.walk (insert x seen) (queue ++ g.successors x) := by
  rw [Graph.walk, if_neg hnew]

/-- A walk visits the nodes that enter its queue, in the order in which they first enter it. -/
theorem Graph.walk_eq_firsts (seen : Finset α) (queue : List α) :
    g.walk seen queue = firsts seen (queue ++ (g.walk seen queue).flatMap g.successors) := by
  induction seen, queue using Graph.walk.induct g with
  | case1 seen => simp [firsts]
  | case2 seen x queue hseen ih =>
      rw [walk_of_mem hseen, List.cons_append, firsts, if_pos hseen]
      exact ih
  | case3 seen x queue hnew ih =>
      rw [walk_of_not_mem hnew, List.cons_append, firsts, if_neg hnew, List.flatMap_cons,
        ← List.append_assoc]
      exact congrArg (x :: ·) ih

theorem Graph.nodup_walk (seen : Finset α) (queue : List α) : (g.walk seen queue).Nodup := by
  rw [walk_eq_firsts]
  exact nodup_firsts _ _

/-- What a walk visits can be reached from its queue. -/
theorem Graph.reachable_of_mem_walk (hx : x ∈ g.walk seen queue) :
    ∃ y ∈ queue, Relation.ReflTransGen g.Step y x := by
  induction seen, queue using Graph.walk.induct g with
  | case1 seen => simp at hx
  | case2 seen y queue hseen ih =>
      rw [walk_of_mem hseen] at hx
      obtain ⟨z, hz, hreach⟩ := ih hx
      exact ⟨z, List.mem_cons_of_mem _ hz, hreach⟩
  | case3 seen y queue hnew ih =>
      rw [walk_of_not_mem hnew, List.mem_cons] at hx
      rcases hx with rfl | hx
      · exact ⟨x, by simp, .refl⟩
      · obtain ⟨z, hz, hreach⟩ := ih hx
        rcases List.mem_append.mp hz with hz | hz
        · exact ⟨z, List.mem_cons_of_mem _ hz, hreach⟩
        · exact ⟨y, by simp, .head hz hreach⟩

/-- A walk that has seen nothing visits exactly the nodes that can be reached. -/
theorem Graph.mem_walk_iff : x ∈ g.walk ∅ queue ↔
    ∃ y ∈ queue, Relation.ReflTransGen g.Step y x := by
  constructor
  · exact reachable_of_mem_walk
  · rintro ⟨y, hy, hreach⟩
    have hvisited : ∀ z, z ∈ queue ∨ (∃ w ∈ g.walk ∅ queue, g.Step w z) →
        z ∈ g.walk ∅ queue := by
      intro z hz
      rw [walk_eq_firsts, mem_firsts, List.mem_append, List.mem_flatMap]
      exact ⟨hz, by simp⟩
    induction hreach with
    | refl => exact hvisited y (.inl hy)
    | tail _ hstep ih => exact hvisited _ (.inr ⟨_, ih, hstep⟩)

/-- A walk visits what is new in the first part of its queue before it visits the successors. -/
theorem Graph.walk_append (seen : Finset α) (layer queue : List α) :
    g.walk seen (layer ++ queue) = firsts seen layer ++
      g.walk (seen ∪ (firsts seen layer).toFinset)
        (queue ++ (firsts seen layer).flatMap g.successors) := by
  induction layer generalizing seen queue with
  | nil => simp [firsts]
  | cons x layer ih =>
      rw [List.cons_append, firsts]
      by_cases hx : x ∈ seen
      · rw [walk_of_mem hx, if_pos hx, ih]
      · rw [walk_of_not_mem hx, if_neg hx, List.append_assoc, ih, List.cons_append,
          List.toFinset_cons, List.flatMap_cons, Finset.union_insert, Finset.insert_union,
          List.append_assoc]

end

/-! ## Distances -/

section

variable {g} {start x : α}

/-- What a walk visits from a layer on: the layers lie behind each other, and no layer has a node
of an earlier one. -/
theorem Graph.walk_layers {seen : Finset α} {layer : List α} {d : Nat}
    (hseen : ∀ x, x ∈ seen ↔ ∃ n < d, Within g.Step start n x)
    (hlayer : ∀ x ∈ layer, Within g.Step start d x)
    (hall : ∀ x, Within g.Step start d x → x ∈ seen ∨ x ∈ layer) :
    (g.walk seen layer).Pairwise
        (fun x y => ∀ n, Within g.Step start n y → Within g.Step start n x) ∧
      ∀ x ∈ g.walk seen layer, ∀ n < d, ¬ Within g.Step start n x := by
  induction hlength : (g.walk seen layer).length using Nat.strong_induction_on
    generalizing d seen layer with
  | h length ih =>
      have hwalk := g.walk_append seen layer []
      rw [List.append_nil, List.nil_append] at hwalk
      have hnew : ∀ x ∈ firsts seen layer, Within g.Step start d x ∧ x ∉ seen := by
        intro x hx
        obtain ⟨hmem, hnot⟩ := mem_firsts.mp hx
        exact ⟨hlayer x hmem, hnot⟩
      have hfar : ∀ x ∉ seen, ∀ n < d, ¬ Within g.Step start n x :=
        fun x hnot n hn hwithin => hnot ((hseen x).mpr ⟨n, hn, hwithin⟩)
      by_cases hempty : firsts seen layer = []
      · rw [hwalk, hempty]
        simp
      · have hseen' : ∀ x, x ∈ seen ∪ (firsts seen layer).toFinset ↔
            ∃ n < d + 1, Within g.Step start n x := by
          intro x
          rw [Finset.mem_union, List.mem_toFinset, hseen]
          constructor
          · rintro (⟨n, hn, hwithin⟩ | hx)
            · exact ⟨n, by omega, hwithin⟩
            · exact ⟨d, by omega, (hnew x hx).1⟩
          · rintro ⟨n, hn, hwithin⟩
            by_cases hx : x ∈ seen
            · exact .inl ((hseen x).mp hx)
            · have hmem := (hall x (hwithin.mono (by omega))).resolve_left hx
              exact .inr (mem_firsts.mpr ⟨hmem, hx⟩)
        have hlayer' : ∀ x ∈ (firsts seen layer).flatMap g.successors,
            Within g.Step start (d + 1) x := by
          intro x hx
          obtain ⟨y, hy, hstep⟩ := List.mem_flatMap.mp hx
          exact .inr ⟨y, (hnew y hy).1, hstep⟩
        have hall' : ∀ x, Within g.Step start (d + 1) x →
            x ∈ seen ∪ (firsts seen layer).toFinset ∨
              x ∈ (firsts seen layer).flatMap g.successors := by
          intro x hx
          rcases hx with hx | ⟨y, hy, hstep⟩
          · exact .inl ((hseen' x).mpr ⟨d, by omega, hx⟩)
          · by_cases hold : y ∈ seen
            · obtain ⟨n, hn, hwithin⟩ := (hseen y).mp hold
              exact .inl ((hseen' x).mpr ⟨n + 1, by omega, .inr ⟨y, hwithin, hstep⟩⟩)
            · have hmem := (hall y hy).resolve_left hold
              exact .inr (List.mem_flatMap.mpr ⟨y, mem_firsts.mpr ⟨hmem, hold⟩, hstep⟩)
        have hshorter : (g.walk (seen ∪ (firsts seen layer).toFinset)
            ((firsts seen layer).flatMap g.successors)).length < length := by
          have hpositive := List.length_pos_of_ne_nil hempty
          rw [← hlength, hwalk, List.length_append]
          omega
        obtain ⟨hsorted, hlate⟩ := ih _ hshorter hseen' hlayer' hall' rfl
        rw [hwalk]
        constructor
        · rw [List.pairwise_append]
          refine ⟨?_, hsorted, ?_⟩
          · apply List.pairwise_of_forall_mem_list
            intro x hx y hy n hwithin
            have hle := Nat.le_of_not_lt fun hlt => hfar y (hnew y hy).2 n hlt hwithin
            exact (hnew x hx).1.mono hle
          · intro x hx y hy n hwithin
            have hle := Nat.le_of_not_lt fun hlt => hlate y hy n hlt hwithin
            exact (hnew x hx).1.mono (by omega)
        · intro x hx n hn
          rcases List.mem_append.mp hx with hx | hx
          · exact hfar x (hnew x hx).2 n hn
          · exact hlate x hx n (by omega)

/-- The distance from the start never falls along a walk. -/
theorem Graph.pairwise_walk (start : α) :
    (g.walk ∅ [start]).Pairwise
      fun x y => ∀ n, Within g.Step start n y → Within g.Step start n x := by
  refine (walk_layers (d := 0) (by simp) ?_ ?_).1
  · intro x hx
    exact List.mem_singleton.mp hx
  · intro x hx
    exact .inr (List.mem_singleton.mpr hx)

end

end BreadthFirst

end Ngsm.Lib
