/-
# Bookshelves

A shelf has numbered places.  New things are added to what lies at place 0, and what lies at a
place may be moved to the next one when that is free, or be thrown away.  So what is older
never comes before what is newer.

Someone looks through the places, from the last one to the first, while things are moved.  What
is seen is in order, and nothing is seen twice; what is not touched meanwhile is seen whole.
-/

import Mathlib.Data.List.Infix
import Mathlib.Logic.Function.Basic
import Ngsm.Lib.Runs

namespace Ngsm.Lib

/-- What lies at each place, the oldest first. -/
abbrev Bookshelf (α : Type) : Type :=
  ℕ → Option (List α)

namespace Bookshelf

variable {α : Type} {shelf shelf' : Bookshelf α} {content : List α} {a : α} {i n : ℕ}

inductive Op (α : Type) where
  | put (a : α)
  | drop (i : ℕ)
  | lift (i : ℕ)

/-- Nothing is moved to a place that is taken. -/
def step (shelf : Bookshelf α) : Op α → Option (Bookshelf α)
  | .put a => some (Function.update shelf 0 (some ((shelf 0).getD [] ++ [a])))
  | .drop i => some (Function.update shelf i none)
  | .lift i =>
      match shelf i, shelf (i + 1) with
      | some content, none =>
          some (Function.update (Function.update shelf (i + 1) (some content)) i none)
      | _, _ => none

def Op.puts : Op α → List α
  | .put a => [a]
  | .drop _ | .lift _ => []

/-- What lies below a place, the oldest first. -/
def below (shelf : Bookshelf α) : ℕ → List α
  | 0 => []
  | n + 1 => (shelf n).getD [] ++ below shelf n

/-- The same, place by place. -/
def contents (shelf : Bookshelf α) : ℕ → List (List α)
  | 0 => []
  | n + 1 => (shelf n).toList ++ contents shelf n

theorem flatten_toList (place : Option (List α)) : place.toList.flatten = place.getD [] := by
  cases place <;> simp

theorem flatten_contents (shelf : Bookshelf α) (n : ℕ) :
    (contents shelf n).flatten = below shelf n := by
  induction n with
  | zero => rfl
  | succ n ih => rw [contents, below, List.flatten_append, flatten_toList, ih]

theorem step_lift (h : shelf.step (.lift i) = some shelf') :
    ∃ content, shelf i = some content ∧ shelf (i + 1) = none ∧
      shelf' = Function.update (Function.update shelf (i + 1) (some content)) i none := by
  simp only [step] at h
  cases hcontent : shelf i with
  | none =>
      rw [hcontent] at h
      cases h
  | some content =>
      cases hfree : shelf (i + 1) with
      | none =>
          rw [hcontent, hfree] at h
          exact ⟨content, rfl, rfl, (Option.some.inj h).symm⟩
      | some other =>
          rw [hcontent, hfree] at h
          cases h

theorem step_lift_of (h : shelf i = some content) (h' : shelf (i + 1) = none) :
    shelf.step (.lift i) =
      some (Function.update (Function.update shelf (i + 1) (some content)) i none) := by
  simp only [step, h, h']

/-! ## What lies below a place -/

theorem below_congr (h : ∀ i, i < n → shelf i = shelf' i) : below shelf n = below shelf' n := by
  induction n with
  | zero => rfl
  | succ n ih => rw [below, below, h n (by omega), ih fun i hi => h i (by omega)]

theorem below_update_of_le {place : Option (List α)} (h : n ≤ i) :
    below (Function.update shelf i place) n = below shelf n :=
  below_congr fun j hj => by rw [Function.update_of_ne (by omega)]

theorem below_put : below (Function.update shelf 0 (some ((shelf 0).getD [] ++ [a]))) (n + 1) =
    below shelf (n + 1) ++ [a] := by
  induction n with
  | zero => simp [below]
  | succ n ih =>
      rw [below, ih, Function.update_of_ne (by omega), ← List.append_assoc]
      rfl

theorem below_drop (shelf : Bookshelf α) (i n : ℕ) :
    (below (Function.update shelf i none) n).Sublist (below shelf n) := by
  induction n with
  | zero => exact .refl []
  | succ n ih =>
      refine List.Sublist.append ?_ ih
      by_cases h : n = i
      · rw [h, Function.update_self]
        exact List.nil_sublist _
      · rw [Function.update_of_ne h]

/-- What is dropped from the last place is what was there. -/
theorem below_drop_last :
    (shelf n).getD [] ++ below (Function.update shelf n none) (n + 1) = below shelf (n + 1) := by
  rw [below, below, Function.update_self, below_update_of_le (Nat.le_refl n)]
  rfl

theorem below_lift (h : shelf.step (.lift i) = some shelf') (hn : i + 1 < n) :
    below shelf' n = below shelf n := by
  obtain ⟨content, hcontent, hfree, rfl⟩ := step_lift h
  induction n with
  | zero => omega
  | succ n ih =>
      by_cases hlast : n = i + 1
      · subst hlast
        have hbelow : below (Function.update (Function.update shelf (i + 1) (some content)) i none)
            i = below shelf i := by
          rw [below_update_of_le (Nat.le_refl i), below_update_of_le (by omega)]
        rw [below, below, below, below, hbelow, hcontent, hfree, Function.update_self,
          Function.update_of_ne (by omega), Function.update_self]
        rfl
      · rw [below, below, ih (by omega), Function.update_of_ne (by omega),
          Function.update_of_ne (by omega)]

theorem below_lift_sublist (h : shelf.step (.lift i) = some shelf') (n : ℕ) :
    (below shelf' n).Sublist (below shelf n) := by
  by_cases hn : i + 1 < n
  · rw [below_lift h hn]
  · obtain ⟨content, -, -, rfl⟩ := step_lift h
    refine (below_drop _ i n).trans ?_
    rw [below_update_of_le (by omega)]

/-! ## Tidy runs -/

/-- Only what lies at the last place is thrown away. -/
def Op.Tidy (n : ℕ) : Op α → Prop
  | .put _ => True
  | .drop i => i = n
  | .lift i => i < n

/-- One tidy step: what lies on the shelf, with what was thrown away, is what lay there, and
what was put. -/
theorem step_tidy {op : Op α} (h : shelf.step op = some shelf') (htidy : op.Tidy n) :
    ∃ gone, gone ++ below shelf' (n + 1) = below shelf (n + 1) ++ op.puts := by
  cases op with
  | put a =>
      cases h
      exact ⟨[], below_put⟩
  | drop i =>
      cases h
      obtain rfl : i = n := htidy
      exact ⟨_, below_drop_last.trans (List.append_nil _).symm⟩
  | lift i =>
      have hi : i < n := htidy
      exact ⟨[], (below_lift h (by omega)).trans (List.append_nil _).symm⟩

/-- Any step adds nothing but what is put, and adds it last. -/
theorem step_sublist {op : Op α} (h : shelf.step op = some shelf') (n : ℕ) :
    (below shelf' (n + 1)).Sublist (below shelf (n + 1) ++ op.puts) := by
  cases op with
  | put a =>
      cases h
      exact below_put ▸ .refl _
  | drop i =>
      cases h
      exact (below_drop ..).trans (List.sublist_append_left _ _)
  | lift i => exact (below_lift_sublist h _).trans (List.sublist_append_left _ _)

/-- A run of steps of some kind from one shelf to another, and what it puts there. -/
def Leads (allowed : Op α → Prop) (shelf shelf' : Bookshelf α) (put : List α) : Prop :=
  ∃ ops, Runs.run step shelf ops = some shelf' ∧ (∀ op ∈ ops, allowed op) ∧
    ops.flatMap Op.puts = put

section

variable {allowed allowed' : Op α → Prop} {put : List α}

theorem Leads.refl (allowed : Op α → Prop) (shelf : Bookshelf α) : Leads allowed shelf shelf [] :=
  ⟨[], rfl, fun _ hop => absurd hop List.not_mem_nil, rfl⟩

theorem Leads.single (op : Op α) (h : shelf.step op = some shelf') (hallowed : allowed op) :
    Leads allowed shelf shelf' op.puts := by
  refine ⟨[op], ?_, ?_, List.flatMap_singleton _ _⟩
  · rw [Runs.run_cons, h]
    rfl
  · intro other hother
    rw [List.mem_singleton.mp hother]
    exact hallowed

theorem Leads.trans {shelf'' : Bookshelf α} {put' : List α} (h : Leads allowed shelf shelf' put)
    (h' : Leads allowed shelf' shelf'' put') : Leads allowed shelf shelf'' (put ++ put') := by
  obtain ⟨ops, hrun, hops, rfl⟩ := h
  obtain ⟨ops', hrun', hops', rfl⟩ := h'
  refine ⟨ops ++ ops', ?_, fun op hop => ?_, List.flatMap_append⟩
  · rw [Runs.run_append, hrun]
    exact hrun'
  · rcases List.mem_append.mp hop with hop | hop
    · exact hops op hop
    · exact hops' op hop

theorem Leads.mono (h : Leads allowed shelf shelf' put) (himp : ∀ op, allowed op → allowed' op) :
    Leads allowed' shelf shelf' put := by
  obtain ⟨ops, hrun, hops, hput⟩ := h
  exact ⟨ops, hrun, fun op hop => himp op (hops op hop), hput⟩

/-- What lies at a place is moved to the next one, and what lay there is thrown away. -/
theorem Leads.move (hcontent : shelf i = some content) (hlift : allowed (.lift i))
    (hdrop : shelf (i + 1) = none ∨ allowed (.drop (i + 1))) :
    Leads allowed shelf
      (Function.update (Function.update shelf (i + 1) (some content)) i none) [] := by
  rcases hdrop with hfree | hdrop
  · exact .single (.lift i) (step_lift_of hcontent hfree) hlift
  · have hstill : Function.update shelf (i + 1) none i = some content := by
      rw [Function.update_of_ne (by omega), hcontent]
    have hlifted := step_lift_of hstill (Function.update_self ..)
    rw [Function.update_idem] at hlifted
    exact .trans (.single (.drop (i + 1)) rfl hdrop) (.single (.lift i) hlifted hlift)

/-- After any run the shelf holds what was there and what was put, in this order, except for what
was thrown away. -/
theorem Leads.sublist (h : Leads allowed shelf shelf' put) (n : ℕ) :
    (shelf'.below (n + 1)).Sublist (shelf.below (n + 1) ++ put) := by
  obtain ⟨ops, hrun, -, rfl⟩ := h
  refine Runs.run_history (fun past mid =>
    (mid.below (n + 1)).Sublist (shelf.below (n + 1) ++ past.flatMap Op.puts)) (by simp) ?_ hrun
  intro past mid op next hmid hstep
  refine (step_sublist hstep n).trans ?_
  rw [List.flatMap_append, ← List.append_assoc, List.flatMap_singleton]
  exact hmid.append (.refl _)

/-- After a tidy run it holds the end of this. -/
theorem Leads.suffix (h : Leads (Op.Tidy n) shelf shelf' put) :
    ∃ gone, gone ++ shelf'.below (n + 1) = shelf.below (n + 1) ++ put := by
  obtain ⟨ops, hrun, htidy, rfl⟩ := h
  induction ops generalizing shelf with
  | nil =>
      cases hrun
      exact ⟨[], (List.append_nil _).symm⟩
  | cons op ops ih =>
      rw [Runs.run_cons] at hrun
      obtain ⟨next, hstep, hrest⟩ := Option.bind_eq_some_iff.mp hrun
      obtain ⟨gone, hgone⟩ := step_tidy hstep (htidy op List.mem_cons_self)
      obtain ⟨later, hlater⟩ := ih hrest fun other hother =>
        htidy other (List.mem_cons_of_mem op hother)
      refine ⟨gone ++ later, ?_⟩
      calc gone ++ later ++ shelf'.below (n + 1)
          = gone ++ (later ++ shelf'.below (n + 1)) := List.append_assoc ..
        _ = gone ++ next.below (n + 1) ++ ops.flatMap Op.puts := by
            rw [hlater, List.append_assoc]
        _ = shelf.below (n + 1) ++ (op :: ops).flatMap Op.puts := by
            rw [hgone, List.append_assoc, List.flatMap_cons]

end

/-! ## Looking through the places -/

/-- The shelf, what has been seen of it, and how many places are still to be looked at. -/
structure Scan (α : Type) where
  shelf : Bookshelf α
  seen : List (List α) := []
  left : ℕ

inductive Event (α : Type) where
  | change (op : Op α)
  | look

def Event.puts : Event α → List α
  | .change op => op.puts
  | .look => []

def Scan.step (s : Scan α) : Event α → Option (Scan α)
  | .change op => (s.shelf.step op).map fun shelf => { s with shelf }
  | .look =>
      match s.left with
      | 0 => none
      | n + 1 => some { s with seen := s.seen ++ (s.shelf n).toList, left := n }

variable {s s' : Scan α} {event : Event α} {events : List (Event α)}

theorem Scan.step_change {op : Op α} (h : s.step (.change op) = some s') :
    ∃ shelf, s.shelf.step op = some shelf ∧ s' = { s with shelf } := by
  obtain ⟨shelf, hshelf, heq⟩ := Option.map_eq_some_iff.mp h
  exact ⟨shelf, hshelf, heq.symm⟩

theorem Scan.step_look (h : s.step .look = some s') :
    ∃ n, s.left = n + 1 ∧
      s' = { s with seen := s.seen ++ (s.shelf n).toList, left := n } := by
  simp only [Scan.step] at h
  cases hleft : s.left with
  | zero =>
      rw [hleft] at h
      cases h
  | succ n =>
      rw [hleft] at h
      exact ⟨n, rfl, (Option.some.inj h).symm⟩

/-- What was seen and what is still to be seen. -/
def Scan.held (s : Scan α) : List α :=
  s.seen.flatten ++ s.shelf.below s.left

/-- A step of the scan or of the shelf brings nothing but what is put, and brings it last. -/
theorem Scan.held_step (h : s.step event = some s') :
    s'.held.Sublist (s.held ++ event.puts) := by
  cases event with
  | look =>
      obtain ⟨n, hleft, rfl⟩ := Scan.step_look h
      simp [held, hleft, below, flatten_toList, Event.puts]
  | change op =>
      obtain ⟨shelf, hshelf, rfl⟩ := Scan.step_change h
      unfold held
      rw [List.append_assoc]
      refine List.Sublist.append (.refl _) ?_
      cases hleft : s.left with
      | zero => exact List.nil_sublist _
      | succ n => exact step_sublist hshelf n

/-- What is seen is in order, and nothing is seen twice. -/
theorem Scan.held_run (h : Runs.run Scan.step s events = some s') :
    s'.held.Sublist (s.held ++ events.flatMap Event.puts) := by
  refine Runs.run_history (fun past mid =>
    mid.held.Sublist (s.held ++ past.flatMap Event.puts)) (by simp) ?_ h
  intro past mid event next hmid hstep
  refine (Scan.held_step hstep).trans ?_
  rw [List.flatMap_append, ← List.append_assoc, List.flatMap_singleton]
  exact hmid.append (.refl _)

/-- Nobody moves what lies at a place, or throws it away. -/
def Event.Spares (i : ℕ) : Event α → Prop
  | .change (.drop j) | .change (.lift j) => j ≠ i
  | .change (.put _) | .look => True

/-- What lay at a place is still there, or was seen. -/
def Scan.Has (s : Scan α) (i : ℕ) (content : List α) : Prop :=
  (i < s.left → ∃ more, s.shelf i = some (content ++ more)) ∧
    (s.left ≤ i → ∃ more, content ++ more ∈ s.seen)

theorem Scan.has_step (hhas : s.Has i content) (hspares : event.Spares i)
    (h : s.step event = some s') : s'.Has i content := by
  obtain ⟨hleft, hseen⟩ := hhas
  cases event with
  | look =>
      obtain ⟨n, hn, rfl⟩ := Scan.step_look h
      refine ⟨fun hi => hleft ?_, fun hi => ?_⟩
      · rw [hn]
        exact Nat.lt_succ_of_lt hi
      · by_cases hnow : i = n
        · subst hnow
          obtain ⟨more, hmore⟩ := hleft (by omega)
          refine ⟨more, ?_⟩
          simp [hmore]
        · have hle : n ≤ i := hi
          obtain ⟨more, hmore⟩ := hseen (by omega)
          exact ⟨more, List.mem_append_left _ hmore⟩
  | change op =>
      obtain ⟨shelf, hshelf, rfl⟩ := Scan.step_change h
      refine ⟨fun hi => ?_, hseen⟩
      obtain ⟨more, hmore⟩ := hleft hi
      cases op with
      | put a =>
          cases hshelf
          by_cases hzero : i = 0
          · subst hzero
            refine ⟨more ++ [a], ?_⟩
            simp [hmore]
          · exact ⟨more, (Function.update_of_ne hzero _ _).trans hmore⟩
      | drop j =>
          cases hshelf
          have hj : j ≠ i := hspares
          exact ⟨more, (Function.update_of_ne hj.symm _ _).trans hmore⟩
      | lift j =>
          have hj : j ≠ i := hspares
          obtain ⟨other, -, hfree, rfl⟩ := step_lift hshelf
          have hnext : i ≠ j + 1 := by
            rintro rfl
            rw [hmore] at hfree
            cases hfree
          exact ⟨more, (Function.update_of_ne hj.symm _ _).trans
            ((Function.update_of_ne hnext _ _).trans hmore)⟩

/-- What is not touched is seen whole. -/
theorem Scan.has_run (hhas : s.Has i content) (hspares : ∀ event ∈ events, event.Spares i)
    (h : Runs.run Scan.step s events = some s') : s'.Has i content := by
  induction events generalizing s with
  | nil =>
      cases h
      exact hhas
  | cons event events ih =>
      rw [Runs.run_cons] at h
      obtain ⟨next, hstep, hrest⟩ := Option.bind_eq_some_iff.mp h
      refine ih (Scan.has_step hhas (hspares event List.mem_cons_self) hstep) ?_ hrest
      exact fun other hother => hspares other (List.mem_cons_of_mem event hother)

end Bookshelf

end Ngsm.Lib
