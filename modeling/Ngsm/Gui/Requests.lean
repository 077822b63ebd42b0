/-
# Requests of the window

The window sends work to another thread and shows the answers.  An answer may come
late, twice, or after the user went elsewhere, so every editor keeps the one request it
still waits for and takes no other answer.

The core that the editors share records what becomes of its requests.  The record is
not part of the program: it says which request is awaited independently of the field
that the program compares answers with.
-/

import Ngsm.Lib.Runs
import Ngsm.Ops.Specs

namespace Ngsm.Gui

open Ngsm.Lib
open Ngsm.Core
open Ngsm.Ops

/-- Counters are 64-bit; the program stops when one is exhausted. -/
def checkedSucc (n : ℕ) : Option ℕ :=
  if n + 1 < 2 ^ 64 then some (n + 1) else none

theorem checkedSucc_eq_some {n m : ℕ} (h : checkedSucc n = some m) : m = n + 1 := by
  unfold checkedSucc at h
  split at h
  · exact (Option.some.inj h).symm
  · cases h

structure Request (T : Type) where
  id : ℕ
  target : T
  deriving DecidableEq, Repr

structure RequestSequence where
  nextId : ℕ := 0
  deriving DecidableEq, Repr

variable {T : Type}

def RequestSequence.issue (sequence : RequestSequence) (target : T) :
    Option (Request T × RequestSequence) :=
  (checkedSucc sequence.nextId).map fun id => ({ id, target }, { nextId := id })

/-- What became of a request. -/
inductive Note (T : Type) where
  | accepted (request : Request T)
  | refused (request : Request T)
  | invalidated
  | answered (request : Request T)
  deriving DecidableEq, Repr

/-- The request that is waited for, if any, with the record of all requests. -/
structure Pending (T : Type) where
  sequence : RequestSequence := {}
  current : Option (Request T) := none
  notes : List (Note T) := []

namespace Pending

def busy (pending : Pending T) : Bool :=
  pending.current.isSome

def invalidate (pending : Pending T) : Pending T :=
  { pending with current := none, notes := pending.notes ++ [.invalidated] }

/-- Give a request to the queue, which accepts it or not. -/
def submit (target : T) (answer : Except String Unit) (pending : Pending T) :
    Option (Except String (Request T) × Pending T) := do
  let pending := pending.invalidate
  let (request, sequence) ← pending.sequence.issue target
  match answer with
  | .ok () =>
      some (.ok request,
        { sequence, current := some request, notes := pending.notes ++ [.accepted request] })
  | .error e =>
      some (.error e, { pending with sequence, notes := pending.notes ++ [.refused request] })

/-- Whether an answer is taken. -/
def finish [DecidableEq T] (request : Request T) (pending : Pending T) : Bool × Pending T :=
  if pending.current ≠ some request then
    (false, pending)
  else
    (true, { pending with
      current := none, notes := pending.notes ++ [.answered request] })

end Pending

/-! ## The request that is waited for -/

/-- A note after which a request is not waited for. -/
def Note.ends (request : Request T) : Note T → Prop
  | accepted _ | invalidated => True
  | refused _ => False
  | answered other => other = request

/-- The most recent accepted request, neither invalidated nor answered since. -/
def Awaited (notes : List (Note T)) (request : Request T) : Prop :=
  ∃ before after, notes = before ++ .accepted request :: after ∧
    ∀ note ∈ after, ¬ note.ends request

/-- The request of a note that gave it to the queue. -/
def Note.submitted : Note T → Option (Request T)
  | accepted request | refused request => some request
  | invalidated | answered _ => none

section

variable {notes : List (Note T)} {note : Note T} {request : Request T}

theorem not_awaited_nil : ¬ Awaited [] request := by
  rintro ⟨before, after, h, -⟩
  simp at h

theorem awaited_concat : Awaited (notes ++ [note]) request ↔
    note = .accepted request ∨ (Awaited notes request ∧ ¬ note.ends request) := by
  constructor
  · rintro ⟨before, after, h, hafter⟩
    rcases List.eq_nil_or_concat after with rfl | ⟨after, last, rfl⟩
    · exact .inl (List.append_inj_right' h rfl |> List.singleton_inj.mp)
    · rw [List.concat_eq_append, ← List.cons_append, ← List.append_assoc] at h
      obtain ⟨hnotes, hlast⟩ := List.append_inj' h rfl
      cases hlast
      refine .inr ⟨⟨before, after, hnotes, ?_⟩, hafter note (by simp)⟩
      intro other hother
      exact hafter other (by simp [hother])
  · rintro (rfl | ⟨⟨before, after, rfl, hafter⟩, hnote⟩)
    · exact ⟨notes, [], rfl, by simp⟩
    · refine ⟨before, after ++ [note], by simp, ?_⟩
      intro other hother
      rcases List.mem_append.mp hother with hold | hnew
      · exact hafter other hold
      · rw [List.mem_singleton.mp hnew]
        exact hnote

theorem submitted_concat_none (h : note.submitted = none) :
    (notes ++ [note]).filterMap Note.submitted = notes.filterMap Note.submitted := by
  rw [List.filterMap_append, List.filterMap_cons_none h, List.filterMap_nil, List.append_nil]

end

/-- The awaited request is the one that answers are compared with, and identifiers
grow. -/
structure Pending.Sound (pending : Pending T) : Prop where
  current : ∀ request, pending.current = some request ↔ Awaited pending.notes request
  ids : ((pending.notes.filterMap Note.submitted).map Request.id).Pairwise (· < ·)
  bound : ∀ request ∈ pending.notes.filterMap Note.submitted,
    request.id ≤ pending.sequence.nextId

namespace Pending

section

variable {pending pending' : Pending T} {target : T} {answer : Except String Unit}
  {result : Except String (Request T)} {request : Request T}

/-- What a submission does. -/
theorem submit_cases (h : pending.submit target answer = some (result, pending')) :
    (answer = .ok () ∧ result = .ok ⟨pending.sequence.nextId + 1, target⟩ ∧ pending' =
      { sequence := ⟨pending.sequence.nextId + 1⟩
        current := some ⟨pending.sequence.nextId + 1, target⟩
        notes := pending.notes ++ [.invalidated] ++
          [.accepted ⟨pending.sequence.nextId + 1, target⟩] }) ∨
    (∃ e, answer = .error e ∧ result = .error e ∧ pending' =
      { sequence := ⟨pending.sequence.nextId + 1⟩
        current := none
        notes := pending.notes ++ [.invalidated] ++
          [.refused ⟨pending.sequence.nextId + 1, target⟩] }) := by
  simp only [submit, RequestSequence.issue, Option.bind_eq_bind, Option.bind_eq_some_iff,
    Option.map_eq_some_iff] at h
  obtain ⟨_, ⟨id, hid, rfl⟩, h⟩ := h
  cases checkedSucc_eq_some hid
  cases answer with
  | ok _ =>
      cases h
      exact .inl ⟨rfl, rfl, rfl⟩
  | error e =>
      cases h
      exact .inr ⟨e, rfl, rfl, rfl⟩

theorem Sound.empty : Sound ({} : Pending T) := by
  apply Sound.mk
  · intro request
    exact iff_of_false (by simp) not_awaited_nil
  · exact List.Pairwise.nil
  · intro request hmem
    cases hmem

theorem Sound.invalidate (h : Sound pending) : Sound pending.invalidate := by
  apply Sound.mk
  · intro request
    refine iff_of_false (by simp [Pending.invalidate]) ?_
    rw [Pending.invalidate, awaited_concat]
    simp [Note.ends]
  · rw [Pending.invalidate, submitted_concat_none rfl]
    exact h.ids
  · rw [Pending.invalidate, submitted_concat_none rfl]
    exact h.bound

/-- A new identifier is greater than those before it. -/
theorem Sound.ids_concat (h : Sound pending) (note : Note T) {id : ℕ}
    (hid : pending.sequence.nextId < id) (hnote : note.submitted = some ⟨id, target⟩) :
    (((pending.notes ++ [note]).filterMap Note.submitted).map Request.id).Pairwise (· < ·) ∧
      ∀ request ∈ (pending.notes ++ [note]).filterMap Note.submitted, request.id ≤ id := by
  rw [List.filterMap_append, List.filterMap_cons_some hnote, List.filterMap_nil]
  constructor
  · rw [List.map_append, List.pairwise_append]
    refine ⟨h.ids, List.pairwise_singleton _ _, ?_⟩
    intro earlier hearlier later hlater
    obtain ⟨request, hrequest, rfl⟩ := List.mem_map.mp hearlier
    rw [List.mem_singleton.mp hlater]
    exact Nat.lt_of_le_of_lt (h.bound request hrequest) hid
  · intro request hrequest
    rcases List.mem_append.mp hrequest with hearlier | hlast
    · exact Nat.le_trans (h.bound request hearlier) (Nat.le_of_lt hid)
    · rw [List.mem_singleton.mp hlast]

theorem Sound.submit (h : Sound pending)
    (hsubmit : pending.submit target answer = some (result, pending')) : Sound pending' := by
  have hinvalid := h.invalidate
  have hnone : ∀ request, ¬ Awaited (pending.notes ++ [.invalidated]) request := by
    intro request hawaited
    cases (hinvalid.current request).mpr hawaited
  rcases submit_cases hsubmit with ⟨-, -, rfl⟩ | ⟨e, -, -, rfl⟩
  · have hids := hinvalid.ids_concat
      (.accepted ⟨pending.sequence.nextId + 1, target⟩) (Nat.lt_succ_self _) rfl
    refine ⟨?_, hids.1, hids.2⟩
    intro request
    rw [awaited_concat, or_iff_left fun hother => hnone request hother.1]
    simp
  · have hids := hinvalid.ids_concat
      (.refused ⟨pending.sequence.nextId + 1, target⟩) (Nat.lt_succ_self _) rfl
    refine ⟨?_, hids.1, hids.2⟩
    intro request
    rw [awaited_concat, or_iff_right (by simp)]
    exact iff_of_false (by simp) fun hawaited => hnone request hawaited.1

variable [DecidableEq T]

theorem Sound.finish (h : Sound pending) (request : Request T) :
    Sound (pending.finish request).2 := by
  unfold Pending.finish
  split
  · exact h
  · rename_i hcurrent
    rw [not_not] at hcurrent
    apply Sound.mk
    · intro other
      rw [awaited_concat]
      refine iff_of_false (by simp) ?_
      rintro (hnote | ⟨hawaited, hends⟩)
      · cases hnote
      · have hsame := (h.current other).mpr hawaited
        rw [hcurrent] at hsame
        exact hends (Option.some.inj hsame)
    · rw [submitted_concat_none rfl]
      exact h.ids
    · rw [submitted_concat_none rfl]
      exact h.bound

/-- An answer is taken when it is the awaited one, and otherwise changes nothing. -/
theorem Sound.finish_iff (h : Sound pending) (request : Request T) :
    ((pending.finish request).1 = true ↔ Awaited pending.notes request) ∧
      ((pending.finish request).2 ≠ pending ↔ Awaited pending.notes request) := by
  rw [← h.current]
  unfold Pending.finish
  split
  · rename_i hcurrent
    exact ⟨iff_of_false (by simp) hcurrent, iff_of_false (by simp) hcurrent⟩
  · rename_i hcurrent
    rw [not_not] at hcurrent
    refine ⟨iff_of_true rfl hcurrent, iff_of_true ?_ hcurrent⟩
    intro hsame
    have hnone := congrArg Pending.current hsame
    rw [hcurrent] at hnone
    cases hnone

inductive Event (T : Type) where
  | submit (target : T) (answer : Except String Unit)
  | invalidate
  | finish (request : Request T)

def step (pending : Pending T) : Event T → Option (Pending T)
  | .submit target answer => (pending.submit target answer).map Prod.snd
  | .invalidate => some pending.invalidate
  | .finish request => some (pending.finish request).2

theorem Sound.step (h : Sound pending) {e : Event T} (hstep : pending.step e = some pending') :
    Sound pending' := by
  cases e with
  | submit target answer =>
      rw [Pending.step, Option.map_eq_some_iff] at hstep
      obtain ⟨⟨result, _⟩, hsubmit, rfl⟩ := hstep
      exact h.submit hsubmit
  | invalidate =>
      cases hstep
      exact h.invalidate
  | finish request =>
      cases hstep
      exact h.finish request

end

end Pending

end Ngsm.Gui
