/-
# Threads that take turns at a lock

A thread reads and changes a shared state in single accesses, and between them it takes and
gives back named locks.  A lock belongs to one thread at a time; its holder may take it again
and has to give it back as often.  Nothing else orders the accesses of different threads.

A thread that takes a lock before its first access and keeps it until it is done is a section.
Threads that are sections of one lock are serialisable: whatever the schedule, the shared
state and every answer are those of running the threads one after another in some order.
-/

import Mathlib.Data.Fintype.Basic
import Mathlib.Data.List.Nodup
import Mathlib.Logic.Function.Basic
import Ngsm.Lib.Program
import Ngsm.Lib.Runs

namespace Ngsm.Lib

/-! ## Threads -/

/-- What is left of a thread: its answer, an access to the shared state, or a step at a lock. -/
inductive Proc (μ σ ρ : Type) : Type where
  | done (answer : ρ)
  | access (act : σ → σ) (next : σ → Proc μ σ ρ)
  | lock (name : μ) (next : Proc μ σ ρ)
  | unlock (name : μ) (next : Proc μ σ ρ)

namespace Proc

variable {μ σ ρ τ : Type}

/-- Go on with the answer of a thread. -/
def bind : Proc μ σ ρ → (ρ → Proc μ σ τ) → Proc μ σ τ
  | done answer, f => f answer
  | access act next, f => access act fun s => (next s).bind f
  | lock name next, f => lock name (next.bind f)
  | unlock name next, f => unlock name (next.bind f)

instance : Monad (Proc μ σ) where
  pure := done
  bind := bind

/-- A thread without company: nobody else holds a lock. -/
def alone : Proc μ σ ρ → σ → ρ × σ
  | done answer, s => (answer, s)
  | access act next, s => (next s).alone (act s)
  | lock _ next, s => next.alone s
  | unlock _ next, s => next.alone s

theorem alone_bind (p : Proc μ σ ρ) (f : ρ → Proc μ σ τ) (s : σ) :
    (p.bind f).alone s = (f (p.alone s).1).alone (p.alone s).2 := by
  induction p generalizing s with
  | done answer => rfl
  | access act next ih => exact ih s (act s)
  | lock name next ih => exact ih s
  | unlock name next ih => exact ih s

/-- Keep a lock while a thread runs. -/
def guarded (name : μ) (p : Proc μ σ ρ) : Proc μ σ ρ :=
  lock name (p.bind fun answer => unlock name (done answer))

theorem alone_guarded (name : μ) (p : Proc μ σ ρ) (s : σ) :
    (guarded name p).alone s = p.alone s :=
  alone_bind p _ s

/-! ## Sections -/

section

variable {name : μ}

/-- The thread gives the lock back `n` times more often than it takes it, and does so last. -/
inductive Balanced (name : μ) : ℕ → Proc μ σ ρ → Prop
  | done {answer : ρ} : Balanced name 0 (done answer)
  | access {n : ℕ} {act : σ → σ} {next : σ → Proc μ σ ρ} (hnext : ∀ s, Balanced name n (next s)) :
      Balanced name n (access act next)
  | lock {n : ℕ} {next : Proc μ σ ρ} (hnext : Balanced name (n + 1) next) :
      Balanced name n (lock name next)
  | unlock {n : ℕ} {next : Proc μ σ ρ} (hnext : Balanced name n next) :
      Balanced name (n + 1) (unlock name next)

/-- The thread holds the lock `n` times; without it, it is done. -/
inductive Inside (name : μ) : ℕ → Proc μ σ ρ → Prop
  | done {answer : ρ} : Inside name 0 (done answer)
  | access {n : ℕ} {act : σ → σ} {next : σ → Proc μ σ ρ}
      (hnext : ∀ s, Inside name (n + 1) (next s)) : Inside name (n + 1) (access act next)
  | lock {n : ℕ} {next : Proc μ σ ρ} (hnext : Inside name (n + 2) next) :
      Inside name (n + 1) (lock name next)
  | unlock {n : ℕ} {next : Proc μ σ ρ} (hnext : Inside name n next) :
      Inside name (n + 1) (unlock name next)

/-- The thread is done, or takes the lock and keeps it until it is. -/
inductive Section (name : μ) : Proc μ σ ρ → Prop
  | done (answer : ρ) : Section name (done answer)
  | lock {next : Proc μ σ ρ} (hnext : Inside name 1 next) : Section name (lock name next)

theorem Balanced.bind {n : ℕ} {p : Proc μ σ ρ} (hp : Balanced name n p) {f : ρ → Proc μ σ τ}
    (hf : ∀ answer, Balanced name 0 (f answer)) : Balanced name n (p.bind f) := by
  induction hp with
  | done => exact hf _
  | access hnext ih => exact .access ih
  | lock hnext ih => exact .lock ih
  | unlock hnext ih => exact .unlock ih

theorem Balanced.release {n : ℕ} {p : Proc μ σ ρ} (hp : Balanced name n p) :
    Balanced name (n + 1) (p.bind fun answer => Proc.unlock name (Proc.done answer)) := by
  induction hp with
  | done => exact .unlock .done
  | access hnext ih => exact .access ih
  | lock hnext ih => exact .lock ih
  | unlock hnext ih => exact .unlock ih

theorem Balanced.guarded {p : Proc μ σ ρ} (hp : Balanced name 0 p) :
    Balanced name 0 (guarded name p) :=
  .lock hp.release

theorem Balanced.inside {n : ℕ} {p : Proc μ σ ρ} (hp : Balanced name n p) :
    Inside name (n + 1) (p.bind fun answer => Proc.unlock name (Proc.done answer)) := by
  induction hp with
  | done => exact .unlock .done
  | access hnext ih => exact .access ih
  | lock hnext ih => exact .lock ih
  | unlock hnext ih => exact .unlock ih

theorem Section.guarded {p : Proc μ σ ρ} (hp : Balanced name 0 p) :
    Section name (guarded name p) :=
  .lock hp.inside

theorem Inside.map {n : ℕ} {p : Proc μ σ ρ} (hp : Inside name n p) (f : ρ → τ) :
    Inside name n (p.bind fun answer => Proc.done (f answer)) := by
  induction hp with
  | done => exact .done
  | access hnext ih => exact .access ih
  | lock hnext ih => exact .lock ih
  | unlock hnext ih => exact .unlock ih

theorem Section.map {p : Proc μ σ ρ} (hp : Section name p) (f : ρ → τ) :
    Section name (p.bind fun answer => Proc.done (f answer)) := by
  cases hp with
  | done answer => exact .done _
  | lock hnext => exact .lock (hnext.map f)

/-- Accesses alone keep every lock in balance. -/
inductive LockFree : Proc μ σ ρ → Prop
  | done {answer : ρ} : LockFree (done answer)
  | access {act : σ → σ} {next : σ → Proc μ σ ρ} (hnext : ∀ s, LockFree (next s)) :
      LockFree (access act next)

theorem LockFree.balanced {p : Proc μ σ ρ} (hp : LockFree p) : Balanced name 0 p := by
  induction hp with
  | done => exact .done
  | access hnext ih => exact .access ih

theorem LockFree.bind {p : Proc μ σ ρ} (hp : LockFree p) {f : ρ → Proc μ σ τ}
    (hf : ∀ answer, LockFree (f answer)) : LockFree (p.bind f) := by
  induction hp with
  | done => exact hf _
  | access hnext ih => exact .access ih

end

end Proc

/-! ## Systems -/

/-- The shared state, what is left of each thread, and who holds each lock; the count says how
often the holder has taken it again. -/
structure Threads (ι μ σ ρ : Type) where
  shared : σ
  left : ι → Proc μ σ ρ
  holder : μ → Option (ι × ℕ)

namespace Threads

variable {ι μ σ ρ : Type} [DecidableEq ι] [DecidableEq μ]

/-- The state before any thread has moved. -/
def start (procs : ι → Proc μ σ ρ) (s : σ) : Threads ι μ σ ρ where
  shared := s
  left := procs
  holder := fun _ => none

/-- The next step of a thread.  One that is done has none, nor has one that waits for a lock
another thread holds; giving back a lock that is not held does nothing. -/
def step (t : Threads ι μ σ ρ) (i : ι) : Option (Threads ι μ σ ρ) :=
  match t.left i with
  | .done _ => none
  | .access act next =>
      some { t with shared := act t.shared, left := Function.update t.left i (next t.shared) }
  | .lock name next =>
      match t.holder name with
      | none => some { t with
          left := Function.update t.left i next
          holder := Function.update t.holder name (some (i, 0)) }
      | some (j, n) =>
          if j = i then
            some { t with
              left := Function.update t.left i next
              holder := Function.update t.holder name (some (i, n + 1)) }
          else
            none
  | .unlock name next =>
      match t.holder name with
      | none => some { t with left := Function.update t.left i next }
      | some (j, n) =>
          if j = i then
            some { t with
              left := Function.update t.left i next
              holder := Function.update t.holder name
                (match n with
                  | 0 => none
                  | n + 1 => some (i, n)) }
          else
            some { t with left := Function.update t.left i next }

/-- The shared state after running threads one after another. -/
def inTurn (procs : ι → Proc μ σ ρ) (s : σ) (order : List ι) : σ :=
  order.foldl (fun s i => ((procs i).alone s).2) s

omit [DecidableEq ι] [DecidableEq μ] in
theorem inTurn_append (procs : ι → Proc μ σ ρ) (s : σ) (order later : List ι) :
    inTurn procs s (order ++ later) = inTurn procs (inTurn procs s order) later :=
  List.foldl_append

omit [DecidableEq ι] [DecidableEq μ] in
theorem inTurn_concat (procs : ι → Proc μ σ ρ) (s : σ) (order : List ι) (i : ι) :
    inTurn procs s (order ++ [i]) = ((procs i).alone (inTurn procs s order)).2 := by
  rw [inTurn_append]
  rfl

/-! ## Serialisability -/

/-- The threads in `order` are done, as if they had run in this order; the holder of the lock is
on its way to what it would do next in this order, and nobody else has started. -/
structure Served (name : μ) (procs : ι → Proc μ σ ρ) (s : σ) (order : List ι)
    (t : Threads ι μ σ ρ) : Prop where
  nodup : order.Nodup
  finished : ∀ before i after, order = before ++ i :: after →
    t.left i = .done ((procs i).alone (inTurn procs s before)).1
  waiting : ∀ i, i ∉ order → (∀ n, t.holder name ≠ some (i, n)) → t.left i = procs i
  free : t.holder name = none → t.shared = inTurn procs s order
  held : ∀ i n, t.holder name = some (i, n) → i ∉ order ∧ Proc.Inside name (n + 1) (t.left i) ∧
    (t.left i).alone t.shared = (procs i).alone (inTurn procs s order)

section

variable {name : μ} {procs : ι → Proc μ σ ρ} {s : σ} {order : List ι} {t t' : Threads ι μ σ ρ}
  {i : ι}

omit [DecidableEq ι] [DecidableEq μ] in
theorem served_start : Served name procs s [] (start procs s) where
  nodup := List.nodup_nil
  finished := by simp
  waiting := fun _ _ _ => rfl
  free := fun _ => rfl
  held := by simp [start]

omit [DecidableEq ι] [DecidableEq μ] in
theorem Served.left_of_mem (h : Served name procs s order t) (hi : i ∈ order) :
    ∃ answer, t.left i = .done answer := by
  obtain ⟨before, after, hsplit⟩ := List.append_of_mem hi
  exact ⟨_, h.finished before i after hsplit⟩

omit [DecidableEq ι] [DecidableEq μ] in
/-- A lock has one holder. -/
theorem holder_unique {holder : μ → Option (ι × ℕ)} {j : ι} {n m : ℕ}
    (hi : holder name = some (i, n)) (hj : holder name = some (j, m)) : j = i ∧ m = n := by
  have hsame := hi.symm.trans hj
  simp only [Option.some.injEq, Prod.mk.injEq] at hsame
  exact ⟨hsame.1.symm, hsame.2.symm⟩

omit [DecidableEq μ] in
/-- The holder moves on and keeps the lock. -/
theorem Served.moved (h : Served name procs s order t) {n n' : ℕ}
    (hholder : t.holder name = some (i, n)) {shared : σ} {p : Proc μ σ ρ}
    {holder : μ → Option (ι × ℕ)} (hholder' : holder name = some (i, n'))
    (hinside : Proc.Inside name (n' + 1) p) (halone : p.alone shared = (t.left i).alone t.shared) :
    Served name procs s order ⟨shared, Function.update t.left i p, holder⟩ := by
  obtain ⟨hi, -, hpending⟩ := h.held i n hholder
  exact {
    nodup := h.nodup
    finished := by
      intro before j after hsplit
      have hne : j ≠ i := by
        rintro rfl
        exact hi (by simp [hsplit])
      exact (Function.update_of_ne hne _ _).trans (h.finished before j after hsplit)
    waiting := by
      intro j hj hother
      have hne : j ≠ i := by
        rintro rfl
        exact hother n' hholder'
      apply (Function.update_of_ne hne _ _).trans
      apply h.waiting j hj
      intro m hheld
      exact hne (holder_unique hholder hheld).1
    free := fun hfree => absurd (hholder'.symm.trans hfree) (by simp)
    held := by
      intro j m hheld
      obtain ⟨rfl, rfl⟩ := holder_unique hholder' hheld
      simp only [Function.update_self]
      exact ⟨hi, hinside, halone.trans hpending⟩ }

omit [DecidableEq ι] [DecidableEq μ] in
/-- A thread is done with what it does next in the order, and nobody else holds the lock. -/
theorem Served.finish (h : Served name procs s order t) (hi : i ∉ order)
    (hothers : ∀ j, j ≠ i → ∀ n, t.holder name ≠ some (j, n)) {answer : ρ}
    (hresult : (procs i).alone (inTurn procs s order) = (answer, t'.shared))
    (hdone : t'.left i = .done answer) (hleft : ∀ j, j ≠ i → t'.left j = t.left j)
    (hfree : t'.holder name = none) : Served name procs s (order ++ [i]) t' where
  nodup := by
    rw [List.nodup_append]
    refine ⟨h.nodup, List.nodup_singleton i, ?_⟩
    rintro j hj _ hlast rfl
    rw [List.mem_singleton] at hlast
    exact hi (hlast ▸ hj)
  finished := by
    intro before j after hsplit
    rcases List.eq_nil_or_concat after with rfl | ⟨rest, last, rfl⟩
    · obtain ⟨rfl, hlast⟩ := List.append_inj' hsplit rfl
      cases hlast
      rw [hdone, hresult]
    · rw [List.concat_eq_append, ← List.cons_append, ← List.append_assoc] at hsplit
      have hpast := (List.append_inj' hsplit rfl).1
      have hne : j ≠ i := by
        rintro rfl
        exact hi (by simp [hpast])
      exact (hleft j hne).trans (h.finished before j rest hpast)
  waiting := by
    intro j hj _
    rw [List.mem_append, List.mem_singleton, not_or] at hj
    exact (hleft j hj.2).trans (h.waiting j hj.1 (hothers j hj.2))
  free := by
    intro _
    rw [inTurn_concat, hresult]
  held := fun j m hheld => absurd (hfree.symm.trans hheld) (by simp)

omit [DecidableEq μ] in
/-- The holder gives the lock back and is done. -/
theorem Served.released (h : Served name procs s order t) {n : ℕ}
    (hholder : t.holder name = some (i, n)) {answer : ρ} {holder : μ → Option (ι × ℕ)}
    (hholder' : holder name = none) (halone : (t.left i).alone t.shared = (answer, t.shared)) :
    Served name procs s (order ++ [i])
      ⟨t.shared, Function.update t.left i (.done answer), holder⟩ := by
  obtain ⟨hi, -, hpending⟩ := h.held i n hholder
  apply h.finish hi
  · intro j hne m hheld
    exact hne (holder_unique hholder hheld).1
  · exact hpending.symm.trans halone
  · exact Function.update_self ..
  · intro j hne
    exact Function.update_of_ne hne _ _
  · exact hholder'

omit [DecidableEq ι] [DecidableEq μ] in
/-- A thread that had nothing to do from the start may be put last. -/
theorem Served.idle (h : Served name procs s order t) (hfree : t.holder name = none)
    (hi : i ∉ order) {answer : ρ} (hleft : t.left i = .done answer) :
    Served name procs s (order ++ [i]) t := by
  have hnobody : ∀ j n, t.holder name ≠ some (j, n) := by
    intro j n
    rw [hfree]
    simp
  refine h.finish hi (fun j _ => hnobody j) ?_ hleft (fun _ _ => rfl) hfree
  rw [← h.waiting i hi (hnobody i), hleft, ← h.free hfree]
  rfl

omit [DecidableEq μ] in
/-- A thread takes the free lock. -/
theorem Served.entered (h : Served name procs s order t) (hfree : t.holder name = none)
    (hi : i ∉ order) {next : Proc μ σ ρ} (hleft : t.left i = .lock name next)
    (hinside : Proc.Inside name 1 next) {holder : μ → Option (ι × ℕ)}
    (hholder : holder name = some (i, 0)) :
    Served name procs s order ⟨t.shared, Function.update t.left i next, holder⟩ := by
  have hnobody : ∀ j n, t.holder name ≠ some (j, n) := by
    intro j n
    rw [hfree]
    simp
  have horiginal : procs i = .lock name next := by
    rw [← h.waiting i hi (hnobody i), hleft]
  exact {
    nodup := h.nodup
    finished := by
      intro before j after hsplit
      have hne : j ≠ i := by
        rintro rfl
        exact hi (by simp [hsplit])
      exact (Function.update_of_ne hne _ _).trans (h.finished before j after hsplit)
    waiting := by
      intro j hj hother
      have hne : j ≠ i := by
        rintro rfl
        exact hother 0 hholder
      exact (Function.update_of_ne hne _ _).trans (h.waiting j hj (hnobody j))
    free := fun hnone => absurd (hholder.symm.trans hnone) (by simp)
    held := by
      intro j m hheld
      obtain ⟨rfl, rfl⟩ := holder_unique hholder hheld
      simp only [Function.update_self]
      refine ⟨hi, hinside, ?_⟩
      rw [h.free hfree, horiginal]
      rfl }

/-- Every step of a thread keeps the threads served. -/
theorem Served.step (h : Served name procs s order t)
    (hsections : ∀ i, Proc.Section name (procs i)) (hstep : t.step i = some t') :
    ∃ order', Served name procs s order' t' := by
  by_cases hmine : ∃ n, t.holder name = some (i, n)
  · obtain ⟨n, hholder⟩ := hmine
    obtain ⟨hi, hinside, -⟩ := h.held i n hholder
    generalize hleft : t.left i = p at hinside
    cases hinside with
    | @access _ act next hnext =>
        simp only [Threads.step, hleft, Option.some.injEq] at hstep
        subst hstep
        exact ⟨order, h.moved hholder hholder (hnext _) (by rw [hleft]; rfl)⟩
    | @lock _ next hnext =>
        simp only [Threads.step, hleft, hholder, if_true, Option.some.injEq] at hstep
        subst hstep
        exact ⟨order, h.moved hholder (Function.update_self ..) hnext (by rw [hleft]; rfl)⟩
    | @unlock _ next hnext =>
        simp only [Threads.step, hleft, hholder, if_true, Option.some.injEq] at hstep
        subst hstep
        cases n with
        | zero =>
            cases hnext
            exact ⟨order ++ [i], h.released hholder (Function.update_self ..) (by rw [hleft]; rfl)⟩
        | succ n =>
            exact ⟨order, h.moved hholder (Function.update_self ..) hnext (by rw [hleft]; rfl)⟩
  · rw [not_exists] at hmine
    by_cases hi : i ∈ order
    · obtain ⟨answer, hleft⟩ := h.left_of_mem hi
      simp [Threads.step, hleft] at hstep
    · have hleft := h.waiting i hi hmine
      have hsection := hsections i
      rw [← hleft] at hsection
      generalize hproc : t.left i = p at hsection
      cases hsection with
      | done answer => simp [Threads.step, hproc] at hstep
      | @lock next hnext =>
          rcases hholder : t.holder name with _ | ⟨j, n⟩
          · simp only [Threads.step, hproc, hholder, Option.some.injEq] at hstep
            subst hstep
            exact ⟨order, h.entered hholder hi hproc hnext (Function.update_self ..)⟩
          · have hne : j ≠ i := by
              rintro rfl
              exact hmine n hholder
            simp [Threads.step, hproc, hholder, hne] at hstep

/-- Every run keeps the threads served, in some order. -/
theorem exists_served (hsections : ∀ i, Proc.Section name (procs i)) {schedule : List ι}
    (hrun : Runs.run step (start procs s) schedule = some t) :
    ∃ order, Served name procs s order t := by
  apply Runs.run_invariant (fun t => ∃ order, Served name procs s order t) ⟨[], served_start⟩
    ?_ hrun
  rintro mid i next ⟨order, hserved⟩ hstep
  exact hserved.step hsections hstep

omit [DecidableEq ι] [DecidableEq μ] in
/-- When nobody has anything left to do, nobody holds the lock. -/
theorem Served.free_of_done (h : Served name procs s order t)
    (hdone : ∀ i, ∃ answer, t.left i = .done answer) : t.holder name = none := by
  rcases hholder : t.holder name with _ | ⟨i, n⟩
  · rfl
  · obtain ⟨answer, hleft⟩ := hdone i
    obtain ⟨-, hinside, -⟩ := h.held i n hholder
    rw [hleft] at hinside
    cases hinside

omit [DecidableEq μ] in
/-- All threads that had nothing to do may be put last. -/
theorem Served.complete (h : Served name procs s order t) (hfree : t.holder name = none)
    (hdone : ∀ i, ∃ answer, t.left i = .done answer) (others : List ι) :
    ∃ order', Served name procs s order' t ∧ (∀ i ∈ order, i ∈ order') ∧
      ∀ i ∈ others, i ∈ order' := by
  induction others with
  | nil => exact ⟨order, h, fun _ hi => hi, by simp⟩
  | cons i others ih =>
      obtain ⟨order', hserved, hkept, hlisted⟩ := ih
      by_cases hi : i ∈ order'
      · exact ⟨order', hserved, hkept, by simpa [hi] using hlisted⟩
      · obtain ⟨answer, hleft⟩ := hdone i
        refine ⟨order' ++ [i], hserved.idle hfree hi hleft, ?_, ?_⟩
        · intro j hj
          exact List.mem_append_left _ (hkept j hj)
        · intro j hj
          rcases List.mem_cons.mp hj with rfl | hrest
          · simp
          · exact List.mem_append_left _ (hlisted j hrest)

/-- Threads that are sections of one lock are serialisable. -/
theorem serialisable [Fintype ι] (hsections : ∀ i, Proc.Section name (procs i))
    {schedule : List ι} (hrun : Runs.run step (start procs s) schedule = some t)
    {answers : ι → ρ} (hdone : ∀ i, t.left i = .done (answers i)) :
    ∃ order : List ι, order.Nodup ∧ (∀ i, i ∈ order) ∧ t.shared = inTurn procs s order ∧
      ∀ before i after, order = before ++ i :: after →
        answers i = ((procs i).alone (inTurn procs s before)).1 := by
  obtain ⟨started, hstarted⟩ := exists_served hsections hrun
  have hall : ∀ i, ∃ answer, t.left i = .done answer := fun i => ⟨_, hdone i⟩
  have hfree := hstarted.free_of_done hall
  obtain ⟨order, hserved, -, hlisted⟩ :=
    hstarted.complete hfree hall (Finset.univ : Finset ι).toList
  refine ⟨order, hserved.nodup, fun i => hlisted i (by simp), hserved.free hfree, ?_⟩
  intro before i after hsplit
  have hleft := hserved.finished before i after hsplit
  rw [hdone] at hleft
  exact Proc.done.inj hleft

/-! ## Completion -/

/-- Who holds a lock that thread `i` has taken `n` times. -/
def takenBy (i : ι) : ℕ → Option (ι × ℕ)
  | 0 => none
  | n + 1 => some (i, n)

theorem run_of_step {next last : Threads ι μ σ ρ} (hstep : t.step i = some next)
    {schedule : List ι} (hrun : Runs.run step next schedule = some last) :
    Runs.run step t (i :: schedule) = some last := by
  rw [Runs.run_cons, hstep]
  exact hrun

/-- A thread that is let run gives its lock back and is done. -/
theorem exists_run_of_inside {n : ℕ} {p : Proc μ σ ρ} (hinside : Proc.Inside name n p)
    (hleft : t.left i = p) (hholder : t.holder name = takenBy i n) :
    ∃ schedule, Runs.run step t schedule = some ⟨(p.alone t.shared).2,
      Function.update t.left i (.done (p.alone t.shared).1),
      Function.update t.holder name none⟩ := by
  induction hinside generalizing t with
  | done =>
      refine ⟨[], ?_⟩
      have hhere : (⟨t.shared, t.left, t.holder⟩ : Threads ι μ σ ρ) = t := rfl
      simp only [Runs.run_nil, Option.some.injEq, Proc.alone]
      rw [← hleft, show (none : Option (ι × ℕ)) = t.holder name from hholder.symm,
        Function.update_eq_self, Function.update_eq_self, hhere]
  | @access n act next hnext ih =>
      have hfirst : t.step i = some ⟨act t.shared, Function.update t.left i (next t.shared),
          t.holder⟩ := by
        simp only [Threads.step, hleft]
      obtain ⟨schedule, hrun⟩ := ih t.shared (t := ⟨act t.shared,
        Function.update t.left i (next t.shared), t.holder⟩) (Function.update_self ..) hholder
      simp only [Function.update_idem] at hrun
      exact ⟨i :: schedule, run_of_step hfirst hrun⟩
  | @lock n next hnext ih =>
      have hfirst : t.step i = some ⟨t.shared, Function.update t.left i next,
          Function.update t.holder name (some (i, n + 1))⟩ := by
        simp only [Threads.step, hleft, hholder, takenBy, if_true]
      obtain ⟨schedule, hrun⟩ := ih (t := ⟨t.shared, Function.update t.left i next,
        Function.update t.holder name (some (i, n + 1))⟩) (Function.update_self ..)
        (Function.update_self ..)
      simp only [Function.update_idem] at hrun
      exact ⟨i :: schedule, run_of_step hfirst hrun⟩
  | @unlock n next hnext ih =>
      have hfirst : t.step i = some ⟨t.shared, Function.update t.left i next,
          Function.update t.holder name (takenBy i n)⟩ := by
        simp only [Threads.step, hleft, hholder, takenBy, if_true]
      obtain ⟨schedule, hrun⟩ := ih (t := ⟨t.shared, Function.update t.left i next,
        Function.update t.holder name (takenBy i n)⟩) (Function.update_self ..)
        (Function.update_self ..)
      simp only [Function.update_idem] at hrun
      exact ⟨i :: schedule, run_of_step hfirst hrun⟩

/-- A section runs to its end when the lock is free, and leaves the lock free. -/
theorem exists_run_alone (hfree : t.holder name = none)
    (hsection : Proc.Section name (t.left i)) :
    ∃ schedule answer t', Runs.run step t schedule = some t' ∧ t'.holder name = none ∧
      t'.left i = .done answer ∧ ∀ j, j ≠ i → t'.left j = t.left j := by
  generalize hleft : t.left i = p at hsection
  cases hsection with
  | done answer => exact ⟨[], answer, t, rfl, hfree, hleft, fun _ _ => rfl⟩
  | @lock next hnext =>
      have hfirst : t.step i = some ⟨t.shared, Function.update t.left i next,
          Function.update t.holder name (some (i, 0))⟩ := by
        simp only [Threads.step, hleft, hfree]
      obtain ⟨schedule, hrun⟩ := exists_run_of_inside (t := ⟨t.shared,
        Function.update t.left i next, Function.update t.holder name (some (i, 0))⟩) hnext
        (Function.update_self ..) (Function.update_self ..)
      refine ⟨i :: schedule, _, _, run_of_step hfirst hrun, Function.update_self ..,
        Function.update_self .., fun j hne => ?_⟩
      exact (Function.update_of_ne hne _ _).trans (Function.update_of_ne hne _ _)

/-- Threads that are sections of one lock can all run to their end. -/
theorem exists_finished_run [Fintype ι] (hsections : ∀ i, Proc.Section name (procs i)) :
    ∃ schedule, ∃ answers : ι → ρ, ∃ t, Runs.run step (start procs s) schedule = some t ∧
      ∀ i, t.left i = .done (answers i) := by
  have hsome : ∀ todo : List ι, ∃ schedule t, Runs.run step (start procs s) schedule = some t ∧
      t.holder name = none ∧ (∀ i, t.left i = procs i ∨ ∃ answer, t.left i = .done answer) ∧
      ∀ i ∈ todo, ∃ answer, t.left i = .done answer := by
    intro todo
    induction todo with
    | nil => exact ⟨[], start procs s, rfl, rfl, fun _ => .inl rfl, by simp⟩
    | cons i todo ih =>
        obtain ⟨schedule, t, hrun, hfree, hleft, hdone⟩ := ih
        have hsection : Proc.Section name (t.left i) := by
          rcases hleft i with hsame | ⟨answer, hanswer⟩
          · rw [hsame]
            exact hsections i
          · rw [hanswer]
            exact .done answer
        obtain ⟨later, answer, t', hlater, hfree', hi, hothers⟩ :=
          exists_run_alone hfree hsection
        refine ⟨schedule ++ later, t', ?_, hfree', fun j => ?_, fun j hj => ?_⟩
        · rw [Runs.run_append, hrun]
          exact hlater
        · by_cases hne : j = i
          · subst hne
            exact .inr ⟨answer, hi⟩
          · rw [hothers j hne]
            exact hleft j
        · by_cases hne : j = i
          · subst hne
            exact ⟨answer, hi⟩
          · rw [hothers j hne]
            exact hdone j ((List.mem_cons.mp hj).resolve_left hne)
  obtain ⟨schedule, t, hrun, -, -, hdone⟩ := hsome Finset.univ.toList
  have hall : ∀ i, ∃ answer, t.left i = .done answer := fun i => hdone i (by simp)
  choose answers hanswers using hall
  exact ⟨schedule, answers, t, hrun, hanswers⟩

end

end Threads

end Ngsm.Lib
