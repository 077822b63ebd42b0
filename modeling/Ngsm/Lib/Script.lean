/-
# Programs that run among others

A program that shares a part of its state with others is a script: a thread that accesses the
shared part, with the rest of the state to itself.  Run alone, a script is a program again.
A piece of a program may be divided into accesses in any way that does the same when it is
undisturbed; locks say which pieces are.
-/

import Ngsm.Lib.Locking

namespace Ngsm.Lib

/-- A state made of a shared part and a private one. -/
structure View (τ σ π : Type) where
  shared : τ → σ
  own : τ → π
  join : σ → π → τ
  shared_join : ∀ k e, shared (join k e) = k
  own_join : ∀ k e, own (join k e) = e
  join_eq : ∀ t, join (shared t) (own t) = t

/-- A thread with a private state that may stop early with an error. -/
abbrev Script (μ σ π ε α : Type) : Type :=
  ExceptT ε (StateT π (Proc μ σ)) α

namespace Script

variable {μ σ π π' τ ε α β : Type}

/-- The thread of a script that starts with a private state. -/
def proc (m : Script μ σ π ε α) (e : π) : Proc μ σ (Except ε α × π) :=
  (ExceptT.run m).run e

/-- A script given by its threads. -/
def ofProc (f : π → Proc μ σ (Except ε α × π)) : Script μ σ π ε α :=
  ExceptT.mk f

/-- A step on the private state. -/
def own (f : π → Except ε α × π) : Script μ σ π ε α :=
  ofProc fun e => .done (f e)

/-- Keep a lock for the length of a script. -/
def guarded (name : μ) (m : Script μ σ π ε α) : Script μ σ π ε α :=
  ofProc fun e => .guarded name (m.proc e)

/-- Run a script and hand its outcome over as a value. -/
def attempt (m : Script μ σ π ε α) : Script μ σ π ε (Except ε α) :=
  ofProc fun e => (m.proc e).bind fun last => .done (.ok last.1, last.2)

/-- Run a script on a private state of its own, and put what is left of that back. -/
def within (get : π → π') (put : Except ε α → π' → π → π) (m : Script μ σ π' ε α) :
    Script μ σ π ε α :=
  ofProc fun e => (m.proc (get e)).bind fun last => .done (last.1, put last.1 last.2 e)

/-- A program as a single access. -/
def whole (V : View τ σ π) (m : Prog τ ε α) : Script μ σ π ε α :=
  ofProc fun e => .access (fun k => V.shared (m.exec (V.join k e)).2) fun k =>
    .done ((m.exec (V.join k e)).1, V.own (m.exec (V.join k e)).2)

theorem proc_pure (a : α) (e : π) : (pure a : Script μ σ π ε α).proc e = .done (.ok a, e) :=
  rfl

theorem proc_throw (x : ε) (e : π) :
    (throw x : Script μ σ π ε α).proc e = .done (.error x, e) :=
  rfl

/-- What a script does after a piece of it has returned or failed. -/
def continueWith (f : α → Script μ σ π ε β) : Except ε α × π → Proc μ σ (Except ε β × π)
  | (.ok a, e) => (f a).proc e
  | (.error x, e) => .done (.error x, e)

theorem proc_bind (m : Script μ σ π ε α) (f : α → Script μ σ π ε β) (e : π) :
    (m >>= f).proc e = (m.proc e).bind (continueWith f) := by
  change (m.proc e).bind _ = _
  congr 1
  funext last
  obtain ⟨_ | a, e'⟩ := last <;> rfl

end Script

/-! ## Scripts that run alone -/

namespace View

variable {μ σ π π' τ τ' ε α β : Type} (V : View τ σ π)

/-- What a script does alone. -/
def program (m : Script μ σ π ε α) : Prog τ ε α :=
  Prog.step fun t =>
    let ((outcome, e), k) := (m.proc (V.own t)).alone (V.shared t)
    (outcome, V.join k e)

theorem exec_program (m : Script μ σ π ε α) (t : τ) :
    (V.program m).exec t =
      (((m.proc (V.own t)).alone (V.shared t)).1.1,
        V.join ((m.proc (V.own t)).alone (V.shared t)).2
          ((m.proc (V.own t)).alone (V.shared t)).1.2) :=
  rfl

/-- Programs that do the same are the same. -/
theorem prog_ext {m m' : Prog τ ε α} (h : ∀ t, m.exec t = m'.exec t) : m = m' :=
  funext h

theorem program_pure (a : α) : V.program (pure a : Script μ σ π ε α) = pure a := by
  apply prog_ext
  intro t
  rw [exec_program, Script.proc_pure]
  simp only [Proc.alone, V.join_eq, Prog.exec_pure]

theorem program_throw (x : ε) : V.program (throw x : Script μ σ π ε α) = throw x := by
  apply prog_ext
  intro t
  rw [exec_program, Script.proc_throw]
  simp only [Proc.alone, V.join_eq, Prog.exec_throw]

theorem program_liftExcept (x : Except ε α) :
    V.program (liftExcept x : Script μ σ π ε α) = liftExcept x := by
  cases x with
  | ok a => exact V.program_pure a
  | error x => exact V.program_throw x

theorem program_bind (m : Script μ σ π ε α) (f : α → Script μ σ π ε β) :
    V.program (m >>= f) = V.program m >>= fun a => V.program (f a) := by
  apply prog_ext
  intro t
  rw [Prog.exec_bind, exec_program, exec_program, Script.proc_bind, Proc.alone_bind]
  rcases hlast : (m.proc (V.own t)).alone (V.shared t) with ⟨⟨_ | a, e⟩, k⟩
  · rfl
  · simp only [Script.continueWith, exec_program, V.own_join, V.shared_join]

theorem program_own (f : π → Except ε α × π) :
    V.program (Script.own f : Script μ σ π ε α) =
      Prog.step fun t => ((f (V.own t)).1, V.join (V.shared t) (f (V.own t)).2) :=
  rfl

theorem program_whole (m : Prog τ ε α) : V.program (Script.whole V m : Script μ σ π ε α) = m := by
  apply prog_ext
  intro t
  simp only [exec_program, Script.whole, Script.proc, Script.ofProc, ExceptT.run_mk, StateT.run,
    Proc.alone, V.join_eq]

theorem program_guarded (name : μ) (m : Script μ σ π ε α) :
    V.program (m.guarded name) = V.program m := by
  apply prog_ext
  intro t
  simp only [exec_program, Script.guarded, Script.proc, Script.ofProc, ExceptT.run_mk, StateT.run,
    Proc.alone_guarded]

theorem program_attempt (m : Script μ σ π ε α) :
    V.program m.attempt = (V.program m).attempt := by
  apply prog_ext
  intro t
  simp only [exec_program, Script.attempt, Prog.attempt, Prog.exec_step, Script.proc,
    Script.ofProc, ExceptT.run_mk, StateT.run, Proc.alone_bind, Proc.alone]

/-- A piece with a private state of its own is a program on the shared part and that state. -/
theorem program_within (V' : View τ' σ π') (get : π → π') (put : Except ε α → π' → π → π)
    (m : Script μ σ π' ε α) :
    V.program (m.within get put) = Prog.step fun t =>
      let (outcome, t') := (V'.program m).exec (V'.join (V.shared t) (get (V.own t)))
      (outcome, V.join (V'.shared t') (put outcome (V'.own t') (V.own t))) := by
  apply prog_ext
  intro t
  simp only [exec_program, Script.within, Prog.exec_step, V'.own_join, V'.shared_join,
    Script.proc, Script.ofProc, ExceptT.run_mk, StateT.run, Proc.alone_bind, Proc.alone]

end View

/-! ## Scripts and locks -/

namespace Script

variable {μ σ π π' τ ε α β : Type} {name : μ}

/-- The script gives the lock back as often as it takes it. -/
def Balanced (name : μ) (m : Script μ σ π ε α) : Prop :=
  ∀ e, Proc.Balanced name 0 (m.proc e)

/-- The script does nothing but look at its private state. -/
def Private (m : Script μ σ π ε α) : Prop :=
  ∀ e, ∃ last, m.proc e = .done last

/-- The script holds the lock from its first access to its end. -/
def Section (name : μ) (m : Script μ σ π ε α) : Prop :=
  ∀ e, Proc.Section name (m.proc e)

theorem private_pure (a : α) : Private (pure a : Script μ σ π ε α) :=
  fun e => ⟨(.ok a, e), rfl⟩

theorem private_throw (x : ε) : Private (throw x : Script μ σ π ε α) :=
  fun e => ⟨(.error x, e), rfl⟩

theorem private_liftExcept (x : Except ε α) : Private (liftExcept x : Script μ σ π ε α) := by
  cases x with
  | ok a => exact private_pure a
  | error x => exact private_throw x

theorem private_own (f : π → Except ε α × π) : Private (own f : Script μ σ π ε α) :=
  fun e => ⟨f e, rfl⟩

theorem Private.balanced {m : Script μ σ π ε α} (hm : Private m) : Balanced name m := by
  intro e
  obtain ⟨last, hlast⟩ := hm e
  rw [hlast]
  exact .done

theorem Private.section {m : Script μ σ π ε α} (hm : Private m) : Section name m := by
  intro e
  obtain ⟨last, hlast⟩ := hm e
  rw [hlast]
  exact .done last

theorem Balanced.bind {m : Script μ σ π ε α} {f : α → Script μ σ π ε β} (hm : Balanced name m)
    (hf : ∀ a, Balanced name (f a)) : Balanced name (m >>= f) := by
  intro e
  rw [proc_bind]
  apply (hm e).bind
  rintro ⟨_ | a, e'⟩
  · exact .done
  · exact hf a e'

theorem Private.bind_section {m : Script μ σ π ε α} {f : α → Script μ σ π ε β} (hm : Private m)
    (hf : ∀ a, Section name (f a)) : Section name (m >>= f) := by
  intro e
  obtain ⟨⟨outcome, e'⟩, hlast⟩ := hm e
  rw [proc_bind, hlast]
  cases outcome with
  | error x => exact .done _
  | ok a => exact hf a e'

theorem Balanced.guarded {m : Script μ σ π ε α} (hm : Balanced name m) :
    Balanced name (m.guarded name) :=
  fun e => (hm e).guarded

theorem Balanced.guarded_section {m : Script μ σ π ε α} (hm : Balanced name m) :
    Section name (m.guarded name) :=
  fun e => .guarded (hm e)

theorem Balanced.attempt {m : Script μ σ π ε α} (hm : Balanced name m) :
    Balanced name m.attempt :=
  fun e => (hm e).bind fun _ => .done

theorem Balanced.within {m : Script μ σ π' ε α} (hm : Balanced name m) (get : π → π')
    (put : Except ε α → π' → π → π) : Balanced name (m.within get put) :=
  fun e => (hm (get e)).bind fun _ => .done

theorem Section.within {m : Script μ σ π' ε α} (hm : Section name m) (get : π → π')
    (put : Except ε α → π' → π → π) : Section name (m.within get put) :=
  fun e => (hm (get e)).map _

end Script

/-! ## Divisions -/

/-- A program divided into accesses: any script without locks that alone does the same. -/
structure Divided {τ σ π ε α : Type} (V : View τ σ π) (μ : Type) (m : Prog τ ε α) where
  script : Script μ σ π ε α
  lockFree : ∀ e, Proc.LockFree (script.proc e)
  program_eq : V.program script = m

namespace Divided

variable {μ σ π τ ε α β : Type} {V : View τ σ π} {name : μ}

theorem balanced {m : Prog τ ε α} (d : Divided V μ m) : Script.Balanced name d.script :=
  fun e => (d.lockFree e).balanced

/-- A program that is a single access. -/
def whole (V : View τ σ π) (μ : Type) (m : Prog τ ε α) : Divided V μ m where
  script := .whole V m
  lockFree := fun _ => .access fun _ => .done
  program_eq := V.program_whole m

/-- Programs are divided piece by piece. -/
def bind {m : Prog τ ε α} {f : α → Prog τ ε β} (d : Divided V μ m)
    (ds : ∀ a, Divided V μ (f a)) : Divided V μ (m >>= f) where
  script := d.script >>= fun a => (ds a).script
  lockFree := by
    intro e
    rw [Script.proc_bind]
    apply (d.lockFree e).bind
    rintro ⟨_ | a, e'⟩
    · exact .done
    · exact (ds a).lockFree e'
  program_eq := by
    rw [V.program_bind, d.program_eq]
    congr 1
    funext a
    exact (ds a).program_eq

end Divided

end Ngsm.Lib
