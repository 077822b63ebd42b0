/-
# Concurrent changes of one configuration

Operations on one service run as threads, with their reads and writes interleaved in any way
the lock of the service allows.  Every run to the end is one of the operations executed one
after another: the key is the same in the end, and so is every answer.  In that order a
change stays until a later operation is asked for the same field, and an operation that rolls
back has changed nothing when the next one starts.
-/

import Ngsm.Ops.ConfigLock
import Ngsm.Ops.Untouched

namespace Ngsm.Ops

open Ngsm.Lib Ngsm.Core Ngsm.Registry ConfigLock

variable {fold : NameFold} {σ : Type}

/-! ## Operations -/

/-- A request to change the configuration of a service, with the failures that lie ahead. -/
inductive Operation where
  | edit (spec : EditSpec) (conditions : Conditions)
  | saveRecovery (spec : RecoverySpec) (conditions : Conditions)
  | updateRecovery (name : String) (update : RecoverySpec → Result RecoverySpec)
      (conditions : Conditions)
  | setValue (service name value : String) (faults : Faults)
  | unsetValue (service name : String) (faults : Faults)

/-- What an operation returns, and the calls of the backend it made.  The setters of single
values return no message and do not go through the backend. -/
structure Answer where
  outcome : Result (Option String)
  calls : List Call

/-- No rollback of the operation failed: a write that fails is followed by the rollback. -/
def Answer.Clean (answer : Answer) : Prop :=
  answer.calls.getLast? ≠ some (.write false)

namespace Operation

/-- The name the service is given in a request. -/
def service : Operation → String
  | edit spec _ => spec.name
  | saveRecovery spec _ => spec.name
  | updateRecovery name _ _ => name
  | setValue service _ _ _ => service
  | unsetValue service _ _ => service

/-- The fields a request may change. -/
def Touches : Operation → Field → Bool
  | edit spec _ => spec.Touches
  | saveRecovery _ _ => recoveryTouches
  | updateRecovery _ _ _ => recoveryTouches
  | setValue _ name _ _ => fun f => f.valueNames.any (changedNames name).contains
  | unsetValue _ name _ => fun f => f.valueNames.any (changedNames name).contains

/-- A failed operation with a rollback has changed nothing; the setters of single values have
no rollback. -/
def RollsBack : Operation → Bool
  | setValue .. => false
  | unsetValue .. => false
  | _ => true

/-- The operation has no business with the field: it is not asked for it, or it failed and
rolled back. -/
def Spares (op : Operation) (answer : Answer) (f : Field) : Prop :=
  answer.Clean ∧ (op.Touches f = false ∨ (op.RollsBack = true ∧ ∃ e, answer.outcome = .error e))

/-! ## Execution -/

/-- The answer of an operation that goes through the backend. -/
def answerOf (last : Result String × Progress) : Answer where
  outcome := last.1.map some
  calls := last.2.calls

/-- The answer of a setter. -/
def setterAnswer (last : Result Unit × Faults) : Answer where
  outcome := last.1.map fun _ => none
  calls := []

/-- Execute an operation from its start. -/
def execBackend (m : OpM fold σ String) (conditions : Conditions) (key : Params fold σ) :
    Answer × Params fold σ :=
  let last := m.exec (backendView.join key { conditions })
  (answerOf (last.1, backendView.own last.2), last.2.key)

def execSetter (m : RegM (Params fold σ) Unit) (faults : Faults) (key : Params fold σ) :
    Answer × Params fold σ :=
  let last := m.exec ⟨key, faults⟩
  (setterAnswer (last.1, last.2.faults), last.2.node)

/-- The operation with nobody else around. -/
def exec : Operation → Params fold σ → Answer × Params fold σ
  | edit spec conditions => execBackend (Ops.editWithBackend spec) conditions
  | saveRecovery spec conditions => execBackend (Ops.saveRecoveryWithBackend spec) conditions
  | updateRecovery name update conditions =>
      execBackend (Ops.updateRecoveryWithBackend name update) conditions
  | setValue service name value faults =>
      execSetter (SingleValue.setValue service name value) faults
  | unsetValue service name faults => execSetter (SingleValue.unsetValue service name) faults

/-- The thread of an operation. -/
def proc (division : Division fold σ) : Operation → Proc String (Params fold σ) Answer
  | edit spec conditions =>
      ((ConfigLock.editWithBackend division spec).proc { conditions }).bind fun last =>
        .done (answerOf last)
  | saveRecovery spec conditions =>
      ((ConfigLock.saveRecoveryWithBackend division spec).proc { conditions }).bind fun last =>
        .done (answerOf last)
  | updateRecovery name update conditions =>
      ((ConfigLock.updateRecoveryWithBackend division name update).proc { conditions }).bind
        fun last => .done (answerOf last)
  | setValue service name value faults =>
      ((ConfigLock.setValue division service name value).proc faults).bind fun last =>
        .done (setterAnswer last)
  | unsetValue service name faults =>
      ((ConfigLock.unsetValue division service name).proc faults).bind fun last =>
        .done (setterAnswer last)

theorem alone_backend {m : OpScript fold σ String} {program : OpM fold σ String}
    (hprogram : backendView.program m = program) (conditions : Conditions)
    (key : Params fold σ) :
    ((m.proc { conditions }).bind fun last => Proc.done (answerOf last)).alone key =
      execBackend program conditions key := by
  subst hprogram
  rw [Proc.alone_bind]
  rfl

theorem alone_setter {m : RegScript fold σ Unit} {program : RegM (Params fold σ) Unit}
    (hprogram : worldView.program m = program) (faults : Faults) (key : Params fold σ) :
    ((m.proc faults).bind fun last => Proc.done (setterAnswer last)).alone key =
      execSetter program faults key := by
  subst hprogram
  rw [Proc.alone_bind]
  rfl

/-- The thread of an operation does alone what the operation does. -/
theorem alone_proc (division : Division fold σ) (op : Operation) (key : Params fold σ) :
    (op.proc division).alone key = op.exec key := by
  cases op with
  | edit spec conditions => exact alone_backend (program_editWithBackend division spec) _ _
  | saveRecovery spec conditions =>
      exact alone_backend (program_saveRecoveryWithBackend division spec) _ _
  | updateRecovery name update conditions =>
      exact alone_backend (program_updateRecoveryWithBackend division name update) _ _
  | setValue service name value faults =>
      exact alone_setter (program_setValue division service name value) _ _
  | unsetValue service name faults =>
      exact alone_setter (program_unsetValue division service name) _ _

/-- The thread of an operation is a section of the lock of its service. -/
theorem section_proc (division : Division fold σ) (op : Operation) {name : String}
    (hname : mutexName fold op.service = name) : Proc.Section name (op.proc division) := by
  cases op with
  | edit spec conditions => exact (section_editWithBackend division hname _).map _
  | saveRecovery spec conditions =>
      exact (section_saveRecoveryWithBackend division hname _).map _
  | updateRecovery target update conditions =>
      exact (section_updateRecoveryWithBackend division update hname _).map _
  | setValue service target value faults =>
      exact (section_setValue division target value hname _).map _
  | unsetValue service target faults =>
      exact (section_unsetValue division target hname _).map _

/-! ## What an operation spares -/

theorem stored_execBackend {m : OpM fold σ String} {touches : Field → Bool}
    (hm : ∀ b, m.wp (fun _ after => Spared touches b after) (fun _ after => Untouched b after) b)
    {conditions : Conditions} {key : Params fold σ} {f : Field}
    (hclean : (execBackend m conditions key).1.Clean)
    (hspared : touches f = false ∨ ∃ e, (execBackend m conditions key).1.outcome = .error e) :
    stored (execBackend m conditions key).2 f = stored key f := by
  have hwp := hm (backendView.join key { conditions })
  unfold execBackend at hclean hspared ⊢
  rcases hrun : m.exec (backendView.join key { conditions }) with ⟨e | message, after⟩
  · rw [hrun] at hclean
    exact Prog.wp_error _ hwp hrun hclean f
  · rw [hrun] at hspared
    rcases hspared with hspared | ⟨e, herror⟩
    · exact Prog.wp_ok _ hwp hrun f hspared
    · cases herror

theorem stored_execSetter {m : RegM (Params fold σ) Unit} {name : String}
    (hm : Confined (changedNames name) m) {faults : Faults} {key : Params fold σ} {f : Field}
    (hspared : f.valueNames.any (changedNames name).contains = false) :
    stored (execSetter m faults key).2 f = stored key f := by
  apply (hm.exec key faults).stored_eq
  intro value hvalue hchanged
  rw [List.any_eq_false] at hspared
  exact hspared value hvalue (List.contains_iff_mem.mpr hchanged)

/-- A field that an operation spares is stored as before. -/
theorem stored_of_spares {op : Operation} {key : Params fold σ} {f : Field}
    (hspares : op.Spares (op.exec key).1 f) : stored (op.exec key).2 f = stored key f := by
  obtain ⟨hclean, hspared⟩ := hspares
  cases op with
  | edit spec conditions =>
      exact stored_execBackend (wp_edit_stored spec) hclean (hspared.imp_right And.right)
  | saveRecovery spec conditions =>
      exact stored_execBackend (wp_save_stored spec) hclean (hspared.imp_right And.right)
  | updateRecovery name update conditions =>
      exact stored_execBackend (wp_update_stored name update) hclean
        (hspared.imp_right And.right)
  | setValue service name value faults =>
      rcases hspared with hspared | ⟨hnone, -⟩
      · exact stored_execSetter (confined_set service name value) hspared
      · cases hnone
  | unsetValue service name faults =>
      rcases hspared with hspared | ⟨hnone, -⟩
      · exact stored_execSetter (confined_unset service name) hspared
      · cases hnone

end Operation

/-! ## One after another -/

/-- Operations on one service, by case variants of its name. -/
structure Group (fold : NameFold) (n : ℕ) where
  service : String
  operations : Fin n → Operation
  sameName : ∀ i, windowsNameKey fold (operations i).service = windowsNameKey fold service

namespace Group

variable {n : ℕ} (group : Group fold n)

/-- The key after operations executed one after another. -/
def serial (key : Params fold σ) (order : List (Fin n)) : Params fold σ :=
  order.foldl (fun key i => ((group.operations i).exec key).2) key

theorem serial_append (key : Params fold σ) (order later : List (Fin n)) :
    group.serial key (order ++ later) = group.serial (group.serial key order) later :=
  List.foldl_append

theorem serial_concat (key : Params fold σ) (order : List (Fin n)) (i : Fin n) :
    group.serial key (order ++ [i]) = ((group.operations i).exec (group.serial key order)).2 :=
  group.serial_append key order [i]

/-- A field is stored as before when all operations spare it. -/
theorem stored_serial {answers : Fin n → Answer} {key : Params fold σ} {f : Field}
    (order : List (Fin n))
    (hanswers : ∀ before i after, order = before ++ i :: after →
      answers i = ((group.operations i).exec (group.serial key before)).1)
    (hspares : ∀ i ∈ order, (group.operations i).Spares (answers i) f) :
    stored (group.serial key order) f = stored key f := by
  induction order using List.reverseRecOn with
  | nil => rfl
  | append_singleton order i ih =>
      have hlast := hspares i (by simp)
      rw [hanswers order i [] rfl] at hlast
      rw [serial_concat, Operation.stored_of_spares hlast]
      apply ih
      · rintro before j after rfl
        exact hanswers before j (after ++ [i]) (by simp)
      · intro j hj
        exact hspares j (by simp [hj])

/-- The threads of the operations. -/
def procs (division : Division fold σ) (i : Fin n) : Proc String (Params fold σ) Answer :=
  (group.operations i).proc division

theorem section_procs (division : Division fold σ) (i : Fin n) :
    Proc.Section (mutexName fold group.service) (group.procs division i) :=
  Operation.section_proc division _ (mutexName_congr (group.sameName i))

theorem inTurn_procs (division : Division fold σ) (key : Params fold σ) (order : List (Fin n)) :
    Threads.inTurn (group.procs division) key order = group.serial key order := by
  simp only [Threads.inTurn, serial, procs, Operation.alone_proc]

end Group

/-- A run of a group to its end: how reading and writing are divided into accesses, the key it
starts with, the schedule, and what every operation returned. -/
structure FinishedRun {n : ℕ} (σ : Type) (group : Group fold n) where
  division : Division fold σ
  key : Params fold σ
  schedule : List (Fin n)
  last : Threads (Fin n) String (Params fold σ) Answer
  answers : Fin n → Answer
  ran : Runs.run Threads.step (Threads.start (group.procs division) key) schedule = some last
  done : ∀ i, last.left i = .done (answers i)

/-- An order of the operations that explains a run. -/
structure Explains {n : ℕ} {group : Group fold n} (run : FinishedRun σ group)
    (order : List (Fin n)) : Prop where
  nodup : order.Nodup
  all : ∀ i, i ∈ order
  /-- The final configuration is that of the serial execution. -/
  final : run.last.shared = group.serial run.key order
  /-- So is every answer. -/
  answer : ∀ before i after, order = before ++ i :: after →
    run.answers i = ((group.operations i).exec (group.serial run.key before)).1
  /-- What an operation leaves in a field survives all later operations that spare it. -/
  survives : ∀ before i after, order = before ++ i :: after → ∀ f,
    (∀ j ∈ after, (group.operations j).Spares (run.answers j) f) →
      stored run.last.shared f = stored (group.serial run.key (before ++ [i])) f
  /-- A rollback removes nothing: it leaves every field as it was before the operation. -/
  rollback : ∀ before i after, order = before ++ i :: after →
    (group.operations i).RollsBack = true → (∃ e, (run.answers i).outcome = .error e) →
      (run.answers i).Clean → ∀ f,
        stored (group.serial run.key (before ++ [i])) f = stored (group.serial run.key before) f

/-- Concurrent changes of a configuration are serialisable. -/
theorem changes_serialisable {n : ℕ} {group : Group fold n} (run : FinishedRun σ group) :
    ∃ order, Explains run order := by
  obtain ⟨order, hnodup, hall, hfinal, hanswers⟩ :=
    Threads.serialisable (group.section_procs run.division) run.ran run.done
  simp only [group.inTurn_procs] at hfinal hanswers
  have hanswer : ∀ before i after, order = before ++ i :: after →
      run.answers i = ((group.operations i).exec (group.serial run.key before)).1 := by
    intro before i after hsplit
    rw [hanswers before i after hsplit, Group.procs, Operation.alone_proc]
  refine ⟨order, hnodup, hall, hfinal, hanswer, ?_, ?_⟩
  · intro before i after hsplit f hspares
    rw [hfinal, hsplit, List.append_cons, group.serial_append]
    apply group.stored_serial after ?_ hspares
    rintro between j later rfl
    rw [← group.serial_append]
    apply hanswer _ j later
    rw [hsplit]
    simp
  · intro before i after hsplit hback hfailed hclean f
    rw [group.serial_concat]
    apply Operation.stored_of_spares
    rw [← hanswer before i after hsplit]
    exact ⟨hclean, .inr ⟨hback, hfailed⟩⟩

/-- Every group has runs to the end, from every key. -/
theorem exists_finishedRun {n : ℕ} (group : Group fold n) (division : Division fold σ)
    (key : Params fold σ) : ∃ run : FinishedRun σ group, run.division = division ∧ run.key = key := by
  obtain ⟨schedule, answers, last, hrun, hdone⟩ :=
    Threads.exists_finished_run (group.section_procs division)
  exact ⟨⟨division, key, schedule, last, answers, hrun, hdone⟩, rfl, rfl⟩

end Ngsm.Ops
