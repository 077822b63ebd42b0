/-
# Where a write can be cut short

The contract of the writer bounds what a fault may leave behind.  Here it is shown
that certain cuts do happen.  A program is causal when a fault is invisible to it
until the call that fails; so a fault can be placed right after any causal
beginning.  A write can be cut with a given string already in its new state.
-/

import Ngsm.Registry.Refusals

namespace Ngsm.Registry

open Ngsm.Lib Ngsm.Core NssmKeys

variable {fold : NameFold} {ν σ α β : Type}

/-! ## Causal programs -/

/-- A program makes a number of calls that depends on the key alone, and looks no
further ahead in the schedule. -/
def Causal (m : RegM ν α) : Prop :=
  ∀ node, ∃ n outcome node', ∀ faults : Nat → Option Fault, (∀ i < n, faults i = none) →
    m.exec ⟨node, faults⟩ = (outcome, ⟨node', fun i => faults (n + i)⟩)

theorem Answered.causal {m : RegM ν α} (h : Answered m) : Causal m := by
  intro node
  obtain ⟨n, outcome, node', hrun, -⟩ := h node
  exact ⟨n, outcome, node', hrun⟩

theorem Causal.query (report : Fault → Error) (body : ν → Result α) :
    Causal (query report body) := by
  intro node
  refine ⟨1, body node, node, fun faults hnone => ?_⟩
  simp only [Registry.query, Registry.call, Prog.exec_step, hnone 0 (by omega), Nat.add_comm 1]

theorem exec_query (report : Fault → Error) (body : ν → Result α) (node : ν) :
    (query report body).exec ⟨node, noFaults⟩ = (body node, ⟨node, noFaults⟩) := by
  rfl

/-- A call that looks, and a removal that may find nothing, under any schedule. -/
theorem exec_query_faults (report : Fault → Error) (body : ν → Result α) (node : ν)
    (faults : Nat → Option Fault) :
    (query report body).exec ⟨node, faults⟩ =
      (match faults 0 with
        | some fault => .error (report fault)
        | none => body node, ⟨node, fun n => faults (n + 1)⟩) := by
  unfold query call
  rw [Prog.exec_step]
  cases hfault : faults 0 <;> simp only [hfault]

theorem exec_ignoreMissing_call {node : ν} (node' : ν) {report : Fault → Error}
    {cut : Fault → ν → ν} {body : ν → Result Unit × ν}
    (hreport : ∀ fault context, report fault ≠ .notFound context)
    (hbody : body node = (.ok (), node') ∨
      ∃ context, body node = (.error (.notFound context), node'))
    (faults : Nat → Option Fault) :
    (ignoreMissing (call report cut body)).exec ⟨node, faults⟩ =
      match faults 0 with
      | some fault => (.error (report fault), ⟨cut fault node, fun n => faults (n + 1)⟩)
      | none => (.ok (), ⟨node', fun n => faults (n + 1)⟩) := by
  unfold ignoreMissing call
  rw [Prog.exec_bind, Prog.attempt, Prog.exec_step, Prog.exec_step]
  rcases hfault : faults 0 with _ | fault
  · rcases hbody with hok | ⟨context, hmissing⟩
    · simp only [hfault, hok]
      rfl
    · simp only [hfault, hmissing]
      rfl
  · simp only [hfault]
    cases herror : report fault with
    | notFound context => exact absurd herror (hreport fault context)
    | _ => rfl

/-! ## Placing a cut -/

/-- Some schedule cuts the program short in a key that satisfies `K`. -/
def Cuttable (m : RegM ν α) (node : ν) (K : ν → Prop) : Prop :=
  ∃ faults e w, m.exec ⟨node, faults⟩ = (.error e, w) ∧ K w.node

namespace Cuttable

variable {K : ν → Prop} {node : ν}

theorem bind_left {m : RegM ν α} {f : α → RegM ν β} (h : Cuttable m node K) :
    Cuttable (m >>= f) node K := by
  obtain ⟨faults, e, w, hrun, hK⟩ := h
  refine ⟨faults, e, w, ?_, hK⟩
  rw [Prog.exec_bind, hrun]

/-- A cut of the rest is a cut of the whole: delay the schedule by the calls that
come before. -/
theorem bind_right {m : RegM ν α} {f : α → RegM ν β} (hm : Causal m) {a : α} {w : World ν}
    (hrun : m.exec ⟨node, noFaults⟩ = (.ok a, w)) (h : Cuttable (f a) w.node K) :
    Cuttable (m >>= f) node K := by
  obtain ⟨n, outcome, node', hcausal⟩ := hm node
  have hsame := hcausal noFaults fun _ _ => rfl
  rw [hrun] at hsame
  cases hsame
  obtain ⟨faults, e, w', hcut, hK⟩ := h
  refine ⟨fun i => if i < n then none else faults (i - n), e, w', ?_, hK⟩
  rw [Prog.exec_bind, hcausal _ fun i hi => if_pos hi]
  have hshift : (fun i => if n + i < n then none else faults (n + i - n)) = faults := by
    funext i
    rw [if_neg (by omega), Nat.add_sub_cancel_left]
  simp only
  rw [hshift]
  exact hcut

/-- A loop is cut in one of its rounds. -/
theorem forM_at {f : α → RegM ν PUnit} (hf : ∀ x, Causal (f x)) (before : List α) {x : α}
    {after : List α} {w : World ν} (hrun : (before.forM f).exec ⟨node, noFaults⟩ = (.ok (), w))
    (h : Cuttable (f x) w.node K) : Cuttable ((before ++ x :: after).forM f) node K := by
  induction before generalizing node with
  | nil =>
      cases hrun
      exact bind_left h
  | cons y before ih =>
      change Cuttable (f y >>= fun _ => (before ++ x :: after).forM f) node K
      have hstep : (f y >>= fun _ => before.forM f).exec ⟨node, noFaults⟩ = (.ok (), w) := hrun
      obtain ⟨n, outcome, node', hcausal⟩ := hf y node
      rw [Prog.exec_bind, hcausal noFaults fun _ _ => rfl] at hstep
      cases outcome with
      | error e => cases hstep
      | ok u => exact bind_right (hf y) (hcausal noFaults fun _ _ => rfl) (ih hstep)

/-- A single call can be cut. -/
theorem call {report : Fault → Error} {cut : Fault → ν → ν} {body : ν → Result α × ν}
    (fault : Fault) (hK : K (cut fault node)) : Cuttable (call report cut body) node K :=
  ⟨fun _ => some fault, report fault, ⟨cut fault node, fun _ => some fault⟩, rfl, hK⟩

theorem ignoreMissing_call {report : Fault → Error} {cut : Fault → ν → ν}
    {body : ν → Result Unit × ν} (hreport : ∀ fault context, report fault ≠ .notFound context)
    (fault : Fault) (hK : K (cut fault node)) :
    Cuttable (ignoreMissing (Registry.call report cut body)) node K := by
  refine ⟨fun _ => some fault, report fault, ⟨cut fault node, fun _ => some fault⟩, ?_, hK⟩
  rw [ignoreMissing, Prog.exec_bind]
  simp only [Prog.attempt, Prog.exec_step, Registry.call]
  split
  · rename_i context heq
    exact absurd (Except.error.inj heq) (hreport fault context)
  · rename_i e _ heq
    rw [Except.error.inj heq]
    rfl
  · rename_i heq
    cases heq

end Cuttable

theorem genuine_accessDenied :
    (5 : UInt32) ∉ [errorSuccess, errorFileNotFound, errorMoreData, errorNoMoreItems] := by
  decide

/-- A denied call. -/
def accessDenied : Fault :=
  { code := 5, text := "Access is denied. (0x80070005)", genuine := genuine_accessDenied }

/-- The reconciliation of the exit actions can be cut in its first call. -/
theorem cuttable_reconcileExitActions (exits : ExitActions) {node : Params fold σ}
    {K : Params fold σ → Prop} (hK : ∀ next, next.values = node.values → K next) :
    Cuttable (reconcileExitActions exits) node K := by
  unfold reconcileExitActions
  split
  · refine Cuttable.ignoreMissing_call
      (fun fault context => Runs.mapRegError_ne_notFound _ fault context) accessDenied (hK _ ?_)
    unfold cutSubtree
    split
    · rfl
    · rfl
  · exact Cuttable.bind_left (Cuttable.call accessDenied (hK _ rfl))

/-! ## Cuts of the writer -/

section Writer

variable {cfg : ManagedApplicationConfig} {exits : ExitActions} {node : Params fold σ}
  (hpreflight : preflightConfig fold cfg = .ok exits) (hnames : NamesDecode node)

include hpreflight hnames

/-- A write can be cut after a wanted value has been written. -/
theorem cuttable_after_put {k : Name} {value : RegValue}
    (hwanted : wantedScalars fold cfg k = some value) :
    Cuttable (writeIntoKey cfg) node fun next => next.valueAt k = some value := by
  have haccepted := accepted_of_preflightConfig fold hpreflight
  obtain ⟨⟨⟩, checked, hcheck, hsame⟩ := Runs.exec_noFaults (runs_checkExistingNames hnames)
  obtain ⟨⟨⟩, written, hputs, hpruning⟩ := Runs.exec_noFaults
    (runs_scalarPuts (R := fun _ => True)
      (Q := fun _ next => Pruning node.valueAt (wantedScalars fold cfg) next.valueAt) haccepted
      (fun _ _ _ => trivial) fun _ _ h => h)
  refine Cuttable.bind_right (Answered.lift _).causal (a := exits) (by rw [hpreflight]; rfl) ?_
  refine Cuttable.bind_right Answered.checkExistingNames.causal hcheck ?_
  rw [hsame]
  refine Cuttable.bind_right (Answered.forM (Answered.writePut cfg)).causal hputs ?_
  refine Cuttable.bind_left (cuttable_reconcileExitActions exits fun next hvalues => ?_)
  rw [Node.valueAt, hvalues]
  exact hpruning.wanted_present hwanted

omit hpreflight hnames in
/-- The removals up to a value that is not wanted leave it absent. -/
theorem runs_deletions (node : Params fold σ) {name : String} (hunwritten : (writtenNames cfg).contains name = false)
    {names : List String} (hname : name ∈ names) :
    Runs (names.forM fun n =>
        if (writtenNames cfg).contains n then pure () else ignoreMissing (deleteValue n)) node
      (fun _ next => next.valueAt (fold.key (toWide name)) = none) fun _ => True := by
  let I : List String → Params fold σ → Prop := fun done next =>
    name ∈ done → next.valueAt (fold.key (toWide name)) = none
  refine Runs.mono (Q := fun _ => I names) (fun _ _ h => h hname) (fun _ h => h)
    (Runs.forM I ?_ (by simp [I]))
  intro done other rest hsplit next hdone
  split
  · rename_i hwritten
    refine Runs.pure fun hin => ?_
    rcases List.mem_append.mp hin with hearlier | hlast
    · exact hdone hearlier
    · rw [← List.mem_singleton.mp hlast, hunwritten] at hwritten
      cases hwritten
  · refine Runs.deleteValue trivial fun hin => ?_
    rw [Node.valueAt_eraseValue]
    split
    · rfl
    · rename_i hother
      rcases List.mem_append.mp hin with hearlier | hlast
      · exact hdone hearlier
      · exact absurd (by rw [List.mem_singleton.mp hlast]) hother

/-- A write can be cut after an unwanted value has been removed, when an unwanted
value comes behind it. -/
theorem cuttable_after_delete {name next : String} {before after : List String}
    (hsplit : ownedValueNames = before ++ next :: after) (hname : name ∈ before)
    (hunwritten : (writtenNames cfg).contains name = false)
    (hnext : (writtenNames cfg).contains next = false) :
    Cuttable (writeIntoKey cfg) node fun n => n.valueAt (fold.key (toWide name)) = none := by
  have haccepted := accepted_of_preflightConfig fold hpreflight
  obtain ⟨⟨⟩, checked, hcheck, hsame⟩ := Runs.exec_noFaults (runs_checkExistingNames hnames)
  obtain ⟨⟨⟩, first, hputs, hfirst⟩ := Runs.exec_noFaults
    (runs_scalarPuts (R := fun _ => True) (Q := fun _ n => SameUnowned node n) haccepted
      (fun _ _ _ => trivial) fun _ h _ => h)
  obtain ⟨⟨⟩, second, hexits, hsecond⟩ := Runs.exec_noFaults
    (runs_reconcileExitActions (R := fun _ => True) (Q := fun _ n => NamesDecode n)
      haccepted.exitKeys (hfirst.namesDecode hnames) (fun _ _ _ _ _ => trivial)
      fun _ _ h _ _ => h)
  obtain ⟨⟨⟩, third, hhooks, -⟩ := Runs.exec_noFaults
    (runs_reconcileHooks (R := fun _ => True) (Q := fun _ _ => True) haccepted hsecond
      (fun _ _ _ _ => trivial) fun _ _ _ _ _ => trivial)
  obtain ⟨⟨⟩, fourth, hdeletions, hgone⟩ := Runs.exec_noFaults
    (runs_deletions third.node hunwritten hname)
  refine Cuttable.bind_right (Answered.lift _).causal (a := exits) (by rw [hpreflight]; rfl) ?_
  refine Cuttable.bind_right Answered.checkExistingNames.causal hcheck ?_
  rw [hsame]
  refine Cuttable.bind_right (Answered.forM (Answered.writePut cfg)).causal hputs ?_
  refine Cuttable.bind_right (Answered.reconcileExitActions exits).causal hexits ?_
  refine Cuttable.bind_right (Answered.reconcileHooks cfg).causal hhooks ?_
  unfold deleteUnwritten
  rw [hsplit]
  refine Cuttable.forM_at (fun n => ?_) before hdeletions ?_
  · split
    · exact (Answered.pure _).causal
    · exact (Answered.deleteValue n).causal
  · rw [hnext, if_neg Bool.false_ne_true]
    exact Cuttable.ignoreMissing_call
      (fun fault context => Runs.mapRegError_ne_notFound _ fault context) accessDenied hgone

end Writer

end Ngsm.Registry
