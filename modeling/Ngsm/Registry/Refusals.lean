/-
# Where an error comes from

A write can end with an error for two reasons: a registry call was refused, or the
writer itself objected to a text or a name.  `Answered` separates them.  As long
as every call is answered a program does what it does on a calm registry, and the
first refused call ends it, with the report of that call.  An objection can then
only be one that the program makes on a calm registry as well; and after an
accepted preflight there is none.
-/

import Mathlib.Data.Nat.Find
import Ngsm.Registry.Guarantees

namespace Ngsm.Registry

open Ngsm.Lib Ngsm.Core NssmKeys

variable {fold : NameFold} {ν σ α β : Type}

/-- The error with which a call reports a fault. -/
inductive Refusal (fault : Fault) : Error → Prop where
  | openKey (name : String) :
      Refusal fault (mapRegError ("RegOpenKeyEx(" ++ name ++ ")") fault)
  | createKey (name : String) :
      Refusal fault (mapRegError ("RegCreateKeyEx(" ++ name ++ ")") fault)
  | setValue (name : String) :
      Refusal fault (mapRegError ("RegSetValueEx(" ++ name ++ ")") fault)
  | deleteValue (name : String) :
      Refusal fault (mapRegError ("RegDeleteValue(" ++ name ++ ")") fault)
  | deleteTree (name : String) :
      Refusal fault (mapRegError ("RegDeleteTree(" ++ name ++ ")") fault)
  | enumValue : Refusal fault (mapRegError "RegEnumValue(names)" fault)
  | enumKey (index : Nat) :
      Refusal fault (.registry s!"RegEnumKeyEx(index {index}) failed: WIN32_ERROR {fault.code}")

/-- A refused call never reads as absence, so nothing in the writer passes over
it. -/
theorem Refusal.ne_notFound {fault : Fault} {e : Error} (h : Refusal fault e) (context : String) :
    e ≠ .notFound context := by
  cases h with
  | enumKey index => exact Error.noConfusion
  | _ => exact Runs.mapRegError_ne_notFound _ fault context

/-- The first `n` entries of the schedule are clear. -/
def ClearBefore (faults : Nat → Option Fault) (n : Nat) : Prop :=
  ∀ i < n, faults i = none

/-- The program stops at the first fault, with the report of the refused call. -/
def Refused (m : RegM ν α) (node : ν) (faults : Nat → Option Fault) (i : Nat) : Prop :=
  ∀ fault, ClearBefore faults i → faults i = some fault →
    ∃ e w, m.exec ⟨node, faults⟩ = (.error e, w) ∧ Refusal fault e

/-- A program makes a number of calls that depends on the key alone; when they are
all answered it ends as on a calm registry, and the first one that is refused ends
it. -/
def Answered (m : RegM ν α) : Prop :=
  ∀ node, ∃ n outcome node',
    (∀ faults, ClearBefore faults n →
      m.exec ⟨node, faults⟩ = (outcome, ⟨node', fun i => faults (n + i)⟩)) ∧
    ∀ faults, ∀ i < n, Refused m node faults i

namespace Answered

/-! ## Rules -/

theorem of_outcome {m : RegM ν α} (outcome : ν → Result α)
    (hrun : ∀ node faults, m.exec ⟨node, faults⟩ = (outcome node, ⟨node, faults⟩)) :
    Answered m := by
  intro node
  refine ⟨0, outcome node, node, fun faults _ => ?_, fun faults i hi => by omega⟩
  simp [hrun]

theorem pure (a : α) : Answered (Pure.pure a : RegM ν α) :=
  of_outcome (fun _ => .ok a) fun _ _ => rfl

theorem throw (e : Error) : Answered (MonadExcept.throw e : RegM ν α) :=
  of_outcome (fun _ => .error e) fun _ _ => rfl

theorem lift (x : Result α) : Answered (liftExcept x : RegM ν α) :=
  of_outcome (fun _ => x) fun _ _ => by cases x <;> rfl

theorem current : Answered (current : RegM ν ν) :=
  of_outcome (fun node => .ok node) fun _ _ => rfl

theorem call {report : Fault → Error} (hreport : ∀ fault, Refusal fault (report fault))
    (cut : Fault → ν → ν) (body : ν → Result α × ν) : Answered (call report cut body) := by
  intro node
  refine ⟨1, (body node).1, (body node).2, fun faults hclear => ?_, ?_⟩
  · simp only [Registry.call, Prog.exec_step, hclear 0 (by omega), Nat.add_comm 1]
  · intro faults i hi fault _ hfault
    obtain rfl : i = 0 := by omega
    refine ⟨report fault, ⟨cut fault node, fun n => faults (n + 1)⟩, ?_, hreport fault⟩
    simp only [Registry.call, Prog.exec_step, hfault]

theorem query {report : Fault → Error} (hreport : ∀ fault, Refusal fault (report fault))
    (body : ν → Result α) : Answered (query report body) :=
  call hreport _ _

theorem bind {m : RegM ν α} {f : α → RegM ν β} (hm : Answered m) (hf : ∀ a, Answered (f a)) :
    Answered (m >>= f) := by
  intro node
  obtain ⟨n, outcome, node', hrun, hrefused⟩ := hm node
  have hfirst : ∀ faults, ∀ i < n, Refused (m >>= f) node faults i := by
    intro faults i hi fault hclear hfault
    obtain ⟨e, w, hexec, hrefusal⟩ := hrefused faults i hi fault hclear hfault
    refine ⟨e, w, ?_, hrefusal⟩
    rw [Prog.exec_bind, hexec]
  cases outcome with
  | error e =>
      refine ⟨n, .error e, node', fun faults hclear => ?_, hfirst⟩
      rw [Prog.exec_bind, hrun faults hclear]
  | ok a =>
      obtain ⟨n', outcome', node'', hrun', hrefused'⟩ := hf a node'
      refine ⟨n + n', outcome', node'', fun faults hclear => ?_, fun faults i hi => ?_⟩
      · rw [Prog.exec_bind, hrun faults fun i hi => hclear i (by omega)]
        simp only
        rw [hrun' _ fun i hi => hclear (n + i) (by omega)]
        simp only [Nat.add_assoc]
      · by_cases hin : i < n
        · exact hfirst faults i hin
        intro fault hclear hfault
        -- the fault lies behind the calls of `m`
        obtain ⟨j, rfl⟩ : ∃ j, i = n + j := ⟨i - n, by omega⟩
        obtain ⟨e, w, hexec, hrefusal⟩ := hrefused' (fun k => faults (n + k)) j (by omega) fault
          (fun k hk => hclear (n + k) (by omega)) hfault
        refine ⟨e, w, ?_, hrefusal⟩
        rw [Prog.exec_bind, hrun faults fun k hk => hclear k (by omega)]
        exact hexec

theorem forM {xs : List α} {f : α → RegM ν PUnit} (hf : ∀ x, Answered (f x)) :
    Answered (xs.forM f) := by
  induction xs with
  | nil => exact pure _
  | cons x xs ih => exact bind (hf x) fun _ => ih

/-- Looking at the outcome of a program hides no refusal when only absence is
passed over. -/
theorem attempt_bind {m : RegM ν α} {f : Except Error α → RegM ν β} (hm : Answered m)
    (hf : ∀ outcome, Answered (f outcome))
    (hrethrow : ∀ e, (∀ context, e ≠ .notFound context) → f (.error e) = MonadExcept.throw e) :
    Answered (m.attempt >>= f) := by
  intro node
  obtain ⟨n, outcome, node', hrun, hrefused⟩ := hm node
  obtain ⟨n', outcome', node'', hrun', hrefused'⟩ := hf outcome node'
  have hattempt : ∀ faults, ClearBefore faults n →
      m.attempt.exec ⟨node, faults⟩ = (.ok outcome, ⟨node', fun i => faults (n + i)⟩) := by
    intro faults hclear
    simp only [Prog.attempt, Prog.exec_step, hrun faults hclear]
  refine ⟨n + n', outcome', node'', fun faults hclear => ?_, fun faults i hi => ?_⟩
  · rw [Prog.exec_bind, hattempt faults fun i hi => hclear i (by omega)]
    simp only
    rw [hrun' _ fun i hi => hclear (n + i) (by omega)]
    simp only [Nat.add_assoc]
  · intro fault hclear hfault
    by_cases hin : i < n
    · obtain ⟨e, w, hexec, hrefusal⟩ := hrefused faults i hin fault hclear hfault
      refine ⟨e, w, ?_, hrefusal⟩
      rw [Prog.exec_bind]
      simp only [Prog.attempt, Prog.exec_step, hexec]
      rw [hrethrow e hrefusal.ne_notFound]
      rfl
    · obtain ⟨j, rfl⟩ : ∃ j, i = n + j := ⟨i - n, by omega⟩
      obtain ⟨e, w, hexec, hrefusal⟩ := hrefused' (fun k => faults (n + k)) j (by omega) fault
        (fun k hk => hclear (n + k) (by omega)) hfault
      refine ⟨e, w, ?_, hrefusal⟩
      rw [Prog.exec_bind, hattempt faults fun k hk => hclear k (by omega)]
      exact hexec

theorem ignoreMissing {m : RegM ν Unit} (hm : Answered m) : Answered (ignoreMissing m) := by
  refine attempt_bind hm (fun outcome => ?_) fun e he => ?_
  · split
    · exact pure _
    · exact throw _
    · exact pure _
  · split
    · rename_i context heq
      exact absurd (Except.error.inj heq) (he context)
    · rename_i e' _ heq
      rw [Except.error.inj heq]
    · rename_i heq
      cases heq

theorem openSubkeyOr {name : String} {absent present : RegM (Node fold σ) α}
    (habsent : Answered absent) (hpresent : Answered present) :
    Answered (openSubkeyOr name absent present) := by
  refine attempt_bind (query (fun _ => .openKey name) _) (fun outcome => ?_) fun e he => ?_
  · split
    · exact habsent
    · exact throw _
    · exact hpresent
  · split
    · rename_i context heq
      exact absurd (Except.error.inj heq) (he context)
    · rename_i e' _ heq
      rw [Except.error.inj heq]
    · rename_i heq
      cases heq

theorem inSubkey {name : String} {m : RegM σ α} (hm : Answered m) :
    Answered (inSubkey name m : RegM (Node fold σ) α) := by
  intro node
  rcases hchild : node.subkey? name with _ | child
  · refine ⟨0, .error keyDeleted, node, fun faults _ => ?_, fun faults i hi => by omega⟩
    simp only [Registry.inSubkey, Prog.exec_step, hchild, Nat.zero_add]
  · obtain ⟨n, outcome, child', hrun, hrefused⟩ := hm child
    refine ⟨n, outcome, node.setSubkey name child', fun faults hclear => ?_, ?_⟩
    · simp only [Registry.inSubkey, Prog.exec_step, hchild, hrun faults hclear]
    · intro faults i hi fault hclear hfault
      obtain ⟨e, w, hexec, hrefusal⟩ := hrefused faults i hi fault hclear hfault
      refine ⟨e, ⟨node.setSubkey name w.node, w.faults⟩, ?_, hrefusal⟩
      simp only [Registry.inSubkey, Prog.exec_step, hchild, hexec]

/-! ## The writer -/

theorem readEntries {γ : Type} {report : Nat → Fault → Error}
    (hreport : ∀ index fault, Refusal fault (report index fault)) (read : Nat → β → Result γ)
    (entries : List β) (index : Nat) :
    Answered (readEntries report read index entries : RegM ν (List γ)) := by
  induction entries generalizing index with
  | nil => exact bind (query (hreport _) _) fun _ => pure _
  | cons entry entries ih =>
      exact bind (query (hreport _) _) fun _ => bind (lift _) fun _ =>
        bind (ih (index + 1)) fun _ => pure _

theorem enumerateValueNames : Answered (enumerateValueNames : RegM (Node fold σ) (List String)) :=
  bind current fun _ => readEntries (fun _ _ => .enumValue) _ _ _

theorem enumerateSubkeyNames : Answered (enumerateSubkeyNames : RegM (Node fold σ) (List String)) :=
  bind current fun _ => readEntries (fun index _ => .enumKey index) _ _ _

theorem checkExistingNames : Answered (checkExistingNames : RegM (Params fold σ) Unit) := by
  have hvalues : ∀ {τ : Type} (name : String), Answered (Registry.openSubkeyOr name (Pure.pure ())
      (Registry.inSubkey name do let _ ← Registry.enumerateValueNames) :
        RegM (Node fold (Node fold τ)) Unit) :=
    fun name => openSubkeyOr (pure _) (inSubkey (bind enumerateValueNames fun _ => pure _))
  exact bind (hvalues _) fun _ => openSubkeyOr (pure _)
    (inSubkey (bind enumerateSubkeyNames fun _ => forM fun name => hvalues name))

theorem setValue (name : String) (value : RegValue) :
    Answered (setValue name value : RegM (Node fold σ) Unit) :=
  call (fun _ => .setValue name) _ _

theorem deleteValue (name : String) :
    Answered (Registry.ignoreMissing (deleteValue name) : RegM (Node fold σ) Unit) :=
  ignoreMissing (call (fun _ => .deleteValue name) _ _)

theorem deleteSubtree (name : String) :
    Answered (Registry.ignoreMissing (deleteSubtree name) : RegM (Node fold (Node fold σ)) Unit) :=
  ignoreMissing (call (fun _ => .deleteTree name) _ _)

theorem createSubkeyUnder (name : String) :
    Answered (createSubkeyUnder name : RegM (Node fold (Node fold σ)) Unit) :=
  call (fun _ => .createKey name) _ _

theorem writeStringTyped (name value : String) (kind : UInt32) :
    Answered (writeStringTyped name value kind : RegM (Node fold σ) Unit) := by
  unfold Registry.writeStringTyped
  split
  · exact bind (throw _) fun _ => setValue _ _
  · exact setValue _ _

theorem writePut (cfg : ManagedApplicationConfig) (put : Put) :
    Answered (writePut cfg put : RegM (Node fold σ) Unit) := by
  unfold Registry.writePut
  split
  · exact pure _
  · exact writeStringTyped _ _ _
  · unfold writeMultiString
    split
    · exact bind (throw _) fun _ => setValue _ _
    · exact setValue _ _
  · exact setValue _ _

theorem pruneValues (wanted : String → Bool) :
    Answered (pruneValues wanted : RegM (Node fold σ) Unit) := by
  refine bind enumerateValueNames fun _ => forM fun name => ?_
  split
  · exact pure _
  · exact deleteValue name

theorem writeExitAction (entry : String × ExitActionPolicy) :
    Answered (writeExitAction entry : RegM (Node fold σ) Unit) := by
  unfold Registry.writeExitAction
  dsimp only
  split
  · exact bind (throw _) fun _ => writeStringTyped _ _ _
  · exact writeStringTyped _ _ _

theorem reconcileExitActions (exits : ExitActions) :
    Answered (reconcileExitActions exits : RegM (Params fold σ) Unit) := by
  unfold Registry.reconcileExitActions
  split
  · exact deleteSubtree appExit
  · exact bind (createSubkeyUnder _) fun _ =>
      inSubkey (bind (forM writeExitAction) fun _ => pruneValues _)

theorem reconcileEvent (hooks : List HookConfig) (event : String) :
    Answered (reconcileEvent hooks event : RegM (Node fold (Node fold σ)) Unit) := by
  unfold Registry.reconcileEvent
  split
  · exact deleteSubtree event
  · exact openSubkeyOr (pure _) (inSubkey (pruneValues _))

theorem reconcileHooks (cfg : ManagedApplicationConfig) :
    Answered (reconcileHooks cfg : RegM (Params fold σ) Unit) := by
  unfold Registry.reconcileHooks
  split
  · exact deleteSubtree appEvents
  · refine bind (createSubkeyUnder _) fun _ => inSubkey (bind (forM fun hook => ?_) fun _ =>
      bind enumerateSubkeyNames fun _ => forM (reconcileEvent _))
    exact bind (createSubkeyUnder _) fun _ => inSubkey (writeStringTyped _ _ _)

theorem deleteUnwritten (cfg : ManagedApplicationConfig) :
    Answered (deleteUnwritten cfg : RegM (Node fold σ) Unit) := by
  refine forM fun name => ?_
  split
  · exact pure _
  · exact deleteValue name

theorem writeIntoKey (cfg : ManagedApplicationConfig) :
    Answered (writeIntoKey cfg : RegM (Params fold σ) Unit) :=
  bind (lift _) fun _ => bind checkExistingNames fun _ => bind (forM (writePut cfg)) fun _ =>
    bind (reconcileExitActions _) fun _ => bind (reconcileHooks cfg) fun _ => deleteUnwritten cfg

end Answered

/-! ## Programs that only look -/

/-- Whatever happens the key stays as it is, and what is returned satisfies `Q`. -/
def Looks (m : RegM ν α) (node : ν) (Q : α → Prop) : Prop :=
  ∀ faults, m.wp (fun a w => w.node = node ∧ Q a) (fun _ w => w.node = node) ⟨node, faults⟩

namespace Looks

variable {node : ν}

theorem pure {a : α} {Q : α → Prop} (h : Q a) : Looks (Pure.pure a) node Q :=
  fun _ => ⟨rfl, h⟩

theorem bind {m : RegM ν α} {f : α → RegM ν β} {M : α → Prop} {Q : β → Prop}
    (hm : Looks m node M) (hf : ∀ a, M a → Looks (f a) node Q) : Looks (m >>= f) node Q := by
  intro faults
  rw [Prog.wp_bind]
  refine Prog.wp_mono m ?_ (fun _ _ h => h) (hm faults)
  rintro a ⟨n, faults'⟩ ⟨hnode, hM⟩
  cases hnode
  exact hf a hM faults'

theorem mono {m : RegM ν α} {Q Q' : α → Prop} (hpost : ∀ a, Q a → Q' a) (h : Looks m node Q) :
    Looks m node Q' := by
  intro faults
  refine Prog.wp_mono m ?_ (fun _ _ h => h) (h faults)
  rintro a w ⟨hnode, hQ⟩
  exact ⟨hnode, hpost a hQ⟩

theorem forM {xs : List α} {f : α → RegM ν PUnit} {Q : α → Prop}
    (hf : ∀ x, Looks (f x) node fun _ => Q x) :
    Looks (xs.forM f) node fun _ => ∀ x ∈ xs, Q x := by
  induction xs with
  | nil => exact pure nofun
  | cons x xs ih =>
      refine bind (hf x) fun _ hx => mono (fun _ hxs => ?_) ih
      intro y hy
      rcases List.mem_cons.mp hy with rfl | hy
      · exact hx
      · exact hxs y hy

theorem query {report : Fault → Error} {body : ν → Result α} :
    Looks (query report body) node fun _ => True := by
  intro faults
  unfold Registry.query Registry.call
  rw [Prog.wp_step]
  rcases hfault : faults 0 with _ | fault
  · cases hbody : body node <;> simp only [hfault, hbody]
    exact ⟨trivial, trivial⟩
  · simp only [hfault]

theorem lift (x : Result α) : Looks (liftExcept x) node fun a => x = .ok a := by
  intro faults
  rw [Prog.wp_liftExcept]
  cases x with
  | ok a => exact ⟨rfl, rfl⟩
  | error e => rfl

theorem readEntries {γ : Type} {report : Nat → Fault → Error} {read : Nat → β → Result γ}
    (entries : List β) (index : Nat) :
    Looks (readEntries report read index entries) node fun xs =>
      ∀ entry ∈ entries, ∃ i, ∃ x ∈ xs, read i entry = .ok x := by
  induction entries generalizing index with
  | nil => exact bind query fun _ _ => pure nofun
  | cons entry entries ih =>
      refine bind query fun _ _ => bind (lift _) fun x hx => bind (ih (index + 1)) fun xs hxs => ?_
      refine pure fun e he => ?_
      rcases List.mem_cons.mp he with rfl | he
      · exact ⟨index, x, by simp, hx⟩
      · obtain ⟨i, y, hy, hread⟩ := hxs e he
        exact ⟨i, y, by simp [hy], hread⟩

variable {key : Node fold σ}

theorem enumerateValueNames : Looks enumerateValueNames key fun _ => key.ValueNamesDecode := by
  refine bind (M := fun n => n = key) (fun _ => ⟨rfl, rfl⟩) ?_
  rintro _ rfl
  refine mono (fun _ hread => ?_) (readEntries _ _)
  intro entry hentry
  obtain ⟨_, _, _, hname⟩ := hread entry hentry
  exact decodableName_of_readName hname

theorem enumerateSubkeyNames : Looks enumerateSubkeyNames key fun names =>
    ∀ entry ∈ key.subkeys.entries, DecodableName entry.1 ∧ nameText entry.1 ∈ names := by
  refine bind (M := fun n => n = key) (fun _ => ⟨rfl, rfl⟩) ?_
  rintro _ rfl
  refine mono (fun names hread => ?_) (readEntries _ _)
  intro entry hentry
  obtain ⟨_, name, hmem, hname⟩ := hread entry hentry
  have hdecodes := decodableName_of_readName hname
  rw [hdecodes.readName_eq] at hname
  exact ⟨hdecodes, Except.ok.inj hname ▸ hmem⟩

/-- Looking into a subkey that may be absent. -/
theorem subkey {name : String} {m : RegM σ Unit} {Q : σ → Prop}
    (hm : ∀ child, Looks m child fun _ => Q child) :
    Looks (openSubkeyOr name (Pure.pure ()) (inSubkey name m)) key fun _ =>
      ∀ child, key.subkey? name = some child → Q child := by
  intro faults
  unfold Registry.openSubkeyOr openSubkey Registry.query Registry.call
  rw [Prog.wp_bind, Prog.wp_attempt, Prog.wp_step]
  rcases hfault : faults 0 with _ | fault
  · rcases hchild : key.subkey? name with _ | child
    · simp only [hfault, hchild]
      exact ⟨rfl, nofun⟩
    · simp only [hfault, hchild]
      have hrun := hm child fun n => faults (n + 1)
      unfold Prog.wp at hrun ⊢
      simp only [Registry.inSubkey, Prog.exec_step, hchild]
      rcases hexec : m.exec ⟨child, fun n => faults (n + 1)⟩ with ⟨outcome, w⟩
      rw [hexec] at hrun
      cases outcome with
      | error e =>
          simp only at hrun ⊢
          rw [hrun, setSubkey_same hchild]
      | ok a =>
          simp only at hrun ⊢
          obtain ⟨hnode, hQ⟩ := hrun
          rw [hnode, setSubkey_same hchild]
          refine ⟨rfl, fun other hother => ?_⟩
          cases hother
          exact hQ
  · simp only [hfault]
    split
    · rename_i context heq
      exact absurd (Except.error.inj heq) (Runs.mapRegError_ne_notFound _ fault context)
    · rfl
    · rename_i heq
      cases heq

end Looks

/-- The check of the existing names changes nothing and passes only when they all
decode. -/
theorem looks_checkExistingNames (node : Params fold σ) :
    Looks checkExistingNames node fun _ => NamesDecode node := by
  have hvalues : ∀ {τ : Type} (child : Node fold τ),
      Looks (do let _ ← enumerateValueNames) child fun _ => child.ValueNamesDecode :=
    fun child => Looks.bind Looks.enumerateValueNames fun _ h => Looks.pure h
  refine Looks.bind (Looks.subkey hvalues) fun _ hexits => ?_
  refine Looks.mono (fun _ hevents => ⟨fun exit hexit => ?_, fun events h => ?_⟩)
    (Looks.subkey (Q := EventsDecode) fun events => ?_)
  · exact hexits exit (by rw [Node.subkey?_eq]; exact hexit)
  · exact hevents events (by rw [Node.subkey?_eq]; exact h)
  · refine Looks.bind Looks.enumerateSubkeyNames fun names hnames => ?_
    refine Looks.mono (fun _ hchildren => ?_) (Looks.forM fun name => Looks.subkey hvalues)
    intro entry hentry
    obtain ⟨hdecodes, hmem⟩ := hnames entry hentry
    refine ⟨hdecodes, hchildren _ hmem entry.2 ?_⟩
    rw [Node.subkey?_eq, hdecodes.toWide_text]
    exact congrArg (Option.map Prod.snd) ((Table.mem_entries_iff _ _ _).mp hentry)

/-! ## The guarantee -/

/-- The objections the writer can raise once it has begun to write. -/
inductive Objection : Error → Prop where
  | nul (name : String) :
      Objection (.registry ("value '" ++ name ++
        "' contains an embedded NUL and cannot be stored as REG_SZ"))
  | multi (name : String) :
      Objection (.registry ("value '" ++ name ++
        "' has an empty or NUL-containing entry and cannot be " ++ "stored as REG_MULTI_SZ"))
  | exitKey (key : String) :
      Objection (.invalidConfig ("AppExit key '" ++ key ++
        "' is not a valid i32 exit code — the supervisor would never match it at runtime"))

/-- The first letter of a registry message. -/
def messageHead : Error → Option Char
  | .registry message => message.toList.head?
  | _ => none

theorem messageHead_refusal {fault : Fault} {e : Error} (h : Refusal fault e) :
    messageHead e = some 'R' := by
  have hcode : fault.code ≠ errorFileNotFound := fun hcode => fault.genuine (by simp [hcode])
  cases h with
  | enumKey index =>
      simp only [messageHead, String.toList_append, List.append_assoc, List.head?_append]
      rfl
  | _ => simp [mapRegError, hcode, messageHead]

theorem messageHead_objection {e : Error} (h : Objection e) : messageHead e ≠ some 'R' := by
  cases h <;> simp [messageHead]

theorem Refusal.not_objection {fault : Fault} {e : Error} (h : Refusal fault e) :
    ¬ Objection e :=
  fun hobjection => messageHead_objection hobjection (messageHead_refusal h)

/-- Either the calls a program makes are all answered, or the first refused one
ends it. -/
theorem Answered.cases {m : RegM ν α} (hm : Answered m) (node : ν) (faults : Nat → Option Fault) :
    (m.exec ⟨node, faults⟩).1 = (m.exec ⟨node, noFaults⟩).1 ∨
    ∃ i fault e w, ClearBefore faults i ∧ faults i = some fault ∧ Refusal fault e ∧
      m.exec ⟨node, faults⟩ = (.error e, w) := by
  obtain ⟨n, outcome, node', hrun, hrefused⟩ := hm node
  by_cases hclear : ClearBefore faults n
  · left
    rw [hrun faults hclear, hrun noFaults fun _ _ => rfl]
  · right
    unfold ClearBefore at hclear
    push Not at hclear
    classical
    -- the first fault among the calls
    obtain ⟨hlt, hfault⟩ := Nat.find_spec hclear
    obtain ⟨fault, hfault⟩ := Option.ne_none_iff_exists'.mp hfault
    have hbefore : ClearBefore faults (Nat.find hclear) := by
      intro j hj
      by_contra hne
      exact Nat.find_min hclear hj ⟨by omega, hne⟩
    obtain ⟨e, w, hexec, hrefusal⟩ := hrefused faults _ hlt fault hbefore hfault
    exact ⟨_, fault, e, w, hbefore, hfault, hrefusal, hexec⟩

/-- Input that is not accepted changes nothing, for every key and every schedule of
faults; and input that is accepted meets no objection on the way, so that every
error is the report of the first call the registry refused. -/
theorem writeIntoKey_all_or_nothing (cfg : ManagedApplicationConfig) (node : Params fold σ)
    (faults : Nat → Option Fault) :
    ((∀ exits, preflightConfig fold cfg ≠ .ok exits) ∨ ¬ NamesDecode node →
      ∃ e w, (writeIntoKey cfg).exec ⟨node, faults⟩ = (.error e, w) ∧ w.node = node) ∧
    (∀ exits, preflightConfig fold cfg = .ok exits → NamesDecode node →
      ∀ e w, (writeIntoKey cfg).exec ⟨node, faults⟩ = (.error e, w) →
        ¬ Objection e ∧
        ∃ i fault, ClearBefore faults i ∧ faults i = some fault ∧ Refusal fault e) := by
  constructor
  · intro hbad
    cases hpreflight : preflightConfig fold cfg with
    | error e =>
        refine ⟨e, ⟨node, faults⟩, ?_, rfl⟩
        rw [writeIntoKey, Prog.exec_bind, hpreflight]
        rfl
    | ok exits =>
        have hnames : ¬ NamesDecode node :=
          hbad.resolve_left fun hrejected => hrejected exits hpreflight
        have hlooks := looks_checkExistingNames node faults
        unfold Prog.wp at hlooks
        rcases hexec : checkExistingNames.exec ⟨node, faults⟩ with ⟨outcome, w⟩
        rw [hexec] at hlooks
        cases outcome with
        | ok a => exact absurd hlooks.2 hnames
        | error e =>
            refine ⟨e, w, ?_, hlooks⟩
            rw [writeIntoKey, Prog.exec_bind, hpreflight]
            change (checkExistingNames >>= _).exec ⟨node, faults⟩ = _
            rw [Prog.exec_bind, hexec]
  · intro exits hpreflight hnames e w herror
    rcases Answered.cases (Answered.writeIntoKey cfg) node faults with
      hcalm | ⟨i, fault, e', w', hclear, hfault, hrefusal, hexec⟩
    · obtain ⟨⟨⟩, w', hok, -⟩ := Runs.exec_noFaults (runs_writeIntoKey hpreflight hnames)
      rw [herror, hok] at hcalm
      cases hcalm
    · rw [herror] at hexec
      cases hexec
      exact ⟨hrefusal.not_objection, i, fault, hclear, hfault, hrefusal⟩

end Ngsm.Registry
