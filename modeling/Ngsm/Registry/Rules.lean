/-
# Reasoning about registry programs that may be cut short

`Runs m node Q R` says everything that is ever needed about a program at
once: when it returns, the key satisfies `Q`; when it fails, the key satisfies
`R`, and the failure was scheduled.  So a program without scheduled faults
returns, and the key left behind by a fault is described no matter which call it
hits.  There is one rule for each way of building a program and one for each
system call.
-/

import Ngsm.Registry.Store

namespace Ngsm.Registry

open Ngsm.Lib Ngsm.Core

variable {fold : NameFold} {ν σ α β : Type}

/-- No call fails. -/
def Calm (faults : Nat → Option Fault) : Prop :=
  ∀ n, faults n = none

/-- The contract of a program started on `node`, for every schedule of faults. -/
def Runs (m : RegM ν α) (node : ν) (Q : α → ν → Prop) (R : ν → Prop) : Prop :=
  ∀ faults, m.wp
    (fun a w => Q a w.node ∧ (Calm faults → Calm w.faults))
    (fun _ w => R w.node ∧ ¬ Calm faults)
    ⟨node, faults⟩

namespace Runs

variable {node : ν} {Q Q' : α → ν → Prop} {R R' : ν → Prop}

/-! ## Composition -/

theorem mono {m : RegM ν α} (hpost : ∀ a n, Q a n → Q' a n)
    (hcut : ∀ n, R n → R' n) (h : Runs m node Q R) : Runs m node Q' R' := by
  intro faults
  refine Prog.wp_mono m ?_ ?_ (h faults)
  · rintro a w ⟨hp, hcalm⟩
    exact ⟨hpost a w.node hp, hcalm⟩
  · rintro e w ⟨hc, hfault⟩
    exact ⟨hcut w.node hc, hfault⟩

theorem pure {a : α} (h : Q a node) : Runs (Pure.pure a) node Q R := by
  intro faults
  exact ⟨h, id⟩

theorem bind {m : RegM ν α} {f : α → RegM ν β} {M : α → ν → Prop} {Q : β → ν → Prop}
    (hm : Runs m node M R) (hf : ∀ a n, M a n → Runs (f a) n Q R) :
    Runs (m >>= f) node Q R := by
  intro faults
  rw [Prog.wp_bind]
  refine Prog.wp_mono m ?_ (fun _ _ h => h) (hm faults)
  rintro a ⟨n, faults'⟩ ⟨hmid, hcalm⟩
  refine Prog.wp_mono _ ?_ ?_ (hf a n hmid faults')
  · rintro b w ⟨hpost, hcalm'⟩
    exact ⟨hpost, fun h => hcalm' (hcalm h)⟩
  · rintro e w ⟨hcut, hfault⟩
    exact ⟨hcut, fun h => hfault (hcalm h)⟩

theorem liftOk {x : Result α} {a : α} (hx : x = .ok a) (h : Q a node) :
    Runs (liftExcept x) node Q R := by
  subst hx
  exact pure h

theorem forM {xs : List α} {f : α → RegM ν PUnit} (I : List α → ν → Prop)
    (hstep : ∀ done x rest, xs = done ++ x :: rest → ∀ n, I done n →
      Runs (f x) n (fun _ => I (done ++ [x])) R)
    (hinit : I [] node) : Runs (xs.forM f) node (fun _ => I xs) R := by
  suffices hloop : ∀ rest done n, xs = done ++ rest → I done n →
      Runs (rest.forM f) n (fun _ => I xs) R from hloop xs [] node rfl hinit
  intro rest
  induction rest with
  | nil =>
      intro done n hsplit hdone
      rw [List.append_nil] at hsplit
      rw [hsplit]
      exact pure hdone
  | cons x rest ih =>
      intro done n hsplit hdone
      change Runs (f x >>= fun _ => rest.forM f) n _ R
      refine bind (hstep done x rest hsplit n hdone) ?_
      intro _ n' hnext
      exact ih (done ++ [x]) n' (by simpa using hsplit) hnext

/-! ## System calls -/

theorem call {report : Fault → Error} {cut : Fault → ν → ν} {body : ν → Result α × ν}
    {a : α} {node' : ν} (hbody : body node = (.ok a, node'))
    (hcut : ∀ fault, R (cut fault node)) (hpost : Q a node') :
    Runs (call report cut body) node Q R := by
  intro faults
  unfold Registry.call
  rw [Prog.wp_step]
  rcases hfault : faults 0 with _ | fault
  · simp only [hfault, hbody]
    exact ⟨hpost, fun hcalm n => hcalm (n + 1)⟩
  · simp only [hfault]
    exact ⟨hcut fault, fun hcalm => by simp [hcalm 0] at hfault⟩

/-- A call under `ignoreMissing` that either succeeds or finds nothing. -/
theorem ignoreMissing_call (node' : ν) {report : Fault → Error} {cut : Fault → ν → ν}
    {body : ν → Result Unit × ν} {Q : Unit → ν → Prop}
    (hreport : ∀ fault context, report fault ≠ .notFound context)
    (hbody : body node = (.ok (), node') ∨ ∃ context, body node = (.error (.notFound context), node'))
    (hcut : ∀ fault, R (cut fault node)) (hpost : Q () node') :
    Runs (ignoreMissing (Registry.call report cut body)) node Q R := by
  intro faults
  unfold ignoreMissing Registry.call
  rw [Prog.wp_bind, Prog.wp_attempt, Prog.wp_step]
  rcases hfault : faults 0 with _ | fault
  · have hcalm : Calm faults → Calm fun n => faults (n + 1) := fun hcalm n => hcalm (n + 1)
    rcases hbody with hok | ⟨context, hmissing⟩
    · simp only [hfault, hok]
      exact ⟨hpost, hcalm⟩
    · simp only [hfault, hmissing]
      exact ⟨hpost, hcalm⟩
  · simp only [hfault]
    have hscheduled : ¬ Calm faults := fun hcalm => by simp [hcalm 0] at hfault
    split
    · rename_i context heq
      exact absurd (Except.error.inj heq) (hreport fault context)
    · exact ⟨hcut fault, hscheduled⟩
    · rename_i heq
      cases heq

theorem mapRegError_ne_notFound (context : String) (fault : Fault) (other : String) :
    mapRegError context fault ≠ .notFound other := by
  have hcode : fault.code ≠ errorFileNotFound := by
    intro hcode
    exact fault.genuine (by simp [hcode])
  rw [mapRegError, if_neg hcode]
  exact Error.noConfusion

theorem query {report : Fault → Error} {body : ν → Result α} {a : α}
    (hbody : body node = .ok a) (hcut : R node) (hpost : Q a node) :
    Runs (query report body) node Q R :=
  call (by rw [hbody]) (fun _ => hcut) hpost

theorem current {Q : ν → ν → Prop} (hpost : Q node node) :
    Runs current node Q R := by
  intro faults
  exact ⟨hpost, id⟩

theorem readEntries {γ : Type} {report : Nat → Fault → Error} {read : Nat → β → Result γ}
    {f : β → γ} {Q : List γ → ν → Prop} (entries : List β) (index : Nat)
    (hread : ∀ entry ∈ entries, ∀ index, read index entry = .ok (f entry))
    (hcut : R node) (hpost : Q (entries.map f) node) :
    Runs (readEntries report read index entries) node Q R := by
  induction entries generalizing index Q with
  | nil =>
      refine bind (query (Q := fun _ n => n = node) rfl hcut rfl) ?_
      rintro _ n rfl
      exact pure hpost
  | cons entry entries ih =>
      refine bind (query (Q := fun _ n => n = node) rfl hcut rfl) ?_
      rintro _ n rfl
      refine bind (liftOk (Q := fun x n' => x = f entry ∧ n' = n)
        (hread entry (by simp) index) ⟨rfl, rfl⟩) ?_
      rintro _ n' ⟨rfl, rfl⟩
      refine bind (ih (Q := fun xs n => xs = entries.map f ∧ n = n') (index + 1)
        (fun e he => hread e (by simp [he])) ⟨rfl, rfl⟩) ?_
      rintro _ n ⟨rfl, rfl⟩
      exact pure hpost

section Keys

variable {key : Node fold σ} {R : Node fold σ → Prop}

theorem setValue {name : String} {value : RegValue} {Q : Unit → Node fold σ → Prop}
    (hcut : R key) (hpost : Q () (key.setValue name value)) :
    Runs (setValue name value) key Q R :=
  call rfl (fun _ => hcut) hpost

theorem deleteValue {name : String} {Q : Unit → Node fold σ → Prop}
    (hcut : R key) (hpost : Q () (key.eraseValue name)) :
    Runs (ignoreMissing (deleteValue name)) key Q R := by
  refine ignoreMissing_call (key.eraseValue name)
    (fun fault context => mapRegError_ne_notFound _ fault context) ?_ (fun _ => hcut) hpost
  rcases hvalue : key.value? name with _ | value
  · refine .inr ⟨"RegDeleteValue(" ++ name ++ ")", ?_⟩
    have habsent : key.values.lookup (fold.key (toWide name)) = none := by
      simpa [Node.value?, Table.find?] using hvalue
    rw [Node.eraseValue, Table.erase_of_lookup_none habsent]
  · exact .inl rfl

theorem inSubkey {name : String} {child : σ} {m : RegM σ α} {Q : α → Node fold σ → Prop}
    (hchild : key.subkey? name = some child)
    (hm : Runs m child (fun a c => Q a (key.setSubkey name c))
      (fun c => R (key.setSubkey name c))) :
    Runs (inSubkey name m) key Q R := by
  intro faults
  have hrun := hm faults
  unfold Prog.wp at hrun ⊢
  simp only [Registry.inSubkey, Prog.exec_step, hchild]
  rcases hexec : m.exec ⟨child, faults⟩ with ⟨outcome, w⟩
  rw [hexec] at hrun
  cases outcome <;> exact hrun

theorem openSubkeyOr {name : String} {absent present : RegM (Node fold σ) α}
    {Q : α → Node fold σ → Prop} (hcut : R key)
    (habsent : key.subkey? name = none → Runs absent key Q R)
    (hpresent : ∀ child, key.subkey? name = some child → Runs present key Q R) :
    Runs (openSubkeyOr name absent present) key Q R := by
  intro faults
  unfold Registry.openSubkeyOr openSubkey Registry.query Registry.call
  rw [Prog.wp_bind, Prog.wp_attempt, Prog.wp_step]
  have hrest : ∀ {m : RegM (Node fold σ) α}, Runs m key Q R →
      m.wp (fun a w => Q a w.node ∧ (Calm faults → Calm w.faults))
        (fun _ w => R w.node ∧ ¬ Calm faults) ⟨key, fun n => faults (n + 1)⟩ := by
    intro m hm
    refine Prog.wp_mono m ?_ ?_ (hm fun n => faults (n + 1))
    · rintro a w ⟨hpost, hcalm⟩
      exact ⟨hpost, fun h => hcalm fun n => h (n + 1)⟩
    · rintro e w ⟨hc, hfault⟩
      exact ⟨hc, fun h => hfault fun n => h (n + 1)⟩
  rcases hfault : faults 0 with _ | fault
  · rcases hchild : key.subkey? name with _ | child
    · simp only [hfault, hchild]
      exact hrest (habsent hchild)
    · simp only [hfault, hchild]
      exact hrest (hpresent child hchild)
  · simp only [hfault]
    have hscheduled : ¬ Calm faults := fun hcalm => by simp [hcalm 0] at hfault
    split
    · rename_i context heq
      exact absurd (Except.error.inj heq) (mapRegError_ne_notFound _ fault context)
    · exact ⟨hcut, hscheduled⟩
    · rename_i heq
      cases heq

end Keys

section Subtrees

variable {key : Node fold (Node fold σ)} {R : Node fold (Node fold σ) → Prop}
  {Q : Unit → Node fold (Node fold σ) → Prop}

theorem createSubkeyUnder {name : String} (hcut : R key)
    (hpresent : ∀ child, key.subkey? name = some child → Q () key)
    (habsent : key.subkey? name = none → Q () (key.setSubkey name .empty)) :
    Runs (createSubkeyUnder name) key Q R := by
  rcases hchild : key.subkey? name with _ | child
  · exact call (by rw [hchild]) (fun _ => hcut) (habsent hchild)
  · exact call (by rw [hchild]) (fun _ => hcut) (hpresent child hchild)

theorem deleteSubtree {name : String} (hcut : ∀ fault, R (cutSubtree name fault key))
    (hpost : Q () (key.eraseSubkey name)) :
    Runs (ignoreMissing (deleteSubtree name)) key Q R := by
  refine ignoreMissing_call (key.eraseSubkey name)
    (fun fault context => mapRegError_ne_notFound _ fault context) ?_ hcut hpost
  rcases hchild : key.subkey? name with _ | child
  · refine .inr ⟨"RegDeleteTree(" ++ name ++ ")", ?_⟩
    have habsent : key.subkeys.lookup (fold.key (toWide name)) = none := by
      simpa [Node.subkey?, Table.find?] using hchild
    rw [Node.eraseSubkey, Table.erase_of_lookup_none habsent]
  · exact .inl rfl

end Subtrees

end Runs

end Ngsm.Registry
