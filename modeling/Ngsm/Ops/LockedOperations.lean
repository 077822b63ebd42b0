/-
# The operations under the lock

Removing and installing a service, editing it and saving its recovery policy take the lock of
the service first.  The lock is known to be held until the call that gives it back, and nothing
is changed after that.
-/

import Ngsm.Ops.Discipline

namespace Ngsm.Ops.Machine

open Ngsm.Lib Ngsm.Core Ngsm.Registry Ngsm.Win32

section

variable {fold : NameFold} {errand : Errand} {P : Known} {α : Type} {F : α → Known}
  {Q : α → Said → Prop}

/-- The lock is known to be held from its answer to the end of the work. -/
theorem finishes_guarded {work : Act α}
    (hwork : Learns (Warranted fold errand) (P.and (locked errand.name)) work F)
    (hQ : ∀ a s x, (F a).holds s → Q a (s ++ [x])) :
    Finishes (Warranted fold errand) P (configBackend.guarded errand.name work) Q := by
  refine .bind (F := fun _ => locked errand.name) ?_ fun _ => ?_
  · refine Learns.call _ rfl ?_ ?_
    · exact fun _ _ _ => rfl
    · rintro s answer ⟨⟩ - rfl
      exact Knowledge.since_now s _
  · exact .release hwork (fun _ _ _ => rfl) fun a s answer => hQ a s _

/-! ## Removing -/

theorem learns_ensureRemovable {native : NativeService} :
    Learns (Warranted fold errand) (P.and (reported errand.name (· = native)))
      (ensureRemovable errand.name native) fun _ => owned errand.name := by
  refine .bind learns_readDefinition fun service => .ite (fun hmanaged => .pure ?_) fun _ => .throw
  rintro s ⟨⟨-, hquery⟩, hread⟩
  exact owned_of_defined hquery hread hmanaged

/-- A configuration that is found was left behind by the service. -/
def leftBehind (name : String) (found : Option ManagedApplicationConfig) : Known :=
  lasting (fun s => found.isSome = true → LeftBehind s name) fun _ x h hfound =>
    (h hfound).later x

theorem learns_isManagedForPurge (hdeleted : ∀ s, P.holds s → Deleted s errand.name) :
    Learns (Warranted fold errand) P (isManagedForPurge errand.name)
      fun managed => lasting (fun s => managed = true → LeftBehind s errand.name)
        fun _ x h hmanaged => (h hmanaged).later x := by
  refine .bind (.answered (c := SystemCall.readManagedConfig errand.name)
    (F := fun answer => leftBehind errand.name (answer.toOption.join)) rfl
    (fun _ _ _ => .inl rfl) ?_) fun answer => ?_
  · rintro s (e | found) hP hfound
    · cases hfound
    · obtain ⟨cfg, rfl⟩ := Option.isSome_iff_exists.mp hfound
      exact ⟨s, _, rfl, hdeleted s hP, cfg, List.mem_singleton_self _, trivial⟩
  · cases answer with
    | ok managed =>
        refine .pure ?_
        rintro s ⟨-, hleft⟩ hmanaged
        exact hleft hmanaged
    | error e => exact .pure fun s _ hmanaged => by cases hmanaged

theorem learns_purgeManagedConfig (hop : errand.op = "remove")
    (hP : ∀ s, P.holds s → Locked s errand.name ∧ Deleted s errand.name) :
    Learns (Warranted fold errand) P (purgeManagedConfig errand.name) fun _ => .nothing := by
  refine .bind (learns_isManagedForPurge fun s hs => (hP s hs).2) fun managed =>
    .ite (fun hmanaged => ?_) fun _ => .pure fun _ _ => trivial
  refine (Learns.ask _ rfl ?_).mono (fun _ h => h) fun _ _ _ _ => trivial
  rintro s answer ⟨hs, hleft⟩
  exact ⟨hop, rfl, (hP s hs).1, hleft hmanaged⟩

theorem learns_removeLocked (hop : errand.op = "remove") :
    Learns (Warranted fold errand) (P.and (locked errand.name))
      (removeLocked errand.name errand.forceNative) fun _ => deleted errand.name := by
  refine .bind learns_queryService fun native => ?_
  refine .bind (F := fun _ => lasting (Entitled errand) fun s x h => h.imp id (·.later x))
    (.ite (fun hforce => .pure fun _ _ => .inl hforce) fun _ => ?_) fun _ => ?_
  · exact learns_ensureRemovable.mono (fun _ h => h) fun _ _ _ howned => .inr howned
  · refine .ite (fun _ => .throw) fun hstopped => .bind (learns_removeService ?_) fun _ => ?_
    · rintro s svc ⟨⟨⟨-, hlocked⟩, manager, native, hquery, rfl⟩, hentitled⟩ hopened
      exact .remove hop hlocked hopened hentitled ⟨manager, native, hquery, by simpa using hstopped⟩
    · refine .bind (learns_purgeManagedConfig hop ?_) fun _ => .pure fun s h => h.1.2
      rintro s ⟨⟨⟨⟨-, hlocked⟩, -⟩, -⟩, hdeleted⟩
      exact ⟨hlocked, hdeleted⟩

theorem finishes_remove (hop : errand.op = "remove") (purge : Bool) :
    Finishes (Warranted fold errand) P (remove errand.name errand.forceNative purge)
      fun _ s => Deleted s errand.name :=
  .ite (fun _ => .throw) fun _ => finishes_guarded (learns_removeLocked hop)
    fun _ _ x h => Deleted.later h x

/-! ## Installing -/

variable {spec : InstallSpec}

theorem learns_installLocked (hname : spec.name = errand.name) (hpassword : spec.password = none)
    (hop : errand.op = "install") {binaryPath : String}
    (hvalid : validateManagedConfig fold (managedConfigFromSpec spec) = .ok ())
    (hrunner : ∀ s, P.holds s →
      Heard s (.buildRunServiceCommand errand.name) (.ok binaryPath)) :
    Learns (Warranted fold errand) (P.and (locked errand.name)) (installLocked spec binaryPath)
      fun _ => lasting (Installed · errand.name spec) fun _ x h => h.later x := by
  refine .bind (F := fun _ => createdAs (installOptions spec binaryPath)) ?_ fun _ => ?_
  · exact learns_installService hname hpassword hop (fun s h => h.2) fun s h => hrunner s h.1
  have created_of {s : Said} (hcreated : CreatedAs s (installOptions spec binaryPath)) :
      ∃ svc, Created s errand.name svc := hname ▸ hcreated.created
  rw [hname]
  refine .bind (.lift (c := SystemCall.createManagedConfig errand.name (managedConfigFromSpec spec))
    rfl ?_) fun outcome => ?_
  · rintro s answer ⟨⟨-, hlocked⟩, hcreated⟩
    exact ⟨hop, rfl, hlocked, created_of hcreated, hvalid⟩
  · cases outcome with
    | ok _ =>
        refine .pure ?_
        rintro s ⟨⟨⟨hP, -⟩, hcreated⟩, hsaid⟩
        exact ⟨⟨binaryPath, hrunner s hP, hcreated⟩, hsaid⟩
    | error e =>
        refine .bind (.attempt (learns_removeService ?_)) fun outcome => .throw
        rintro s svc ⟨⟨⟨-, hlocked⟩, hcreated⟩, -⟩ hopened
        obtain ⟨new, hnew⟩ := created_of hcreated
        exact .undo hop hlocked ⟨new, hnew, .inr hopened⟩

theorem finishes_install (hname : spec.name = errand.name) (hpassword : spec.password = none)
    (hop : errand.op = "install") :
    Finishes (Warranted fold errand) P (install fold spec)
      fun _ s => Installed s errand.name spec := by
  unfold install
  refine .ite (fun _ => .throw) fun _ => .check fun _ hvalid => .check fun _ _ => ?_
  rw [hname]
  refine .bind learns_buildRunServiceCommand fun binaryPath => ?_
  exact finishes_guarded (learns_installLocked hname hpassword hop hvalid fun s h => h.2)
    fun _ _ x h => Installed.later h x

/-! ## The managed configuration -/

/-- The original configuration may be written back, and one that is valid written. -/
structure Rewritable (fold : NameFold) (errand : Errand) (original : ManagedApplicationConfig)
    (P : Known) : Prop where
  op : errand.op = "edit" ∨ errand.op = "recovery_set"
  locked : ∀ s, P.holds s → Locked s errand.name
  read : ∀ s, P.holds s → Heard s (.readManagedConfig errand.name) (.ok (some original))

variable {original : ManagedApplicationConfig}

theorem Rewritable.and (h : Rewritable fold errand original P) (K : Known) :
    Rewritable fold errand original (P.and K) where
  op := h.op
  locked s hs := h.locked s hs.1
  read s hs := h.read s hs.1

theorem Rewritable.mayWrite (h : Rewritable fold errand original P) {s : Said} (hs : P.holds s)
    {cfg : ManagedApplicationConfig}
    (hcfg : cfg = original ∨ validateManagedConfig fold cfg = .ok ()) :
    MayWrite fold errand s errand.name cfg :=
  ⟨h.op, rfl, h.locked s hs, original, h.read s hs, hcfg⟩

theorem learns_writeManaged (h : Rewritable fold errand original P)
    {cfg : ManagedApplicationConfig}
    (hcfg : cfg = original ∨ validateManagedConfig fold cfg = .ok ()) :
    Learns (Warranted fold errand) P
      (ExceptT.lift (configBackend.writeManaged errand.name cfg) : Act (Result Unit))
      fun outcome => did (.writeManagedConfig errand.name cfg) outcome :=
  .lift rfl fun _ _ hs => h.mayWrite hs hcfg

variable {edit : EditSpec}

theorem learns_rollbackManaged (h : Rewritable fold errand original P)
    (hname : edit.name = errand.name) (error : Error) (nativeAttempted : Bool) :
    Learns (Warranted fold errand) P
      (ExceptT.lift (configBackend.rollbackManaged edit original error nativeAttempted) : Act Error)
      fun _ => .nothing := by
  unfold ConfigBackend.rollbackManaged
  rw [hname]
  exact .liftMap _ rfl fun _ _ hs => h.mayWrite hs (.inl rfl)

/-- The configuration that was read, with the fields of the request. -/
def Merged (edit : EditSpec) (original cfg : ManagedApplicationConfig) : Prop :=
  mergeManagedFields original edit = .ok cfg

theorem learns_editManaged (h : Rewritable fold errand original P)
    (hname : edit.name = errand.name) :
    Learns (Warranted fold errand) P (configBackend.editManaged fold edit original)
      fun _ => lasting (Rewritten · errand.name (Merged edit)) fun _ x h => h.later x := by
  unfold ConfigBackend.editManaged
  refine .checked fun managed hmerged => .checked fun _ hvalid => ?_
  rw [hname]
  refine .bind (learns_writeManaged h (.inr hvalid)) fun outcome => ?_
  cases outcome with
  | ok _ => exact .pure fun s hs => ⟨original, managed, h.read s hs.1, hmerged, hs.2⟩
  | error error =>
      exact .bind (learns_rollbackManaged (h.and _) hname error false) fun report => .throw

theorem learns_editNative (h : Rewritable fold errand original P)
    (hname : edit.name = errand.name) (hpassword : edit.password = none)
    (hop : errand.op = "edit") :
    Learns (Warranted fold errand) P (configBackend.editNative edit original)
      fun _ => lasting (NativeEdited · errand.name edit) fun _ x h => h.later x := by
  have hnative : Learns (Warranted fold errand) P (updateNativeConfig edit)
      fun _ => lasting (NativeEdited · errand.name edit) fun _ x h => h.later x :=
    learns_updateNativeConfig hname hpassword hop fun s hs =>
      .inr ⟨h.locked s hs, original, h.read s hs, trivial⟩
  refine .bind hnative.attempt fun outcome => ?_
  cases outcome with
  | ok _ => exact .pure fun s hs => hs.2
  | error error =>
      refine .ite (fun _ => ?_) fun _ => .throw
      exact .bind (learns_rollbackManaged (h.and _) hname error true) fun report => .throw

/-- What an edit has done: the fields that were given are changed, each in its place. -/
structure Edited (said : Said) (name : String) (edit : EditSpec) : Prop where
  managed : edit.touchesManaged = true → Rewritten said name (Merged edit)
  native : edit.touchesNative = true → NativeEdited said name edit

theorem Edited.later {said : Said} {name : String} (h : Edited said name edit)
    (x : Exchange SystemCall.Answer) : Edited (said ++ [x]) name edit where
  managed htouches := (h.managed htouches).later x
  native htouches := (h.native htouches).later x

theorem learns_readOriginal :
    Learns (Warranted fold errand) P
      (ExceptT.mk (configBackend.readManaged errand.name) :
        Act (Option ManagedApplicationConfig))
      fun found => did (.readManagedConfig errand.name) (.ok found) :=
  learns_readManaged

theorem learns_editLocked (hname : edit.name = errand.name) (hpassword : edit.password = none)
    (hop : errand.op = "edit") :
    Learns (Warranted fold errand) (P.and (locked errand.name))
      (configBackend.editLocked fold edit)
      fun _ => lasting (Edited · errand.name edit) fun _ x h => h.later x := by
  unfold ConfigBackend.editLocked
  rw [hname]
  refine .bind learns_readOriginal fun found => ?_
  cases found with
  | none => exact .throw
  | some original =>
      have h : Rewritable fold errand original ((P.and (locked errand.name)).and
          (did (.readManagedConfig errand.name) (.ok (some original)))) :=
        ⟨.inl hop, fun s hs => hs.1.2, fun s hs => hs.2⟩
      refine .bind (F := fun _ => lasting (fun s => edit.touchesManaged = true →
          Rewritten s errand.name (Merged edit)) fun _ x h ht => (h ht).later x)
        (.ite (fun _ => (learns_editManaged h hname).mono (fun _ hs => hs) fun _ _ _ hs _ => hs)
          fun hno => .pure fun _ _ hyes => absurd hyes hno) fun _ => ?_
      refine .bind (F := fun _ => lasting (fun s => edit.touchesNative = true →
          NativeEdited s errand.name edit) fun _ x h ht => (h ht).later x)
        (.ite (fun _ => (learns_editNative (h.and _) hname hpassword hop).mono (fun _ hs => hs)
          fun _ _ _ hs _ => hs) fun hno => .pure fun _ _ hyes => absurd hyes hno) fun _ => ?_
      exact .pure fun s hs => ⟨hs.1.2, hs.2⟩

theorem finishes_edit (hname : edit.name = errand.name) (hpassword : edit.password = none)
    (hop : errand.op = "edit") :
    Finishes (Warranted fold errand) P (Machine.edit fold edit)
      fun _ s => Edited s errand.name edit := by
  refine .ite (fun _ => .check fun _ _ => ?_) fun _ => .throw
  rw [hname]
  exact finishes_guarded (learns_editLocked hname hpassword hop) fun _ _ x h => Edited.later h x

/-! ## The recovery policy -/

variable {policy : RecoverySpec}

theorem learns_saveLocked (hname : policy.name = errand.name) (hop : errand.op = "recovery_set") :
    Learns (Warranted fold errand) (P.and (locked errand.name))
      (configBackend.saveLocked fold policy)
      fun _ => lasting (Rewritten · errand.name fun original cfg =>
        cfg = applyRecovery original policy) fun _ x h => h.later x := by
  unfold ConfigBackend.saveLocked
  rw [hname]
  refine .bind learns_readOriginal fun found => ?_
  cases found with
  | none => exact .throw
  | some original =>
      have h : Rewritable fold errand original ((P.and (locked errand.name)).and
          (did (.readManagedConfig errand.name) (.ok (some original)))) :=
        ⟨.inr hop, fun s hs => hs.1.2, fun s hs => hs.2⟩
      refine .checked fun _ hvalid => .bind (learns_writeManaged h (.inr hvalid)) fun outcome => ?_
      cases outcome with
      | ok _ => exact .pure fun s hs => ⟨original, _, h.read s hs.1, rfl, hs.2⟩
      | error error =>
          refine .bind (learns_writeManaged (h.and _) (.inl rfl)) fun outcome => ?_
          cases outcome with
          | ok _ => exact .throw
          | error rollback => exact .throw

theorem finishes_saveRecovery (hname : policy.name = errand.name)
    (hop : errand.op = "recovery_set") :
    Finishes (Warranted fold errand) P (saveRecovery fold policy)
      fun _ s => Rewritten s errand.name fun original cfg =>
        cfg = applyRecovery original policy := by
  refine .check fun _ _ => ?_
  rw [hname]
  exact finishes_guarded (learns_saveLocked hname hop) fun _ _ x h => Rewritten.later h x

theorem learns_readRecovery :
    Learns (Warranted fold errand) P (readRecovery errand.name) fun _ => .nothing := by
  refine .bind learns_readOriginal fun found => ?_
  cases found with
  | none => exact .throw
  | some managed => exact .pure fun _ _ => trivial

end

end Ngsm.Ops.Machine
