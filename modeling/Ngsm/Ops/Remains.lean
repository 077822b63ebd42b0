/-
# What an operation leaves behind

An installation creates a service and then configures it; a removal deletes a service and then
purges its configuration.  Either may fail half-way, and the undoing of an installation may fail
too.  A configuration is written value by value and nothing of it is undone, so one that was begun
and not finished may be there in part.  Whatever the machine answers, the outcome that is reported
says what there is: a configured service, a service with a part of its configuration or none, or
no service.
-/

import Ngsm.Ops.Operations

namespace Ngsm.Ops.Machine

open Ngsm.Lib Ngsm.Core Ngsm.Registry Ngsm.Win32

/-- How often a service was created and deleted, and how often the writing and the purging of
its configuration were begun and came to their end. -/
structure Remains where
  created : ℕ := 0
  deleted : ℕ := 0
  begun : ℕ := 0
  configured : ℕ := 0
  purging : ℕ := 0
  purged : ℕ := 0
  deriving DecidableEq

def Remains.note (r : Remains) : Exchange SystemCall.Answer → Remains
  | ⟨.createService _ _, .ok _⟩ => { r with created := r.created + 1 }
  | ⟨.deleteService _, .ok _⟩ => { r with deleted := r.deleted + 1 }
  | ⟨.createManagedConfig _ _, .ok _⟩ =>
      { r with begun := r.begun + 1, configured := r.configured + 1 }
  | ⟨.createManagedConfig _ _, .error _⟩ => { r with begun := r.begun + 1 }
  | ⟨.deleteManagedConfig _, .ok _⟩ =>
      { r with purging := r.purging + 1, purged := r.purged + 1 }
  | ⟨.deleteManagedConfig _, .error _⟩ => { r with purging := r.purging + 1 }
  | _ => r

/-- What all that was said leaves behind. -/
def remains (said : Said) : Remains :=
  said.foldl Remains.note {}

def tally : Dialogue.Code SystemCall.Answer Remains where
  note := Remains.note
  proper _ _ := True

/-- When the operation has ended, its outcome tells what it leaves. -/
structure Tells (m : Act String) (P : Result String → Remains → Prop) : Prop where
  keeps : m.Keeps tally (fun text => P (.ok text)) (fun e => P (.error e)) {}

theorem Tells.of_leads {m : Act String} {P : Result String → Remains → Prop} (h : Tells m P)
    {said : Said} {outcome : Result String} (hleads : m.run.Leads said (.done outcome)) :
    P outcome (remains said) := by
  have hleft : Fallible.either _ _ outcome (remains said) := hleads.reaches h.keeps
  cases outcome with
  | ok text => exact hleft
  | error e => exact hleft

/-! ## Calls that leave things as they are -/

theorem quiet_call {c : SystemCall} {α : Type} (view : c.Answer → Result α)
    (h : ∀ s answer, Remains.note s ⟨c, answer⟩ = s) :
    Quiet tally (Fallible.demand do return view (← ask c) : Act α) :=
  .ask view fun s answer => ⟨trivial, h s answer⟩

theorem quiet_openScm (access : UInt32) : Quiet tally (openScm access) :=
  quiet_call _ fun _ _ => rfl

theorem quiet_openServiceHandle (scm : Handle) (name : String) (access : UInt32) :
    Quiet tally (openServiceHandle scm name access) :=
  quiet_call _ fun _ _ => rfl

theorem quiet_queryService (name : String) : Quiet tally (queryService name) :=
  .bind (.check _) fun _ => .bind (quiet_openScm _) fun scm =>
    quiet_call (c := SystemCall.queryService scm name) id fun _ _ => rfl

theorem quiet_changeServiceDescription (svc : Handle) (name value : String) :
    Quiet tally (changeServiceDescription svc name value) :=
  .bind (.check _) fun _ => quiet_call _ fun _ _ => rfl

theorem quiet_ensureRemovable (name : String) (native : NativeService) :
    Quiet tally (ensureRemovable name native) :=
  .bind (quiet_call _ fun _ _ => rfl) fun _ => .ite .pure .throw

/-! ## Deleting a service -/

section

variable {s : Remains} {name : String}

theorem keeps_removeService :
    (removeService name).Keeps tally (fun _ s' => s' = { s with deleted := s.deleted + 1 })
      (fun _ s' => s' = s) s := by
  refine (Quiet.check _).followed (fun _ => ?_) fun _ => rfl
  refine (quiet_openScm _).followed (fun scm => ?_) fun _ => rfl
  refine (quiet_openServiceHandle _ _ _).followed (fun svc => ?_) fun _ => rfl
  rintro (e | ⟨⟩)
  · exact ⟨trivial, rfl⟩
  · exact ⟨trivial, rfl⟩

theorem keeps_isManagedForPurge :
    (isManagedForPurge name).Keeps tally (fun _ s' => s' = s) (fun _ _ => False) s := by
  refine Fallible.keeps_bind (Fallible.keeps_monadLift fun answer => ⟨trivial, ?_⟩)
  cases answer with
  | ok managed => exact rfl
  | error e => exact rfl

theorem keeps_purgeManagedConfig :
    (purgeManagedConfig name).Keeps tally
      (fun _ s' => s' = s ∨ s' = { s with purging := s.purging + 1, purged := s.purged + 1 })
      (fun e s' => s' = { s with purging := s.purging + 1 } ∧ ∃ cause, e = cleanupFailed cause)
      s := by
  refine Fallible.keeps_bind (Fallible.Keeps.mono keeps_isManagedForPurge ?_ ?_)
  · rintro managed s' rfl
    refine Fallible.keeps_ite (fun _ => ?_) fun _ => Fallible.keeps_pure (.inl rfl)
    rintro (e | ⟨⟩)
    · exact ⟨trivial, rfl, e, rfl⟩
    · exact ⟨trivial, .inr rfl⟩
  · rintro e s' ⟨⟩

/-- The lock is taken and given back, and what is left is what the work left. -/
theorem keeps_guarded {α : Type} {work : Act α} {Q : α → Remains → Prop}
    {R : Error → Remains → Prop} (hwork : work.Keeps tally Q R s) (hlock : ∀ e, R e s) :
    Fallible.Keeps tally (configBackend.guarded name work) Q R s := by
  have hlocked : Quiet tally (ExceptT.mk (ask (.lockServiceConfig name)) : Act Unit) :=
    quiet_call (c := SystemCall.lockServiceConfig name) id fun _ _ => rfl
  refine hlocked.followed (fun _ => ?_) hlock
  refine Fallible.keeps_bind (Fallible.keeps_monadLift (Dialogue.Keeps.mono hwork ?_))
  intro outcome t ht
  refine Fallible.keeps_bind (Fallible.keeps_monadLift fun answer => ⟨trivial, ?_⟩)
  cases outcome with
  | ok a => exact ht
  | error e => exact ht

/-! ## Removing -/

/-- What there is when a removal has ended: a failed one has deleted nothing, or it says that
the cleanup of the configuration alone was not finished. -/
def RemovalLeaves : Result String → Remains → Prop
  | .ok _, r => r = { deleted := 1 } ∨ r = { deleted := 1, purging := 1, purged := 1 }
  | .error e, r => r = {} ∨ r = { deleted := 1, purging := 1 } ∧ ∃ cause, e = cleanupFailed cause

theorem keeps_removeLocked {forceNative : Bool} :
    (removeLocked name forceNative).Keeps tally (fun m => RemovalLeaves (.ok m))
      (fun e => RemovalLeaves (.error e)) {} := by
  refine (quiet_queryService _).followed (fun native => ?_) fun _ => .inl rfl
  refine Quiet.followed (.ite .pure (quiet_ensureRemovable _ _)) (fun _ => ?_) fun _ => .inl rfl
  refine Fallible.keeps_ite (fun _ => Fallible.keeps_throw (.inl rfl)) fun _ => ?_
  refine Fallible.keeps_bind (Fallible.Keeps.mono keeps_removeService ?_ ?_)
  · rintro _ s' rfl
    refine Fallible.keeps_bind (Fallible.Keeps.mono keeps_purgeManagedConfig ?_ ?_)
    · exact fun _ s' hs' => hs'
    · exact fun e s' hs' => .inr hs'
  · exact fun e s' hs' => .inl hs'

theorem remove_tells (name : String) (forceNative purge : Bool) :
    Tells (remove name forceNative purge) RemovalLeaves :=
  ⟨Fallible.keeps_ite (fun _ => Fallible.keeps_throw (.inl rfl)) fun _ =>
    keeps_guarded keeps_removeLocked fun _ => .inl rfl⟩

/-- The outcome of a removal tells whether the service was deleted. -/
theorem remove_leaves {forceNative purge : Bool} {said : Said} {outcome : Result String}
    (hleads : (remove name forceNative purge).run.Leads said (.done outcome)) :
    RemovalLeaves outcome (remains said) :=
  (remove_tells name forceNative purge).of_leads hleads

/-! ## Installing -/

/-- What there is when an installation has failed.  The error tells apart whether the service
was deleted again, and whether its configuration was begun. -/
inductive FailureLeaves : Error → Remains → Prop where
  | nothing (e : Error) : FailureLeaves e {}
  | undone (primary : Error) : FailureLeaves (rolledBack primary) { created := 1, deleted := 1 }
  | orphaned (primary cleanup : Error) :
      FailureLeaves (rollbackFailed primary cleanup) { created := 1 }
  | undoneBegun (primary : Error) :
      FailureLeaves (installFailed primary (.ok ())) { created := 1, deleted := 1, begun := 1 }
  | orphanedBegun (primary cleanup : Error) :
      FailureLeaves (installFailed primary (.error cleanup)) { created := 1, begun := 1 }

/-- What there is when an installation has ended. -/
def InstallationLeaves : Result String → Remains → Prop
  | .ok _, r => r = { created := 1, begun := 1, configured := 1 }
  | .error e, r => FailureLeaves e r

theorem keeps_completeInstall {created : Act Handle} {configure rollback : Handle → Act Unit}
    (hcreated : created.Keeps tally (fun _ s' => s' = { created := 1 }) (fun _ s' => s' = {}) {})
    (hconfigure : ∀ svc, Quiet tally (configure svc))
    (hrollback : ∀ svc s, (rollback svc).Keeps tally
      (fun _ s' => s' = { s with deleted := s.deleted + 1 }) (fun _ s' => s' = s) s) :
    (completeInstall created configure rollback).Keeps tally (fun _ s' => s' = { created := 1 })
      FailureLeaves {} := by
  refine Fallible.keeps_bind (Fallible.Keeps.mono hcreated ?_ ?_)
  · rintro svc s' rfl
    refine Fallible.keeps_bind (Fallible.keeps_monadLift ?_)
    refine Dialogue.Keeps.mono ((hconfigure svc).keeps _) fun outcome t ht => ?_
    cases outcome with
    | ok _ => exact Fallible.keeps_pure ht
    | error primary =>
        cases ht
        refine Fallible.keeps_bind (Fallible.keeps_monadLift ?_)
        refine Dialogue.Keeps.mono (hrollback svc _) fun outcome t ht => ?_
        cases outcome with
        | ok _ =>
            cases ht
            exact Fallible.keeps_throw (.undone primary)
        | error cleanup =>
            cases ht
            exact Fallible.keeps_throw (.orphaned primary cleanup)
  · rintro e s' rfl
    exact .nothing e

theorem keeps_installService {opts : InstallOptions} :
    (installService opts).Keeps tally (fun _ s' => s' = { created := 1 }) FailureLeaves {} := by
  refine (Quiet.check _).followed (fun _ => ?_) fun e => .nothing e
  refine (quiet_openScm _).followed (fun scm => ?_) fun e => .nothing e
  refine (Quiet.check _).followed (fun service => ?_) fun e => .nothing e
  refine keeps_completeInstall ?_ (fun svc => ?_) fun svc s => ?_
  · rintro (e | svc)
    · exact ⟨trivial, rfl⟩
    · exact ⟨trivial, rfl⟩
  · cases opts.description with
    | none => exact .pure
    | some description => exact quiet_changeServiceDescription _ _ _
  · rintro (e | ⟨⟩)
    · exact ⟨trivial, rfl⟩
    · exact ⟨trivial, rfl⟩

theorem keeps_installLocked {spec : InstallSpec} {binaryPath : String} :
    (installLocked spec binaryPath).Keeps tally (fun m => InstallationLeaves (.ok m))
      FailureLeaves {} := by
  refine Fallible.keeps_bind (Fallible.Keeps.mono keeps_installService ?_ fun _ _ h => h)
  rintro _ s rfl
  refine Fallible.keeps_bind (Fallible.keeps_monadLift ?_)
  rintro (e | ⟨⟩)
  · refine ⟨trivial, Fallible.keeps_bind (Fallible.keeps_monadLift ?_)⟩
    refine Dialogue.Keeps.mono keeps_removeService fun outcome t ht => ?_
    cases outcome with
    | ok _ =>
        cases ht
        exact Fallible.keeps_throw (.undoneBegun e)
    | error cleanup =>
        cases ht
        exact Fallible.keeps_throw (.orphanedBegun e cleanup)
  · exact ⟨trivial, rfl⟩

theorem install_tells (fold : NameFold) (spec : InstallSpec) :
    Tells (install fold spec) InstallationLeaves := by
  have hrunner : Quiet tally
      (Fallible.demand (ask (.buildRunServiceCommand spec.name)) : Act String) :=
    quiet_call (c := SystemCall.buildRunServiceCommand spec.name) id fun _ _ => rfl
  constructor
  unfold install
  -- what the checks compute does not matter here
  generalize validateManagedConfig fold (managedConfigFromSpec spec) = valid
  generalize validateInstallConfig (managedConfigFromSpec spec) = supported
  generalize (Text.trim spec.application).isEmpty = missing
  refine Fallible.keeps_ite (fun _ => Fallible.keeps_throw (.nothing _)) fun _ => ?_
  refine (Quiet.check _).followed (fun _ => ?_) fun e => .nothing e
  refine (Quiet.check _).followed (fun _ => ?_) fun e => .nothing e
  refine hrunner.followed (fun path => ?_) fun e => .nothing e
  exact keeps_guarded keeps_installLocked fun e => .nothing e

/-- The outcome of an installation tells what there is: the configured service, or nothing; or
the error says that the service was deleted again or that it was not, and whether its
configuration had been begun. -/
theorem install_leaves {fold : NameFold} {spec : InstallSpec} {said : Said}
    {outcome : Result String} (hleads : (install fold spec).run.Leads said (.done outcome)) :
    InstallationLeaves outcome (remains said) :=
  (install_tells fold spec).of_leads hleads

end

/-! ### A service that is left behind -/

def denied : Error :=
  .scm "access denied"

def orphanService : NewService where
  name := "svc"
  displayName := "svc"
  access := 0x10006
  serviceType := serviceWin32OwnProcess
  startType := 3
  errorControl := serviceErrorNormal
  binaryPath := "runner"
  dependencies := none
  account := none
  password := none

/-- The service is created; neither can its configuration be written nor the manager opened
once more. -/
def orphanSaid : Said :=
  [⟨.buildRunServiceCommand "svc", .ok "runner"⟩, ⟨.lockServiceConfig "svc", .ok ()⟩,
    ⟨.openSCManager (scManagerConnect ||| scManagerCreateService), .ok 1⟩,
    ⟨.createService 1 orphanService, .ok 2⟩,
    ⟨.createManagedConfig "svc" (loggedConfig none), .error denied⟩,
    ⟨.openSCManager scManagerConnect, .error { code := 5, message := "denied" }⟩,
    ⟨.unlockServiceConfig "svc", ()⟩]

theorem install_loggedSpec :
    install asciiFold (loggedSpec none) =
      (Fallible.demand (ask (.buildRunServiceCommand "svc")) >>= fun path =>
        configBackend.guarded "svc" (installLocked (loggedSpec none) path)) := by
  unfold install
  rw [if_neg (by decide), valid_loggedSpec]
  rfl

theorem installService_loggedSpec :
    installService (installOptions (loggedSpec none) "runner") =
      (openScm (scManagerConnect ||| scManagerCreateService) >>= fun scm => completeInstall
        (call "CreateService(svc)" (ask (.createService scm orphanService))) (fun _ => pure ())
        (fun svc => call "DeleteService(install rollback)" (ask (.deleteService svc)))) := by
  have hvalid : validateInstallOptions (installOptions (loggedSpec none) "runner") = .ok () := by
    decide
  have hservice : newService (installOptions (loggedSpec none) "runner") = .ok orphanService := by
    decide
  unfold installService installValidatedService
  rw [hvalid, hservice]
  rfl

theorem removeService_loggedSpec :
    removeService (loggedSpec none).name = (openScm scManagerConnect >>= fun scm =>
      openServiceHandle scm "svc" deleteAccess >>= fun svc =>
        call "DeleteService(svc)" (ask (.deleteService svc))) := by
  have hname : validateServiceName (loggedSpec none).name = .ok () := by decide
  unfold removeService
  rw [hname]
  rfl

theorem orphan_leads :
    (install asciiFold (loggedSpec none)).run.Leads orphanSaid
      (.done (.error (installFailed denied (.error (.scm "OpenSCManager: denied"))))) := by
  rw [install_loggedSpec]
  apply Dialogue.Leads.answer
  change (configBackend.guarded "svc" (installLocked (loggedSpec none) "runner")).run.Leads _ _
  unfold installLocked
  rw [installService_loggedSpec, removeService_loggedSpec]
  repeat apply Dialogue.Leads.answer
  apply Dialogue.Leads.start

/-- The error says that the service is still there, with what was begun of its configuration. -/
theorem orphan_left :
    InstallationLeaves (.error (installFailed denied (.error (.scm "OpenSCManager: denied"))))
        (remains orphanSaid) ∧ remains orphanSaid = { created := 1, begun := 1 } :=
  ⟨install_leaves orphan_leads, rfl⟩

end Ngsm.Ops.Machine
