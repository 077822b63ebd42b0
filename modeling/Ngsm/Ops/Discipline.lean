/-
# The operations have their warrants

What each function of the machine finds out, and what has to be known before it may be called.
The operations are put together from these: an operation asks first, and what it has learnt is
the warrant for what it does then.
-/

import Ngsm.Ops.Warrant

namespace Ngsm.Ops.Machine

open Ngsm.Lib Ngsm.Core Ngsm.Registry Ngsm.Win32
open Ngsm.Supervisor (hasOnlineRotation)

/-! ## What stays known -/

theorem Heard.later {said : Said} {c : SystemCall} {answer : c.Answer} (h : Heard said c answer)
    (x : Exchange SystemCall.Answer) : Heard (said ++ [x]) c answer :=
  List.mem_append_left _ h

theorem Opened.later {said : Said} {name : String} {svc : Handle} {right : UInt32}
    (h : Opened said name svc right) (x : Exchange SystemCall.Answer) :
    Opened (said ++ [x]) name svc right := by
  obtain ⟨manager, access, hopen, hright⟩ := h
  exact ⟨manager, access, hopen.later x, hright⟩

theorem Reported.later {said : Said} {name : String} {kind : NativeService → Prop}
    (h : Reported said name kind) (x : Exchange SystemCall.Answer) :
    Reported (said ++ [x]) name kind := by
  obtain ⟨manager, native, hquery, hkind⟩ := h
  exact ⟨manager, native, hquery.later x, hkind⟩

theorem Configured.later {said : Said} {name : String} {kind : ManagedApplicationConfig → Prop}
    (h : Configured said name kind) (x : Exchange SystemCall.Answer) :
    Configured (said ++ [x]) name kind := by
  obtain ⟨cfg, hread, hkind⟩ := h
  exact ⟨cfg, hread.later x, hkind⟩

theorem Owned.later {said : Said} {name : String} (h : Owned said name)
    (x : Exchange SystemCall.Answer) : Owned (said ++ [x]) name := by
  obtain ⟨manager, native, managed, hquery, hread, hmanaged⟩ := h
  exact ⟨manager, native, managed, hquery.later x, hread.later x, hmanaged⟩

theorem Created.later {said : Said} {name : String} {svc : Handle} (h : Created said name svc)
    (x : Exchange SystemCall.Answer) : Created (said ++ [x]) name svc := by
  obtain ⟨manager, service, hcreate, hname⟩ := h
  exact ⟨manager, service, hcreate.later x, hname⟩

theorem Deleted.later {said : Said} {name : String} (h : Deleted said name)
    (x : Exchange SystemCall.Answer) : Deleted (said ++ [x]) name := by
  obtain ⟨svc, hopened, hdelete⟩ := h
  exact ⟨svc, hopened.later x, hdelete.later x⟩

theorem Started.later {said : Said} {name : String} (h : Started said name)
    (x : Exchange SystemCall.Answer) : Started (said ++ [x]) name := by
  obtain ⟨svc, hopened, hstart⟩ := h
  exact ⟨svc, hopened.later x, hstart.later x⟩

theorem Controlled.later {said : Said} {name : String} {signal : ServiceControlSignal}
    (h : Controlled said name signal) (x : Exchange SystemCall.Answer) :
    Controlled (said ++ [x]) name signal := by
  obtain ⟨svc, hopened, hcontrol⟩ := h
  exact ⟨svc, hopened.later x, hcontrol.later x⟩

theorem Repaired.later {said : Said} {name : String} (h : Repaired said name)
    (x : Exchange SystemCall.Answer) : Repaired (said ++ [x]) name := by
  obtain ⟨svc, path, hopened, hpath, hchange⟩ := h
  exact ⟨svc, path, hopened.later x, hpath.later x, hchange.later x⟩

theorem LeftBehind.later {said : Said} {name : String} (h : LeftBehind said name)
    (x : Exchange SystemCall.Answer) : LeftBehind (said ++ [x]) name := by
  obtain ⟨before, after, rfl, hdeleted, hconfigured⟩ := h
  exact ⟨before, after ++ [x], List.append_assoc .., hdeleted, hconfigured.later x⟩

theorem CreatedAs.later {said : Said} {opts : InstallOptions} (h : CreatedAs said opts)
    (x : Exchange SystemCall.Answer) : CreatedAs (said ++ [x]) opts := by
  obtain ⟨manager, service, svc, hservice, hcreate, hdescribed⟩ := h
  refine ⟨manager, service, svc, hservice, hcreate.later x, ?_⟩
  intro text htext
  exact (hdescribed text htext).later x

theorem Installed.later {said : Said} {name : String} {spec : InstallSpec}
    (h : Installed said name spec) (x : Exchange SystemCall.Answer) :
    Installed (said ++ [x]) name spec where
  created := by
    obtain ⟨path, hpath, hcreated⟩ := h.created
    exact ⟨path, hpath.later x, hcreated.later x⟩
  configured := h.configured.later x

theorem NativeEdited.later {said : Said} {name : String} {spec : EditSpec}
    (h : NativeEdited said name spec) (x : Exchange SystemCall.Answer) :
    NativeEdited (said ++ [x]) name spec where
  fields hchanges := by
    obtain ⟨svc, change, hopened, hchange, hsaid⟩ := h.fields hchanges
    exact ⟨svc, change, hopened.later x, hchange, hsaid.later x⟩
  description text htext := by
    obtain ⟨svc, hopened, hsaid⟩ := h.description text htext
    exact ⟨svc, hopened.later x, hsaid.later x⟩

theorem Rewritten.later {said : Said} {name : String}
    {change : ManagedApplicationConfig → ManagedApplicationConfig → Prop}
    (h : Rewritten said name change) (x : Exchange SystemCall.Answer) :
    Rewritten (said ++ [x]) name change := by
  obtain ⟨original, cfg, hread, hchange, hwrite⟩ := h
  exact ⟨original, cfg, hread.later x, hchange, hwrite.later x⟩

/-- What is true of a transcript, and of every longer one. -/
def lasting (p : Said → Prop) (h : ∀ s x, p s → p (s ++ [x])) : Known where
  holds := p
  lasts s x _ hp := h s x hp

def opened (name : String) (svc : Handle) (right : UInt32) : Known :=
  lasting (Opened · name svc right) fun _ x h => h.later x

def reported (name : String) (kind : NativeService → Prop) : Known :=
  lasting (Reported · name kind) fun _ x h => h.later x

def owned (name : String) : Known :=
  lasting (Owned · name) fun _ x h => h.later x

def created (name : String) (svc : Handle) : Known :=
  lasting (Created · name svc) fun _ x h => h.later x

def createdAs (opts : InstallOptions) : Known :=
  lasting (CreatedAs · opts) fun _ x h => h.later x

def deleted (name : String) : Known :=
  lasting (Deleted · name) fun _ x h => h.later x

def started (name : String) : Known :=
  lasting (Started · name) fun _ x h => h.later x

def controlled (name : String) (signal : ServiceControlSignal) : Known :=
  lasting (Controlled · name signal) fun _ x h => h.later x

def did (c : SystemCall) (answer : c.Answer) : Known :=
  lasting (Heard · c answer) fun _ x h => h.later x

def locked (name : String) : Known :=
  Knowledge.since ⟨.lockServiceConfig name, .ok ()⟩

/-! ## The functions of the machine -/

section

variable {fold : NameFold} {errand : Errand} {P : Known}

theorem mapError_eq_ok {ε ε' α : Type} {outcome : Except ε α} {f : ε → ε'} {a : α} :
    outcome.mapError f = .ok a ↔ outcome = .ok a := by
  cases outcome <;> simp [Except.mapError]

theorem learns_openScm (access : UInt32) :
    Learns (Warranted fold errand) P (openScm access) fun _ => .nothing :=
  (Learns.ask _ rfl fun _ _ _ => trivial).mono (fun _ h => h) fun _ _ _ _ => trivial

theorem learns_openServiceHandle (scm : Handle) (access : UInt32) :
    Learns (Warranted fold errand) P (openServiceHandle scm errand.name access)
      fun svc => opened errand.name svc access := by
  refine (Learns.ask _ rfl fun _ _ _ => rfl).mono (fun _ h => h) ?_
  rintro svc s - ⟨answer, hsaid, hanswer⟩
  refine ⟨scm, access, ?_, UInt32.and_self⟩
  rw [mapError_eq_ok.mp hanswer] at hsaid
  exact hsaid

theorem learns_queryService :
    Learns (Warranted fold errand) P (queryService errand.name)
      fun native => reported errand.name (· = native) := by
  refine .bind (.check _) fun _ => .bind (learns_openScm _) fun scm => ?_
  refine (Learns.ask _ rfl fun _ _ _ => rfl).mono (fun _ h => h) ?_
  rintro native s - ⟨answer, hsaid, rfl⟩
  exact ⟨scm, native, hsaid, rfl⟩

theorem learns_startService
    (hwarrant : ∀ s svc, P.holds s → Opened s errand.name svc serviceStart →
      MayStart errand s svc) :
    Learns (Warranted fold errand) P (startService errand.name)
      fun _ => started errand.name := by
  refine .bind (.check _) fun _ => .bind (learns_openScm _) fun scm => ?_
  refine .bind (learns_openServiceHandle scm _) fun svc => ?_
  refine (Learns.ask _ rfl ?_).mono (fun _ h => h) ?_
  · rintro s answer ⟨⟨⟨hP, -⟩, -⟩, hopened⟩
    exact hwarrant s svc hP hopened
  · rintro ⟨⟩ s ⟨-, hopened⟩ ⟨answer, hsaid, hanswer⟩
    rw [mapError_eq_ok.mp hanswer] at hsaid
    exact ⟨svc, hopened, hsaid⟩

theorem learns_removeService
    (hwarrant : ∀ s svc, P.holds s → Opened s errand.name svc deleteAccess →
      MayDelete errand s svc) :
    Learns (Warranted fold errand) P (removeService errand.name)
      fun _ => deleted errand.name := by
  refine .bind (.check _) fun _ => .bind (learns_openScm _) fun scm => ?_
  refine .bind (learns_openServiceHandle scm _) fun svc => ?_
  refine (Learns.ask _ rfl ?_).mono (fun _ h => h) ?_
  · rintro s answer ⟨⟨⟨hP, -⟩, -⟩, hopened⟩
    exact hwarrant s svc hP hopened
  · rintro ⟨⟩ s ⟨-, hopened⟩ ⟨answer, hsaid, hanswer⟩
    rw [mapError_eq_ok.mp hanswer] at hsaid
    exact ⟨svc, hopened, hsaid⟩

theorem learns_controlService (signal : ServiceControlSignal)
    (hwarrant : ∀ s svc, P.holds s → Opened s errand.name svc signal.requiredAccess →
      MayControl errand s svc signal.toWin32) :
    Learns (Warranted fold errand) P (controlService errand.name signal)
      fun _ => controlled errand.name signal := by
  refine .bind (.check _) fun _ => .bind (.check _) fun _ => ?_
  refine .bind (learns_openScm _) fun scm => .bind (learns_openServiceHandle scm _) fun svc => ?_
  refine .bind (F := fun _ => controlled errand.name signal) ?_ fun _ => ?_
  · refine (Learns.ask _ rfl ?_).mono (fun _ h => h) ?_
    · rintro s answer ⟨⟨⟨⟨hP, -⟩, -⟩, -⟩, hopened⟩
      exact hwarrant s svc hP hopened
    · rintro ⟨⟩ s ⟨-, hopened⟩ ⟨answer, hsaid, hanswer⟩
      rw [mapError_eq_ok.mp hanswer] at hsaid
      exact ⟨svc, hopened, hsaid⟩
  · exact .bind (.ask _ rfl fun _ _ _ => trivial) fun status => .pure fun s h => h.1.2

/-! ## Changing and creating a service -/

/-- Nothing but what an edit may change is changed. -/
theorem serviceChange_spared {spec : EditSpec} {change : ServiceChange}
    (hpassword : spec.password = none) (h : serviceChange spec = .ok change) :
    change.binaryPath = none ∧ change.serviceType = serviceNoChange ∧
      change.errorControl = serviceNoChange ∧ change.password = none := by
  unfold serviceChange at h
  rw [Check.bind_eq_ok] at h
  obtain ⟨dependencies, -, h⟩ := h
  rw [Check.bind_eq_ok] at h
  obtain ⟨⟨⟩, -, h⟩ := h
  cases h
  exact ⟨rfl, rfl, rfl, hpassword⟩

theorem learns_changeServiceDescription {svc : Handle} {value : String}
    (hwarrant : ∀ s, P.holds s → MayDescribe errand s svc) :
    Learns (Warranted fold errand) P (changeServiceDescription svc errand.name value)
      fun _ => did (.changeDescription svc value) (.ok ()) := by
  refine .bind (.check _) fun _ => ?_
  refine (Learns.ask _ rfl ?_).mono (fun _ h => h) ?_
  · rintro s answer ⟨hP, -⟩
    exact hwarrant s hP
  · rintro ⟨⟩ s - ⟨answer, hsaid, hanswer⟩
    rw [mapError_eq_ok.mp hanswer] at hsaid
    exact hsaid

/-- An edit of the native fields needs a warrant for the handle it opens. -/
theorem learns_updateNativeConfig {spec : EditSpec} (hname : spec.name = errand.name)
    (hpassword : spec.password = none) (hop : errand.op = "edit")
    (hentitled : ∀ s, P.holds s → errand.forceNative = true ∨
      Locked s errand.name ∧ Configured s errand.name fun _ => True) :
    Learns (Warranted fold errand) P (updateNativeConfig spec)
      fun _ => lasting (NativeEdited · errand.name spec) fun _ x h => h.later x := by
  unfold updateNativeConfig
  rw [hname]
  refine .bind (.check _) fun _ => .bind (learns_openScm _) fun scm => ?_
  refine .bind (learns_openServiceHandle scm _) fun svc => .bind (.check _) fun change => ?_
  refine .bind (F := fun _ => lasting (fun s => changesConfig spec = true →
      Heard s (.changeServiceConfig svc change) (.ok ())) fun _ x h hc => (h hc).later x)
    (.ite (fun _ => ?_) fun hunchanged => .pure fun _ _ hchanges => absurd hchanges hunchanged)
    fun _ => ?_
  · refine (Learns.ask _ rfl ?_).mono (fun _ h => h) ?_
    · rintro s answer ⟨⟨⟨⟨hP, -⟩, -⟩, hopened⟩, hchange⟩
      exact .edit hop hopened (hentitled s hP) (serviceChange_spared hpassword hchange)
    · rintro ⟨⟩ s - ⟨answer, hsaid, hanswer⟩ -
      rw [mapError_eq_ok.mp hanswer] at hsaid
      exact hsaid
  · cases hdescription : spec.description with
    | none =>
        refine .pure ?_
        rintro s ⟨⟨⟨-, hopened⟩, hchange⟩, hsaid⟩
        exact ⟨fun hc => ⟨svc, change, hopened, hchange, hsaid hc⟩, by simp [hdescription]⟩
    | some description =>
        refine .bind (.attempt (learns_changeServiceDescription ?_)) fun outcome => ?_
        · rintro s ⟨⟨⟨⟨⟨hP, -⟩, -⟩, hopened⟩, -⟩, -⟩
          exact .edit hop hopened (hentitled s hP)
        · cases outcome with
          | ok _ =>
              refine .pure ?_
              rintro s ⟨⟨⟨⟨-, hopened⟩, hchange⟩, hsaid⟩, hdescribed⟩
              refine ⟨fun hc => ⟨svc, change, hopened, hchange, hsaid hc⟩, ?_⟩
              rintro text htext
              rw [hdescription] at htext
              cases htext
              exact ⟨svc, hopened, hdescribed⟩
          | error error => exact .throw

theorem learns_buildRunServiceCommand :
    Learns (Warranted fold errand) P
      (Fallible.demand (ask (.buildRunServiceCommand errand.name)))
      fun path => did (.buildRunServiceCommand errand.name) (.ok path) := by
  refine (Learns.ask _ rfl fun _ _ _ => rfl).mono (fun _ h => h) ?_
  rintro path s - ⟨answer, hsaid, rfl⟩
  exact hsaid

theorem learns_repairServiceRunner
    (hwarrant : ∀ s svc path, P.holds s → Opened s errand.name svc serviceChangeConfig →
      Heard s (.buildRunServiceCommand errand.name) (.ok path) →
        MayChange errand s svc
          { serviceType := serviceWin32OwnProcess, binaryPath := some path }) :
    Learns (Warranted fold errand) P (repairServiceRunner errand.name)
      fun _ => lasting (Repaired · errand.name) fun _ x h => h.later x := by
  refine .bind (.check _) fun _ => .bind learns_buildRunServiceCommand fun path => ?_
  refine .bind (learns_openScm _) fun scm => .bind (learns_openServiceHandle scm _) fun svc => ?_
  refine (Learns.ask _ rfl ?_).mono (fun _ h => h) ?_
  · rintro s answer ⟨⟨⟨⟨hP, -⟩, hpath⟩, -⟩, hopened⟩
    exact hwarrant s svc path hP hopened hpath
  · rintro ⟨⟩ s ⟨⟨⟨-, hpath⟩, -⟩, hopened⟩ ⟨answer, hsaid, hanswer⟩
    rw [mapError_eq_ok.mp hanswer] at hsaid
    exact ⟨svc, path, hopened, hpath, hsaid⟩

theorem newService_eq_ok {opts : InstallOptions} {service : NewService}
    (h : newService opts = .ok service) :
    service.name = opts.name ∧ service.binaryPath = opts.binaryPath ∧
      service.password = opts.password := by
  unfold newService at h
  rw [Check.bind_eq_ok] at h
  obtain ⟨dependencies, -, h⟩ := h
  rw [Check.bind_eq_ok] at h
  obtain ⟨⟨⟩, -, h⟩ := h
  cases h
  exact ⟨rfl, rfl, rfl⟩

theorem CreatedAs.created {said : Said} {opts : InstallOptions} (h : CreatedAs said opts) :
    ∃ svc, Created said opts.name svc := by
  obtain ⟨manager, service, svc, hservice, hcreate, -⟩ := h
  exact ⟨svc, manager, service, hcreate, (newService_eq_ok hservice).1⟩

/-- The description that was given is known to be set. -/
def described (svc : Handle) (description : Option String) : Known :=
  lasting (fun s => ∀ text, description = some text → Heard s (.changeDescription svc text) (.ok ()))
    fun _ x h text htext => (h text htext).later x

/-- A new service is created under the lock, and removed again through the handle that was got
when it cannot be described. -/
theorem learns_installService {opts : InstallOptions} (hname : opts.name = errand.name)
    (hpassword : opts.password = none) (hop : errand.op = "install")
    (hlocked : ∀ s, P.holds s → Locked s errand.name)
    (hrunner : ∀ s, P.holds s →
      Heard s (.buildRunServiceCommand errand.name) (.ok opts.binaryPath)) :
    Learns (Warranted fold errand) P (installService opts) fun _ => createdAs opts := by
  refine .bind (.check _) fun _ => .bind (learns_openScm _) fun scm => ?_
  refine .bind (.check _) fun service => ?_
  have created_of {s : Said} {svc : Handle} (hservice : newService opts = .ok service)
      (hsaid : Heard s (.createService scm service) (.ok svc)) : Created s errand.name svc :=
    ⟨scm, service, hsaid, (newService_eq_ok hservice).1.trans hname⟩
  refine .bind (F := fun svc => did (.createService scm service) (.ok svc)) ?_ fun svc => ?_
  · refine (Learns.ask _ rfl ?_).mono (fun _ h => h) ?_
    · rintro s answer ⟨⟨⟨hP, -⟩, -⟩, hservice⟩
      obtain ⟨hserviceName, hpath, hserviceWord⟩ := newService_eq_ok hservice
      exact ⟨hop, hserviceName.trans hname, hlocked s hP, hpath ▸ hrunner s hP,
        hserviceWord.trans hpassword⟩
    · rintro svc s - ⟨answer, hsaid, hanswer⟩
      rw [mapError_eq_ok.mp hanswer] at hsaid
      exact hsaid
  · refine .bind (.attempt (F := fun _ => described svc opts.description) ?_) fun outcome => ?_
    · cases opts.description with
      | none => exact .pure fun _ _ text htext => by cases htext
      | some description =>
          rw [hname]
          refine (learns_changeServiceDescription ?_).mono (fun _ h => h) ?_
          · rintro s ⟨⟨⟨⟨hP, -⟩, -⟩, hservice⟩, hsaid⟩
            exact .install hop (hlocked s hP) (created_of hservice hsaid)
          · rintro ⟨⟩ s - hdescribed text htext
            cases htext
            exact hdescribed
    cases outcome with
    | ok _ =>
        refine .pure ?_
        rintro s ⟨⟨⟨-, hservice⟩, hsaid⟩, hdescribed⟩
        exact ⟨scm, service, svc, hservice, hsaid, hdescribed⟩
    | error primary =>
        refine .bind (.attempt (F := fun _ => .nothing) ?_) fun outcome => ?_
        · refine (Learns.ask _ rfl ?_).mono (fun _ h => h) fun _ _ _ _ => trivial
          rintro s answer ⟨⟨⟨⟨⟨hP, -⟩, -⟩, hservice⟩, hsaid⟩, -⟩
          exact .undo hop (hlocked s hP) ⟨svc, created_of hservice hsaid, .inl rfl⟩
        · cases outcome with
          | ok _ => exact .throw
          | error cleanup => exact .throw

/-! ## What an operation finds out -/

/-- The definition of a service, put together from what was reported and what was read. -/
def defined (name : String) (native : NativeService) (service : ServiceDefinition) : Known :=
  lasting (fun s => ∃ managed, Heard s (.readManagedConfig name) (.ok managed) ∧
    service = definitionOf native managed) fun _ x ⟨managed, hread, hservice⟩ =>
      ⟨managed, hread.later x, hservice⟩

theorem learns_readDefinition {native : NativeService} {unreadable : Error → Error} :
    Learns (Warranted fold errand) P (readDefinition errand.name native unreadable)
      (defined errand.name native) := by
  refine (Learns.ask _ rfl fun _ _ _ => .inl rfl).mono (fun _ h => h) ?_
  rintro service s - ⟨answer, hsaid, hanswer⟩
  cases answer with
  | ok managed =>
      cases hanswer
      exact ⟨managed, hsaid, rfl⟩
  | error e => cases hanswer

theorem owned_of_defined {said : Said} {native : NativeService} {service : ServiceDefinition}
    (hquery : Reported said errand.name (· = native))
    (hread : (defined errand.name native service).holds said)
    (hmanaged : service.isManaged = true) : Owned said errand.name := by
  obtain ⟨manager, native, hsaid, rfl⟩ := hquery
  obtain ⟨managed, hread, rfl⟩ := hread
  exact ⟨manager, native, managed, hsaid, hread, hmanaged⟩

theorem configured_of_defined {said : Said} {native : NativeService}
    {service : ServiceDefinition} (hread : (defined errand.name native service).holds said)
    (hmanaged : service.managed.isNone = false) :
    Configured said errand.name fun _ => True := by
  obtain ⟨managed, hread, rfl⟩ := hread
  cases managed with
  | none => cases hmanaged
  | some cfg => exact ⟨cfg, hread, trivial⟩

theorem learns_ensureNgsmManaged :
    Learns (Warranted fold errand) P (ensureNgsmManaged errand.name)
      fun _ => owned errand.name := by
  refine .bind learns_queryService fun native => .bind learns_readDefinition fun service => ?_
  refine .ite (fun hmanaged => .pure ?_) fun _ => .throw
  rintro s ⟨⟨-, hquery⟩, hread⟩
  exact owned_of_defined hquery hread hmanaged

theorem learns_ensureEnabled :
    Learns (Warranted fold errand) P (ensureEnabled errand.name)
      fun _ => reported errand.name fun native => native.config.startup ≠ .disabled := by
  refine .bind learns_queryService fun native => .ite (fun _ => .throw) fun henabled => .pure ?_
  rintro s ⟨-, manager, native, hquery, rfl⟩
  exact ⟨manager, native, hquery, henabled⟩

theorem learns_readManaged :
    Learns (Warranted fold errand) P (readManaged errand.name)
      fun managed => did (.readManagedConfig errand.name) (.ok managed) := by
  refine (Learns.ask _ rfl fun _ _ _ => .inl rfl).mono (fun _ h => h) ?_
  rintro managed s - ⟨answer, hsaid, rfl⟩
  exact hsaid

/-! ## Controls -/

theorem learns_start (hop : errand.op = "start") :
    Learns (Warranted fold errand) P (start errand.name) fun _ => started errand.name := by
  refine .bind learns_ensureNgsmManaged fun _ => .bind learns_ensureEnabled fun _ => ?_
  refine .bind (learns_startService ?_) fun _ => .pure fun s h => h.2
  rintro s svc ⟨⟨-, howned⟩, henabled⟩ hopened
  exact .start hop hopened (.inr ⟨howned, henabled⟩)

theorem learns_controlManaged {signal : ServiceControlSignal} {verb : String}
    (hop : (errand.op, signal) ∈ signalOf) :
    Learns (Warranted fold errand) P (controlManaged errand.name signal verb)
      fun _ => controlled errand.name signal := by
  refine .bind learns_ensureNgsmManaged fun _ => ?_
  refine .bind (learns_controlService signal ?_) fun _ => .pure fun s h => h.2
  rintro s svc ⟨-, howned⟩ hopened
  exact .control signal hop rfl hopened (.inr howned)

theorem learns_rotate (hop : errand.op = "rotate") :
    Learns (Warranted fold errand) P (rotate errand.name)
      fun _ => controlled errand.name (.user serviceControlRotate) := by
  refine .bind learns_readManaged fun managed => ?_
  cases managed with
  | none => exact .throw
  | some cfg =>
      refine .ite (fun honline => ?_) fun _ => .throw
      refine .bind (learns_controlService _ ?_) fun _ => .pure fun s h => h.2
      rintro s svc ⟨-, hread⟩ hopened
      exact .rotate hop rfl hopened ⟨cfg, hread, honline⟩

/-- A repair is warranted by a configuration that was read and a state that was reported. -/
theorem learns_repairRunner (hop : errand.op = "repair_runner") :
    Learns (Warranted fold errand) P (repairRunner errand.name)
      fun _ => lasting (Repaired · errand.name) fun _ x h => h.later x := by
  refine .bind learns_queryService fun native => .bind learns_readDefinition fun service => ?_
  refine .ite (fun _ => .throw) fun hmanaged => .ite (fun _ => .throw) fun hstopped => ?_
  refine .bind (learns_repairServiceRunner ?_) fun _ => .pure fun s h => h.2
  rintro s svc path ⟨⟨-, hquery⟩, hread⟩ hopened hpath
  have hconfigured : service.managed.isNone = false := by
    rw [Bool.or_eq_true, not_or] at hmanaged
    exact Bool.eq_false_iff.mpr hmanaged.2
  refine .repair hop hopened (configured_of_defined hread hconfigured) ?_ ⟨path, hpath, rfl⟩
  obtain ⟨manager, native, hsaid, rfl⟩ := hquery
  exact ⟨manager, native, hsaid, by simpa using hstopped⟩

/-! ## Restart -/

/-- The restart is warranted from the query on: the service may be acted on and is enabled. -/
def Cleared (errand : Errand) (P : Known) : Prop :=
  ∀ s, P.holds s → Entitled errand s ∧ Enabled s errand.name

theorem Cleared.and {K : Known} (h : Cleared errand P) : Cleared errand (P.and K) :=
  fun s hs => h s hs.1

theorem learns_query :
    Learns (Warranted fold errand) P
      (Restart.Methods.orFail (restartMethods errand.name).query)
      fun snapshot => reported errand.name fun native =>
        native.config.startup = snapshot.startup := by
  refine Learns.mapError (.bind learns_queryService fun native => .pure ?_) _
  rintro s ⟨-, manager, native, hquery, rfl⟩
  exact ⟨manager, native, hquery, rfl⟩

theorem learns_awaitStopped (stopTimeoutMs began rounds : ℕ) :
    Learns (Warranted fold errand) P
      ((restartMethods errand.name).awaitStopped errand.name stopTimeoutMs began rounds)
      fun _ => .nothing := by
  induction rounds generalizing P with
  | zero => exact .throw
  | succ rounds ih =>
      refine .bind learns_query fun snapshot => .ite (fun _ => .pure fun _ _ => trivial) fun _ => ?_
      refine .bind (.lift (c := SystemCall.now) rfl fun _ _ _ => trivial) fun reading => ?_
      refine .ite (fun _ => .throw) fun _ => ?_
      refine .bind (F := fun _ => .nothing) (.ite (fun _ => .pure fun _ _ => trivial) fun _ => .throw)
        fun rest => ?_
      exact .bind (.lift (c := SystemCall.sleep _) rfl fun _ _ _ => trivial) fun _ => ih

theorem learns_stopService (hop : errand.op = "restart") (hcleared : Cleared errand P) :
    Learns (Warranted fold errand) P (restartMethods errand.name).stopService
      fun _ => .nothing := by
  have hstop : Learns (Warranted fold errand) P
      (do let _ ← controlService errand.name .stop; return () : Act Unit) fun _ => .nothing := by
    refine .bind (learns_controlService .stop ?_) fun _ => .pure fun _ _ => trivial
    intro s svc hP hopened
    exact .restart hop rfl hopened (hcleared s hP).1 (hcleared s hP).2
  refine .bind hstop.attempt fun outcome => ?_
  cases outcome with
  | ok _ => exact .pure fun _ _ => trivial
  | error e => exact .ite (fun _ => .pure fun _ _ => trivial) fun _ => .throw

theorem learns_stopAndWait (hop : errand.op = "restart") (hcleared : Cleared errand P)
    (stopTimeoutMs rounds : ℕ) (snapshot : Restart.RestartSnapshot) :
    Learns (Warranted fold errand) P
      ((restartMethods errand.name).stopAndWait errand.name stopTimeoutMs rounds snapshot)
      fun _ => .nothing := by
  refine .ite (fun _ => .pure fun _ _ => trivial) fun _ => ?_
  refine .bind (F := fun _ => .nothing) (.ite (fun _ => .pure fun _ _ => trivial) fun _ =>
    learns_stopService hop hcleared) fun _ => ?_
  refine .bind (.lift (c := SystemCall.now) rfl fun _ _ _ => trivial) fun began => ?_
  refine .bind (learns_awaitStopped _ _ _) fun _ => ?_
  exact (Learns.lift (c := SystemCall.sleep _) rfl fun _ _ _ => trivial).mono (fun _ h => h)
    fun _ _ _ _ => trivial

/-- A service that is disabled is neither stopped nor started, and one that is not managed only
when ownership is skipped. -/
theorem learns_restart (hop : errand.op = "restart") (rounds stopTimeoutMs : ℕ) :
    Learns (Warranted fold errand) P
      (restartWithOptions rounds errand.name stopTimeoutMs errand.forceNative)
      fun _ => started errand.name := by
  have hentitled : Learns (Warranted fold errand) P
      (if errand.forceNative = true then pure () else
        Restart.Methods.orFail (restartMethods errand.name).ensureManaged)
      fun _ => lasting (Entitled errand) fun s x h => h.imp id (·.later x) := by
    refine .ite (fun hforce => .pure fun _ _ => .inl hforce) fun _ => ?_
    exact (Learns.mapError learns_ensureNgsmManaged _).mono (fun _ h => h)
      fun _ _ _ howned => .inr howned
  refine .bind hentitled fun _ => .bind learns_query fun snapshot => ?_
  refine .ite (fun _ => .throw) fun henabled => ?_
  have hcleared : Cleared errand ((P.and (lasting (Entitled errand) fun s x h =>
      h.imp id (·.later x))).and (reported errand.name fun native =>
        native.config.startup = snapshot.startup)) := by
    rintro s ⟨⟨-, hentitled⟩, manager, native, hquery, hstartup⟩
    exact ⟨hentitled, manager, native, hquery, fun hdisabled =>
      henabled (hstartup.symm.trans hdisabled)⟩
  refine .bind (learns_stopAndWait hop hcleared _ _ _) fun _ => ?_
  refine .bind (Learns.mapError (learns_startService ?_) _) fun _ => .pure fun s h => h.2
  intro s svc hP hopened
  exact .restart hop hopened (hcleared s hP.1).1 (hcleared s hP.1).2

end

end Ngsm.Ops.Machine
