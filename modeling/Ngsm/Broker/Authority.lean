/-
# What a request may do

The broker acts with the rights of an administrator, and the one who asks may be anybody who
holds the token.  Whatever a request says and whatever the machine answers, the broker touches
no service but the one that is named, and changes it only with the warrant that the operation
needs.  A reply that reports success tells the truth.
-/

import Ngsm.Broker.Handlers
import Ngsm.Ops.LockedOperations

namespace Ngsm.Broker

open Ngsm.Lib Ngsm.Core Ngsm.Registry Ngsm.Ops Ngsm.Win32
open Ngsm.Ops.Machine

section

variable {Value : Type} (wire : Wire Value) (fold : NameFold) (req : Request Value)

def errandFor (name : String) (forceNative : Bool) : Errand where
  op := req.op
  name := name
  forceNative := forceNative

/-- The errand of a request whose arguments can be decoded. -/
def Wire.errand : Option Errand :=
  match req.op with
  | "list" => some (errandFor req "" false)
  | "install" => (wire.installArgs req.args).toOption.map fun a => errandFor req a.name false
  | "remove" =>
      (wire.removeArgs req.args).toOption.map fun a => errandFor req a.name a.forceNative
  | "start" | "stop" | "restart" | "pause" | "continue" =>
      (wire.lifecycleArgs req.args).toOption.map fun a => errandFor req a.name a.forceNative
  | "edit" => (wire.editArgs req.args).toOption.map fun a => errandFor req a.name a.forceNative
  | "recovery_set" =>
      (wire.recoverySetArgs req.args).toOption.map fun a => errandFor req a.name false
  | "dump" | "repair_runner" | "rotate" | "processes" | "recovery_get" =>
      (wire.nameArg req.args).toOption.map fun a => errandFor req a.name false
  | _ => none

/-- A call is warranted by the errand of the request. -/
def Authorised (said : Said) (x : Exchange SystemCall.Answer) : Prop :=
  ∃ errand, wire.errand req = some errand ∧ Warranted fold errand said x

/-- What a reply without an error promises. -/
def Achieved (said : Said) : Prop :=
  match req.op with
  | "install" => ∃ a startType dependencies, wire.installArgs req.args = .ok a ∧
      parseStartType a.startType = .ok startType ∧
        dependenciesFromArgs a.dependOnServices a.dependOnGroups = .ok dependencies ∧
          Installed said a.name (installSpec a startType dependencies)
  | "remove" => ∃ a, wire.removeArgs req.args = .ok a ∧ Deleted said a.name
  | "start" | "restart" => ∃ a, wire.lifecycleArgs req.args = .ok a ∧ Started said a.name
  | "stop" => ∃ a, wire.lifecycleArgs req.args = .ok a ∧ Controlled said a.name .stop
  | "pause" => ∃ a, wire.lifecycleArgs req.args = .ok a ∧ Controlled said a.name .pause
  | "continue" => ∃ a, wire.lifecycleArgs req.args = .ok a ∧ Controlled said a.name .continue_
  | "rotate" => ∃ a, wire.nameArg req.args = .ok a ∧
      Controlled said a.name (.user serviceControlRotate)
  | "repair_runner" => ∃ a, wire.nameArg req.args = .ok a ∧ Repaired said a.name
  | "edit" => ∃ a startType dependencies, wire.editArgs req.args = .ok a ∧
      a.startType.mapM parseStartType = .ok startType ∧ editDependencies a = .ok dependencies ∧
        Edited said a.name (editSpec a startType dependencies)
  | "recovery_set" => ∃ a, wire.recoverySetArgs req.args = .ok a ∧
      Rewritten said a.name fun original cfg => cfg = applyRecovery original (recoverySpec a)
  | _ => True

end

section

variable {Value : Type} {wire : Wire Value} {fold : NameFold} {req : Request Value}

theorem parseArgs_eq_ok {α : Type} {decoded : Except String α} {a : α} :
    parseArgs decoded = .ok a ↔ decoded = .ok a :=
  mapError_eq_ok

/-- With its errand known, a handler needs the warrants of the errand alone. -/
theorem finishes_errand {name : String} {forceNative : Bool} {ε α : Type}
    {m : Fallible SystemCall.Answer ε α} {Q : α → Said → Prop}
    (herrand : wire.errand req = some (errandFor req name forceNative))
    (h : Finishes (Warranted fold (errandFor req name forceNative)) (.nothing : Known) m Q) :
    Finishes (Authorised wire fold req) (.nothing : Known) m Q :=
  h.weaken fun _ _ hwarranted => ⟨_, herrand, hwarranted⟩

/-- What a handler learns is what it promises. -/
theorem finishes_learnt {name : String} {forceNative : Bool} {ε α : Type}
    {m : Fallible SystemCall.Answer ε α} (promise : Known)
    (herrand : wire.errand req = some (errandFor req name forceNative))
    (h : Learns (Warranted fold (errandFor req name forceNative)) .nothing m fun _ => promise) :
    Finishes (Authorised wire fold req) (.nothing : Known) m fun _ s => promise.holds s :=
  finishes_errand herrand (.of_learns h fun _ _ _ hs => hs)

/-! ## The handlers -/

theorem errand_lifecycle {a : LifecycleArgs} (ha : wire.lifecycleArgs req.args = .ok a)
    (hop : req.op ∈ ["start", "stop", "restart", "pause", "continue"]) :
    wire.errand req = some (errandFor req a.name a.forceNative) := by
  simp only [List.mem_cons, List.not_mem_nil, or_false] at hop
  rcases hop with hop | hop | hop | hop | hop <;> simp [Wire.errand, hop, ha, Except.toOption]

theorem errand_named {a : NameArg} (ha : wire.nameArg req.args = .ok a)
    (hop : req.op ∈ ["dump", "repair_runner", "rotate", "processes", "recovery_get"]) :
    wire.errand req = some (errandFor req a.name false) := by
  simp only [List.mem_cons, List.not_mem_nil, or_false] at hop
  rcases hop with hop | hop | hop | hop | hop <;> simp [Wire.errand, hop, ha, Except.toOption]

theorem finishes_opStart (hop : req.op = "start") :
    Finishes (Authorised wire fold req) (.nothing : Known) (opStart wire req.args)
      fun _ s => ∃ a, wire.lifecycleArgs req.args = .ok a ∧ Started s a.name := by
  refine .check fun a hparse => ?_
  have ha := parseArgs_eq_ok.mp hparse
  refine .mono (finishes_learnt (started a.name) (errand_lifecycle ha (by simp [hop])) ?_)
    fun _ s h => ⟨a, ha, h⟩
  refine .bind (F := fun _ => started a.name) (.ite (fun hforce => ?_) fun _ => ?_)
    fun _ => .pure fun s h => h.2
  · exact learns_startService fun s svc _ hopened => .start hop hopened (.inl hforce)
  · exact .bind (learns_start hop) fun _ => .pure fun s h => h.2

theorem learns_postOpState {errand : Errand} {P : Known} :
    Learns (Warranted fold errand) P (postOpState errand.name) fun _ => .nothing := by
  refine .bind learns_queryService.attempt fun outcome => ?_
  cases outcome with
  | ok snapshot => exact .pure fun _ _ => trivial
  | error e => exact .pure fun _ _ => trivial

/-- The operations that are one control, with an override or through the managed operation. -/
theorem finishes_opControl {signal : ServiceControlSignal} {managed : String → Act String}
    {verb said : String} (hop : (req.op, signal) ∈ signalOf)
    (hmanaged : ∀ name, managed name = controlManaged name signal said) :
    Finishes (Authorised wire fold req) (.nothing : Known)
      (opControl wire req.args signal managed verb)
      fun _ s => ∃ a, wire.lifecycleArgs req.args = .ok a ∧ Controlled s a.name signal := by
  refine .check fun a hparse => ?_
  have ha := parseArgs_eq_ok.mp hparse
  have hlifecycle : req.op ∈ ["start", "stop", "restart", "pause", "continue"] := by
    simp only [signalOf, List.mem_cons, Prod.mk.injEq, List.not_mem_nil, or_false] at hop
    rcases hop with ⟨hop, -⟩ | ⟨hop, -⟩ | ⟨hop, -⟩ <;> simp [hop]
  refine .mono (finishes_learnt (controlled a.name signal) (errand_lifecycle ha hlifecycle) ?_)
    fun _ s h => ⟨a, ha, h⟩
  refine .ite (fun hforce => ?_) fun _ => ?_
  · refine .bind (learns_controlService signal ?_) fun runtime => .pure fun s h => h.2
    exact fun s svc _ hopened => .control signal hop rfl hopened (.inl hforce)
  · rw [hmanaged]
    refine .bind (learns_controlManaged hop) fun _ => ?_
    exact .bind learns_postOpState fun after => .pure fun s h => h.1.2

theorem finishes_opRestart (rounds : ℕ) (hop : req.op = "restart") :
    Finishes (Authorised wire fold req) (.nothing : Known) (opRestart wire rounds req.args)
      fun _ s => ∃ a, wire.lifecycleArgs req.args = .ok a ∧ Started s a.name := by
  refine .check fun a hparse => ?_
  have ha := parseArgs_eq_ok.mp (mapError_eq_ok.mp hparse)
  refine .mono (finishes_learnt (started a.name) (errand_lifecycle ha (by simp [hop])) ?_)
    fun _ s h => ⟨a, ha, h⟩
  exact .bind (learns_restart hop _ _) fun _ => .pure fun s h => h.2

theorem finishes_opRemove (hop : req.op = "remove") :
    Finishes (Authorised wire fold req) (.nothing : Known) (opRemove wire req.args)
      fun _ s => ∃ a, wire.removeArgs req.args = .ok a ∧ Deleted s a.name := by
  refine .check fun a hparse => ?_
  have ha := parseArgs_eq_ok.mp hparse
  have herrand : wire.errand req = some (errandFor req a.name a.forceNative) := by
    simp [Wire.errand, hop, ha, Except.toOption]
  refine finishes_errand herrand (.map (.mono (finishes_remove hop true) ?_))
  exact fun _ s h => ⟨a, ha, h⟩

theorem finishes_opInstall (hop : req.op = "install") :
    Finishes (Authorised wire fold req) (.nothing : Known) (opInstall wire fold req.args)
      fun _ s => ∃ a startType dependencies, wire.installArgs req.args = .ok a ∧
        parseStartType a.startType = .ok startType ∧
          dependenciesFromArgs a.dependOnServices a.dependOnGroups = .ok dependencies ∧
            Installed s a.name (installSpec a startType dependencies) := by
  refine .check fun _ _ => .check fun a hparse => .check fun startType hstart =>
    .check fun dependencies hdependencies => ?_
  have ha := parseArgs_eq_ok.mp hparse
  have herrand : wire.errand req = some (errandFor req a.name false) := by
    simp [Wire.errand, hop, ha, Except.toOption]
  refine finishes_errand herrand (.map (.mono (finishes_install ?_ ?_ hop) ?_))
  · rfl
  · rfl
  · exact fun _ s h => ⟨a, startType, dependencies, ha, hstart, hdependencies, h⟩

theorem rejectForcedManaged_eq_ok {a : EditArgs} (hforce : a.forceNative = true)
    (h : rejectForcedManaged a = .ok ()) (startType : Option InstallStartType)
    (dependencies : Option ServiceDependencies) :
    (editSpec a startType dependencies).touchesManaged = false := by
  unfold rejectForcedManaged at h
  split at h
  · cases h
  · rename_i hmanaged
    rw [hforce, Bool.true_and] at hmanaged
    exact Bool.eq_false_iff.mpr hmanaged

theorem finishes_opEdit (hop : req.op = "edit") :
    Finishes (Authorised wire fold req) (.nothing : Known) (opEdit wire fold req.args)
      fun _ s => ∃ a startType dependencies, wire.editArgs req.args = .ok a ∧
        a.startType.mapM parseStartType = .ok startType ∧ editDependencies a = .ok dependencies ∧
          Edited s a.name (editSpec a startType dependencies) := by
  refine .check fun _ _ => .check fun a hparse => .check fun dependencies hdependencies =>
    .check fun _ hforced => .check fun startType hstart => ?_
  have ha := parseArgs_eq_ok.mp hparse
  have herrand : wire.errand req = some (errandFor req a.name a.forceNative) := by
    simp [Wire.errand, hop, ha, Except.toOption]
  refine finishes_errand herrand (.map (.mono
    (Q := fun _ s => Edited s a.name (editSpec a startType dependencies)) ?_
    fun _ s h => ⟨a, startType, dependencies, ha, hstart, hdependencies, h⟩))
  refine .ite (fun hnative => ?_) fun _ => .map (finishes_edit rfl rfl hop)
  -- The fields of the manager are changed at once, and there are no others.
  have hforce : a.forceNative = true := (Bool.and_eq_true_iff.mp hnative).1
  have hspared := rejectForcedManaged_eq_ok hforce hforced startType dependencies
  refine .of_learns (F := fun _ => lasting (NativeEdited · a.name
    (editSpec a startType dependencies)) fun _ x h => h.later x) ?_ fun _ s _ h => ?_
  · exact learns_updateNativeConfig rfl rfl hop fun _ _ => .inl hforce
  · exact ⟨fun htouches => absurd htouches (by simp [hspared]), fun _ => h⟩

theorem finishes_opRepairRunner (hop : req.op = "repair_runner") :
    Finishes (Authorised wire fold req) (.nothing : Known) (opRepairRunner wire req.args)
      fun _ s => ∃ a, wire.nameArg req.args = .ok a ∧ Repaired s a.name := by
  refine .check fun a hparse => ?_
  have ha := parseArgs_eq_ok.mp hparse
  refine .mono (finishes_learnt (lasting (Repaired · a.name) fun _ x h => h.later x)
    (errand_named ha (by simp [hop])) ?_) fun _ s h => ⟨a, ha, h⟩
  exact .bind (learns_repairRunner hop) fun _ => .pure fun s h => h.2

theorem finishes_opRotate (hop : req.op = "rotate") :
    Finishes (Authorised wire fold req) (.nothing : Known) (opRotate wire req.args)
      fun _ s => ∃ a, wire.nameArg req.args = .ok a ∧
        Controlled s a.name (.user serviceControlRotate) := by
  refine .check fun a hparse => ?_
  have ha := parseArgs_eq_ok.mp hparse
  refine .mono (finishes_learnt (controlled a.name (.user serviceControlRotate))
    (errand_named ha (by simp [hop])) ?_) fun _ s h => ⟨a, ha, h⟩
  refine .bind (learns_rotate hop) fun _ => ?_
  exact .bind learns_postOpState fun after => .pure fun s h => h.1.2

theorem finishes_opRecoverySet (hop : req.op = "recovery_set") :
    Finishes (Authorised wire fold req) (.nothing : Known) (opRecoverySet wire fold req.args)
      fun _ s => ∃ a, wire.recoverySetArgs req.args = .ok a ∧
        Rewritten s a.name fun original cfg => cfg = applyRecovery original (recoverySpec a) := by
  refine .check fun a hparse => .check fun _ _ => ?_
  have ha := parseArgs_eq_ok.mp hparse
  have herrand : wire.errand req = some (errandFor req a.name false) := by
    simp [Wire.errand, hop, ha, Except.toOption]
  refine finishes_errand herrand (.map (.mono (finishes_saveRecovery rfl hop) ?_))
  exact fun _ s h => ⟨a, ha, h⟩

/-! ### The handlers that only look -/

theorem finishes_opRecoveryGet (hop : req.op = "recovery_get") :
    Finishes (Authorised wire fold req) (.nothing : Known) (opRecoveryGet wire req.args)
      fun _ _ => True := by
  refine .check fun a hparse => ?_
  have ha := parseArgs_eq_ok.mp hparse
  refine finishes_learnt .nothing (errand_named ha (by simp [hop])) ?_
  exact .bind learns_readRecovery fun spec => .pure fun _ _ => trivial

theorem finishes_opDump (hop : req.op = "dump") :
    Finishes (Authorised wire fold req) (.nothing : Known) (opDump wire req.args)
      fun _ _ => True := by
  refine .check fun a hparse => ?_
  have ha := parseArgs_eq_ok.mp hparse
  refine finishes_learnt .nothing (errand_named ha (by simp [hop])) ?_
  refine .bind learns_queryService fun native => .bind learns_readManaged fun managed => ?_
  exact .pure fun _ _ => trivial

theorem finishes_opProcesses (hop : req.op = "processes") :
    Finishes (Authorised wire fold req) (.nothing : Known) (opProcesses wire req.args)
      fun _ _ => True := by
  refine .check fun a hparse => ?_
  have ha := parseArgs_eq_ok.mp hparse
  refine finishes_learnt .nothing (errand_named ha (by simp [hop])) ?_
  refine .bind learns_queryService fun native => ?_
  cases hpid : native.runtime.bind (·.pid) with
  | none => exact .throw
  | some pid =>
      refine .bind (Learns.ask _ rfl ?_) fun descendants => .pure fun _ _ => trivial
      rintro s answer ⟨-, manager, native, hquery, rfl⟩
      exact ⟨manager, native, hquery, hpid⟩

theorem learns_annotate {errand : Errand} (hop : errand.op = "list") {P : Known}
    (services : List NativeService) :
    Learns (Warranted fold errand) P
      (monadLift (annotate services) : Act (List ServiceDefinition × List String))
      fun _ => .nothing := by
  refine ⟨fun K s hK hP => Fallible.keeps_monadLift ?_⟩
  induction services generalizing s with
  | nil => exact ⟨hK, hP, trivial⟩
  | cons service rest ih =>
      refine .bind fun answer => ⟨.inr hop, ?_⟩
      have hlater := ih _ (K.lasts s ⟨.readManagedConfig service.config.name, answer⟩ rfl hK)
        (P.lasts s ⟨.readManagedConfig service.config.name, answer⟩ rfl hP)
      cases answer with
      | ok managed => exact .bind (hlater.mono fun _ _ h => h)
      | error e => exact .bind (hlater.mono fun _ _ h => h)

theorem finishes_opList (lower : String → String) (hop : req.op = "list") :
    Finishes (Authorised wire fold req) (.nothing : Known) (opList wire lower req.args)
      fun _ _ => True := by
  refine .check fun filter _ => ?_
  have herrand : wire.errand req = some (errandFor req "" false) := by simp [Wire.errand, hop]
  refine finishes_learnt .nothing herrand (.bind (F := fun _ => .nothing) ?_ fun defs => ?_)
  · refine .bind (Learns.ask _ rfl ?_) fun services => ?_
    · exact fun _ _ _ => hop
    · exact .bind (learns_annotate hop services) fun defs => .pure fun _ _ => trivial
  · exact .pure fun _ _ => trivial

/-! ## Every request -/

variable (lower : String → String) (rounds : ℕ)

theorem finishes_handle {m : Act Reply} {Q : Reply → Said → Prop}
    (h : Finishes (Authorised wire fold req) (.nothing : Known) m Q)
    (hQ : ∀ reply s, Q reply s → Achieved wire req s) :
    Finishes (Authorised wire fold req) (.nothing : Known) (handle m)
      fun _ s => Achieved wire req s :=
  (h.mapError _).mono hQ

theorem finishes_dispatchInner :
    Finishes (Authorised wire fold req) (.nothing : Known)
      (dispatchInner wire fold lower rounds req) fun _ s => Achieved wire req s := by
  unfold dispatchInner
  split
  case h_1 hop =>
    refine .of_learns (F := fun _ => .nothing) (.pure fun _ _ => trivial) fun _ s _ _ => ?_
    simp [Achieved, hop]
  case h_2 hop =>
    refine finishes_handle (finishes_opList lower hop) fun _ s _ => ?_
    simp [Achieved, hop]
  case h_3 hop =>
    refine finishes_handle (finishes_opDump hop) fun _ s _ => ?_
    simp [Achieved, hop]
  case h_4 hop =>
    refine finishes_handle (finishes_opInstall hop) fun _ s h => ?_
    simpa only [Achieved, hop] using h
  case h_5 hop =>
    refine finishes_handle (finishes_opRemove hop) fun _ s h => ?_
    simpa only [Achieved, hop] using h
  case h_6 hop =>
    refine finishes_handle (finishes_opStart hop) fun _ s h => ?_
    simpa only [Achieved, hop] using h
  case h_7 hop =>
    refine finishes_handle (finishes_opControl (by simp [hop, signalOf]) fun _ => rfl) fun _ s h => ?_
    simpa only [Achieved, hop] using h
  case h_8 hop =>
    refine (finishes_opRestart rounds hop).mono fun _ s h => ?_
    simpa only [Achieved, hop] using h
  case h_9 hop =>
    refine finishes_handle (finishes_opEdit hop) fun _ s h => ?_
    simpa only [Achieved, hop] using h
  case h_10 hop =>
    refine finishes_handle (finishes_opRepairRunner hop) fun _ s h => ?_
    simpa only [Achieved, hop] using h
  case h_11 hop =>
    refine finishes_handle (finishes_opRotate hop) fun _ s h => ?_
    simpa only [Achieved, hop] using h
  case h_12 hop =>
    refine finishes_handle (finishes_opProcesses hop) fun _ s _ => ?_
    simp [Achieved, hop]
  case h_13 hop =>
    refine finishes_handle (finishes_opControl (by simp [hop, signalOf]) fun _ => rfl) fun _ s h => ?_
    simpa only [Achieved, hop] using h
  case h_14 hop =>
    refine finishes_handle (finishes_opControl (by simp [hop, signalOf]) fun _ => rfl) fun _ s h => ?_
    simpa only [Achieved, hop] using h
  case h_15 hop =>
    refine finishes_handle (finishes_opRecoveryGet hop) fun _ s _ => ?_
    simp [Achieved, hop]
  case h_16 hop =>
    refine finishes_handle (finishes_opRecoverySet hop) fun _ s h => ?_
    simpa only [Achieved, hop] using h
  case h_17 => exact .throw

/-- Whatever a request says and whatever the machine answers, each call is authorised by the
request, and a reply without an error tells what was achieved. -/
theorem request_authorised {said : Said} {rest : Talk (Except Restart.Stopped Reply)}
    (hleads : (dispatchInner wire fold lower rounds req).run.Leads said rest) :
    EachEvent (Authorised wire fold req) said ∧
      ∀ reply, rest = .done (.ok reply) → Achieved wire req said :=
  (finishes_dispatchInner lower rounds).of_leads hleads

end

/-! ### A start without an override -/

/-- The arguments `{"name": …, "force_native": …}` as the operations read them. -/
def lifecycleWire : Wire LifecycleArgs where
  hasKey _ key := key == "name" || key == "force_native"
  nameArg a := .ok { name := a.name }
  removeArgs a := .ok { name := a.name, forceNative := a.forceNative }
  lifecycleArgs a := .ok a
  listFilter _ := .ok .managed
  installArgs _ := .error "missing field application"
  editArgs a := .ok { name := a.name, forceNative := a.forceNative }
  recoverySetArgs _ := .error "missing field default_action"

def plainStart : Request LifecycleArgs where
  op := "start"
  args := { name := "jobs", forceNative := false }

/-- A service of the runner, stopped, that is started on demand. -/
def stoppedJobs : NativeService where
  config := {
    name := "jobs", startup := .manual, imagePath := "C:\\NGSM\\ngsm.exe run-service jobs" }
  runtime := none

def plainStartSaid : Said :=
  [⟨.openSCManager scManagerConnect, .ok 1⟩, ⟨.queryService 1 "jobs", .ok stoppedJobs⟩,
    ⟨.readManagedConfig "jobs", .ok (some { application := "C:\\jobs\\jobs.exe" })⟩,
    ⟨.openSCManager scManagerConnect, .ok 2⟩, ⟨.queryService 2 "jobs", .ok stoppedJobs⟩,
    ⟨.openSCManager scManagerConnect, .ok 3⟩, ⟨.openService 3 "jobs" serviceStart, .ok 4⟩,
    ⟨.startService 4, .ok ()⟩]

theorem queryService_jobs : queryService "jobs" = (openScm scManagerConnect >>= fun scm =>
      Fallible.demand (ask (.queryService scm "jobs"))) := by
  have hname : validateServiceName "jobs" = .ok () := by decide
  unfold queryService
  rw [hname]
  rfl

theorem plainStart_leads :
    (dispatchInner lifecycleWire asciiFold id 0 plainStart).run.Leads plainStartSaid
      (.done (.ok (.object [("started", .text "jobs")]))) := by
  have hname : validateServiceName "jobs" = .ok () := by decide
  have hstart : startService "jobs" = (openScm scManagerConnect >>= fun scm =>
      openServiceHandle scm "jobs" serviceStart >>= fun svc =>
        call "StartService(jobs)" (ask (.startService svc))) := by
    unfold startService
    rw [hname]
    rfl
  have hdispatch : dispatchInner lifecycleWire asciiFold id 0 plainStart =
      handle ((Machine.start "jobs" >>= fun _ => pure ()) >>= fun _ =>
        pure (.object [("started", .text "jobs")])) := rfl
  rw [hdispatch]
  unfold Machine.start ensureNgsmManaged ensureEnabled
  rw [hstart, queryService_jobs]
  apply Dialogue.Leads.answer
  apply Dialogue.Leads.answer
  apply Dialogue.Leads.answer
  apply Dialogue.Leads.answer
  apply Dialogue.Leads.answer
  apply Dialogue.Leads.answer
  apply Dialogue.Leads.answer
  apply Dialogue.Leads.answer
  apply Dialogue.Leads.start

/-- What was found out before the service was started. -/
theorem plainStart_authorised :
    Started plainStartSaid "jobs" ∧
      ∃ before svc, plainStartSaid = before ++ [⟨.startService svc, .ok ()⟩] ∧
        Opened before "jobs" svc serviceStart ∧ Owned before "jobs" ∧ Enabled before "jobs" := by
  obtain ⟨heach, hachieved⟩ := request_authorised id 0 plainStart_leads
  obtain ⟨a, ha, hstarted⟩ := hachieved _ rfl
  cases ha
  refine ⟨hstarted, plainStartSaid.take 7, 4, rfl, ?_⟩
  obtain ⟨errand, herrand, hwarranted⟩ := heach (plainStartSaid.take 7) _ [] rfl
  cases herrand
  cases hwarranted with
  | start hop hopened hentitled =>
      obtain hforce | ⟨howned, henabled⟩ := hentitled
      · cases hforce
      · exact ⟨hopened, howned, henabled⟩
  | restart hop hopened hentitled henabled => simp [errandFor, plainStart] at hop

end Ngsm.Broker
