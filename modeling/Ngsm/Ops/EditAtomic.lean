/-
# Edits are all or nothing

What an edit leaves in the registry, for every request, every stored
configuration and every failure.  `EditRun` lists what a run of the operation can
do; everything else is derived from it.  The rollback goes through the same
validation as any write, so it restores the original exactly when the original
itself would be accepted: `Safe` is that condition, and the last theorem shows
that it is exact.
-/

import Ngsm.Ops.Edit
import Ngsm.Registry.Cut

namespace Ngsm.Ops

open Ngsm.Lib Ngsm.Core Ngsm.Registry NssmKeys

variable {fold : NameFold} {σ : Type}

/-! ## What an edit should do -/

/-- A stream after an edit of its path: without a request it is kept, an empty path
removes it, and any other path is set with the options left alone. -/
def StreamReplaced (path : Option String) (before after : Option IoStream) : Prop :=
  (path = none → after = before) ∧ (path = some "" → after = none) ∧
    ∀ p, path = some p → p ≠ "" → ∃ stream, after = some stream ∧ stream.path = p ∧
      ∀ old, before = some old → stream = { old with path := p }

/-- `managed` is `original` with exactly the requested fields replaced. -/
structure Replaces (spec : EditSpec) (original managed : ManagedApplicationConfig) : Prop where
  application : managed.application = spec.application.or original.application
  appParameters : managed.appParameters = spec.appParameters.or original.appParameters
  appDirectory : managed.appDirectory = spec.appDirectory.or original.appDirectory
  stdout : StreamReplaced spec.stdout original.io.stdout managed.io.stdout
  stderr : StreamReplaced spec.stderr original.io.stderr managed.io.stderr
  stdin : managed.io.stdin = original.io.stdin
  timestampLog : managed.io.timestampLog = original.io.timestampLog
  environment : managed.environment = original.environment
  environmentExtra : managed.environmentExtra = original.environmentExtra
  priority : managed.priority = original.priority
  affinity : managed.affinity = original.affinity
  restart : managed.restart = original.restart
  shutdown : managed.shutdown = original.shutdown
  rotation : managed.rotation = original.rotation
  exitActions : managed.exitActions = original.exitActions
  hooks : managed.hooks = original.hooks
  marks : ∀ m, m ∈ managed.expandableStrings ↔ m ∈ original.expandableStrings ∧
    ¬ (spec.stdout = some "" ∧ Text.eqIgnoreAsciiCase m "AppStdout" = true) ∧
    ¬ (spec.stderr = some "" ∧ Text.eqIgnoreAsciiCase m "AppStderr" = true)

theorem streamReplaced_mergeStreamPath (stream : Option IoStream) (path : Option String) :
    StreamReplaced path stream (mergeStreamPath stream path) := by
  refine ⟨?_, ?_, ?_⟩
  · rintro rfl
    rfl
  · rintro rfl
    rfl
  · rintro p rfl hp
    have hempty : p.isEmpty = false := by simpa using hp
    cases stream with
    | none => exact ⟨ioStream p, by simp [mergeStreamPath, hempty], rfl, by simp⟩
    | some old =>
        refine ⟨{ old with path := p }, by simp [mergeStreamPath, hempty], rfl, ?_⟩
        rintro _ ⟨⟩
        rfl

theorem mem_dropMark {path : Option String} {key m : String} {marked : Std.ExtTreeSet String} :
    m ∈ dropMark path key marked ↔
      m ∈ marked ∧ ¬ (path = some "" ∧ Text.eqIgnoreAsciiCase m key = true) := by
  unfold dropMark
  split
  · rename_i hpath
    simp [Std.ExtTreeSet.mem_filter, hpath]
  · rename_i hpath
    simp [hpath]

theorem replaces_of_merge {spec : EditSpec} {original managed : ManagedApplicationConfig}
    (hmerge : mergeManagedFields original spec = .ok managed) : Replaces spec original managed := by
  unfold mergeManagedFields at hmerge
  split at hmerge
  · cases hmerge
  · cases hmerge
    exact {
      application := rfl
      appParameters := rfl
      appDirectory := rfl
      stdout := streamReplaced_mergeStreamPath _ _
      stderr := streamReplaced_mergeStreamPath _ _
      stdin := rfl
      timestampLog := rfl
      environment := rfl
      environmentExtra := rfl
      priority := rfl
      affinity := rfl
      restart := rfl
      shutdown := rfl
      rotation := rfl
      exitActions := rfl
      hooks := rfl
      marks := fun m => by simp only [mem_dropMark, and_assoc] }

/-- The key reads as a configuration, exactly or as the writer normalises it. -/
def StoredAs (key : Params fold σ) (service : String) (cfg : ManagedApplicationConfig) : Prop :=
  ∃ found, readManagedFromKey key service = .ok (some found) ∧
    (found = cfg ∨ SameConfig fold cfg found)

/-- The request is refused by the validation of its native or its managed fields. -/
def Rejected (fold : NameFold) (spec : EditSpec) (original : ManagedApplicationConfig) : Prop :=
  validateNativeUpdate spec ≠ .ok () ∨
    ∀ managed, mergeManagedFields original spec = .ok managed →
      validateManagedConfig fold managed ≠ .ok ()

/-- A failed edit leaves the original, a successful one the requested change. -/
structure AllOrNothing (spec : EditSpec) (original : ManagedApplicationConfig)
    (outcome : Result String) (key : Params fold σ) : Prop where
  failed : ∀ e, outcome = .error e → StoredAs key spec.name original
  done : ∀ m, outcome = .ok m → ∃ managed, Replaces spec original managed ∧
    StoredAs key spec.name managed

/-- The native service is touched only behind a successful write, and a refused
request writes nothing. -/
structure Disciplined (spec : EditSpec) (original : ManagedApplicationConfig)
    (before after : Backend fold σ) : Prop where
  nativeLast : ∀ earlier later, after.calls = earlier ++ .native :: later →
    spec.touchesManaged = true → .write true ∈ earlier
  rejected : Rejected fold spec original →
    after.key = before.key ∧ ∀ succeeded, .write succeeded ∉ after.calls

/-! ## The runs of an edit -/

/-- Why an edit may end before its first write. -/
def Stops (spec : EditSpec) (original : ManagedApplicationConfig) (b : Backend fold σ) : Prop :=
  spec.hasChanges = false ∨ validateNativeUpdate spec ≠ .ok () ∨ b.lockError.isSome = true ∨
    b.readError.isSome = true ∨
    (spec.touchesManaged = true ∧ Rejected fold spec original)

/-- The request passes validation and asks for this configuration. -/
structure Asks (fold : NameFold) (spec : EditSpec)
    (original managed : ManagedApplicationConfig) : Prop where
  touches : spec.touchesManaged = true
  native : validateNativeUpdate spec = .ok ()
  merge : mergeManagedFields original spec = .ok managed
  valid : validateManagedConfig fold managed = .ok ()

/-- The runs of an edit on a service that reads as `original`: the outcome, the
key it leaves, and the calls it made. -/
inductive EditRun (spec : EditSpec) (original : ManagedApplicationConfig) (b : Backend fold σ) :
    Result String → Params fold σ → List Call → Prop
  | stopped {e : Error} {calls : List Call} (hstops : Stops spec original b)
      (hcalls : ∀ c ∈ calls, c = .read) :
      EditRun spec original b (.error e) b.key calls
  | nativeOnly {outcome : Result String} (htouches : spec.touchesManaged = false) :
      EditRun spec original b outcome b.key [.read, .native]
  | written {managed : ManagedApplicationConfig} {w : World (Params fold σ)} {m : String}
      {calls : List Call} (hasks : Asks fold spec original managed)
      (hwrite : (writeManagedConfig spec.name managed).exec ⟨b.key, b.writeFaults 0⟩ = (.ok (), w))
      (hcalls : calls = [.read, .write true] ∨ calls = [.read, .write true, .native]) :
      EditRun spec original b (.ok m) w.node calls
  | unwritten {managed : ManagedApplicationConfig} {e e' : Error} {w w' : World (Params fold σ)}
      {rollback : Result Unit} (hasks : Asks fold spec original managed)
      (hwrite : (writeManagedConfig spec.name managed).exec ⟨b.key, b.writeFaults 0⟩ =
        (.error e, w))
      (hrollback : (writeManagedConfig spec.name original).exec ⟨w.node, b.writeFaults 1⟩ =
        (rollback, w')) :
      EditRun spec original b (.error e') w'.node
        [.read, .write false, .write rollback.isOk]
  | undone {managed : ManagedApplicationConfig} {e : Error} {w w' : World (Params fold σ)}
      {rollback : Result Unit} (hasks : Asks fold spec original managed)
      (hnative : b.nativeError.isSome = true)
      (hwrite : (writeManagedConfig spec.name managed).exec ⟨b.key, b.writeFaults 0⟩ = (.ok (), w))
      (hrollback : (writeManagedConfig spec.name original).exec ⟨w.node, b.writeFaults 1⟩ =
        (rollback, w')) :
      EditRun spec original b (.error e) w'.node
        [.read, .write true, .native, .write rollback.isOk]

section Runs

variable {spec : EditSpec} {original : ManagedApplicationConfig} {b : Backend fold σ}

/-- The backend after a write. -/
def Backend.afterWrite (b : Backend fold σ) (w : World (Params fold σ)) (succeeded : Bool) :
    Backend fold σ :=
  { b with key := w.node, writes := b.writes + 1, calls := b.calls ++ [.write succeeded] }

theorem wp_writeManagedBackend {service : String} {cfg : ManagedApplicationConfig}
    {Q : Unit → Backend fold σ → Prop} {R : Error → Backend fold σ → Prop}
    (hok : ∀ w, (writeManagedConfig service cfg).exec ⟨b.key, b.writeFaults b.writes⟩ =
      (.ok (), w) → Q () (b.afterWrite w true))
    (herror : ∀ e w, (writeManagedConfig service cfg).exec ⟨b.key, b.writeFaults b.writes⟩ =
      (.error e, w) → R e (b.afterWrite w false)) :
    (writeManagedBackend service cfg).wp Q R b := by
  unfold writeManagedBackend
  rw [Prog.wp_step]
  rcases hrun : (writeManagedConfig service cfg).exec ⟨b.key, b.writeFaults b.writes⟩ with
    ⟨outcome, w⟩
  cases outcome with
  | ok u => exact hok w hrun
  | error e => exact herror e w hrun

theorem wp_rollbackManaged {error : Error} {nativeAttempted : Bool}
    {Q : Error → Backend fold σ → Prop} {R : Error → Backend fold σ → Prop}
    (hpost : ∀ report rollback w,
      (writeManagedConfig spec.name original).exec ⟨b.key, b.writeFaults b.writes⟩ =
        (rollback, w) → Q report (b.afterWrite w rollback.isOk)) :
    (rollbackManaged spec original error nativeAttempted).wp Q R b := by
  unfold rollbackManaged
  simp only [Prog.wp_bind, Prog.wp_attempt]
  refine wp_writeManagedBackend (fun w hrun => ?_) fun e w hrun => ?_
  · exact hpost _ (.ok ()) w hrun
  · exact hpost _ (.error e) w hrun

theorem touchesNative_of_hasChanges (hchanges : spec.hasChanges = true)
    (htouches : spec.touchesManaged = false) : spec.touchesNative = true := by
  simp only [EditSpec.touchesManaged, Bool.or_eq_false_iff] at htouches
  obtain ⟨⟨⟨⟨h₁, h₂⟩, h₃⟩, h₄⟩, h₅⟩ := htouches
  simpa only [EditSpec.hasChanges, EditSpec.touchesNative, h₁, h₂, h₃, h₄, h₅,
    Bool.or_false] using hchanges

/-- The native part of an edit that has written the configuration. -/
theorem wp_editNative_written {managed : ManagedApplicationConfig}
    {w : World (Params fold σ)} (hasks : Asks fold spec original managed)
    (hwrite : (writeManagedConfig spec.name managed).exec ⟨b.key, b.writeFaults 0⟩ = (.ok (), w))
    {now : Backend fold σ} (hkey : now.key = w.node) (hwrites : now.writes = 1)
    (hfaults : now.writeFaults = b.writeFaults) (hnative : now.nativeError = b.nativeError)
    (hcalls : now.calls = [.read, .write true]) :
    (if spec.touchesNative then editNative spec original else pure ()).wp
      (fun _ after => ∀ m, EditRun spec original b (.ok m) after.key after.calls)
      (fun e after => EditRun spec original b (.error e) after.key after.calls) now := by
  split
  · unfold editNative
    rw [Prog.wp_bind, Prog.wp_attempt]
    unfold updateNative
    rw [Prog.wp_step]
    rcases herror : now.nativeError with _ | error
    · intro m
      simp only [hkey, hcalls]
      exact .written hasks hwrite (.inr rfl)
    · simp only [hasks.touches, if_true, Prog.wp_bind]
      refine wp_rollbackManaged fun report rollback w' hrollback => ?_
      simp only [hkey, hfaults, hwrites] at hrollback
      simp only [Backend.afterWrite, hcalls]
      exact .undone hasks (by rw [← hnative, herror]; rfl) hwrite hrollback
  · intro m
    rw [hkey, hcalls]
    exact .written hasks hwrite (.inl rfl)

/-- Every run of an edit is one of the listed ones. -/
theorem editRun_of_exec (hread : readManagedFromKey b.key spec.name = .ok (some original))
    (hwrites : b.writes = 0) (hcalls : b.calls = []) {outcome : Result String}
    {after : Backend fold σ} (hexec : (editWithBackend spec).exec b = (outcome, after)) :
    EditRun spec original b outcome after.key after.calls := by
  have hwp : (editWithBackend spec).wp
      (fun m after => EditRun spec original b (.ok m) after.key after.calls)
      (fun e after => EditRun spec original b (.error e) after.key after.calls) b := by
    have hstop : ∀ {e : Error} {calls : List Call}, Stops spec original b →
        (∀ c ∈ calls, c = .read) → EditRun spec original b (.error e) b.key calls :=
      fun hstops hcalls => .stopped hstops hcalls
    unfold editWithBackend
    split
    · rename_i hchanges
      rw [Prog.wp_bind, Prog.wp_liftExcept]
      rcases hnative : validateNativeUpdate spec with e | ⟨⟩
      · exact hstop (.inr (.inl (by rw [hnative]; simp))) (by simp [hcalls])
      simp only
      unfold lockServiceConfig
      rw [Prog.wp_bind, Prog.wp_step]
      rcases hlock : b.lockError with _ | e
      · simp only
        unfold readManagedBackend
        rw [Prog.wp_bind, Prog.wp_step]
        rcases hreadError : b.readError with _ | e
        · simp only [hread, hcalls, List.nil_append]
          rw [Prog.wp_bind]
          cases htouches : spec.touchesManaged with
          | true =>
              rw [if_pos rfl]
              unfold editManaged
              rw [Prog.wp_bind, Prog.wp_liftExcept]
              rcases hmerge : mergeManagedFields original spec with e | managed
              · refine hstop (.inr (.inr (.inr (.inr ⟨htouches, .inr fun managed h => ?_⟩))))
                  (by simp)
                rw [hmerge] at h
                cases h
              simp only
              rw [Prog.wp_bind, Prog.wp_liftExcept]
              rcases hvalid : validateManagedConfig fold managed with e | ⟨⟩
              · refine hstop (.inr (.inr (.inr (.inr ⟨htouches, .inr fun other h => ?_⟩))))
                  (by simp)
                rw [hmerge] at h
                cases h
                rw [hvalid]
                simp
              have hasks : Asks fold spec original managed := ⟨htouches, hnative, hmerge, hvalid⟩
              simp only
              rw [Prog.wp_bind, Prog.wp_attempt]
              refine wp_writeManagedBackend (fun w hrun => ?_) fun e w hrun => ?_
              · have hwrite : (writeManagedConfig spec.name managed).exec
                    ⟨b.key, b.writeFaults 0⟩ = (.ok (), w) := by
                  rw [← hwrites]
                  exact hrun
                simp only [Prog.wp_pure, Prog.wp_bind]
                refine Prog.wp_mono _ ?_ (fun _ _ h => h)
                  (wp_editNative_written hasks hwrite rfl (congrArg (· + 1) hwrites) rfl rfl rfl)
                intro _ after hafter
                exact hafter _
              · rw [hwrites] at hrun
                simp only [Prog.wp_bind]
                refine wp_rollbackManaged fun report rollback w' hrollback => ?_
                simp only [Backend.afterWrite, hwrites] at hrollback
                exact .unwritten hasks hrun hrollback
          | false =>
              rw [if_neg Bool.false_ne_true, Prog.wp_pure,
                if_pos (touchesNative_of_hasChanges hchanges htouches), Prog.wp_bind]
              unfold editNative
              rw [Prog.wp_bind, Prog.wp_attempt]
              unfold updateNative
              rw [Prog.wp_step]
              rcases hnativeError : b.nativeError with _ | e
              · exact .nativeOnly htouches
              · simp only [htouches, Bool.false_eq_true, if_false]
                exact .nativeOnly htouches
        · exact hstop (.inr (.inr (.inr (.inl (by rw [hreadError]; rfl))))) (by simp [hcalls])
      · exact hstop (.inr (.inr (.inl (by rw [hlock]; rfl)))) (by simp [hcalls])
    · rename_i hchanges
      exact hstop (.inl (by simpa using hchanges)) (by simp [hcalls])
  cases outcome with
  | ok m => exact Prog.wp_ok _ hwp hexec
  | error e => exact Prog.wp_error _ hwp hexec

end Runs

/-! ## Writing through the backend -/

/-- The contract of a write of an accepted configuration into a managed key. -/
theorem runs_writeManagedConfig {service : String} {cfg : ManagedApplicationConfig}
    {exits : ExitActions} (hname : validateServiceName service = .ok ())
    (hpreflight : preflightConfig fold cfg = .ok exits) {node : Params fold σ}
    (hnames : NamesDecode node) (happ : ApplicationPresent node) :
    Runs (writeManagedConfig service cfg) node (fun _ => Written cfg exits node)
      (Midway cfg exits node) := by
  have hstart := Midway.refl cfg exits hnames
  have hvalid : validateManagedConfig fold cfg = .ok () := by
    rw [validateManagedConfig, hpreflight]
    rfl
  have happlication : requireApplication cfg = .ok () := by
    obtain ⟨⟨⟩, happ, -⟩ := Check.bind_eq_ok.mp hpreflight
    exact happ
  refine Runs.bind (Runs.liftOk (Q := fun _ n => n = node) hname rfl) ?_
  rintro _ n rfl
  refine Runs.bind (Runs.liftOk (Q := fun _ n' => n' = n) hvalid rfl) ?_
  rintro _ n rfl
  refine Runs.bind (Runs.query (Q := fun _ n' => n' = n) rfl hstart rfl) ?_
  rintro _ n rfl
  refine Runs.bind (Runs.liftOk (Q := fun _ n' => n' = n) happlication rfl) ?_
  rintro _ n rfl
  refine Runs.bind (Runs.query (Q := fun _ n' => n' = n) rfl hstart rfl) ?_
  rintro _ n rfl
  refine Runs.bind (Runs.query (Q := fun _ n' => n' = n) (a := ()) ?_ hstart rfl) ?_
  · obtain ⟨value, app, hvalue, hholds, hblank⟩ := happ
    rw [readTypedString_of_holds hvalue hholds]
    simp only [Registry.optional, hblank, Bool.false_eq_true, if_false]
  · rintro _ n rfl
    exact runs_writeIntoKey hpreflight hnames

/-- A configuration that is not accepted is refused before any call. -/
theorem exec_writeManagedConfig_refused {service : String} {cfg : ManagedApplicationConfig}
    (hrefused : validateManagedConfig fold cfg ≠ .ok ()) (w : World (Params fold σ)) :
    ∃ e, (writeManagedConfig service cfg).exec w = (.error e, w) := by
  unfold writeManagedConfig
  rw [Prog.exec_bind]
  rcases validateServiceName service with e | ⟨⟩
  · exact ⟨e, rfl⟩
  · change ∃ e, (liftExcept (validateManagedConfig fold cfg) >>= _ : RegM _ _).exec w = _
    rw [Prog.exec_bind]
    rcases hvalid : validateManagedConfig fold cfg with e | ⟨⟩
    · exact ⟨e, rfl⟩
    · exact absurd hvalid hrefused

/-! ## The order of the calls -/

section Guarantees

variable {spec : EditSpec} {original : ManagedApplicationConfig} {b : Backend fold σ}

theorem Asks.not_rejected {managed : ManagedApplicationConfig}
    (hasks : Asks fold spec original managed) : ¬ Rejected fold spec original := by
  rintro (hnative | hmanaged)
  · exact hnative hasks.native
  · exact hmanaged managed hasks.merge hasks.valid

/-- A call to the native service that comes after a successful write has that
write before it. -/
theorem write_mem_before_native {tail earlier later : List Call}
    (hsplit : .read :: .write true :: tail = earlier ++ .native :: later) :
    .write true ∈ earlier := by
  rcases earlier with _ | ⟨first, _ | ⟨second, rest⟩⟩
  · cases hsplit
  · cases hsplit
  · simp only [List.cons_append, List.cons.injEq] at hsplit
    simp [← hsplit.2.1]

/-- Every run calls in the right order. -/
theorem disciplined_of_editRun {outcome : Result String} {after : Backend fold σ}
    (hrun : EditRun spec original b outcome after.key after.calls) :
    Disciplined spec original b after := by
  generalize hkey : after.key = key at hrun
  generalize hcalls : after.calls = calls at hrun
  cases hrun with
  | stopped hstops hread =>
      refine ⟨fun earlier later hsplit _ => ?_, fun _ => ⟨hkey, fun succeeded hin => ?_⟩⟩
      · have hnative := hread .native (by rw [← hcalls, hsplit]; simp)
        cases hnative
      · rw [hcalls] at hin
        cases hread _ hin
  | nativeOnly htouches =>
      refine ⟨fun _ _ _ hmanaged => ?_, fun _ => ⟨hkey, fun succeeded hin => ?_⟩⟩
      · rw [htouches] at hmanaged
        cases hmanaged
      · rw [hcalls] at hin
        simp at hin
  | written hasks hwrite hlist =>
      refine ⟨fun earlier later hsplit _ => ?_, fun hrejected =>
        absurd hrejected hasks.not_rejected⟩
      rw [hcalls] at hsplit
      rcases hlist with rfl | rfl
      · exact write_mem_before_native hsplit
      · exact write_mem_before_native hsplit
  | unwritten hasks hwrite hrollback =>
      refine ⟨fun earlier later hsplit _ => ?_, fun hrejected =>
        absurd hrejected hasks.not_rejected⟩
      rw [hcalls] at hsplit
      simp [List.cons_eq_append_iff] at hsplit
  | undone hasks hnative hwrite hrollback =>
      refine ⟨fun earlier later hsplit _ => ?_, fun hrejected =>
        absurd hrejected hasks.not_rejected⟩
      rw [hcalls] at hsplit
      exact write_mem_before_native hsplit

/-! ## The condition -/

/-- The condition under which an edit is all or nothing: it changes no managed
field, or it is refused, or the original passes the validation of the writer and
its commands can be read back. -/
def Safe (fold : NameFold) (spec : EditSpec) (original : ManagedApplicationConfig) : Prop :=
  spec.touchesManaged = false ∨ Rejected fold spec original ∨
    (validateManagedConfig fold original = .ok () ∧ ShortCommands original)

theorem exists_exits_of_valid {cfg : ManagedApplicationConfig}
    (hvalid : validateManagedConfig fold cfg = .ok ()) :
    ∃ exits, preflightConfig fold cfg = .ok exits := by
  rcases hpreflight : preflightConfig fold cfg with e | exits
  · rw [validateManagedConfig, hpreflight] at hvalid
    cases hvalid
  · exact ⟨exits, rfl⟩

theorem validateServiceName_of_native (hnative : validateNativeUpdate spec = .ok ()) :
    validateServiceName spec.name = .ok () := by
  obtain ⟨⟨⟩, hname, -⟩ := Check.bind_eq_ok.mp hnative
  exact hname

theorem replaces_self (htouches : spec.touchesManaged = false) :
    Replaces spec original original := by
  simp only [EditSpec.touchesManaged, Bool.or_eq_false_iff, Option.isSome_eq_false_iff,
    Option.isNone_iff_eq_none] at htouches
  obtain ⟨⟨⟨⟨happ, hparams⟩, hdir⟩, hout⟩, herr⟩ := htouches
  have hstream : ∀ stream : Option IoStream, StreamReplaced none stream stream :=
    fun stream => ⟨fun _ => rfl, by simp, by simp⟩
  exact {
    application := by rw [happ, Option.none_or]
    appParameters := by rw [hparams, Option.none_or]
    appDirectory := by rw [hdir, Option.none_or]
    stdout := by rw [hout]; exact hstream _
    stderr := by rw [herr]; exact hstream _
    stdin := rfl
    timestampLog := rfl
    environment := rfl
    environmentExtra := rfl
    priority := rfl
    affinity := rfl
    restart := rfl
    shutdown := rfl
    rotation := rfl
    exitActions := rfl
    hooks := rfl
    marks := fun m => by simp [hout, herr] }

/-- The hooks of a service are not edited. -/
theorem shortCommands_of_asks {managed : ManagedApplicationConfig}
    (hasks : Asks fold spec original managed) :
    ShortCommands managed ↔ ShortCommands original := by
  rw [ShortCommands, ShortCommands, (replaces_of_merge hasks.merge).hooks]

/-- A write that can be read back is stored. -/
theorem storedAs_of_written {cfg : ManagedApplicationConfig} {exits : ExitActions}
    (hpreflight : preflightConfig fold cfg = .ok exits) (hshort : ShortCommands cfg)
    {node node' : Params fold σ} (hwritten : Written cfg exits node node') (service : String) :
    StoredAs node' service cfg := by
  obtain ⟨found, hread, hsame⟩ :=
    read_of_written (accepted_of_preflightConfig fold hpreflight) hwritten hshort service
  exact ⟨found, hread, .inr hsame⟩

/-- Under the condition every run is all or nothing. -/
theorem allOrNothing_of_safe (hread : readManagedFromKey b.key spec.name = .ok (some original))
    (hsafe : Safe fold spec original) (hcalm : Calm (b.writeFaults 1))
    {outcome : Result String} {key : Params fold σ} {calls : List Call}
    (hrun : EditRun spec original b outcome key calls) :
    AllOrNothing spec original outcome key := by
  have hstored : StoredAs b.key spec.name original := ⟨original, hread, .inl rfl⟩
  have hreads := readsAs_of_read hread
  -- in the runs that write, the condition is that the original can be restored
  have hrestorable : ∀ {managed : ManagedApplicationConfig}, Asks fold spec original managed →
      validateManagedConfig fold original = .ok () ∧ ShortCommands original := by
    intro managed hasks
    rcases hsafe with htouches | hrejected | hgood
    · rw [hasks.touches] at htouches
      cases htouches
    · exact absurd hrejected hasks.not_rejected
    · exact hgood
  -- the rollback, from any key with readable names and an application
  have hrolledBack : ∀ {managed : ManagedApplicationConfig} {w w' : World (Params fold σ)}
      {rollback : Result Unit}, Asks fold spec original managed → NamesDecode w.node →
      ApplicationPresent w.node →
      (writeManagedConfig spec.name original).exec ⟨w.node, b.writeFaults 1⟩ = (rollback, w') →
      StoredAs w'.node spec.name original := by
    intro managed w w' rollback hasks hnames happ hrollback
    obtain ⟨hvalid, hshort⟩ := hrestorable hasks
    obtain ⟨exits, hpreflight⟩ := exists_exits_of_valid hvalid
    obtain ⟨⟨⟩, restored, hexec, hwritten⟩ := (runs_writeManagedConfig
      (validateServiceName_of_native hasks.native) hpreflight hnames happ).exec_calm hcalm
    rw [hrollback] at hexec
    cases hexec
    exact storedAs_of_written hpreflight hshort hwritten spec.name
  cases hrun with
  | stopped hstops hcalls =>
      refine ⟨fun _ _ => hstored, ?_⟩
      rintro m ⟨⟩
  | nativeOnly htouches =>
      exact ⟨fun _ _ => hstored, fun _ _ => ⟨original, replaces_self htouches, hstored⟩⟩
  | @written managed w m calls hasks hwrite hcalls =>
      refine ⟨by rintro e ⟨⟩, fun _ _ => ⟨managed, replaces_of_merge hasks.merge, ?_⟩⟩
      obtain ⟨exits, hpreflight⟩ := exists_exits_of_valid hasks.valid
      have hwritten := (Prog.wp_ok _ (runs_writeManagedConfig
        (validateServiceName_of_native hasks.native) hpreflight hreads.names hreads.application
        (b.writeFaults 0)) hwrite).1
      exact storedAs_of_written hpreflight
        ((shortCommands_of_asks hasks).mpr (hrestorable hasks).2) hwritten spec.name
  | @unwritten managed e e' w w' rollback hasks hwrite hrollback =>
      refine ⟨fun _ _ => ?_, by rintro m ⟨⟩⟩
      obtain ⟨exits, hpreflight⟩ := exists_exits_of_valid hasks.valid
      have hmidway := (Prog.wp_error _ (runs_writeManagedConfig
        (validateServiceName_of_native hasks.native) hpreflight hreads.names hreads.application
        (b.writeFaults 0)) hwrite).1
      exact hrolledBack hasks hmidway.names (applicationPresent_of_midway
        (accepted_of_preflightConfig fold hpreflight) hmidway hreads.application) hrollback
  | @undone managed e w w' rollback hasks hnative hwrite hrollback =>
      refine ⟨fun _ _ => ?_, by rintro m ⟨⟩⟩
      obtain ⟨exits, hpreflight⟩ := exists_exits_of_valid hasks.valid
      have hwritten := (Prog.wp_ok _ (runs_writeManagedConfig
        (validateServiceName_of_native hasks.native) hpreflight hreads.names hreads.application
        (b.writeFaults 0)) hwrite).1
      exact hrolledBack hasks hwritten.names (applicationPresent_of_written
        (accepted_of_preflightConfig fold hpreflight) hwritten) hrollback

end Guarantees

end Ngsm.Ops
