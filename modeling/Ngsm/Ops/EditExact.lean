/-
# The condition for atomic edits is exact

Whenever an accepted edit of a managed field is all or nothing under every
failure, the original configuration passes the validation of the writer.  The
argument places a fault right behind the moment at which a requested field has
changed.  If the rollback were refused, the key would keep the new field; since the
edit is all or nothing, the field was not changed at all, and a configuration
whose fields are all as in an accepted one is itself accepted.
-/

import Ngsm.Ops.EditAtomic

namespace Ngsm.Ops

open Ngsm.Lib Ngsm.Core Ngsm.Registry NssmKeys

variable {fold : NameFold} {σ : Type}

/-- An edit of the service in `key` is all or nothing under every failure, as long
as the calls of the rollback do not fail. -/
def Atomic (spec : EditSpec) (original : ManagedApplicationConfig) (key : Params fold σ) : Prop :=
  ∀ (b : Backend fold σ) (outcome : Result String) (after : Backend fold σ), b.key = key →
    b.writes = 0 → b.calls = [] → Calm (b.writeFaults 1) →
    (editWithBackend spec).exec b = (outcome, after) →
    AllOrNothing spec original outcome after.key

theorem Asks.unique {spec : EditSpec} {original managed managed' : ManagedApplicationConfig}
    (hasks : Asks fold spec original managed) (hasks' : Asks fold spec original managed') :
    managed' = managed :=
  Except.ok.inj (hasks'.merge.symm.trans hasks.merge)

/-- An accepted request is not stopped by anything but the lock or the read. -/
theorem Asks.not_stops {spec : EditSpec} {original managed : ManagedApplicationConfig}
    (hasks : Asks fold spec original managed) {b : Backend fold σ} (hlock : b.lockError = none)
    (hreadError : b.readError = none) : ¬ Stops spec original b := by
  have hchanges : spec.hasChanges = true := by
    have htouches := hasks.touches
    simp only [EditSpec.touchesManaged, Bool.or_eq_true] at htouches
    simp only [EditSpec.hasChanges, Bool.or_eq_true]
    tauto
  rintro (hnone | hnative | hl | hr | ⟨-, hrejected⟩)
  · rw [hchanges] at hnone
    cases hnone
  · exact hnative hasks.native
  · rw [hlock] at hl
    cases hl
  · rw [hreadError] at hr
    cases hr
  · exact hasks.not_rejected hrejected

/-! ## Marks that no field uses -/

theorem eqIgnoreAsciiCase_trans {s t u : String} (hst : Text.eqIgnoreAsciiCase s t = true)
    (hsu : Text.eqIgnoreAsciiCase s u = true) : Text.eqIgnoreAsciiCase t u = true := by
  simp only [Text.eqIgnoreAsciiCase, beq_iff_eq] at hst hsu ⊢
  rw [← hst, hsu]

/-- Marks of streams that the configuration does not have make no difference to
the preflight. -/
theorem preflight_of_unused_marks {cfg : ManagedApplicationConfig} {exits : ExitActions}
    {marked : Std.ExtTreeSet String}
    (hpreflight : preflightConfig fold { cfg with expandableStrings := marked } = .ok exits)
    (hsub : ∀ m ∈ marked, m ∈ cfg.expandableStrings)
    (hunused : ∀ m ∈ cfg.expandableStrings, m ∈ marked ∨ ∃ name ∈ expandableNames,
      Text.eqIgnoreAsciiCase m name = true ∧
        ∀ entry ∈ configuredPaths cfg, Text.eqIgnoreAsciiCase name entry.1 = false) :
    preflightConfig fold cfg = .ok exits := by
  simp only [preflightConfig, Check.bind_eq_ok] at hpreflight ⊢
  obtain ⟨⟨⟩, hrequire, ⟨⟩, hmarks, ⟨⟩, hnul, ⟨⟩, hmulti, seen, hhooks, ⟨⟩, hpaths, hexits⟩ :=
    hpreflight
  refine ⟨(), hrequire, (), ?_, (), hnul, (), hmulti, seen, hhooks, (), ?_, hexits⟩
  · rw [Check.forM_eq_ok] at hmarks ⊢
    intro m hm
    rcases hunused m (Std.ExtTreeSet.mem_toList.mp hm) with hin | ⟨name, hname, hequal, -⟩
    · exact hmarks m (Std.ExtTreeSet.mem_toList.mpr hin)
    · rw [checkMark, if_pos (List.any_eq_true.mpr ⟨name, hname, hequal⟩)]
  · rw [Check.forM_eq_ok] at hpaths ⊢
    intro entry hentry
    rw [← hpaths entry hentry]
    have hexpandable : cfg.isExpandableString entry.1 =
        ({ cfg with expandableStrings := marked } :
          ManagedApplicationConfig).isExpandableString entry.1 := by
      rw [Bool.eq_iff_iff]
      simp only [ManagedApplicationConfig.isExpandableString, List.any_eq_true,
        Std.ExtTreeSet.mem_toList]
      constructor
      · rintro ⟨m, hm, hequal⟩
        rcases hunused m hm with hin | ⟨name, -, hname, habsent⟩
        · exact ⟨m, hin, hequal⟩
        · have hfield := eqIgnoreAsciiCase_trans hname hequal
          rw [habsent entry hentry] at hfield
          cases hfield
      · rintro ⟨m, hm, hequal⟩
        exact ⟨m, hsub m hm, hequal⟩
    unfold validateRawPath
    rw [hexpandable]

theorem paths_without_stdout {cfg : ManagedApplicationConfig} (hnone : cfg.io.stdout = none) :
    ∀ entry ∈ configuredPaths cfg, Text.eqIgnoreAsciiCase "AppStdout" entry.1 = false := by
  have hnames : ∀ name ∈ ["Application", "AppDirectory", "AppStdin", "AppStderr"],
      Text.eqIgnoreAsciiCase "AppStdout" name = false := by decide
  intro entry hentry
  refine hnames entry.1 ?_
  simp only [configuredPaths, hnone, Option.toList_none, List.map_nil, List.append_nil,
    List.mem_append, List.mem_map] at hentry
  rcases hentry with ((⟨_, -, rfl⟩ | ⟨_, -, rfl⟩) | ⟨_, -, rfl⟩) | ⟨_, -, rfl⟩ <;> simp

theorem paths_without_stderr {cfg : ManagedApplicationConfig} (hnone : cfg.io.stderr = none) :
    ∀ entry ∈ configuredPaths cfg, Text.eqIgnoreAsciiCase "AppStderr" entry.1 = false := by
  have hnames : ∀ name ∈ ["Application", "AppDirectory", "AppStdin", "AppStdout"],
      Text.eqIgnoreAsciiCase "AppStderr" name = false := by decide
  intro entry hentry
  refine hnames entry.1 ?_
  simp only [configuredPaths, hnone, Option.toList_none, List.map_nil, List.append_nil,
    List.mem_append, List.mem_map] at hentry
  rcases hentry with ((⟨_, -, rfl⟩ | ⟨_, -, rfl⟩) | ⟨_, -, rfl⟩) | ⟨_, -, rfl⟩ <;> simp

/-! ## Where the stream values stand among the removals -/

theorem stdout_split : ownedValueNames =
    ownedValueNames.takeWhile (· ≠ appStdout ++ appStdioSharing) ++
      (appStdout ++ appStdioSharing) ::
        (ownedValueNames.dropWhile (· ≠ appStdout ++ appStdioSharing)).tail := by
  decide

theorem stdout_mem_before :
    appStdout ∈ ownedValueNames.takeWhile (· ≠ appStdout ++ appStdioSharing) := by
  decide

theorem stderr_split : ownedValueNames =
    ownedValueNames.takeWhile (· ≠ appStderr ++ appStdioSharing) ++
      (appStderr ++ appStdioSharing) ::
        (ownedValueNames.dropWhile (· ≠ appStderr ++ appStdioSharing)).tail := by
  decide

theorem stderr_mem_before :
    appStderr ∈ ownedValueNames.takeWhile (· ≠ appStderr ++ appStdioSharing) := by
  decide

section Exact

variable {spec : EditSpec} {original managed : ManagedApplicationConfig} {key : Params fold σ}
  (hread : readManagedFromKey key spec.name = .ok (some original))
  (hasks : Asks fold spec original managed) (hatomic : Atomic spec original key)

include hread hasks hatomic

/-- The commands can be read back: look at the run without a failure. -/
theorem shortCommands_of_atomic : ShortCommands original := by
  have hreads := readsAs_of_read hread
  obtain ⟨exits, hpreflight⟩ := exists_exits_of_valid hasks.valid
  obtain ⟨⟨⟩, w, hwrite, hwritten⟩ := (runs_writeManagedConfig
    (validateServiceName_of_native hasks.native) hpreflight hreads.names
    hreads.application).exec_noFaults
  let b : Backend fold σ := ⟨key, none, none, fun _ => noFaults, none, 0, []⟩
  rcases hexec : (editWithBackend spec).exec b with ⟨outcome, after⟩
  have hrun := editRun_of_exec (b := b) hread rfl rfl hexec
  have hall := hatomic b outcome after rfl rfl rfl (fun _ => rfl) hexec
  generalize after.key = key' at hrun hall
  generalize after.calls = calls at hrun
  cases hrun with
  | stopped hstops => exact absurd hstops (hasks.not_stops rfl rfl)
  | nativeOnly htouches =>
      rw [hasks.touches] at htouches
      cases htouches
  | written hasks' hwrite' =>
      rw [hasks.unique hasks', hwrite] at hwrite'
      cases hwrite'
      obtain ⟨managed', -, found, hfound, -⟩ := hall.done _ rfl
      rw [← shortCommands_of_asks hasks]
      exact shortCommands_of_read (accepted_of_preflightConfig fold hpreflight) hwritten hfound
  | unwritten hasks' hwrite' =>
      rw [hasks.unique hasks', hwrite] at hwrite'
      cases hwrite'
  | undone hasks' hnative => cases hnative

omit hatomic in
/-- A cut of the writer is a cut of the write through the backend. -/
theorem cuttable_writeManagedConfig {K : Params fold σ → Prop}
    (hcut : Cuttable (writeIntoKey managed) key K) :
    Cuttable (writeManagedConfig spec.name managed) key K := by
  obtain ⟨value, app, hvalue, hholds, hblank⟩ := (readsAs_of_read hread).application
  obtain ⟨exits, hpreflight⟩ := exists_exits_of_valid hasks.valid
  obtain ⟨⟨⟩, happ, -⟩ := Check.bind_eq_ok.mp hpreflight
  have hlift : ∀ {x : Result Unit}, x = .ok () →
      (liftExcept x : RegM (Params fold σ) Unit).exec ⟨key, noFaults⟩ =
        (.ok (), ⟨key, noFaults⟩) := by
    rintro _ rfl
    rfl
  have hmarker : (requireManagedMarker : RegM (Params fold σ) Unit).exec ⟨key, noFaults⟩ =
      (.ok (), ⟨key, noFaults⟩) := by
    unfold requireManagedMarker
    rw [exec_query, readTypedString_of_holds hvalue hholds]
    simp only [Registry.optional, hblank, Bool.false_eq_true, if_false]
  refine Cuttable.bind_right (Answered.lift _).causal
    (hlift (validateServiceName_of_native hasks.native)) ?_
  refine Cuttable.bind_right (Answered.lift _).causal (hlift hasks.valid) ?_
  refine Cuttable.bind_right (Causal.query _ _) (a := ()) (w := ⟨key, noFaults⟩) rfl ?_
  refine Cuttable.bind_right (Answered.lift _).causal (hlift happ) ?_
  refine Cuttable.bind_right (Causal.query _ _) (a := ()) (w := ⟨key, noFaults⟩) rfl ?_
  exact Cuttable.bind_right (Causal.query _ _) hmarker hcut

/-- If the rollback is refused, the original can be read wherever the write was
cut. -/
theorem storedAs_of_cut (hrefused : validateManagedConfig fold original ≠ .ok ())
    {K : Params fold σ → Prop} (hcut : Cuttable (writeIntoKey managed) key K) :
    ∃ node, K node ∧ StoredAs node spec.name original := by
  obtain ⟨faults, e, w, hwrite, hK⟩ := cuttable_writeManagedConfig hread hasks hcut
  let b : Backend fold σ :=
    ⟨key, none, none, fun n => if n = 0 then faults else noFaults, none, 0, []⟩
  rcases hexec : (editWithBackend spec).exec b with ⟨outcome, after⟩
  have hrun := editRun_of_exec (b := b) hread rfl rfl hexec
  have hall := hatomic b outcome after rfl rfl rfl (fun _ => rfl) hexec
  generalize after.key = key' at hrun hall
  generalize after.calls = calls at hrun
  refine ⟨w.node, hK, ?_⟩
  cases hrun with
  | stopped hstops => exact absurd hstops (hasks.not_stops rfl rfl)
  | nativeOnly htouches =>
      rw [hasks.touches] at htouches
      cases htouches
  | written hasks' hwrite' =>
      rw [hasks.unique hasks'] at hwrite'
      cases hwrite.symm.trans hwrite'
  | @unwritten _ _ _ w₁ w₂ rollback hasks' hwrite' hrollback =>
      rw [hasks.unique hasks'] at hwrite'
      obtain rfl : w = w₁ := congrArg Prod.snd (hwrite.symm.trans hwrite')
      obtain ⟨e', hexec'⟩ := exec_writeManagedConfig_refused hrefused ⟨w.node, b.writeFaults 1⟩
      rw [hexec'] at hrollback
      cases hrollback
      exact hall.failed _ rfl
  | undone hasks' hnative => cases hnative

/-! ## The requested fields -/

omit hread hasks hatomic in
/-- The strings of a stored configuration are those of the key. -/
theorem stringsRead_of_storedAs {node : Params fold σ} {service : String}
    (hstored : StoredAs node service original) : StringsRead node original := by
  obtain ⟨found, hfound, hsame⟩ := hstored
  have hstrings := stringsRead_of_read hfound
  rcases hsame with rfl | hsame
  · exact hstrings
  · exact {
      application := hsame.application ▸ hstrings.application
      appParameters := hsame.appParameters ▸ hstrings.appParameters
      appDirectory := hsame.appDirectory ▸ hstrings.appDirectory
      stdout := hsame.io ▸ hstrings.stdout
      stderr := hsame.io ▸ hstrings.stderr }

/-- A string that the request leaves or puts in place was there before. -/
theorem exists_strings_of_put (hrefused : validateManagedConfig fold original ≠ .ok ())
    {name text : String} (hput : ⟨name, some (.string text)⟩ ∈ scalarPuts managed) :
    ∃ node : Params fold σ, stringAt node name = some text ∧ StringsRead node original := by
  obtain ⟨exits, hpreflight⟩ := exists_exits_of_valid hasks.valid
  have haccepted := accepted_of_preflightConfig fold hpreflight
  have hname : name ∈ scalarNames := by
    rw [← map_name_scalarPuts managed]
    exact List.mem_map.mpr ⟨_, hput, rfl⟩
  obtain ⟨node, hvalue, hstored⟩ := storedAs_of_cut hread hasks hatomic hrefused
    (cuttable_after_put hpreflight (readsAs_of_read hread).names (wantedScalars_of_mem hput))
  refine ⟨node, ?_, stringsRead_of_storedAs hstored⟩
  rw [stringAt, Node.value?_eq, key_scalarName hname, hvalue, Option.map_some]
  exact congrArg some (entryText_stringValue _ (storable_of_accepted haccepted _ hput _ rfl))

/-- A stream that the request removes was not there before. -/
theorem exists_strings_of_removed (hrefused : validateManagedConfig fold original ≠ .ok ())
    {name next : String} {before after : List String}
    (hsplit : ownedValueNames = before ++ next :: after) (hname : name ∈ before)
    (hput : ⟨name, none⟩ ∈ scalarPuts managed) (hnext : ⟨next, none⟩ ∈ scalarPuts managed) :
    ∃ node : Params fold σ, stringAt node name = none ∧ StringsRead node original := by
  obtain ⟨exits, hpreflight⟩ := exists_exits_of_valid hasks.valid
  have hunwritten : ∀ {n : String}, ⟨n, none⟩ ∈ scalarPuts managed →
      (writtenNames managed).contains n = false := by
    intro n hn
    have howned : n ∈ ownedValueNames := by
      rw [← mem_scalarNames_iff, ← map_name_scalarPuts managed]
      exact List.mem_map.mpr ⟨_, hn, rfl⟩
    rw [@contains_writtenNames fold _ _ howned, wantedScalars_of_mem hn]
    rfl
  obtain ⟨node, hvalue, hstored⟩ := storedAs_of_cut hread hasks hatomic hrefused
    (cuttable_after_delete hpreflight (readsAs_of_read hread).names hsplit hname
      (hunwritten hput) (hunwritten hnext))
  refine ⟨node, ?_, stringsRead_of_storedAs hstored⟩
  rw [stringAt, Node.value?_eq, hvalue]
  rfl

/-- A stream is as it was, when its path can be found in some key that reads as
the original. -/
theorem stream_unchanged (hrefused : validateManagedConfig fold original ≠ .ok ())
    {base : String} {path : Option String} {stream old : Option IoStream}
    {before after : List String} (hsplit : ownedValueNames =
      before ++ (base ++ appStdioSharing) :: after) (hbase : base ∈ before)
    (hputs : ∀ put ∈ streamPuts base stream, put ∈ scalarPuts managed)
    (hreplaced : StreamReplaced path old stream)
    (hpath : ∀ s, stream = some s → (base, s.path) ∈ configuredPaths managed)
    (hstrings : ∀ node : Params fold σ, StringsRead node original →
      old.map (·.path) = (stringAt node base).filter (!·.isEmpty)) : stream = old := by
  obtain ⟨exits, hpreflight⟩ := exists_exits_of_valid hasks.valid
  have haccepted := accepted_of_preflightConfig fold hpreflight
  cases stream with
  | none =>
      obtain ⟨node, hat, hread'⟩ := exists_strings_of_removed hread hasks hatomic hrefused hsplit
        hbase (hputs ⟨base, none⟩ (by simp [streamPuts]))
        (hputs ⟨base ++ appStdioSharing, none⟩ (by simp [streamPuts]))
      have hold := hstrings node hread'
      rw [hat] at hold
      exact (Option.map_eq_none_iff.mp hold).symm
  | some s =>
      have hnonempty : s.path ≠ "" := haccepted.paths _ (hpath s rfl)
      obtain ⟨node, hat, hread'⟩ := exists_strings_of_put hread hasks hatomic hrefused
        (hputs ⟨base, some (.string s.path)⟩ (by simp [streamPuts]))
      have hold := hstrings node hread'
      rw [hat, Option.filter_some, if_pos (by simpa using hnonempty)] at hold
      obtain ⟨o, rfl, hsame⟩ := Option.map_eq_some_iff.mp hold
      rcases path with _ | p
      · exact hreplaced.1 rfl
      · by_cases hp : p = ""
        · have hnone := hreplaced.2.1 (by rw [hp])
          cases hnone
        · obtain ⟨_, ⟨⟩, hpp, hkeep⟩ := hreplaced.2.2 p rfl hp
          rw [hkeep o rfl, ← hpp, ← hsame]

/-- An edit that is all or nothing starts from a configuration that the writer
accepts. -/
theorem valid_of_atomic : validateManagedConfig fold original = .ok () := by
  by_contra hrefused
  have hreplaces := replaces_of_merge hasks.merge
  obtain ⟨exits, hpreflight⟩ := exists_exits_of_valid hasks.valid
  have hstring : ∀ (name : String) {request old new : Option String},
      ⟨name, new.map .string⟩ ∈ scalarPuts managed → new = request.or old →
      (∀ node : Params fold σ, StringsRead node original → old = stringAt node name) →
      new = old := by
    intro name request old new hput hnew hstrings
    rcases new with _ | text
    · cases request with
      | none => simpa using hnew
      | some v => cases hnew
    · obtain ⟨node, hat, hread'⟩ := exists_strings_of_put hread hasks hatomic hrefused hput
      rw [hstrings node hread', hat]
  have happ := hstring application (by simp [scalarPuts]) hreplaces.application
    fun node h => h.application
  have hparams := hstring appParameters (by simp [scalarPuts]) hreplaces.appParameters
    fun node h => h.appParameters
  have hdir := hstring appDirectory (by simp [scalarPuts]) hreplaces.appDirectory
    fun node h => h.appDirectory
  have hstdout := stream_unchanged hread hasks hatomic hrefused stdout_split stdout_mem_before
    (fun put hput => by simp [scalarPuts, hput]) hreplaces.stdout
    (fun s hs => by simp [configuredPaths, hs, appStdout]) fun node h => h.stdout
  have hstderr := stream_unchanged hread hasks hatomic hrefused stderr_split stderr_mem_before
    (fun put hput => by simp [scalarPuts, hput]) hreplaces.stderr
    (fun s hs => by simp [configuredPaths, hs, appStderr]) fun node h => h.stderr
  have hio : managed.io = original.io := by
    ext1
    · exact hreplaces.stdin
    · exact hstdout
    · exact hstderr
    · exact hreplaces.timestampLog
  have hsame : managed = { original with expandableStrings := managed.expandableStrings } := by
    ext1
    · exact happ
    · exact hparams
    · exact hdir
    · exact hreplaces.environment
    · exact hreplaces.environmentExtra
    · exact hreplaces.priority
    · exact hreplaces.affinity
    · exact hreplaces.restart
    · exact hreplaces.shutdown
    · exact hio
    · exact hreplaces.rotation
    · exact hreplaces.exitActions
    · exact hreplaces.hooks
    · rfl
  -- a stream whose mark was dropped has been removed, and so was never there
  have hvalid : preflightConfig fold original = .ok exits := by
    rw [hsame] at hpreflight
    refine preflight_of_unused_marks hpreflight (fun m hm => ((hreplaces.marks m).mp hm).1)
      fun m hm => ?_
    by_cases hin : m ∈ managed.expandableStrings
    · exact .inl hin
    · right
      rw [hreplaces.marks m, not_and, not_and_or, not_not, not_not] at hin
      rcases hin hm with ⟨hcleared, hequal⟩ | ⟨hcleared, hequal⟩
      · exact ⟨"AppStdout", by decide, hequal, paths_without_stdout
          (hstdout.symm.trans (hreplaces.stdout.2.1 hcleared))⟩
      · exact ⟨"AppStderr", by decide, hequal, paths_without_stderr
          (hstderr.symm.trans (hreplaces.stderr.2.1 hcleared))⟩
  refine hrefused ?_
  rw [validateManagedConfig, hvalid]
  rfl

end Exact

/-! ## The guarantee -/

/-- Edits on every service that can be read: the calls come in the right order and
a refused request writes nothing; and an edit is all or nothing under every failure
exactly when it changes no managed field, or is refused, or the original passes
the writer's own validation with commands that can be read back. -/
theorem edit_atomic_iff (spec : EditSpec) {original : ManagedApplicationConfig}
    {key : Params fold σ} (hread : readManagedFromKey key spec.name = .ok (some original)) :
    (∀ (b : Backend fold σ) (outcome : Result String) (after : Backend fold σ), b.key = key →
      b.writes = 0 → b.calls = [] → (editWithBackend spec).exec b = (outcome, after) →
      Disciplined spec original b after) ∧
    (Atomic spec original key ↔ Safe fold spec original) := by
  constructor
  · rintro b outcome after rfl hwrites hcalls hexec
    exact disciplined_of_editRun (editRun_of_exec hread hwrites hcalls hexec)
  constructor
  · intro hatomic
    by_cases htouches : spec.touchesManaged = false
    · exact .inl htouches
    by_cases hrejected : Rejected fold spec original
    · exact .inr (.inl hrejected)
    rw [Rejected, not_or, not_not] at hrejected
    push Not at hrejected
    obtain ⟨hnative, managed, hmerge, hvalid⟩ := hrejected
    have hasks : Asks fold spec original managed :=
      ⟨by simpa using htouches, hnative, hmerge, hvalid⟩
    exact .inr (.inr ⟨valid_of_atomic hread hasks hatomic,
      shortCommands_of_atomic hread hasks hatomic⟩)
  · rintro hsafe b outcome after rfl hwrites hcalls hcalm hexec
    exact allOrNothing_of_safe hread hsafe hcalm (editRun_of_exec hread hwrites hcalls hexec)

/-- An edit of a service whose configuration the writer accepts. -/
theorem edit_atomic_foreignKey :
    Atomic { name := "svc", appParameters := some "--changed" } (hookedConfig "hook.exe")
      (foreignKey "hook.exe") := by
  have hread : readManagedFromKey (foreignKey "hook.exe") "svc" =
      .ok (some (hookedConfig "hook.exe")) :=
    foreignKey_reads (by decide) (by decide) (by decide)
  refine (edit_atomic_iff { name := "svc", appParameters := some "--changed" } hread).2.mpr
    (.inr (.inr ⟨?_, ?_⟩))
  · rw [validateManagedConfig, preflight_hookedConfig (by decide)]
    rfl
  · intro hook hhook
    obtain rfl := List.mem_singleton.mp hhook
    decide

/-- A service whose application is a relative path, as another tool may have
stored it. -/
def relativeConfig : ManagedApplicationConfig :=
  { application := some "app.exe" }

def relativeKey : Params asciiFold Unit :=
  Node.empty.setValue application (stringValue regSz "app.exe")

theorem relativeKey_reads : readManagedFromKey relativeKey "svc" = .ok (some relativeConfig) :=
  read_of_hooks_only rfl (by decide) (by decide) (by decide) rfl
    (fun _ => rfl) "svc"

theorem relativeConfig_refused : validateManagedConfig asciiFold relativeConfig ≠ .ok () := by
  intro hvalid
  obtain ⟨exits, hpreflight⟩ := exists_exits_of_valid hvalid
  simp only [preflightConfig, Check.bind_eq_ok] at hpreflight
  obtain ⟨⟨⟩, -, ⟨⟩, -, ⟨⟩, -, ⟨⟩, -, seen, -, ⟨⟩, hpaths, -⟩ := hpreflight
  have hpath := Check.forM_eq_ok.mp hpaths ("Application", "app.exe") (by decide)
  revert hpath
  decide

def absoluteEdit : EditSpec :=
  { name := "svc", application := some "C:\\app.exe" }

theorem merge_absoluteEdit : mergeManagedFields relativeConfig absoluteEdit = .ok plainConfig := by
  rw [mergeManagedFields, if_neg (by decide)]
  rfl

theorem asks_absoluteEdit : Asks asciiFold absoluteEdit relativeConfig plainConfig := by
  refine ⟨rfl, by decide, merge_absoluteEdit, ?_⟩
  rw [validateManagedConfig, preflight_plainConfig]
  rfl

/-- Replacing the relative path by an absolute one is not all or nothing: once the
new path is stored, the rollback to the old one is refused. -/
theorem edit_not_atomic_relativeKey :
    readManagedFromKey relativeKey "svc" = .ok (some relativeConfig) ∧
      ¬ Atomic absoluteEdit relativeConfig relativeKey := by
  have hread : readManagedFromKey relativeKey absoluteEdit.name = .ok (some relativeConfig) :=
    relativeKey_reads
  exact ⟨relativeKey_reads, fun hatomic =>
    relativeConfig_refused (valid_of_atomic hread asks_absoluteEdit hatomic)⟩

end Ngsm.Ops
