/-
# The write/read round trip

Writing an accepted configuration and reading it back gives the configuration
again, up to the normalisation the code itself performs: `SameConfig`.  The
writer puts no limit on the length of a hook command, while the reader refuses a
stored command of more than a mebibyte; `ShortCommands` is exactly the condition
under which the round trip succeeds.
-/

import Ngsm.Registry.ReadSpec

namespace Ngsm.Registry

open Ngsm.Lib Ngsm.Core NssmKeys

variable {fold : NameFold} {σ : Type}

/-! ## Equality up to normalisation -/

/-- The metadata names of the strings a configuration has. -/
def presentStrings (cfg : ManagedApplicationConfig) : List String :=
  cfg.application.toList.map (fun _ => application) ++
  cfg.appParameters.toList.map (fun _ => appParameters) ++
  cfg.appDirectory.toList.map (fun _ => appDirectory) ++
  cfg.affinity.toList.map (fun _ => appAffinity) ++
  cfg.io.stdin.toList.map (fun _ => appStdin) ++
  cfg.io.stdout.toList.map (fun _ => appStdout) ++
  cfg.io.stderr.toList.map (fun _ => appStderr) ++
  cfg.hooks.map fun hook => ManagedApplicationConfig.hookExpansionKey hook.event hook.action

/-- A hook identity with this command is configured. -/
def HasHook (fold : NameFold) (cfg : ManagedApplicationConfig) (k : Name × Name)
    (command : String) : Prop :=
  ∃ hook ∈ cfg.hooks, hookIdentity fold hook = k ∧ hook.command = command

/-- `cfg'` is `cfg` up to the normalisation of the writer: exit actions under
their normalised keys with the default action mirrored, hooks by identity, and
expansion marks, compared as registry names, for the strings that are present. -/
structure SameConfig (fold : NameFold) (cfg cfg' : ManagedApplicationConfig) : Prop where
  application : cfg'.application = cfg.application
  appParameters : cfg'.appParameters = cfg.appParameters
  appDirectory : cfg'.appDirectory = cfg.appDirectory
  environment : cfg'.environment = cfg.environment
  environmentExtra : cfg'.environmentExtra = cfg.environmentExtra
  priority : cfg'.priority = cfg.priority
  affinity : cfg'.affinity = cfg.affinity
  restartDelayMs : cfg'.restart.restartDelayMs = cfg.restart.restartDelayMs
  throttleDelayMs : cfg'.restart.throttleDelayMs = cfg.restart.throttleDelayMs
  shutdown : cfg'.shutdown = cfg.shutdown
  io : cfg'.io = cfg.io
  rotation : cfg'.rotation = cfg.rotation
  exitActions : normalizedExitActions cfg = .ok cfg'.exitActions
  defaultAction : cfg'.restart.defaultAction = cfg'.exitActions["default"]?.map (·.action)
  hooks : ∀ k command, HasHook fold cfg' k command ↔ HasHook fold cfg k command
  marks : ∀ name ∈ presentStrings cfg,
    registryIsExpandable fold cfg' name = registryIsExpandable fold cfg name
  onlyPresent : ∀ m ∈ cfg'.expandableStrings, ∃ name ∈ presentStrings cfg,
    windowsNameKey fold m = windowsNameKey fold name

/-- Every hook command fits, with its terminator, into what the reader accepts. -/
def ShortCommands (cfg : ManagedApplicationConfig) : Prop :=
  ∀ hook ∈ cfg.hooks, (Utf16.encode hook.command).length ≤ 524287

theorem registryIsExpandable_iff (cfg : ManagedApplicationConfig) (name : String) :
    registryIsExpandable fold cfg name = true ↔
      ∃ m ∈ cfg.expandableStrings, windowsNameKey fold m = windowsNameKey fold name := by
  simp only [registryIsExpandable, List.any_eq_true, decide_eq_true_eq,
    Std.ExtTreeSet.mem_toList]

theorem registryIsExpandable_congr {cfg : ManagedApplicationConfig} {name name' : String}
    (hsame : windowsNameKey fold name = windowsNameKey fold name') :
    registryIsExpandable fold cfg name = registryIsExpandable fold cfg name' := by
  rw [registryIsExpandable, registryIsExpandable, hsame]

/-! ## The stored hooks of a written key -/

section Written

variable {cfg : ManagedApplicationConfig} {exits : ExitActions} {node node' : Params fold σ}
  (haccepted : Accepted fold cfg exits) (hwritten : Written cfg exits node node')

include hwritten

/-- Each stored command belongs to a configured hook. -/
theorem exists_hook_of_stored {events : Node fold (Node fold σ)}
    (hevents : node'.childAt (eventsKey fold) = some events)
    {event : Name × Node fold σ} (hevent : event ∈ events.subkeys.entries)
    {entry : Name × RegValue} (hentry : entry ∈ event.2.values.entries) :
    ∃ hook ∈ cfg.hooks, hookIdentity fold hook = (fold.key event.1, fold.key entry.1) ∧
      entry.2 = hookValue fold cfg hook := by
  have hstored : hooksAt node' (fold.key event.1, fold.key entry.1) = some entry.2 := by
    rw [hooksAt, hevents]
    change (events.childAt (fold.key event.1)).bind _ = _
    rw [Node.childAt, (Table.mem_entries_iff _ event.1 event.2).mp hevent]
    change event.2.valueAt (fold.key entry.1) = _
    rw [Node.valueAt, (Table.mem_entries_iff _ entry.1 entry.2).mp hentry]
    rfl
  rw [hwritten.hooks, wantedHooks, Option.map_eq_some_iff] at hstored
  obtain ⟨hook, hfind, hvalue⟩ := hstored
  exact ⟨hook, List.mem_of_find?_eq_some hfind, by simpa using List.find?_some hfind,
    hvalue.symm⟩

include haccepted

/-- Each configured hook is stored. -/
theorem exists_stored_of_hook {hook : HookConfig} (hhook : hook ∈ cfg.hooks) :
    ∃ events, node'.childAt (eventsKey fold) = some events ∧
      ∃ event ∈ events.subkeys.entries, ∃ entry ∈ event.2.values.entries,
        hookIdentity fold hook = (fold.key event.1, fold.key entry.1) ∧
        entry.2 = hookValue fold cfg hook := by
  have hwanted := wantedHooks_of_mem haccepted hhook
  rw [← hwritten.hooks, hooksAt, Option.bind_eq_some_iff] at hwanted
  obtain ⟨events, hevents, hwanted⟩ := hwanted
  rw [hookAt, Option.bind_eq_some_iff] at hwanted
  obtain ⟨child, hchild, hvalue⟩ := hwanted
  obtain ⟨event, hevent, rfl⟩ := Option.map_eq_some_iff.mp hchild
  obtain ⟨entry, hentry, hsame⟩ := Option.map_eq_some_iff.mp hvalue
  refine ⟨events, hevents, event, List.mem_of_find?_eq_some hevent, entry,
    List.mem_of_find?_eq_some hentry, ?_, hsame⟩
  rw [Table.key_of_lookup hevent, Table.key_of_lookup hentry]

/-- A written events key can be read when the commands are short. -/
theorem readableEvents_of_written (hshort : ShortCommands cfg)
    {events : Node fold (Node fold σ)}
    (hevents : node'.childAt (eventsKey fold) = some events) : ReadableEvents events := by
  have hdecode := hwritten.names.events events hevents
  refine ⟨hdecode, fun event hevent => ?_, fun event hevent entry hentry => ?_,
    fun event hevent entry hentry => ?_⟩
  · have hchild : events.childAt (fold.key event.1) = some event.2 := by
      rw [Node.childAt, (Table.mem_entries_iff _ event.1 event.2).mp hevent]
      rfl
    obtain ⟨hook, hhook, hsame⟩ := hwritten.events events hevents _ _ hchild
    rw [← @DecodableName.key_text fold _ (hdecode event hevent).1] at hsame
    exact validateHookComponent_congr hsame.symm (haccepted.hookEvent hook hhook)
  · obtain ⟨hook, hhook, hsame, -⟩ := exists_hook_of_stored hwritten hevents hevent hentry
    have haction : windowsNameKey fold hook.action = fold.key entry.1 := congrArg Prod.snd hsame
    rw [← @DecodableName.key_text fold _ ((hdecode event hevent).2 entry hentry)] at haction
    exact validateHookComponent_congr haction.symm (haccepted.hookAction hook hhook)
  · obtain ⟨hook, hhook, -, hvalue⟩ := exists_hook_of_stored hwritten hevents hevent hentry
    refine ⟨_, hook.command, hvalue, ?_, hookCommand_noNul haccepted hhook, ?_⟩
    · unfold stringKind
      split
      · exact .inr rfl
      · exact .inl rfl
    · have hlength := hshort hook hhook
      rw [hvalue, hookValue, length_stringValue]
      unfold valueCapLimit
      omega

/-- The hooks that reading a written key returns, and the marks it adds. -/
theorem wp_readHooks (hshort : ShortCommands cfg) {R : Error → Std.ExtTreeSet String → Prop}
    (marked : Std.ExtTreeSet String) :
    (readHooks node').wp
      (fun hooks marked' =>
        (∀ k command, (∃ hook ∈ hooks, hookIdentity fold hook = k ∧ hook.command = command) ↔
          HasHook fold cfg k command) ∧
        (∀ m ∈ marked', m ∈ marked ∨ (registryIsExpandable fold cfg m = true ∧
          ∃ hook ∈ cfg.hooks, windowsNameKey fold m = windowsNameKey fold
            (ManagedApplicationConfig.hookExpansionKey hook.event hook.action))) ∧
        (∀ m ∈ marked, m ∈ marked') ∧
        ∀ hook ∈ cfg.hooks, registryIsExpandable fold cfg
            (ManagedApplicationConfig.hookExpansionKey hook.event hook.action) = true →
          ∃ m ∈ marked', windowsNameKey fold m = windowsNameKey fold
            (ManagedApplicationConfig.hookExpansionKey hook.event hook.action)) R marked := by
  unfold readHooks
  rw [Node.subkey?_eq, ← eventsKey]
  rcases hevents : node'.childAt (eventsKey fold) with _ | events
  · have hempty : ∀ hook, hook ∉ cfg.hooks := by
      intro hook hhook
      obtain ⟨events, hsome, -⟩ := exists_stored_of_hook haccepted hwritten hhook
      rw [hevents] at hsome
      cases hsome
    refine ⟨fun k command => ?_, fun m hm => .inl hm, fun m hm => hm,
      fun hook hhook => absurd hhook (hempty hook)⟩
    constructor
    · rintro ⟨hook, hhook, -⟩
      cases hhook
    · rintro ⟨hook, hhook, -⟩
      exact absurd hhook (hempty hook)
  · have hreadable := readableEvents_of_written haccepted hwritten hshort hevents
    have hdecode := hreadable.decode
    have hnames : subkeyNames events =
        .ok (events.subkeys.entries.map fun entry => nameText entry.1) :=
      readAll_of_ok _ _ fun entry hentry _ => (hdecode entry hentry).1.readName_eq _
    have hkey : ∀ event ∈ events.subkeys.entries, ∀ entry ∈ event.2.values.entries,
        (windowsNameKey fold (nameText event.1), windowsNameKey fold (nameText entry.1)) =
          (fold.key event.1, fold.key entry.1) := by
      intro event hevent entry hentry
      rw [(hdecode event hevent).1.key_text, ((hdecode event hevent).2 entry hentry).key_text]
    have htext : ∀ hook ∈ cfg.hooks, entryText (hookValue fold cfg hook) = hook.command :=
      fun hook hhook => entryText_stringValue _ (hookCommand_noNul haccepted hhook)
    have hmarkKey : ∀ {hook : HookConfig} {event : Name × Node fold σ} {entry : Name × RegValue},
        event ∈ events.subkeys.entries → entry ∈ event.2.values.entries →
        hookIdentity fold hook = (fold.key event.1, fold.key entry.1) →
        windowsNameKey fold (ManagedApplicationConfig.hookExpansionKey (nameText event.1)
          (nameText entry.1)) = windowsNameKey fold
            (ManagedApplicationConfig.hookExpansionKey hook.event hook.action) := by
      intro hook event entry hevent hentry hsame
      rw [windowsNameKey_hookExpansionKey, windowsNameKey_hookExpansionKey,
        (hdecode event hevent).1.key_text, ((hdecode event hevent).2 entry hentry).key_text,
        show windowsNameKey fold hook.event = fold.key event.1 from congrArg Prod.fst hsame,
        show windowsNameKey fold hook.action = fold.key entry.1 from congrArg Prod.snd hsame]
    simp only [Prog.wp_bind, Prog.wp_liftExcept, hnames]
    refine Prog.wp_mono _ ?_ (fun _ _ h => h) (wp_readEvent_fold hreadable marked)
    rintro hooks marked' ⟨rfl, hmarks⟩
    refine ⟨fun k command => ?_, fun m hm => ?_, fun m hm => (hmarks m).mpr (.inl hm), ?_⟩
    · constructor
      · rintro ⟨hook, hhook, rfl, rfl⟩
        obtain ⟨event, hevent, hhook⟩ := List.mem_flatMap.mp hhook
        obtain ⟨entry, hentry, rfl⟩ := List.mem_map.mp hhook
        obtain ⟨source, hsource, hsame, hvalue⟩ :=
          exists_hook_of_stored hwritten hevents hevent hentry
        refine ⟨source, hsource, ?_, ?_⟩
        · rw [hsame]
          exact (hkey event hevent entry hentry).symm
        · rw [hvalue, htext source hsource]
      · rintro ⟨hook, hhook, rfl, rfl⟩
        obtain ⟨events', hevents', event, hevent, entry, hentry, hsame, hvalue⟩ :=
          exists_stored_of_hook haccepted hwritten hhook
        rw [hevents] at hevents'
        cases hevents'
        refine ⟨_, List.mem_flatMap.mpr ⟨event, hevent, List.mem_map.mpr ⟨entry, hentry, rfl⟩⟩,
          ?_, ?_⟩
        · rw [hsame]
          exact hkey event hevent entry hentry
        · rw [hvalue]
          exact htext hook hhook
    · rcases (hmarks m).mp hm with hold | ⟨event, hevent, entry, hentry, hkind, rfl⟩
      · exact .inl hold
      · obtain ⟨hook, hhook, hsame, hvalue⟩ := exists_hook_of_stored hwritten hevents hevent hentry
        have hmark := hmarkKey hevent hentry hsame
        refine .inr ⟨?_, hook, hhook, hmark⟩
        rw [registryIsExpandable_congr hmark]
        rw [hvalue] at hkind
        change stringKind fold cfg _ = regExpandSz at hkind
        unfold stringKind at hkind
        split at hkind
        · assumption
        · exact absurd hkind (by decide)
    · intro hook hhook hexpandable
      obtain ⟨events', hevents', event, hevent, entry, hentry, hsame, hvalue⟩ :=
        exists_stored_of_hook haccepted hwritten hhook
      rw [hevents] at hevents'
      cases hevents'
      refine ⟨_, (hmarks _).mpr (.inr ⟨event, hevent, entry, hentry, ?_, rfl⟩),
        hmarkKey hevent hentry hsame⟩
      rw [hvalue]
      change stringKind fold cfg _ = regExpandSz
      rw [stringKind, if_pos hexpandable]

/-! ## The scalar fields -/

omit haccepted in
/-- Each scalar value of a written key is what the configuration puts there. -/
theorem value?_of_written {put : Put} (hput : put ∈ scalarPuts cfg) :
    node'.value? put.name = put.payload.map (payloadValue fold cfg put.name) := by
  have hname : put.name ∈ scalarNames := by
    rw [← map_name_scalarPuts cfg]
    exact List.mem_map.mpr ⟨put, hput, rfl⟩
  rw [Node.value?_eq, key_scalarName hname, hwritten.scalars _ (mem_ownedKeys hname),
    wantedScalars_of_mem hput]

end Written

theorem map_payloadValue_dword (cfg : ManagedApplicationConfig) (name : String)
    (value : Option UInt32) :
    (value.map Payload.dword).map (payloadValue fold cfg name) = value.map dwordValue := by
  rw [Option.map_map]
  rfl

theorem map_payloadValue_bool (cfg : ManagedApplicationConfig) (name : String)
    (flag : Option Bool) :
    (boolPayload flag).map (payloadValue fold cfg name) =
      (flag.map fun b => if b then (1 : UInt32) else 0).map dwordValue := by
  rw [boolPayload, Option.map_map, Option.map_map]
  rfl

theorem map_payloadValue_string (cfg : ManagedApplicationConfig) (name : String)
    (value : Option String) :
    (value.map Payload.string).map (payloadValue fold cfg name) =
      value.map (stringValue
        (if registryIsExpandable fold cfg name then regExpandSz else regSz)) := by
  rw [Option.map_map]
  rfl

theorem map_payloadValue_multi (cfg : ManagedApplicationConfig) (name : String)
    (values : List String) :
    (multiPayload values).map (payloadValue fold cfg name) =
      if values.isEmpty then none else some (multiValue values) := by
  unfold multiPayload
  split <;> rfl

theorem flag_roundTrip (flag : Option Bool) :
    (flag.map fun b => if b then (1 : UInt32) else 0).map (· != 0) = flag := by
  cases flag with
  | none => rfl
  | some b => cases b <;> rfl

theorem rotateBytes_roundTrip (bytes : Option UInt64) :
    rotateBytes (bytes.map fun v => v.toUInt32)
      (bytes.map fun (v : UInt64) => (v >>> 32).toUInt32) = bytes := by
  cases bytes with
  | none => rfl
  | some v =>
      simp only [Option.map_some, rotateBytes, Option.getD_some, Option.some.injEq]
      apply UInt64.toNat_inj.mp
      have hbound : v.toNat < 2 ^ 64 := v.toNat_lt
      have hlow : v.toNat % 2 ^ 32 < 2 ^ 32 := Nat.mod_lt _ (by decide)
      simp only [UInt64.toNat_or, UInt64.toNat_shiftLeft, UInt64.toNat_shiftRight,
        UInt32.toNat_toUInt64, UInt64.toNat_toUInt32, UInt64.reduceToNat, Nat.reduceMod,
        Nat.shiftRight_eq_div_pow]
      have hhigh : v.toNat / 2 ^ 32 % 2 ^ 32 = v.toNat / 2 ^ 32 := by omega
      have hshift : (v.toNat / 2 ^ 32) <<< 32 % 2 ^ 64 = (v.toNat / 2 ^ 32) <<< 32 := by
        rw [Nat.shiftLeft_eq]
        omega
      rw [hhigh, hshift, ← Nat.shiftLeft_add_eq_or_of_lt hlow, Nat.shiftLeft_eq]
      omega

theorem getD_multi (values : List String) :
    (if values.isEmpty then none else some values).getD [] = values := by
  cases values <;> rfl

section Streams

variable {cfg : ManagedApplicationConfig} {node : Params fold σ} {base : String}
  {stream : Option IoStream}

/-- A stream whose values were written reads back as itself. -/
theorem wp_readIoStream
    (hvalues : ∀ put ∈ streamPuts base stream,
      node.value? put.name = put.payload.map (payloadValue fold cfg put.name))
    (hpath : ∀ s, stream = some s → Text.contains s.path '\x00' = false ∧ s.path ≠ "")
    {Q : Option IoStream → Std.ExtTreeSet String → Prop}
    {R : Error → Std.ExtTreeSet String → Prop} {marked : Std.ExtTreeSet String} :
    (readIoStream node base).wp Q R marked ↔
      Q stream (markIf (stream.isSome && registryIsExpandable fold cfg base) base marked) := by
  simp only [streamPuts, List.forall_mem_cons] at hvalues
  obtain ⟨hbase, hshare, hdisposition, hflags, hcopy, -⟩ := hvalues
  unfold readIoStream
  rw [Prog.wp_bind]
  cases stream with
  | none =>
      have hbase' : node.value? base = (none : Option String).map
          (stringValue (if false then regExpandSz else regSz)) := hbase
      rw [wp_optConfigString (by simp) hbase']
      rfl
  | some s =>
      obtain ⟨hclean, hnonempty⟩ := hpath s rfl
      have hbase' : node.value? base = (some s.path).map (stringValue
          (if registryIsExpandable fold cfg base then regExpandSz else regSz)) := hbase
      rw [wp_optConfigString (by simpa using hclean) hbase']
      have hempty : s.path.isEmpty = false := by simpa using hnonempty
      simp only [Option.bind_some] at hshare hdisposition hflags hcopy
      simp only [hempty, Bool.false_eq_true, if_false, Prog.wp_bind,
        wp_optU32 (hshare.trans (map_payloadValue_dword cfg _ _)),
        wp_optU32 (hdisposition.trans (map_payloadValue_dword cfg _ _)),
        wp_optU32 (hflags.trans (map_payloadValue_dword cfg _ _)),
        wp_optU32 (hcopy.trans (map_payloadValue_bool cfg _ _)), flag_roundTrip]
      rfl

end Streams

/-! ## The configuration -/

section Config

variable {cfg : ManagedApplicationConfig} {exits : ExitActions} {node node' : Params fold σ}
  (haccepted : Accepted fold cfg exits) (hwritten : Written cfg exits node node')

/-- The marks that the scalar strings of a configuration leave. -/
def scalarMarks (fold : NameFold) (cfg : ManagedApplicationConfig) : Std.ExtTreeSet String :=
  let add (present : Bool) (name : String) (marked : Std.ExtTreeSet String) :=
    markIf (present && registryIsExpandable fold cfg name) name marked
  add cfg.io.stderr.isSome appStderr <| add cfg.io.stdout.isSome appStdout <|
    add cfg.io.stdin.isSome appStdin <| add cfg.affinity.isSome appAffinity <|
    add cfg.appDirectory.isSome appDirectory <| add cfg.appParameters.isSome appParameters <|
    add cfg.application.isSome application ∅

theorem mem_scalarMarks (m : String) :
    m ∈ scalarMarks fold cfg ↔
      registryIsExpandable fold cfg m = true ∧
        ((cfg.application.isSome = true ∧ m = application) ∨
          (cfg.appParameters.isSome = true ∧ m = appParameters) ∨
          (cfg.appDirectory.isSome = true ∧ m = appDirectory) ∨
          (cfg.affinity.isSome = true ∧ m = appAffinity) ∨
          (cfg.io.stdin.isSome = true ∧ m = appStdin) ∨
          (cfg.io.stdout.isSome = true ∧ m = appStdout) ∨
          (cfg.io.stderr.isSome = true ∧ m = appStderr)) := by
  simp only [scalarMarks, mem_markIf, Bool.and_eq_true, Std.ExtTreeSet.not_mem_empty, or_false]
  constructor
  · rintro (⟨h, rfl⟩ | ⟨h, rfl⟩ | ⟨h, rfl⟩ | ⟨h, rfl⟩ | ⟨h, rfl⟩ | ⟨h, rfl⟩ | ⟨h, rfl⟩) <;>
      simp [h.1, h.2]
  · rintro ⟨h, ⟨hp, rfl⟩ | ⟨hp, rfl⟩ | ⟨hp, rfl⟩ | ⟨hp, rfl⟩ | ⟨hp, rfl⟩ | ⟨hp, rfl⟩ | ⟨hp, rfl⟩⟩ <;>
      simp [h, hp]

theorem mem_presentStrings_scalar (m : String) :
    ((cfg.application.isSome = true ∧ m = application) ∨
      (cfg.appParameters.isSome = true ∧ m = appParameters) ∨
      (cfg.appDirectory.isSome = true ∧ m = appDirectory) ∨
      (cfg.affinity.isSome = true ∧ m = appAffinity) ∨
      (cfg.io.stdin.isSome = true ∧ m = appStdin) ∨
      (cfg.io.stdout.isSome = true ∧ m = appStdout) ∨
      (cfg.io.stderr.isSome = true ∧ m = appStderr)) ∨
      (∃ hook ∈ cfg.hooks,
        ManagedApplicationConfig.hookExpansionKey hook.event hook.action = m) ↔
    m ∈ presentStrings cfg := by
  have hoption : ∀ {α : Type} (o : Option α) (name : String),
      m ∈ o.toList.map (fun _ => name) ↔ o.isSome = true ∧ m = name := by
    intro α o name
    cases o with
    | none => simp
    | some a => simp
  simp only [presentStrings, List.mem_append, hoption, List.mem_map, or_assoc]

/-- The marks of a configuration read from a written key agree with those of the
configuration. -/
theorem marks_agree {marked : Std.ExtTreeSet String}
    (hsound : ∀ m ∈ marked, m ∈ scalarMarks fold cfg ∨ (registryIsExpandable fold cfg m = true ∧
      ∃ hook ∈ cfg.hooks, windowsNameKey fold m = windowsNameKey fold
        (ManagedApplicationConfig.hookExpansionKey hook.event hook.action)))
    (hscalar : ∀ m ∈ scalarMarks fold cfg, m ∈ marked)
    (hhook : ∀ hook ∈ cfg.hooks, registryIsExpandable fold cfg
        (ManagedApplicationConfig.hookExpansionKey hook.event hook.action) = true →
      ∃ m ∈ marked, windowsNameKey fold m = windowsNameKey fold
        (ManagedApplicationConfig.hookExpansionKey hook.event hook.action))
    {cfg' : ManagedApplicationConfig} (hmarked : cfg'.expandableStrings = marked) :
    (∀ name ∈ presentStrings cfg,
      registryIsExpandable fold cfg' name = registryIsExpandable fold cfg name) ∧
    ∀ m ∈ cfg'.expandableStrings, ∃ name ∈ presentStrings cfg,
      windowsNameKey fold m = windowsNameKey fold name := by
  have hexpandable : ∀ m ∈ marked, registryIsExpandable fold cfg m = true := by
    intro m hm
    rcases hsound m hm with hold | ⟨h, -⟩
    · exact ((mem_scalarMarks m).mp hold).1
    · exact h
  constructor
  · intro name hname
    rw [Bool.eq_iff_iff]
    constructor
    · intro hread
      obtain ⟨m, hm, hsame⟩ := (registryIsExpandable_iff cfg' name).mp hread
      rw [hmarked] at hm
      rw [← registryIsExpandable_congr hsame]
      exact hexpandable m hm
    · intro hstored
      rw [registryIsExpandable_iff, hmarked]
      rcases (mem_presentStrings_scalar name).mpr hname with hpresent | ⟨hook, hmem, rfl⟩
      · exact ⟨name, hscalar name ((mem_scalarMarks name).mpr ⟨hstored, hpresent⟩), rfl⟩
      · exact hhook hook hmem hstored
  · intro m hm
    rw [hmarked] at hm
    rcases hsound m hm with hold | ⟨-, hook, hmem, hsame⟩
    · exact ⟨m, (mem_presentStrings_scalar m).mp (.inl ((mem_scalarMarks m).mp hold).2), rfl⟩
    · exact ⟨_, (mem_presentStrings_scalar _).mp (.inr ⟨hook, hmem, rfl⟩), hsame⟩

include haccepted in
theorem streamPath_of_accepted {base : String} {stream : Option IoStream}
    (hstorable : ∀ put ∈ streamPuts base stream, ∀ p, put.payload = some p → Storable p)
    (hpath : ∀ s, stream = some s → (base, s.path) ∈ configuredPaths cfg) :
    ∀ s, stream = some s → Text.contains s.path '\x00' = false ∧ s.path ≠ "" := by
  rintro s rfl
  exact ⟨hstorable ⟨base, some (.string s.path)⟩ (by simp [streamPuts]) _ rfl,
    haccepted.paths _ (hpath s rfl)⟩

include haccepted hwritten

/-- Reading a written key returns the configuration when its commands are
short. -/
theorem read_of_written (hshort : ShortCommands cfg) (service : String) :
    ∃ cfg', readManagedFromKey node' service = .ok (some cfg') ∧ SameConfig fold cfg cfg' := by
  obtain ⟨app, happ, hblank⟩ := haccepted.application
  have hexits := readExitActions_eq haccepted.exitKeys hwritten.names hwritten.exits
  have hvalues : ∀ put ∈ scalarPuts cfg,
      node'.value? put.name = put.payload.map (payloadValue fold cfg put.name) :=
    fun put hput => value?_of_written hwritten hput
  have hstorable := storable_of_accepted haccepted
  simp only [scalarPuts, List.forall_mem_append] at hvalues hstorable
  obtain ⟨⟨⟨hvalues, hin⟩, hout⟩, herr⟩ := hvalues
  obtain ⟨⟨⟨hstorable, hin'⟩, hout'⟩, herr'⟩ := hstorable
  simp only [List.forall_mem_cons, map_payloadValue_dword, map_payloadValue_bool,
    map_payloadValue_string, map_payloadValue_multi] at hvalues
  simp only [List.forall_mem_cons] at hstorable
  obtain ⟨vApp, vParams, vDir, vPriority, vAffinity, vEnv, vExtra, vDelay, vThrottle, vSkip,
    vConsole, vWindow, vThreads, vTree, vRotate, vOnline, vSeconds, vLow, vHigh, vRotateDelay,
    vTimestamp, -⟩ := hvalues
  obtain ⟨sApp, sParams, sDir, -, sAffinity, sEnv, sExtra, -⟩ := hstorable
  have hclean : ∀ {value : Option String},
      (∀ p, value.map Payload.string = some p → Storable p) →
      ∀ v, value = some v → Text.contains v '\x00' = false := by
    intro value hst v hv
    exact hst (.string v) (by rw [hv]; rfl)
  have hlist : ∀ {values : List String}, (∀ p, multiPayload values = some p → Storable p) →
      ∀ v ∈ values, Text.contains v '\x00' = false ∧ v ≠ "" := by
    intro values hst
    cases values with
    | nil => simp
    | cons v rest => exact hst (.multi (v :: rest)) rfl
  have hstdin := streamPath_of_accepted haccepted hin' (by
    rintro s hs
    simp [configuredPaths, hs, appStdin])
  have hstdout := streamPath_of_accepted haccepted hout' (by
    rintro s hs
    simp [configuredPaths, hs, appStdout])
  have hstderr := streamPath_of_accepted haccepted herr' (by
    rintro s hs
    simp [configuredPaths, hs, appStderr])
  have hlow : node'.value? appRotateBytesLow =
      (cfg.rotation.bytes.map fun v => v.toUInt32).map dwordValue := by
    rw [vLow, Option.map_map, Option.map_map]
    rfl
  have hhigh : node'.value? appRotateBytesHigh =
      (cfg.rotation.bytes.map fun (v : UInt64) => (v >>> 32).toUInt32).map dwordValue := by
    rw [vHigh, Option.map_map, Option.map_map]
    rfl
  have hread : (readManaged node' service).wp
      (fun read marked => ∃ cfg', read = some cfg' ∧
        SameConfig fold cfg { cfg' with expandableStrings := marked }) (fun _ _ => False) ∅ := by
    unfold readManaged
    rw [Prog.wp_bind, wp_optConfigString (hclean sApp) vApp]
    split
    · rename_i hnone
      rw [happ] at hnone
      cases hnone
    rename_i found hfound
    obtain rfl : app = found := Option.some.inj (happ.symm.trans hfound)
    simp only [hblank, Bool.false_eq_true, if_false, Prog.wp_map, readFields, Prog.wp_bind,
      Prog.wp_liftExcept, hexits, wp_optU32 hlow, wp_optU32 hhigh,
      wp_optConfigString (hclean sParams) vParams, wp_optConfigString (hclean sDir) vDir,
      wp_optMultiString (hlist sEnv) vEnv, wp_optMultiString (hlist sExtra) vExtra,
      wp_optU32 vPriority, wp_optConfigString (hclean sAffinity) vAffinity,
      wp_optU32 vDelay, wp_optU32 vThrottle, wp_optU32 vSkip, wp_optU32 vConsole,
      wp_optU32 vWindow, wp_optU32 vThreads, wp_optU32 vTree,
      wp_readIoStream hin hstdin, wp_readIoStream hout hstdout, wp_readIoStream herr hstderr,
      wp_optU32 vTimestamp, wp_optU32 vRotate, wp_optU32 vOnline, wp_optU32 vSeconds,
      wp_optU32 vRotateDelay]
    refine Prog.wp_mono _ ?_ (fun _ _ h => h)
      (wp_readHooks haccepted hwritten hshort (scalarMarks fold cfg))
    rintro hooks marked ⟨hhooks, hsound, hgrow, hcomplete⟩
    refine ⟨_, rfl, ?_⟩
    exact {
      application := hfound.symm
      appParameters := rfl
      appDirectory := rfl
      environment := getD_multi cfg.environment
      environmentExtra := getD_multi cfg.environmentExtra
      priority := rfl
      affinity := rfl
      restartDelayMs := rfl
      throttleDelayMs := rfl
      shutdown := by simp only [flag_roundTrip]
      io := by simp only [flag_roundTrip]
      rotation := by simp only [flag_roundTrip, rotateBytes_roundTrip]
      exitActions := haccepted.normalized
      defaultAction := rfl
      hooks := hhooks
      marks := (marks_agree hsound hgrow hcomplete rfl).1
      onlyPresent := (marks_agree hsound hgrow hcomplete rfl).2 }
  obtain ⟨read, marked, hrun, cfg', rfl, hsame⟩ := Prog.exists_ok_of_wp _ hread
  refine ⟨_, ?_, hsame⟩
  rw [readManagedFromKey, hrun]
  rfl

end Config

end Ngsm.Registry
