/-
# Recovering from an interrupted write

A write that a fault cuts short leaves a key that is neither the old nor the new
configuration.  `Salvaged` says what the operator can still count on: the service
keeps its application, whatever both configurations have is there in one of the
two versions, and removal has not begun before everything new was in place.
Writing the old configuration again then brings it back, under the condition of
the round trip.
-/

import Ngsm.Registry.Guarantees

namespace Ngsm.Registry

open Ngsm.Lib Ngsm.Core NssmKeys

variable {fold : NameFold} {σ : Type}

/-- Either nothing has been removed yet, or all that is wanted is in place. -/
def KeepsWanted {κ α : Type} (old wanted now : κ → Option α) : Prop :=
  (∀ k, (old k).isSome = true → (now k).isSome = true) ∨
    ∀ k a, wanted k = some a → now k = some a

theorem keepsWanted_of_writeFirst {κ α : Type} {old wanted now : κ → Option α}
    (h : WriteFirst old wanted now) : KeepsWanted old wanted now := by
  rcases h with hwriting | hpruning
  · refine .inl fun k hold => ?_
    rcases hwriting k with hsame | ⟨a, -, hnow⟩
    · rwa [hsame]
    · rw [hnow]
      rfl
  · exact .inr fun k a hwanted => hpruning.wanted_present hwanted

/-- What a write of `c₁` that was cut short leaves, for a key `before` that read
as `c₀`. -/
structure Salvaged (c₀ c₁ : ManagedApplicationConfig) (exits₁ : ExitActions)
    (before after : Params fold σ) : Prop where
  application : ApplicationPresent after
  sharedScalars : ∀ k v₀ v₁, before.valueAt k = some v₀ → wantedScalars fold c₁ k = some v₁ →
    after.valueAt k = some v₀ ∨ after.valueAt k = some v₁
  sharedExits : ∀ (key : String) (p₀ p₁ : ExitActionPolicy), c₀.exitActions[key]? = some p₀ →
    exits₁[key]? = some p₁ → ExitStored after key p₀.action ∨ ExitStored after key p₁.action
  sharedHooks : ∀ k command₀ command₁, HasHook fold c₀ k command₀ → HasHook fold c₁ k command₁ →
    HookStored after k command₀ ∨ HookStored after k command₁
  keptScalars : KeepsWanted before.valueAt (wantedScalars fold c₁) after.valueAt
  keptExits : KeepsWanted (exitAt before) (wantedExits fold exits₁) (exitAt after)
  keptHooks : KeepsWanted (hooksAt before) (wantedHooks fold c₁) (hooksAt after)

/-! ## Exit actions -/

/-- A written exit action is stored under its key. -/
theorem exitStored_of_exitAt {node : Params fold σ} (hnames : NamesDecode node) {key : String}
    (hkey : IsExitKey key) {policy : ExitActionPolicy}
    (hstored : exitAt node (windowsNameKey fold (exitRegistryName key)) =
      some (exitValue policy)) : ExitStored node key policy.action := by
  obtain ⟨exit, hexit, hvalue⟩ := Option.bind_eq_some_iff.mp hstored
  obtain ⟨⟨words, value⟩, hlookup, hsame⟩ := Option.map_eq_some_iff.mp hvalue
  simp only at hsame
  have hmem := List.mem_of_find?_eq_some hlookup
  have hdecode := hnames.exits exit hexit _ hmem
  have htext : nameText words = exitRegistryName key := by
    refine Utf16.encode_injective (@eq_of_key_eq fold _ _ (caseless_exitRegistryName hkey) ?_)
    rw [hdecode.encode_text]
    exact Table.key_of_lookup hlookup
  refine ⟨exit, hexit, (words, value), hmem, ?_, ?_⟩
  · rw [htext]
    exact normalize_exitRegistryName hkey
  · rw [hsame, exitValue, entryText_stringValue _ (exitActionStr_noNul _)]
    exact parseExitAction_exitActionStr _

section Exits

variable {cfg : ManagedApplicationConfig} {exits : ExitActions} {before after : Params fold σ}
  (hkeys : ∀ key ∈ exits, IsExitKey key) (hmidway : Midway cfg exits before after)

include hkeys hmidway

/-- An old entry that has kept its value has kept its spelling. -/
theorem exitEntry_kept {exit : Node fold (Node fold σ)}
    (hexit : before.childAt (exitKey fold) = some exit) {entry : Name × RegValue}
    (hentry : entry ∈ exit.values.entries)
    (hsame : exitAt after (fold.key entry.1) = some entry.2) :
    ∃ exit', after.childAt (exitKey fold) = some exit' ∧ entry ∈ exit'.values.entries := by
  obtain ⟨exit', hexit', hvalue⟩ := Option.bind_eq_some_iff.mp hsame
  obtain ⟨⟨words, value⟩, hlookup, hequal⟩ := Option.map_eq_some_iff.mp hvalue
  simp only at hequal
  have hmem := List.mem_of_find?_eq_some hlookup
  have hkey : fold.key words = fold.key entry.1 := Table.key_of_lookup hlookup
  have hwords : words = entry.1 := by
    rcases hmidway.spelling exit' hexit' _ hmem with ⟨exit₀, hexit₀, v, hold⟩ | ⟨key, hin, hnew⟩
    · rw [hexit] at hexit₀
      cases hexit₀
      have hfirst := (Table.mem_entries_iff _ words v).mp hold
      rw [hkey, (Table.mem_entries_iff _ entry.1 entry.2).mp hentry] at hfirst
      exact (congrArg Prod.fst (Option.some.inj hfirst)).symm
    · have hexitKey := hkeys key hin
      simp only at hnew
      rw [toWide_of_noNul (exitRegistryName_noNul hexitKey)] at hnew
      rw [hnew] at hkey ⊢
      exact (eq_of_key_eq (caseless_exitRegistryName hexitKey) hkey.symm).symm
  rw [hwords, hequal] at hmem
  exact ⟨exit', hexit', hmem⟩

/-- An exit action that both sides have is stored with one of the two actions. -/
theorem exitStored_of_midway (hnames : NamesDecode before) {key : String} {action : ExitAction} {policy : ExitActionPolicy}
    (hold : ExitStored before key action) (hnew : exits[key]? = some policy) :
    ExitStored after key action ∨ ExitStored after key policy.action := by
  obtain ⟨exit, hexit, entry, hentry, hnormal, hparse⟩ := hold
  have hin := Std.ExtTreeMap.mem_toList_iff_getElem?_eq_some.mpr hnew
  have hkey := isExitKey_of_mem hkeys hin
  have hwanted := @wantedExits_of_mem fold _ hkeys _ hin
  rcases hmidway.exits with hwriting | hpruning
  · have hbefore : exitAt before (fold.key entry.1) = some entry.2 := by
      rw [exitAt, hexit, Option.bind_some, Node.valueAt,
        (Table.mem_entries_iff _ entry.1 entry.2).mp hentry]
      rfl
    rcases hwriting (fold.key entry.1) with hkept | ⟨value, hvalue, hnow⟩
    · obtain ⟨exit', hexit', hmem⟩ :=
        exitEntry_kept hkeys hmidway hexit hentry (hkept.trans hbefore)
      exact .inl ⟨exit', hexit', entry, hmem, hnormal, hparse⟩
    · -- the entry has been overwritten, so it had the name the writer uses
      obtain ⟨other, hfind, rfl⟩ := Option.map_eq_some_iff.mp hvalue
      have hother := List.mem_of_find?_eq_some hfind
      have hotherKey := isExitKey_of_mem hkeys hother
      have hsame : windowsNameKey fold (exitRegistryName other.1) = fold.key entry.1 := by
        simpa using List.find?_some hfind
      have hdecode := hnames.exits exit hexit entry hentry
      have htext : nameText entry.1 = exitRegistryName other.1 := by
        refine Utf16.encode_injective
          (@eq_of_key_eq fold _ _ (caseless_exitRegistryName hotherKey) ?_)
        rw [hdecode.encode_text]
        exact hsame.symm
      rw [htext, normalize_exitRegistryName hotherKey] at hnormal
      cases hnormal
      have hpolicy := Std.ExtTreeMap.mem_toList_iff_getElem?_eq_some.mp hother
      rw [hnew] at hpolicy
      cases hpolicy
      refine .inr (exitStored_of_exitAt hmidway.names hotherKey ?_)
      rw [hsame]
      exact hnow
  · exact .inr (exitStored_of_exitAt hmidway.names hkey (hpruning.wanted_present hwanted))

end Exits

/-! ## Hooks and the application -/

section Parts

variable {cfg : ManagedApplicationConfig} {exits : ExitActions} {before after : Params fold σ}
  (haccepted : Accepted fold cfg exits) (hmidway : Midway cfg exits before after)

include haccepted hmidway

/-- A hook that both sides have is stored with one of the two commands. -/
theorem hookStored_of_midway {k : Name × Name} {command command' : String}
    (hold : HookStored before k command) (hnew : HasHook fold cfg k command') :
    HookStored after k command ∨ HookStored after k command' := by
  obtain ⟨value, hvalue, htext⟩ := hold
  obtain ⟨hook, hhook, rfl, rfl⟩ := hnew
  rcases hmidway.hooks.retains hvalue (wantedHooks_of_mem haccepted hhook) with hkept | hwritten
  · exact .inl ⟨value, hkept, htext⟩
  · exact .inr ⟨_, hwritten, stringValue_decodes _ (hookCommand_noNul haccepted hhook)⟩

omit hmidway in
/-- What is wanted for the application is a string that is not blank. -/
theorem wantedScalars_application : ∃ value app,
    wantedScalars fold cfg (windowsNameKey fold application) = some value ∧
      HoldsString value app ∧ (Text.trim app).isEmpty = false := by
  obtain ⟨app, happ, hblank⟩ := haccepted.application
  let put : Put := ⟨application, cfg.application.map .string⟩
  have hput : put ∈ scalarPuts cfg := by
    simp only [scalarPuts, List.mem_append]
    exact .inl (.inl (.inl List.mem_cons_self))
  have hwanted := @wantedScalars_of_mem fold _ _ hput
  simp only [put, happ, Option.map_some] at hwanted
  refine ⟨_, app, hwanted, ⟨?_, ?_⟩, hblank⟩
  · change stringKind fold cfg application = regSz ∨ stringKind fold cfg application = regExpandSz
    unfold stringKind
    split
    · exact .inr rfl
    · exact .inl rfl
  · have hclean := haccepted.noNul ("Application", app) (by simp [registryStrings, happ])
    exact stringValue_decodes _ hclean

/-- The application is at no point gone or blank. -/
theorem applicationPresent_of_midway (hold : ApplicationPresent before) :
    ApplicationPresent after := by
  obtain ⟨value, app, hvalue, hholds, hblank⟩ := hold
  obtain ⟨value', app', hwanted, hholds', hblank'⟩ := wantedScalars_application haccepted
  have hname : application ∈ scalarNames := by decide
  rw [Node.value?_eq, key_scalarName hname] at hvalue
  rcases hmidway.scalars.retains hvalue hwanted with hkept | hwritten
  · exact ⟨value, app, by rwa [Node.value?_eq, key_scalarName hname], hholds, hblank⟩
  · exact ⟨value', app', by rwa [Node.value?_eq, key_scalarName hname], hholds', hblank'⟩

omit hmidway in
/-- A written key has an application. -/
theorem applicationPresent_of_written (hwritten : Written cfg exits before after) :
    ApplicationPresent after := by
  obtain ⟨value, app, hwanted, hholds, hblank⟩ := wantedScalars_application haccepted
  have hname : application ∈ scalarNames := by decide
  refine ⟨value, app, ?_, hholds, hblank⟩
  rw [Node.value?_eq, key_scalarName hname, hwritten.scalars _ (mem_ownedKeys hname), hwanted]

end Parts

/-! ## The guarantee -/

/-- The key after a write that a fault cut short. -/
theorem midway_of_exec {cfg : ManagedApplicationConfig} {exits : ExitActions}
    (hpreflight : preflightConfig fold cfg = .ok exits) {before after : Params fold σ}
    {faults faults' : Nat → Option Fault} (hnames : NamesDecode before) {e : Error}
    (hcut : (writeIntoKey cfg).exec ⟨before, faults⟩ = (.error e, ⟨after, faults'⟩)) :
    Midway cfg exits before after :=
  (Prog.wp_error _ (runs_writeIntoKey hpreflight hnames faults) hcut).1

/-- Wherever a write is cut short, the key it leaves is salvaged, and writing the
old configuration again succeeds; it reads back exactly when its commands fit into
what the reader accepts. -/
theorem interrupted_write_recoverable {service : String}
    {c₀ c₁ : ManagedApplicationConfig} {exits₀ exits₁ : ExitActions}
    {before after : Params fold σ} {faults faults' : Nat → Option Fault} {e : Error}
    (hread : readManagedFromKey before service = .ok (some c₀))
    (haccept₀ : preflightConfig fold c₀ = .ok exits₀)
    (haccept₁ : preflightConfig fold c₁ = .ok exits₁)
    (hcut : (writeIntoKey c₁).exec ⟨before, faults⟩ = (.error e, ⟨after, faults'⟩)) :
    Salvaged c₀ c₁ exits₁ before after ∧
      ∃ restored, (writeIntoKey c₀).exec ⟨after, noFaults⟩ = (.ok (), restored) ∧
        (ReadsBack restored.node service c₀ ↔ ShortCommands c₀) := by
  have hreads := readsAs_of_read hread
  have hmidway := midway_of_exec haccept₁ hreads.names hcut
  have haccepted₁ := accepted_of_preflightConfig fold haccept₁
  obtain ⟨⟨⟩, restored, hrestore, hwritten⟩ := Runs.exec_noFaults
    (runs_writeIntoKey haccept₀ hmidway.names)
  refine ⟨?_, restored, hrestore,
    readsBack_iff_of_written (accepted_of_preflightConfig fold haccept₀) hwritten service⟩
  exact {
    application := applicationPresent_of_midway haccepted₁ hmidway hreads.application
    sharedScalars := fun k v₀ v₁ hold hnew => hmidway.scalars.retains hold hnew
    sharedExits := fun key p₀ p₁ hold hnew => exitStored_of_midway haccepted₁.exitKeys hmidway
      hreads.names (hreads.exits key p₀ hold) hnew
    sharedHooks := fun k command₀ command₁ hold hnew =>
      hookStored_of_midway haccepted₁ hmidway (hreads.hooks k command₀ hold) hnew
    keptScalars := keepsWanted_of_writeFirst hmidway.scalars
    keptExits := keepsWanted_of_writeFirst hmidway.exits
    keptHooks := keepsWanted_of_writeFirst hmidway.hooks }

/-! ## A key that another tool wrote -/

/-- A string value without its terminator, as other tools may write it. -/
def bareString (s : String) : RegValue :=
  ⟨regSz, Utf16.toBytes (Utf16.encode s)⟩

theorem bareString_decodes {s : String} (hs : Text.contains s '\x00' = false)
    (hempty : Utf16.encode s ≠ []) : bytesToWideString (bareString s).data = .ok s := by
  have hzero : (0 : UInt16) ∉ Utf16.encode s := by
    rw [← contains_nul_iff, hs]
    decide
  have hfind : (Utf16.encode s).findIdx? (· == 0) = none := by
    rw [List.findIdx?_eq_none_iff]
    intro u hu
    simp only [beq_eq_false_iff_ne]
    rintro rfl
    exact hzero hu
  have hbytes : Utf16.toBytes (Utf16.encode s) ≠ [] := by
    intro hnil
    have hlength := congrArg List.length hnil
    rw [Utf16.length_toBytes, List.length_nil] at hlength
    exact hempty (List.length_eq_zero_iff.mp (by omega))
  simp only [bytesToWideString, bareString, hbytes, if_false, Utf16.length_toBytes,
    Utf16.ofBytes_toBytes, hfind]
  simp

/-- The event key of the foreign key. -/
def foreignEvent (command : String) : Node asciiFold Unit :=
  Node.empty.setValue "Pre" (bareString command)

/-- A parameters key with one hook whose command has no terminator. -/
def foreignKey (command : String) : Params asciiFold Unit :=
  ((Node.empty).setValue application (stringValue regSz "C:\\app.exe")).setSubkey appEvents
    (Node.empty.setSubkey "Start" (foreignEvent command))

theorem foreignEvent_reads {command : String} (hs : Text.contains command '\x00' = false)
    (hempty : Utf16.encode command ≠ [])
    (hfits : (bareString command).data.length ≤ valueCapLimit) :
    enumerateTypedStringValues (foreignEvent command) = .ok [("Pre", command, regSz)] := by
  have hentries : (foreignEvent command).values.entries = [(toWide "Pre", bareString command)] :=
    rfl
  have hname : decodeRegistryName (toWide "Pre") = .ok "Pre" := by decide
  have hsize : ¬ ((toWide "Pre").length + 1 > nameCapLimit ∨
      (bareString command).data.length > valueCapLimit) := by
    have hshort : (toWide "Pre").length + 1 ≤ nameCapLimit := by decide
    omega
  have hkind : ¬ ((bareString command).kind ≠ regSz ∧ (bareString command).kind ≠ regExpandSz) :=
    fun h => h.1 rfl
  rw [enumerateTypedStringValues, hentries, readAll]
  unfold readStringEntry
  simp only [if_neg hsize, hname, if_neg hkind, bareString_decodes hs hempty]
  rfl

/-- Reading a key that holds an application and hooks, and nothing else that is
owned. -/
theorem read_of_hooks_only {node : Params fold σ} {app : String} {hooks : List HookConfig}
    (happ : node.value? application = some (stringValue regSz app))
    (hclean : Text.contains app '\x00' = false) (hblank : (Text.trim app).isEmpty = false)
    (habsent : ∀ name ∈ scalarNames, name ≠ application → node.value? name = none)
    (hexits : readExitActions node = .ok ∅)
    (hhooks : ∀ marked, (readHooks node).exec marked = (.ok hooks, marked)) (service : String) :
    readManagedFromKey node service = .ok (some { application := some app, hooks := hooks }) := by
  have hu32 : ∀ name ∈ scalarNames, name ≠ application →
      ∀ (Q : Option UInt32 → Std.ExtTreeSet String → Prop) marked,
        (optU32 node name).wp Q (fun _ _ => False) marked ↔ Q none marked :=
    fun name hname hother _ _ => wp_optU32
      (show node.value? name = (none : Option UInt32).map dwordValue from
        habsent name hname hother)
  have hstring : ∀ name ∈ scalarNames, name ≠ application →
      ∀ (Q : Option String → Std.ExtTreeSet String → Prop) marked,
        (optConfigString node name).wp Q (fun _ _ => False) marked ↔ Q none marked :=
    fun name hname hother _ _ => wp_optConfigString (by simp)
      (show node.value? name =
        (none : Option String).map (stringValue (if false then regExpandSz else regSz)) from
          habsent name hname hother)
  have hmulti : ∀ name ∈ scalarNames, name ≠ application →
      ∀ (Q : Option (List String) → Std.ExtTreeSet String → Prop) marked,
        (optMultiString node name).wp Q (fun _ _ => False) marked ↔ Q none marked :=
    fun name hname hother _ _ => wp_optMultiString (List.forall_mem_nil _)
      (habsent name hname hother)
  have happ' : node.value? application = (some app).map
      (stringValue (if false then regExpandSz else regSz)) := happ
  have hhooks' : ∀ (Q : List HookConfig → Std.ExtTreeSet String → Prop) marked,
      (readHooks node).wp Q (fun _ _ => False) marked ↔ Q hooks marked := by
    intro Q marked
    unfold Prog.wp
    rw [hhooks marked]
  have hread : (readManaged node service).wp
      (fun read marked => read = some { application := some app, hooks := hooks } ∧ marked = ∅)
      (fun _ _ => False) ∅ := by
    unfold readManaged
    rw [Prog.wp_bind, wp_optConfigString (by rintro v ⟨⟩; exact hclean) happ']
    simp (disch := decide) only [hblank, Bool.false_eq_true, if_false, Prog.wp_map,
      readFields, Prog.wp_bind, Prog.wp_liftExcept, hexits, readIoStream, Prog.wp_pure, hu32,
      hstring, hmulti, hhooks']
    exact ⟨rfl, rfl⟩
  obtain ⟨read, marked, hrun, rfl, rfl⟩ := Prog.exists_ok_of_wp _ hread
  rw [readManagedFromKey, hrun]
  rfl

/-- Reading a key with one event that holds one unmarked command. -/
theorem readHooks_single {node : Params fold σ} {events : Node fold (Node fold σ)}
    {event : Node fold σ} {name action command : String}
    (hevents : node.subkey? appEvents = some events) (hnames : subkeyNames events = .ok [name])
    (hevent : events.subkey? name = some event)
    (hentries : enumerateTypedStringValues event = .ok [(action, command, regSz)])
    (hname : validateHookComponent name "event" = .ok ())
    (haction : validateHookComponent action "action" = .ok ()) (marked : Std.ExtTreeSet String) :
    (readHooks node).exec marked =
      ((Except.ok [⟨name, action, command⟩] : Result (List HookConfig)), marked) := by
  have hwp : (readHooks node).wp
      (fun hooks marked' => hooks = [⟨name, action, command⟩] ∧ marked' = marked)
      (fun _ _ => False) marked := by
    unfold readHooks
    simp only [hevents, Prog.wp_bind, Prog.wp_liftExcept, hnames, List.foldlM_cons,
      List.foldlM_nil, readEvent, hname, hevent, hentries, readHook, haction]
    exact ⟨rfl, rfl⟩
  obtain ⟨hooks, marked', hrun, rfl, rfl⟩ := Prog.exists_ok_of_wp _ hwp
  exact hrun

theorem foreignKey_reads {command : String} (hs : Text.contains command '\x00' = false)
    (hempty : Utf16.encode command ≠ [])
    (hfits : (bareString command).data.length ≤ valueCapLimit) :
    readManagedFromKey (foreignKey command) "svc" = .ok (some (hookedConfig command)) := by
  have habsent : ∀ name ∈ scalarNames, name ≠ application →
      (foreignKey command).value? name = none := by
    change ∀ name ∈ scalarNames, name ≠ application →
      ((Node.empty : Params asciiFold Unit).setValue application
        (stringValue regSz "C:\\app.exe")).value? name = none
    decide
  have hchild : (foreignKey command).subkey? appEvents =
      some (Node.empty.setSubkey "Start" (foreignEvent command)) := rfl
  have hnames : subkeyNames ((Node.empty : Node asciiFold (Node asciiFold Unit)).setSubkey "Start"
      (foreignEvent command)) = .ok ["Start"] := by
    rfl
  have hevent : ((Node.empty : Node asciiFold (Node asciiFold Unit)).setSubkey "Start"
      (foreignEvent command)).subkey? "Start" = some (foreignEvent command) := rfl
  exact read_of_hooks_only rfl (by decide) (by decide) habsent rfl
    (readHooks_single hchild hnames hevent (foreignEvent_reads hs hempty hfits)
      (by decide) (by decide)) "svc"

/-- The same service without its hook. -/
def plainConfig : ManagedApplicationConfig :=
  { application := some "C:\\app.exe" }

theorem preflight_plainConfig : preflightConfig asciiFold plainConfig = .ok ∅ := by
  refine Check.bind_eq_ok.mpr ⟨(), rfl, Check.bind_eq_ok.mpr ⟨(), rfl, ?_⟩⟩
  refine Check.bind_eq_ok.mpr ⟨(), rfl, Check.bind_eq_ok.mpr ⟨(), rfl, ?_⟩⟩
  exact Check.bind_eq_ok.mpr ⟨_, rfl, Check.bind_eq_ok.mpr ⟨(), rfl, rfl⟩⟩

/-- The schedule that denies the first call. -/
def firstCallFails : Nat → Option Fault :=
  fun n => if n = 0 then
    some { code := 5, text := "Access is denied. (0x80070005)", genuine := by decide }
  else none

/-- A write whose first call fails has changed nothing. -/
theorem exec_firstCallFails (node : Params asciiFold Unit) :
    ∃ e faults, (writeIntoKey plainConfig).exec ⟨node, firstCallFails⟩ =
      (.error e, ⟨node, faults⟩) := by
  unfold writeIntoKey
  rw [Prog.exec_bind, preflight_plainConfig]
  exact ⟨_, _, rfl⟩

/-- The schedule that denies the call of this number. -/
def callFails (call : Nat) : Nat → Option Fault :=
  fun n => if n = call then
    some { code := 5, text := "Access is denied. (0x80070005)", genuine := by decide }
  else none

/-- The stale key, when its replacement is cut short: the application is the new one and the exit
action has its new name, the parameters are gone, and the directory is still the old one. -/
theorem interrupted_write_recoverable_staleKey :
    ∃ old exits e faults after,
      readManagedFromKey staleKey "svc" = .ok (some old) ∧
      preflightConfig asciiFold replacingConfig = .ok exits ∧
      (writeIntoKey replacingConfig).exec ⟨staleKey, callFails 30⟩ =
        (.error e, ⟨after, faults⟩) ∧
      after.value? application = some (stringValue regSz "C:\\new.exe") ∧
      after.value? appParameters = none ∧
      after.value? appDirectory = some (stringValue regSz "C:\\old") ∧
      Salvaged old replacingConfig exits staleKey after ∧
      ∃ restored, (writeIntoKey old).exec ⟨after, noFaults⟩ = (.ok (), restored) ∧
        ReadsBack restored.node "svc" old := by
  obtain ⟨exits, hpreflight⟩ := preflight_replacingConfig
  obtain ⟨old, oldExits, hread, hold, hshort⟩ := staleKey_reads
  have hfails : ((writeIntoKey replacingConfig).exec ⟨staleKey, callFails 30⟩).1.isOk = false := by
    decide +kernel
  have hstored : ((writeIntoKey replacingConfig).exec
      ⟨staleKey, callFails 30⟩).2.node.value? application =
        some (stringValue regSz "C:\\new.exe") := by decide +kernel
  have hgone : ((writeIntoKey replacingConfig).exec
      ⟨staleKey, callFails 30⟩).2.node.value? appParameters = none := by decide +kernel
  have hkept : ((writeIntoKey replacingConfig).exec
      ⟨staleKey, callFails 30⟩).2.node.value? appDirectory =
        some (stringValue regSz "C:\\old") := by decide +kernel
  rcases hcut : (writeIntoKey replacingConfig).exec ⟨staleKey, callFails 30⟩ with
    ⟨outcome, after, faults⟩
  rw [hcut] at hfails hstored hgone hkept
  cases outcome with
  | ok a => cases hfails
  | error e =>
      obtain ⟨hsalvaged, restored, hrestore, hiff⟩ :=
        interrupted_write_recoverable hread hold hpreflight hcut
      exact ⟨old, exits, e, faults, after, hread, hpreflight, rfl, hstored, hgone, hkept,
        hsalvaged, restored, hrestore, hiff.mpr hshort⟩

/-- A command of exactly a mebibyte without a terminator is read, but writing it
back adds the terminator, and the key can no longer be read. -/
theorem interrupted_write_not_restored :
    readManagedFromKey (foreignKey (letters 524288)) "svc" =
        .ok (some (hookedConfig (letters 524288))) ∧
      preflightConfig asciiFold (hookedConfig (letters 524288)) = .ok ∅ ∧
      preflightConfig asciiFold plainConfig = .ok ∅ ∧
      ∃ e faults, (writeIntoKey plainConfig).exec
          ⟨foreignKey (letters 524288), firstCallFails⟩ =
            (.error e, ⟨foreignKey (letters 524288), faults⟩) ∧
        ¬ ∃ restored, (writeIntoKey (hookedConfig (letters 524288))).exec
            ⟨foreignKey (letters 524288), noFaults⟩ = (.ok (), restored) ∧
          ReadsBack restored.node "svc" (hookedConfig (letters 524288)) := by
  have hclean := letters_noNul 524288
  have hlong := length_encode_letters 524288
  -- nothing below evaluates the command or the key
  generalize letters 524288 = command at hclean hlong
  have hpreflight := preflight_hookedConfig hclean
  have hread : readManagedFromKey (foreignKey command) "svc" =
      .ok (some (hookedConfig command)) := by
    refine foreignKey_reads hclean ?_ ?_
    · intro hnil
      rw [hnil] at hlong
      cases hlong
    · rw [bareString, Utf16.length_toBytes, valueCapLimit]
      omega
  generalize foreignKey command = key at hread
  obtain ⟨e, faults, hcut⟩ := exec_firstCallFails key
  refine ⟨hread, hpreflight, preflight_plainConfig, e, faults, hcut, ?_⟩
  rintro ⟨restored, hrestore, found, hfound, -⟩
  have hwritten := written_of_exec hpreflight (readsAs_of_read hread).names hrestore
  have hshort := shortCommands_of_read (accepted_of_preflightConfig _ hpreflight) hwritten hfound
  have hlength := hshort ⟨"Start", "Pre", command⟩ (List.mem_singleton.mpr rfl)
  change (Utf16.encode command).length ≤ 524287 at hlength
  omega

end Ngsm.Registry
