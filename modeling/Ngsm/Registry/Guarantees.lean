/-
# Round trip and recovery

What a user of the registry crate may rely on.  A configuration that was written
is read back, and a write that was cut short has lost nothing and can be undone
by writing the old configuration again.  Both hold up to one condition: the
reader refuses a hook command that does not fit, with its terminator, into a
mebibyte, and the preflight does not look at the length of a command.
-/

import Ngsm.Registry.ReadBack

namespace Ngsm.Registry

open Ngsm.Lib Ngsm.Core NssmKeys

variable {fold : NameFold} {σ : Type}

/-- The schedule without a fault. -/
def noFaults : Nat → Option Fault :=
  fun _ => none

/-- A program that meets its contract returns when no call fails. -/
theorem Runs.exec_calm {ν α : Type} {m : RegM ν α} {node : ν} {Q : α → ν → Prop}
    {R : ν → Prop} (h : Runs m node Q R) {faults : Nat → Option Fault} (hcalm : Calm faults) :
    ∃ a w, m.exec ⟨node, faults⟩ = (.ok a, w) ∧ Q a w.node := by
  have hwp : m.wp (fun a w => Q a w.node) (fun _ _ => False) ⟨node, faults⟩ :=
    Prog.wp_mono m (fun _ _ h => h.1) (fun _ _ h => h.2 hcalm) (h faults)
  obtain ⟨a, w, hrun, hpost⟩ := Prog.exists_ok_of_wp m hwp
  exact ⟨a, w, hrun, hpost⟩

theorem Runs.exec_noFaults {ν α : Type} {m : RegM ν α} {node : ν} {Q : α → ν → Prop}
    {R : ν → Prop} (h : Runs m node Q R) :
    ∃ a w, m.exec ⟨node, noFaults⟩ = (.ok a, w) ∧ Q a w.node :=
  h.exec_calm fun _ => rfl

/-! ## The round trip -/

/-- A read returns the given configuration, up to normalisation. -/
def ReadsBack (node : Params fold σ) (service : String) (cfg : ManagedApplicationConfig) : Prop :=
  ∃ cfg', readManagedFromKey node service = .ok (some cfg') ∧ SameConfig fold cfg cfg'

/-- A key that reads at all holds no command beyond the limit of the reader. -/
theorem shortCommands_of_read {cfg found : ManagedApplicationConfig} {exits : ExitActions}
    {node node' : Params fold σ} (haccepted : Accepted fold cfg exits)
    (hwritten : Written cfg exits node node') {service : String}
    (hread : readManagedFromKey node' service = .ok (some found)) : ShortCommands cfg := by
  intro hook hhook
  have hstored := wantedHooks_of_mem haccepted hhook
  rw [← hwritten.hooks] at hstored
  have hsize := (readsAs_of_read hread).sizes _ _ hstored
  rw [hookValue, length_stringValue, valueCapLimit] at hsize
  omega

/-- A written key reads back exactly when the commands are short. -/
theorem readsBack_iff_of_written {cfg : ManagedApplicationConfig} {exits : ExitActions}
    {node node' : Params fold σ} (haccepted : Accepted fold cfg exits)
    (hwritten : Written cfg exits node node') (service : String) :
    ReadsBack node' service cfg ↔ ShortCommands cfg := by
  constructor
  · rintro ⟨found, hread, -⟩
    exact shortCommands_of_read haccepted hwritten hread
  · intro hshort
    exact read_of_written haccepted hwritten hshort service

/-- The key after a write that returned. -/
theorem written_of_exec {cfg : ManagedApplicationConfig} {exits : ExitActions}
    (hpreflight : preflightConfig fold cfg = .ok exits) {node : Params fold σ}
    {faults : Nat → Option Fault} {w : World (Params fold σ)} (hnames : NamesDecode node)
    (hwrite : (writeIntoKey cfg).exec ⟨node, faults⟩ = (.ok (), w)) :
    Written cfg exits node w.node :=
  (Prog.wp_ok _ (runs_writeIntoKey hpreflight hnames faults) hwrite).1

/-- The round trip: a write that returns leaves everything unowned as it was, and
what it wrote reads back, whatever the key held before, exactly when every hook
command fits. -/
theorem writeIntoKey_readsBack_iff {cfg : ManagedApplicationConfig} {exits : ExitActions}
    (hpreflight : preflightConfig fold cfg = .ok exits) {node : Params fold σ}
    {faults : Nat → Option Fault} {w : World (Params fold σ)} (hnames : NamesDecode node)
    (hwrite : (writeIntoKey cfg).exec ⟨node, faults⟩ = (.ok (), w)) (service : String) :
    Unmanaged node w.node ∧ (ReadsBack w.node service cfg ↔ ShortCommands cfg) := by
  have hwritten := written_of_exec hpreflight hnames hwrite
  exact ⟨hwritten.unmanaged, readsBack_iff_of_written
    (accepted_of_preflightConfig fold hpreflight) hwritten service⟩

/-! ## A concrete table and configuration -/

/-- The upper-case table that knows ASCII only. -/
def asciiFold : NameFold where
  upcase := asciiUpcase
  ascii _ _ := rfl
  caseless := by
    intro u v hv hletter hsame
    have hfix : asciiUpcase v = v := by
      unfold asciiUpcase
      rw [if_neg fun h => hletter (.inr h)]
    rw [hfix] at hsame
    unfold asciiUpcase at hsame
    split at hsame
    · rename_i hlower
      refine absurd (.inl ?_) hletter
      rw [← hsame, UInt16.toNat_ofNat']
      omega
    · exact hsame

/-- A service that runs `command` before it starts. -/
def hookedConfig (command : String) : ManagedApplicationConfig :=
  { application := some "C:\\app.exe", hooks := [⟨"Start", "Pre", command⟩] }

theorem preflight_hookedConfig {command : String} (hclean : Text.contains command '\x00' = false) :
    preflightConfig asciiFold (hookedConfig command) = .ok ∅ := by
  have hnul : precheckNoEmbeddedNuls (hookedConfig command) = .ok () := by
    refine Check.forM_eq_ok.mpr fun entry hentry => ?_
    have hcases : entry ∈ [("Application", "C:\\app.exe"), ("AppEvents\\Start", "Start"),
        ("AppEvents\\Start\\Pre", "Pre"), ("AppEvents\\Start\\Pre (command)", command)] :=
      hentry
    simp only [List.mem_cons, List.not_mem_nil, or_false] at hcases
    rcases hcases with rfl | rfl | rfl | rfl
    · rfl
    · rfl
    · rfl
    · simp only [checkNoNul, hclean, Bool.false_eq_true, if_false]
  have hhook : (hookedConfig command).hooks.foldlM (checkHook asciiFold) [] =
      .ok [(hookIdentity asciiFold ⟨"Start", "Pre", command⟩, command)] := by
    have hevent : validateHookComponent "Start" "event" = .ok () := by decide
    have haction : validateHookComponent "Pre" "action" = .ok () := by decide
    refine Check.bind_eq_ok.mpr ⟨_, ?_, rfl⟩
    exact Check.bind_eq_ok.mpr ⟨(), hevent, Check.bind_eq_ok.mpr ⟨(), haction, rfl⟩⟩
  refine Check.bind_eq_ok.mpr ⟨(), rfl, Check.bind_eq_ok.mpr ⟨(), rfl, ?_⟩⟩
  refine Check.bind_eq_ok.mpr ⟨(), hnul, Check.bind_eq_ok.mpr ⟨(), rfl, ?_⟩⟩
  refine Check.bind_eq_ok.mpr ⟨_, hhook, Check.bind_eq_ok.mpr ⟨(), rfl, rfl⟩⟩

theorem namesDecode_empty : NamesDecode (.empty : Params fold σ) := by
  constructor
  · intro exit hexit
    cases hexit
  · intro events hevents
    cases hevents

/-- A text of `n` letters. -/
def letters (n : Nat) : String :=
  String.ofList (List.replicate n 'x')

theorem letters_noNul (n : Nat) : Text.contains (letters n) '\x00' = false := by
  rw [letters, Text.contains, String.toList_ofList]
  simp

theorem length_encode_letters (n : Nat) : (Utf16.encode (letters n)).length = n := by
  have hascii : IsAscii (letters n) := by
    intro c hc
    rw [letters, String.toList_ofList] at hc
    rw [List.eq_of_mem_replicate hc]
    decide
  rw [encode_of_isAscii hascii, List.length_map, letters, String.toList_ofList,
    List.length_replicate]

/-- A key with values that are out of date, an exit action under an alias, a hook that is no longer
wanted, and a value of another program. -/
def staleKey : Params asciiFold Unit :=
  let values : Params asciiFold Unit :=
    (((Node.empty.setValue application (stringValue regSz "C:\\old.exe")).setValue
      appParameters (stringValue regSz "--old")).setValue
      appDirectory (stringValue regSz "C:\\old")).setValue "Vendor" (dwordValue 7)
  (values.setSubkey appExit ((Node.empty.setValue "01" (stringValue regSz "Exit")).setValue ""
    (stringValue regSz "Ignore"))).setSubkey appEvents
      (Node.empty.setSubkey "Stop" (Node.empty.setValue "Post" (stringValue regSz "old.exe")))

/-- A hook, an exit action under the name that had an alias, and another default action. -/
def replacingConfig : ManagedApplicationConfig where
  application := some "C:\\new.exe"
  restart := { defaultAction := some .restart }
  exitActions := (∅ : ExitActions).insert "1" { action := .exit }
  hooks := [⟨"Start", "Pre", "hook.exe"⟩]

theorem preflight_replacingConfig :
    ∃ exits, preflightConfig asciiFold replacingConfig = .ok exits := by
  have hpasses : (preflightConfig asciiFold replacingConfig).isOk = true := by decide +kernel
  exact Check.exists_ok_of_isOk hpasses

theorem shortCommands_replacingConfig : ShortCommands replacingConfig := by
  intro hook hhook
  obtain rfl := List.mem_singleton.mp hhook
  decide

/-- The stale key is read as a configuration that would be accepted. -/
theorem staleKey_reads : ∃ cfg exits, readManagedFromKey staleKey "svc" = .ok (some cfg) ∧
    preflightConfig asciiFold cfg = .ok exits ∧ ShortCommands cfg := by
  have hreads : (readManagedFromKey staleKey "svc").toOption.join.any (fun cfg =>
      (preflightConfig asciiFold cfg).isOk && cfg.hooks.all fun hook =>
        decide ((Utf16.encode hook.command).length ≤ 524287)) = true := by
    decide +kernel
  rcases hread : readManagedFromKey staleKey "svc" with e | found
  · rw [hread] at hreads
    cases hreads
  · rw [hread] at hreads
    cases found with
    | none => cases hreads
    | some cfg =>
        obtain ⟨hpasses, hshort⟩ := Bool.and_eq_true_iff.mp hreads
        obtain ⟨exits, hpreflight⟩ := Check.exists_ok_of_isOk hpasses
        refine ⟨cfg, exits, rfl, hpreflight, fun hook hhook => ?_⟩
        exact of_decide_eq_true (List.all_eq_true.mp hshort hook hhook)

theorem writeIntoKey_readsBack_staleKey :
    ∃ w', (writeIntoKey replacingConfig).exec ⟨staleKey, noFaults⟩ = (.ok (), w') ∧
      Unmanaged staleKey w'.node ∧ ReadsBack w'.node "svc" replacingConfig := by
  obtain ⟨exits, hpreflight⟩ := preflight_replacingConfig
  obtain ⟨old, exits', hread, -⟩ := staleKey_reads
  have hnames := (readsAs_of_read hread).names
  obtain ⟨⟨⟩, w', hwrite, -⟩ := Runs.exec_noFaults (runs_writeIntoKey hpreflight hnames)
  obtain ⟨hunmanaged, hiff⟩ := writeIntoKey_readsBack_iff hpreflight hnames hwrite "svc"
  exact ⟨w', hwrite, hunmanaged, hiff.mpr shortCommands_replacingConfig⟩

/-- A command of half a mebi units is written, and the key can no longer be
read. -/
theorem writeIntoKey_not_readsBack :
    preflightConfig asciiFold (hookedConfig (letters 524288)) = .ok ∅ ∧
      ∃ w', (writeIntoKey (hookedConfig (letters 524288))).exec
          ⟨(.empty : Params asciiFold Unit), noFaults⟩ = (.ok (), w') ∧
        ¬ ReadsBack w'.node "svc" (hookedConfig (letters 524288)) := by
  have hclean := letters_noNul 524288
  have hlong := length_encode_letters 524288
  -- nothing below evaluates the command
  generalize letters 524288 = command at hclean hlong
  have hpreflight := preflight_hookedConfig hclean
  obtain ⟨⟨⟩, w', hwrite, hwritten⟩ := Runs.exec_noFaults
    (runs_writeIntoKey (σ := Unit) hpreflight namesDecode_empty)
  refine ⟨hpreflight, w', hwrite, ?_⟩
  rintro ⟨found, hread, -⟩
  have hshort := shortCommands_of_read (accepted_of_preflightConfig _ hpreflight) hwritten hread
  have hlength := hshort ⟨"Start", "Pre", command⟩ (List.mem_singleton.mpr rfl)
  change (Utf16.encode command).length ≤ 524287 at hlength
  omega

end Ngsm.Registry
