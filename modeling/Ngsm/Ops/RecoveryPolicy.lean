/-
# What a recovery policy means

The keys that the operators may enter are those under which the supervisor looks codes up,
every policy that is read uses them, and a policy that was saved is the policy that is read
next.
-/

import Ngsm.Ops.EditAtomic
import Ngsm.Ops.Recovery
import Ngsm.Registry.ExitNames
import Ngsm.Supervisor.Run

namespace Ngsm.Ops

open Ngsm.Lib Ngsm.Core Ngsm.Registry

/-! ## Keys -/

/-- A text without white space is not trimmed. -/
theorem trim_eq_self {s : String} (hclean : ∀ c ∈ s.toList, Text.isWhitespace c = false) :
    Text.trim s = s := by
  have hkeep : ∀ cs : List Char, (∀ c ∈ cs, Text.isWhitespace c = false) →
      cs.dropWhile Text.isWhitespace = cs := by
    intro cs hcs
    cases cs with
    | nil => rfl
    | cons c cs => rw [List.dropWhile_cons_of_neg (by simp [hcs c List.mem_cons_self])]
  rw [Text.trim, hkeep _ hclean, hkeep, List.reverse_reverse, String.ofList_toList]
  intro c hc
  exact hclean c (List.mem_reverse.mp hc)

/-- The characters of a key are visible, and none of them is an equals sign. -/
theorem key_char {c : Char} (hc : c = '-' ∨ c.isDigit = true) :
    Text.isWhitespace c = false ∧ Text.isControl c = false ∧ c ≠ '=' ∧ c ≠ '\x00' := by
  rcases hc with rfl | hdigit
  · decide
  · rw [Char.isDigit_iff_toNat] at hdigit
    change 48 ≤ c.toNat ∧ c.toNat ≤ 57 at hdigit
    refine ⟨?_, ?_, ?_, ?_⟩
    · simp only [Text.isWhitespace]
      simp
      omega
    · simp only [Text.isControl]
      simp
      omega
    · rintro rfl
      exact absurd hdigit (by decide)
    · rintro rfl
      exact absurd hdigit (by decide)

/-- The accepted keys are the printed codes. -/
theorem validateExitActionKey_eq_ok {s : String} :
    validateExitActionKey s = .ok () ↔ ∃ code : Int32, s = toString code := by
  constructor
  · intro hvalid
    unfold validateExitActionKey at hvalid
    iterate 5
      split at hvalid
      · cases hvalid
    split at hvalid
    · cases hvalid
    rename_i code hcode
    split at hvalid
    · cases hvalid
    rename_i hcanonical
    rw [not_not] at hcanonical
    refine ⟨Int32.ofInt code, ?_⟩
    have hrange := Text.isI32_of_parseI32 hcode
    have hsame : (Int32.ofInt code).toInt = code :=
      Int32.toInt_ofInt_of_le hrange.1 hrange.2
    rw [hcanonical]
    exact (congrArg toString hsame).symm
  · rintro ⟨code, rfl⟩
    have hchars : ∀ c ∈ (toString code).toList, c = '-' ∨ c.isDigit = true :=
      fun c hc => Text.mem_toString_int (z := code.toInt) hc
    have htrim : Text.trim (toString code) = toString code :=
      trim_eq_self fun c hc => (key_char (hchars c hc)).1
    have hempty : (toString code).isEmpty = false := by
      have hnonempty := Text.toString_int_ne_empty code.toInt
      rwa [← Bool.not_eq_true, String.isEmpty_iff]
    have hplain : (toString code).toList.any
        (fun c => Text.isWhitespace c || Text.isControl c) = false := by
      rw [List.any_eq_false]
      intro c hc
      simp [(key_char (hchars c hc)).1, (key_char (hchars c hc)).2.1]
    have hequals : Text.contains (toString code) '=' = false := by
      rw [Text.contains, List.contains_eq_mem, decide_eq_false_iff_not]
      exact fun hc => (key_char (hchars _ hc)).2.2.1 rfl
    have hnul : Text.contains (toString code) '\x00' = false := by
      rw [Text.contains, List.contains_eq_mem, decide_eq_false_iff_not]
      exact fun hc => (key_char (hchars _ hc)).2.2.2 rfl
    have hword : Text.eqIgnoreAsciiCase (toString code) "default" = false :=
      toString_int_ne_default code.toInt
    have hsame : toString code.toInt = toString code := rfl
    unfold validateExitActionKey
    rw [htrim]
    simp only [hempty, hword, hplain, hequals, hnul, parseI32_key code, hsame,
      Bool.false_eq_true, if_false, ne_eq, not_true_eq_false]

/-! ## The normalised policy -/

/-- Inserting under a key keeps the map a collection of what was inserted. -/
theorem insert_step {done : List (String × ExitActionPolicy)} {out out' : ExitActions}
    {exit : ExitName} {action : ExitAction}
    (hout : ∀ (key : String) policy, out[key]? = some policy ↔ (key, policy) ∈ done)
    (hinsert : insertExitAction out exit.key action = .ok out') (key : String)
    (policy : ExitActionPolicy) :
    out'[key]? = some policy ↔ (key, policy) ∈ done ++ [(exit.key, ⟨action⟩)] := by
  rw [List.mem_append, List.mem_singleton, ← hout]
  rcases insertExitAction_key out exit action with
    ⟨hnone, hrun⟩ | ⟨hsame, hrun⟩ | ⟨_, _, _, hrefused⟩
  · rw [hrun] at hinsert
    cases hinsert
    rw [Std.ExtTreeMap.getElem?_insert]
    by_cases hkey : exit.key = key
    · subst hkey
      simp [hnone, eq_comm]
    · rw [if_neg (by rwa [Std.LawfulEqCmp.compare_eq_iff_eq])]
      simp [Ne.symm hkey]
  · rw [hrun] at hinsert
    cases hinsert
    constructor
    · exact .inl
    · rintro (hold | hnew)
      · exact hold
      · rw [Prod.mk.injEq] at hnew
        rw [hnew.1, hnew.2, hsame]
  · exact absurd hinsert (hrefused out')

/-- The normalised actions of a policy whose codes are printed codes: nothing is renamed,
and the default action is added. -/
theorem normalized_applyRecovery {original : ManagedApplicationConfig} {spec : RecoverySpec}
    {exits : ExitActions} (hcodes : ∀ code ∈ spec.exitActions, ∃ exit : Int32, code = toString exit)
    (hexits : normalizedExitActions (applyRecovery original spec) = .ok exits) :
    exits = (spec.exitActions.map fun _ action => (⟨action⟩ : ExitActionPolicy)).insert "default"
      ⟨spec.defaultAction⟩ := by
  rw [normalizedExitActions, Check.bind_eq_ok] at hexits
  obtain ⟨out, hout, hexits⟩ := hexits
  change insertExitAction out ExitName.anyCode.key spec.defaultAction = .ok exits at hexits
  change (spec.exitActions.map fun _ action => (⟨action⟩ : ExitActionPolicy)).toList.foldlM
    (fun out entry => insertExitAction out entry.1 entry.2.action) ∅ = .ok out at hout
  generalize hmap : (spec.exitActions.map fun _ action => (⟨action⟩ : ExitActionPolicy)) = actions
    at hout ⊢
  have hkeys : ∀ entry ∈ actions.toList, ∃ exit : Int32, entry.1 = toString exit := by
    intro entry hentry
    apply hcodes
    rw [← Std.ExtTreeMap.mem_map, hmap, ← Std.ExtTreeMap.mem_keys,
      ← Std.ExtTreeMap.map_fst_toList_eq_keys]
    exact List.mem_map_of_mem hentry
  have hcollected : ∀ (key : String) policy, out[key]? = some policy ↔
      (key, policy) ∈ actions.toList := by
    refine Check.foldlM_invariant (fun done (out : ExitActions) =>
      ∀ (key : String) policy, out[key]? = some policy ↔ (key, policy) ∈ done) (by simp) ?_ hout
    intro done entry before after hentry hbefore hstep
    obtain ⟨key, policy⟩ := entry
    obtain ⟨exit, rfl⟩ := hkeys _ hentry
    exact @insert_step _ _ _ (.code exit) _ hbefore hstep
  have hsame : out = actions := by
    apply Std.ExtTreeMap.ext_getElem?
    intro key
    apply Option.ext
    intro policy
    rw [hcollected, Std.ExtTreeMap.mem_toList_iff_getElem?_eq_some]
  have hnone : out["default"]? = none := by
    rw [hsame, ← hmap]
    apply Std.ExtTreeMap.getElem?_eq_none
    rw [Std.ExtTreeMap.mem_map]
    intro hlisted
    obtain ⟨exit, hexit⟩ := hcodes _ hlisted
    cases @key_injective .anyCode (.code exit) hexit
  rcases insertExitAction_key out .anyCode spec.defaultAction with
    ⟨-, hrun⟩ | ⟨hfound, -⟩ | ⟨_, hfound, _, _⟩
  · rw [hrun] at hexits
    cases hexits
    rw [hsame]
    rfl
  · exact absurd (hnone.symm.trans hfound) (by simp)
  · exact absurd (hnone.symm.trans hfound) (by simp)

/-! ## Saving and reading -/

section

variable {fold : NameFold} {σ : Type} {b b' : Backend fold σ} {spec : RecoverySpec}

theorem exec_readRecovery {name : String} (hreadError : b.readError = none)
    {managed : ManagedApplicationConfig}
    (hread : readManagedFromKey b.key name = .ok (some managed)) :
    ((readRecoveryWithBackend name).exec b).1 = .ok (recoveryOf name managed) := by
  have hwp : (readRecoveryWithBackend name).wp
      (fun found _ => found = recoveryOf name managed) (fun _ _ => False) b := by
    unfold readRecoveryWithBackend readManagedBackend
    rw [Prog.wp_bind, Prog.wp_step]
    simp only [hreadError, hread]
    rfl
  obtain ⟨found, after, hrun, rfl⟩ := Prog.exists_ok_of_wp _ hwp
  rw [hrun]

/-- A policy that is read comes from a configuration that is read. -/
theorem of_readRecovery {name : String} {found : RecoverySpec}
    (hrun : (readRecoveryWithBackend name).exec b = (.ok found, b')) :
    ∃ managed, readManagedFromKey b.key name = .ok (some managed) ∧
      found = recoveryOf name managed := by
  have hwp : (readRecoveryWithBackend name).wp
      (fun found _ => ∃ managed, readManagedFromKey b.key name = .ok (some managed) ∧
        found = recoveryOf name managed) (fun _ _ => True) b := by
    unfold readRecoveryWithBackend readManagedBackend
    rw [Prog.wp_bind, Prog.wp_step]
    rcases hreadError : b.readError with _ | e
    · simp only
      rcases hread : readManagedFromKey b.key name with e | _ | managed
      · trivial
      · trivial
      · exact ⟨managed, rfl, rfl⟩
    · trivial
  exact Prog.wp_ok _ hwp hrun

/-- What a save that returned did. -/
structure Saved (spec : RecoverySpec) (original : ManagedApplicationConfig)
    (b b' : Backend fold σ) : Prop where
  codes : ∀ code ∈ spec.exitActions, ∃ exit : Int32, code = toString exit
  read : readManagedFromKey b.key spec.name = .ok (some original)
  written : ∃ exits, preflightConfig fold (applyRecovery original spec) = .ok exits ∧
    Written (applyRecovery original spec) exits b.key b'.key
  readable : b'.readError = none

theorem written_of_writeManagedConfig {service : String} {cfg original : ManagedApplicationConfig}
    {node : Params fold σ} {faults : Nat → Option Fault} {w : World (Params fold σ)}
    (hread : readManagedFromKey node service = .ok (some original))
    (hvalid : validateManagedConfig fold cfg = .ok ())
    (hrun : (writeManagedConfig service cfg).exec ⟨node, faults⟩ = (.ok (), w)) :
    ∃ exits, preflightConfig fold cfg = .ok exits ∧ Written cfg exits node w.node := by
  have hname : validateServiceName service = .ok () := by
    rcases hchecked : validateServiceName service with e | ⟨⟩
    · unfold writeManagedConfig at hrun
      rw [Prog.exec_bind, hchecked] at hrun
      cases hrun
    · rfl
  obtain ⟨exits, hpreflight⟩ := exists_exits_of_valid hvalid
  have hreads := readsAs_of_read hread
  have hruns := runs_writeManagedConfig hname hpreflight hreads.names hreads.application faults
  exact ⟨exits, hpreflight, (Prog.wp_ok _ hruns hrun).1⟩

theorem validateRecoveryCode_eq_ok {code : String} :
    validateRecoveryCode code = .ok () ↔ validateExitActionKey code = .ok () := by
  unfold validateRecoveryCode
  split
  · rename_i hok
    simp [hok]
  · rename_i e herror
    simp [herror]

theorem saved_of_save {message : String}
    (hsave : (saveRecoveryWithBackend spec).exec b = (.ok message, b')) :
    ∃ original, Saved spec original b b' := by
  have hwp : (saveRecoveryWithBackend spec).wp
      (fun _ b' => ∃ original, Saved spec original b b') (fun _ _ => True) b := by
    unfold saveRecoveryWithBackend
    rw [Prog.wp_bind, Prog.wp_liftExcept]
    rcases hcodes : spec.exitActions.keys.forM validateRecoveryCode with e | ⟨⟩
    · trivial
    have hprinted : ∀ code ∈ spec.exitActions, ∃ exit : Int32, code = toString exit := by
      intro code hcode
      exact validateExitActionKey_eq_ok.mp (validateRecoveryCode_eq_ok.mp
        (Check.forM_eq_ok.mp hcodes code (Std.ExtTreeMap.mem_keys.mpr hcode)))
    simp only
    unfold lockServiceConfig
    rw [Prog.wp_bind, Prog.wp_step]
    rcases hlock : b.lockError with _ | e
    · simp only
      unfold readManagedBackend
      rw [Prog.wp_bind, Prog.wp_step]
      rcases hreadError : b.readError with _ | e
      · simp only
        rcases hread : readManagedFromKey b.key spec.name with e | _ | original
        · trivial
        · trivial
        · simp only
          rw [Prog.wp_bind, Prog.wp_liftExcept]
          rcases hvalid : validateManagedConfig fold (applyRecovery original spec) with e | ⟨⟩
          · trivial
          simp only
          unfold writeRecovery
          rw [Prog.wp_bind, Prog.wp_attempt]
          refine wp_writeManagedBackend (fun w hrun => ?_) fun e w hrun => ?_
          · exact ⟨original, hprinted, hread,
              written_of_writeManagedConfig hread hvalid hrun, rfl⟩
          · simp only [Prog.wp_bind, Prog.wp_attempt]
            exact wp_writeManagedBackend (fun _ _ => trivial) fun _ _ _ => trivial
      · trivial
    · trivial
  exact Prog.wp_ok _ hwp hsave

/-- The policy of a configuration with the normalised actions is the policy asked for. -/
theorem recoveryOf_normalized {original found : ManagedApplicationConfig}
    (hcodes : ∀ code ∈ spec.exitActions, ∃ exit : Int32, code = toString exit)
    (hsame : SameConfig fold (applyRecovery original spec) found) :
    recoveryOf spec.name found = spec := by
  have hexits := normalized_applyRecovery hcodes hsame.exitActions
  have hdefault : found.restart.defaultAction = some spec.defaultAction := by
    rw [hsame.defaultAction, hexits, Std.ExtTreeMap.getElem?_insert_self]
    rfl
  have hlisted : (found.exitActions.filter fun code _ => code != "default").map
      (fun _ policy => policy.action) = spec.exitActions := by
    apply Std.ExtTreeMap.ext_getElem?
    intro code
    rw [Std.ExtTreeMap.getElem?_map, Std.ExtTreeMap.getElem?_filter', hexits,
      Std.ExtTreeMap.getElem?_insert, Std.ExtTreeMap.getElem?_map]
    by_cases hcode : "default" = code
    · subst hcode
      have hnone : spec.exitActions["default"]? = none := by
        apply Std.ExtTreeMap.getElem?_eq_none
        intro hdefault
        obtain ⟨exit, hexit⟩ := hcodes _ hdefault
        cases @key_injective .anyCode (.code exit) hexit
      rw [hnone]
      simp
    · rw [if_neg (by rwa [Std.LawfulEqCmp.compare_eq_iff_eq])]
      cases spec.exitActions[code]? with
      | none => rfl
      | some action => simp [Option.filter, Ne.symm hcode]
  rw [recoveryOf, hdefault, hlisted, hsame.restartDelayMs, hsame.throttleDelayMs]
  rfl

/-- A saved policy is read back exactly when the commands of the service can be. -/
theorem read_of_saved {original : ManagedApplicationConfig}
    (hsaved : Saved spec original b b') :
    ((readRecoveryWithBackend spec.name).exec b').1 = .ok spec ↔ ShortCommands original := by
  obtain ⟨exits, hpreflight, hwritten⟩ := hsaved.written
  have haccepted := accepted_of_preflightConfig fold hpreflight
  constructor
  · intro hread
    rcases hrun : (readRecoveryWithBackend spec.name).exec b' with ⟨outcome, after⟩
    rw [hrun] at hread
    subst hread
    obtain ⟨managed, hmanaged, -⟩ := of_readRecovery hrun
    have hshort : ShortCommands (applyRecovery original spec) :=
      shortCommands_of_read haccepted hwritten hmanaged
    exact hshort
  · intro hshort
    obtain ⟨found, hfound, hsame⟩ := read_of_written haccepted hwritten hshort spec.name
    rw [exec_readRecovery hsaved.readable hfound, recoveryOf_normalized hsaved.codes hsame]

/-- Every code of a policy that was read is a key that may be entered. -/
theorem keys_of_readRecovery {name : String} {found : RecoverySpec}
    (hrun : (readRecoveryWithBackend name).exec b = (.ok found, b')) :
    ∀ code ∈ found.exitActions, validateExitActionKey code = .ok () := by
  obtain ⟨managed, hread, rfl⟩ := of_readRecovery hrun
  intro code hcode
  change code ∈ ((managed.exitActions.filter fun code _ => code != "default").map
    fun _ policy => policy.action) at hcode
  rw [Std.ExtTreeMap.mem_map, Std.ExtTreeMap.mem_filter] at hcode
  obtain ⟨hstored, hnamed⟩ := hcode
  rw [Std.ExtTreeMap.getKey_eq, bne_iff_ne] at hnamed
  obtain ⟨policy, hpolicy⟩ := Option.isSome_iff_exists.mp
    (Std.ExtTreeMap.mem_iff_isSome_getElem?.mp hstored)
  obtain ⟨exitKey, -, entry, -, hnormal, -⟩ := (readsAs_of_read hread).exits code policy hpolicy
  obtain ⟨exit, -, rfl⟩ := normalize_eq_ok.mp hnormal
  cases exit with
  | anyCode => exact absurd rfl hnamed
  | code exit => exact validateExitActionKey_eq_ok.mpr ⟨exit, rfl⟩

end

/-! ## The supervisor -/

/-- The action that the values of the registry give to a code: that of the code, else that
of every other code, else a restart. -/
def RegistryAction (entries : List (String × String × UInt32)) (code : Int32)
    (action : ExitAction) : Prop :=
  (∃ entry ∈ entries, EntryMeans entry (.code code) action) ∨
    (¬ ∃ entry ∈ entries, Spells entry.1 (.code code)) ∧
      ((∃ entry ∈ entries, EntryMeans entry .anyCode action) ∨
        (¬ ∃ entry ∈ entries, Spells entry.1 .anyCode) ∧ action = .restart)

section

variable {fold : NameFold} {σ : Type}

/-- The supervisor looks codes up as the registry means them. -/
theorem exitAction_of_read {node : Params fold σ} {service : String}
    {cfg : ManagedApplicationConfig} (hread : readManagedFromKey node service = .ok (some cfg)) :
    ∃ entries, exitEntries node = .ok entries ∧ ∀ code action,
      RegistryAction entries code action ↔ Supervisor.exitAction cfg code = action := by
  obtain ⟨entries, hentries, hcollects, hmeans⟩ := collects_of_read hread
  refine ⟨entries, hentries, ?_⟩
  have hdefault := (exits_of_read hread).2
  -- a meaning is stored exactly when some entry spells it
  have hspelled : ∀ exit, (∃ entry ∈ entries, Spells entry.1 exit) ↔
      cfg.exitActions[exit.key]? ≠ none := by
    intro exit
    constructor
    · rintro ⟨entry, hentry, hspells⟩ hnone
      obtain ⟨other, action, hspells', hparse⟩ := hmeans entry hentry
      have hstored := (hcollects exit action).mpr ⟨entry, hentry, hspells, hparse⟩
      rw [hnone] at hstored
      cases hstored
    · intro hsome
      obtain ⟨⟨action⟩, hstored⟩ := Option.ne_none_iff_exists'.mp hsome
      obtain ⟨entry, hentry, hspells, -⟩ := (hcollects exit action).mp hstored
      exact ⟨entry, hentry, hspells⟩
  intro code action
  have hcode := hcollects (.code code) action
  have hany := hcollects .anyCode action
  change cfg.exitActions[toString code]? = some ⟨action⟩ ↔ _ at hcode
  change cfg.exitActions["default"]? = some ⟨action⟩ ↔ _ at hany
  have hcodeSpelled := hspelled (.code code)
  have hanySpelled := hspelled .anyCode
  change _ ↔ cfg.exitActions[toString code]? ≠ none at hcodeSpelled
  change _ ↔ cfg.exitActions["default"]? ≠ none at hanySpelled
  rw [RegistryAction, ← hcode, ← hany, hcodeSpelled, hanySpelled, not_not, not_not,
    Supervisor.exitAction, Supervisor.defaultAction, hdefault]
  cases cfg.exitActions[toString code]? with
  | some policy =>
      obtain ⟨policy⟩ := policy
      simp
  | none =>
      cases cfg.exitActions["default"]? with
      | some policy =>
          obtain ⟨policy⟩ := policy
          simp
      | none => simp [eq_comm]

/-- Exit actions mean the same to the reader, to the writer, to the operators and to the
supervisor; and a policy that was saved is the policy that is read, exactly when the
commands of the service can be read back. -/
theorem exit_policy_identity :
    (∀ name other : String,
      (∃ key, normalizeExitActionName name = .ok key ∧ normalizeExitActionName other = .ok key) ↔
        ∃ exit, Spells name exit ∧ Spells other exit) ∧
    (∀ name key, normalizeExitActionName name = .ok key → normalizeExitActionName key = .ok key) ∧
    (∀ (node : Params fold σ) entries, exitEntries node = .ok entries →
      ((∀ exits, readExitActions node ≠ .ok exits) ↔ Unreadable entries)) ∧
    (∀ (node : Params fold σ) service cfg, readManagedFromKey node service = .ok (some cfg) →
      ∃ entries, exitEntries node = .ok entries ∧ ∀ code action,
        RegistryAction entries code action ↔ Supervisor.exitAction cfg code = action) ∧
    (∀ (b : Backend fold σ) name found b',
      (readRecoveryWithBackend name).exec b = (.ok found, b') →
        ∀ code ∈ found.exitActions, validateExitActionKey code = .ok ()) ∧
    ∀ (b : Backend fold σ) spec message b',
      (saveRecoveryWithBackend spec).exec b = (.ok message, b') →
        ∃ original, readManagedFromKey b.key spec.name = .ok (some original) ∧
          (((readRecoveryWithBackend spec.name).exec b').1 = .ok spec ↔
            ShortCommands original) := by
  refine ⟨?_, ?_, ?_, ?_, ?_, ?_⟩
  · intro name other
    constructor
    · rintro ⟨key, hname, hother⟩
      obtain ⟨exit, hspells, rfl⟩ := normalize_eq_ok.mp hname
      obtain ⟨exit', hspells', hkey⟩ := normalize_eq_ok.mp hother
      rw [key_injective hkey] at hspells'
      exact ⟨exit, hspells, hspells'⟩
    · rintro ⟨exit, hspells, hspells'⟩
      exact ⟨exit.key, normalize_eq_ok.mpr ⟨exit, hspells, rfl⟩,
        normalize_eq_ok.mpr ⟨exit, hspells', rfl⟩⟩
  · intro name key hnormal
    exact normalize_of_isExitKey (isExitKey_of_normalize hnormal)
  · intro node entries hentries
    exact readExitActions_fails_iff hentries
  · intro node service cfg hread
    exact exitAction_of_read hread
  · intro b name found b' hrun
    exact keys_of_readRecovery hrun
  · intro b spec message b' hsave
    obtain ⟨original, hsaved⟩ := saved_of_save hsave
    exact ⟨original, hsaved.read, read_of_saved hsaved⟩

/-- A save of accepted codes returns when nothing fails. -/
theorem save_returns {b : Backend fold σ} {spec : RecoverySpec}
    {original : ManagedApplicationConfig} {exits : ExitActions}
    (hcodes : spec.exitActions.keys.forM validateRecoveryCode = .ok ())
    (hlock : b.lockError = none) (hreadError : b.readError = none)
    (hname : validateServiceName spec.name = .ok ())
    (hread : readManagedFromKey b.key spec.name = .ok (some original))
    (hpreflight : preflightConfig fold (applyRecovery original spec) = .ok exits)
    (hcalm : Calm (b.writeFaults b.writes)) :
    ∃ message b', (saveRecoveryWithBackend spec).exec b = (.ok message, b') := by
  have hreads := readsAs_of_read hread
  obtain ⟨⟨⟩, w, hwrite, -⟩ := (runs_writeManagedConfig hname hpreflight hreads.names
    hreads.application).exec_calm hcalm
  have hvalid : validateManagedConfig fold (applyRecovery original spec) = .ok () := by
    rw [validateManagedConfig, hpreflight]
    rfl
  have hwp : (saveRecoveryWithBackend spec).wp (fun _ _ => True) (fun _ _ => False) b := by
    unfold saveRecoveryWithBackend lockServiceConfig readManagedBackend
    rw [Prog.wp_bind, Prog.wp_liftExcept, hcodes]
    simp only
    rw [Prog.wp_bind, Prog.wp_step]
    simp only [hlock]
    rw [Prog.wp_bind, Prog.wp_step]
    simp only [hreadError, hread]
    rw [Prog.wp_bind, Prog.wp_liftExcept, hvalid]
    simp only
    unfold writeRecovery
    rw [Prog.wp_bind, Prog.wp_attempt]
    refine wp_writeManagedBackend (fun _ _ => trivial) fun e w' hrun => ?_
    change (writeManagedConfig spec.name (applyRecovery original spec)).exec
      ⟨b.key, b.writeFaults b.writes⟩ = _ at hrun
    rw [hwrite] at hrun
    cases hrun
  obtain ⟨message, b', hrun, -⟩ := Prog.exists_ok_of_wp _ hwp
  exact ⟨message, b', hrun⟩

end

/-! ## A policy that is lost -/

/-- The policy that restarts on every code. -/
def restartSpec : RecoverySpec :=
  { name := "svc", defaultAction := .restart }

/-- The registry key of a service, without failures ahead. -/
def calmBackend (key : Params asciiFold Unit) : Backend asciiFold Unit :=
  { key, lockError := none, readError := none, writeFaults := fun _ => noFaults,
    nativeError := none }

theorem preflight_restartSpec {command : String}
    (hclean : Text.contains command '\x00' = false) :
    preflightConfig asciiFold (applyRecovery (hookedConfig command) restartSpec) =
      .ok ((∅ : ExitActions).insert "default" ⟨.restart⟩) := by
  have hempty : restartSpec.exitActions.map (fun _ action => (⟨action⟩ : ExitActionPolicy)) = ∅ := by
    apply Std.ExtTreeMap.ext_getElem?
    intro code
    rw [Std.ExtTreeMap.getElem?_map]
    rfl
  have hconfig : applyRecovery (hookedConfig command) restartSpec =
      { hookedConfig command with restart := { defaultAction := some .restart } } := by
    rw [applyRecovery, hempty]
    rfl
  have hinsert : insertExitAction ∅ ExitName.anyCode.key .restart =
      .ok ((∅ : ExitActions).insert "default" ⟨.restart⟩) := by
    rcases insertExitAction_key ∅ .anyCode .restart with
      ⟨-, hrun⟩ | ⟨hfound, -⟩ | ⟨_, hfound, _, _⟩
    · exact hrun
    · simp at hfound
    · simp at hfound
  rw [hconfig]
  have hplain := preflight_hookedConfig hclean
  simp only [preflightConfig, Check.bind_eq_ok] at hplain ⊢
  obtain ⟨⟨⟩, happ, ⟨⟩, hmarks, ⟨⟩, hnul, ⟨⟩, hmulti, seen, hhooks, ⟨⟩, hpaths, -⟩ := hplain
  exact ⟨(), happ, (), hmarks, (), hnul, (), hmulti, seen, hhooks, (), hpaths,
    Check.bind_eq_ok.mpr ⟨∅, rfl, hinsert⟩⟩

/-- A save of the plain policy returns for every command that can be read. -/
theorem save_restartSpec {command : String} (hclean : Text.contains command '\x00' = false)
    (hread : readManagedFromKey (foreignKey command) "svc" = .ok (some (hookedConfig command))) :
    ∃ message b', (saveRecoveryWithBackend restartSpec).exec (calmBackend (foreignKey command)) =
      (.ok message, b') :=
  save_returns rfl rfl rfl (by decide) hread (preflight_restartSpec hclean) fun _ => rfl

/-- A policy with codes, both delays and another default action. -/
def pickedSpec : RecoverySpec where
  name := "svc"
  restartDelayMs := some 1500
  throttleDelayMs := some 0
  defaultAction := .exit
  exitActions :=
    ((∅ : Std.ExtTreeMap String ExitAction).insert "0" .ignore).insert "-1" .suicide

/-- The policy of a service with a short command is saved and read back. -/
theorem picked_policy_identity :
    ∃ message b', (saveRecoveryWithBackend pickedSpec).exec
        (calmBackend (foreignKey "hook.exe")) = (.ok message, b') ∧
      ((readRecoveryWithBackend "svc").exec b').1 = .ok pickedSpec := by
  have hread : readManagedFromKey (foreignKey "hook.exe") "svc" =
      .ok (some (hookedConfig "hook.exe")) :=
    foreignKey_reads (by decide) (by decide) (by decide)
  have hreturns : ((saveRecoveryWithBackend pickedSpec).exec
      (calmBackend (foreignKey "hook.exe"))).1.isOk = true := by
    decide +kernel
  obtain ⟨message, b', hsave⟩ := Prog.exists_ok_of_isOk hreturns
  obtain ⟨original, horiginal, hiff⟩ :=
    (@exit_policy_identity asciiFold Unit).2.2.2.2.2 _ _ _ _ hsave
  refine ⟨message, b', hsave, hiff.mpr ?_⟩
  have hsame : hookedConfig "hook.exe" = original :=
    Option.some.inj (Except.ok.inj (hread.symm.trans horiginal))
  rw [← hsame]
  intro hook hhook
  obtain rfl := List.mem_singleton.mp hhook
  decide

/-- After a save on a service whose command fills the buffer of the reader, the policy
cannot be read. -/
theorem saved_policy_lost :
    ∃ message b', (saveRecoveryWithBackend restartSpec).exec
        (calmBackend (foreignKey (letters 524288))) = (.ok message, b') ∧
      ((readRecoveryWithBackend "svc").exec b').1 ≠ .ok restartSpec := by
  have hclean := letters_noNul 524288
  have hlong := length_encode_letters 524288
  -- nothing below evaluates the command
  generalize letters 524288 = command at hclean hlong
  have hread : readManagedFromKey (foreignKey command) "svc" =
      .ok (some (hookedConfig command)) := by
    refine foreignKey_reads hclean ?_ ?_
    · intro hnil
      rw [hnil] at hlong
      cases hlong
    · rw [bareString, Utf16.length_toBytes, valueCapLimit]
      omega
  obtain ⟨message, b', hsave⟩ := save_restartSpec hclean hread
  refine ⟨message, b', hsave, ?_⟩
  obtain ⟨original, hsaved⟩ := saved_of_save hsave
  have hsame : hookedConfig command = original :=
    Option.some.inj (Except.ok.inj (hread.symm.trans hsaved.read))
  intro hback
  have hshort := (read_of_saved hsaved).mp hback
  rw [← hsame] at hshort
  have hlength := hshort ⟨"Start", "Pre", command⟩ (List.mem_singleton.mpr rfl)
  change (Utf16.encode command).length ≤ 524287 at hlength
  omega

end Ngsm.Ops
