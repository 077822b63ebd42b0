/-
# Changing a recovery policy from the command line

`recovery set` changes only what its arguments name.  It reads the stored policy and writes the
merged one under one lock of the service, so what it keeps is what is stored.
-/

import Ngsm.Ops.PolicyInForce

namespace Ngsm.Cli

open Ngsm.Lib Ngsm.Core Ngsm.Ops Ngsm.Registry

/-! ## The merge -/

/-- The arguments of `recovery set`. -/
structure RecoverySetArgs where
  defaultAction : Option ExitAction := none
  restartDelayMs : Option UInt32 := none
  noRestartDelay : Bool := false
  throttleDelayMs : Option UInt32 := none
  noThrottleDelay : Bool := false
  exitActions : List String := []
  clearExitActions : Bool := false

/-- Parse an action, in any case. -/
def parseExitAction (s : String) : Except String ExitAction :=
  match Text.toAsciiLowercase (Text.trim s) with
  | "restart" => .ok .restart
  | "ignore" => .ok .ignore
  | "exit" => .ok .exit
  | "suicide" => .ok .suicide
  | other => .error ("unknown action '" ++ other ++
      "'; expected restart, ignore, exit, or suicide")

/-- Apply one `CODE=ACTION`. -/
def applyExitAction (exits : Std.ExtTreeMap String ExitAction) (raw : String) :
    Result (Std.ExtTreeMap String ExitAction) :=
  match Text.splitOnce raw '=' with
  | none => .error (.invalidConfig ("exit-action '" ++ raw ++
      "' must be CODE=ACTION (e.g. 0=ignore)"))
  | some (code, action) =>
      match parseExitAction action with
      | .error e => .error (.invalidConfig ("exit-action '" ++ raw ++ "': " ++ e))
      | .ok action =>
          match validateExitActionKey (Text.trim code) with
          | .error e => .error (.invalidConfig ("exit-action '" ++ raw ++ "': " ++ e.text))
          | .ok () => .ok (exits.insert (Text.trim code) action)

def mergeRecoveryArgs (name : String) (current : RecoverySpec) (args : RecoverySetArgs) :
    Result RecoverySpec := do
  let kept := if args.clearExitActions then ∅ else current.exitActions
  let exitActions ← args.exitActions.foldlM applyExitAction kept
  return {
    name
    restartDelayMs :=
      if args.noRestartDelay then none else args.restartDelayMs.or current.restartDelayMs
    throttleDelayMs :=
      if args.noThrottleDelay then none else args.throttleDelayMs.or current.throttleDelayMs
    defaultAction := args.defaultAction.getD current.defaultAction
    exitActions }

/-! ## What the arguments say -/

/-- What an argument says of an exit code. -/
def spoken (code : Int32) (raw : String) : Option ExitAction :=
  match Text.splitOnce raw '=' with
  | none => none
  | some (key, action) =>
      if Text.trim key = toString code then (parseExitAction action).toOption else none

/-- The last argument about an exit code counts. -/
def lastSpoken (code : Int32) (raws : List String) : Option ExitAction :=
  raws.reverse.findSome? (spoken code)

theorem lastSpoken_concat (code : Int32) (raws : List String) (raw : String) :
    lastSpoken code (raws ++ [raw]) = (spoken code raw).or (lastSpoken code raws) := by
  rw [lastSpoken, lastSpoken, List.reverse_append, List.reverse_singleton, List.singleton_append,
    List.findSome?_cons]
  cases spoken code raw <;> rfl

theorem applyExitAction_eq_ok {exits exits' : Std.ExtTreeMap String ExitAction} {raw : String}
    (h : applyExitAction exits raw = .ok exits') (code : Int32) :
    exits'[toString code]? = (spoken code raw).or exits[toString code]? := by
  unfold applyExitAction at h
  unfold spoken
  split at h
  next => cases h
  next key action hsplit =>
    split at h
    next => cases h
    next parsed hparsed =>
      split at h
      next => cases h
      next =>
        cases h
        by_cases hkey : Text.trim key = toString code
        · simp only [hkey, if_true, hparsed, Except.toOption]
          rw [Std.ExtTreeMap.getElem?_insert_self, Option.some_or]
        · have hother : compare (Text.trim key) (toString code) ≠ .eq := fun hsame =>
            hkey (Std.LawfulEqCmp.compare_eq_iff_eq.mp hsame)
          simp only [hkey, if_false]
          rw [Std.ExtTreeMap.getElem?_insert, if_neg hother, Option.none_or]

/-- Each code has the action of the last argument about it, else the one it had. -/
theorem exitActions_of_fold {kept exits : Std.ExtTreeMap String ExitAction} {raws : List String}
    (hrun : raws.foldlM applyExitAction kept = .ok exits) (code : Int32) :
    exits[toString code]? = (lastSpoken code raws).or kept[toString code]? := by
  refine Check.foldlM_invariant
    (fun done now => now[toString code]? = (lastSpoken code done).or kept[toString code]?)
    ?_ ?_ hrun
  · rw [lastSpoken, List.reverse_nil, List.findSome?_nil, Option.none_or]
  · intro done raw now next _ h hnext
    rw [applyExitAction_eq_ok hnext, h, lastSpoken_concat, Option.or_assoc]

/-- What a merge that is accepted gives. -/
structure Merged (name : String) (args : RecoverySetArgs) (current spec : RecoverySpec) :
    Prop where
  name : spec.name = name
  restartDelay : spec.restartDelayMs =
    if args.noRestartDelay then none else args.restartDelayMs.or current.restartDelayMs
  throttle : spec.throttleDelayMs =
    if args.noThrottleDelay then none else args.throttleDelayMs.or current.throttleDelayMs
  defaultAction : spec.defaultAction = args.defaultAction.getD current.defaultAction
  exits : ∀ code : Int32, spec.exitActions[toString code]? =
    (lastSpoken code args.exitActions).or
      (if args.clearExitActions then none else current.exitActions[toString code]?)

theorem merged_of_merge {name : String} {args : RecoverySetArgs} {current spec : RecoverySpec}
    (h : mergeRecoveryArgs name current args = .ok spec) : Merged name args current spec := by
  rw [mergeRecoveryArgs] at h
  obtain ⟨exits, hfold, hspec⟩ := Check.bind_eq_ok.mp h
  cases hspec
  refine ⟨rfl, rfl, rfl, rfl, fun code => ?_⟩
  rw [exitActions_of_fold hfold code]
  cases args.clearExitActions with
  | true => simp
  | false => rfl

/-! ## The command -/

/-- `recovery set`. -/
def recoverySet {fold : NameFold} {σ : Type} (name : String) (args : RecoverySetArgs) :
    OpM fold σ String :=
  updateRecoveryWithBackend name fun current => mergeRecoveryArgs name current args

/-- The action for every code that nothing is said of. -/
def otherwise (args : RecoverySetArgs) (cfg : ManagedApplicationConfig) : ExitAction :=
  args.defaultAction.getD (Supervisor.defaultAction cfg)

/-- After `recovery set` the supervisor does what the arguments say, and where they say nothing
what it did before; so do the delays. -/
theorem recovery_set_merges {fold : NameFold} {σ : Type} {b b' : Backend fold σ}
    {name message : String} {args : RecoverySetArgs} {cfg cfg' : ManagedApplicationConfig}
    (hrun : (recoverySet name args).exec b = (.ok message, b'))
    (hbefore : readManagedFromKey b.key name = .ok (some cfg))
    (hafter : readManagedFromKey b'.key name = .ok (some cfg')) :
    (∀ code, Supervisor.exitAction cfg' code =
      ((lastSpoken code args.exitActions).or
        (if args.clearExitActions then none
          else cfg.exitActions[toString code]?.map (·.action))).getD (otherwise args cfg)) ∧
    cfg'.restart.restartDelayMs = (if args.noRestartDelay then none
      else args.restartDelayMs.or cfg.restart.restartDelayMs) ∧
    cfg'.restart.throttleDelayMs = (if args.noThrottleDelay then none
      else args.throttleDelayMs.or cfg.restart.throttleDelayMs) := by
  obtain ⟨managed, spec, mid, hmanaged, hmerge, hname, hsave⟩ := of_updateRecovery hrun
  have hsame : managed = cfg := Option.some.inj (Except.ok.inj (hmanaged.symm.trans hbefore))
  subst hsame
  have hmerged := merged_of_merge hmerge
  rw [← hname] at hafter
  have hpolicy := recoveryOf_saved hsave hafter
  refine ⟨fun code => ?_, ?_, ?_⟩
  · rw [exitAction_recoveryOf spec.name, hpolicy, hmerged.exits, hmerged.defaultAction,
      exitActions_recoveryOf]
    rfl
  · exact (congrArg RecoverySpec.restartDelayMs hpolicy).trans hmerged.restartDelay
  · exact (congrArg RecoverySpec.throttleDelayMs hpolicy).trans hmerged.throttle

/-! ### Arguments on a stored policy -/

/-- A service with a throttle delay and an action for the code 0. -/
def storedKey : Params asciiFold Unit :=
  ((Node.empty.setValue NssmKeys.application (stringValue regSz "C:\\app.exe")).setValue
    NssmKeys.appThrottle (dwordValue 0)).setSubkey NssmKeys.appExit
      (Node.empty.setValue "0" (stringValue regSz "Ignore"))

/-- `--default-action suicide --restart-delay-ms 250 --exit-action 1=restart
--exit-action "1= Exit"`. -/
def pickedArgs : RecoverySetArgs where
  defaultAction := some .suicide
  restartDelayMs := some 250
  exitActions := ["1=restart", "1= Exit"]

theorem lastSpoken_pickedArgs {code : Int32} (hcode : code ≠ 1) :
    lastSpoken code pickedArgs.exitActions = none := by
  have hother : "1" ≠ toString code := by
    intro hsame
    have hkey := @key_injective (.code 1) (.code code) hsame
    cases hkey
    exact hcode rfl
  have hspoken : ∀ raw ∈ pickedArgs.exitActions.reverse, spoken code raw = none := by
    intro raw hraw
    simp only [pickedArgs, List.reverse_cons, List.reverse_nil, List.nil_append,
      List.cons_append, List.mem_cons, List.not_mem_nil, or_false] at hraw
    rcases hraw with rfl | rfl
    · exact if_neg hother
    · exact if_neg hother
  exact List.findSome?_eq_none_iff.mpr hspoken

/-- A reading that can be computed. -/
theorem read_of_any {node : Params asciiFold Unit} {service : String}
    {p : ManagedApplicationConfig → Bool}
    (h : (readManagedFromKey node service).toOption.join.any p = true) :
    ∃ cfg, readManagedFromKey node service = .ok (some cfg) ∧ p cfg = true := by
  cases hread : readManagedFromKey node service with
  | error e =>
      rw [hread] at h
      cases h
  | ok found =>
      rw [hread] at h
      cases found with
      | none => cases h
      | some cfg => exact ⟨cfg, rfl, h⟩

/-- What is stored for the code 0 is kept, the last argument about 1 counts, and the throttle
delay stays. -/
theorem picked_recovery_set_merges :
    ∃ (message : String) (b' : Backend asciiFold Unit) (cfg' : ManagedApplicationConfig),
      (recoverySet "svc" pickedArgs).exec (calmBackend storedKey) = (.ok message, b') ∧
      readManagedFromKey b'.key "svc" = .ok (some cfg') ∧
      Supervisor.exitAction cfg' 0 = .ignore ∧ Supervisor.exitAction cfg' 1 = .exit ∧
      (∀ code, code ≠ 0 → code ≠ 1 → Supervisor.exitAction cfg' code = .suicide) ∧
      cfg'.restart.restartDelayMs = some 250 ∧ cfg'.restart.throttleDelayMs = some 0 := by
  have hbefore : (readManagedFromKey storedKey "svc").toOption.join.any (fun cfg =>
      cfg.exitActions.toList == [("0", ⟨.ignore⟩)] &&
        cfg.restart.throttleDelayMs == some 0) = true := by
    decide +kernel
  have hafter : (readManagedFromKey ((recoverySet "svc" pickedArgs).exec
      (calmBackend storedKey)).2.key "svc").toOption.join.any (fun _ => true) = true := by
    decide +kernel
  have hreturns : ((recoverySet "svc" pickedArgs).exec (calmBackend storedKey)).1.isOk = true := by
    decide +kernel
  obtain ⟨message, b', hrun⟩ := Prog.exists_ok_of_isOk hreturns
  rw [hrun] at hafter
  obtain ⟨cfg', hread', -⟩ := read_of_any hafter
  obtain ⟨cfg, hread, hstored⟩ := read_of_any hbefore
  obtain ⟨hlisted, hthrottle⟩ := Bool.and_eq_true_iff.mp hstored
  have hentry : ∀ (key : String) policy, cfg.exitActions[key]? = some policy ↔
      (key, policy) = ("0", ⟨.ignore⟩) := by
    intro key policy
    rw [← Std.ExtTreeMap.mem_toList_iff_getElem?_eq_some, eq_of_beq hlisted, List.mem_singleton]
  have hzero : cfg.exitActions[toString (0 : Int32)]? = some ⟨.ignore⟩ := (hentry _ _).mpr rfl
  have hnone : ∀ code : Int32, code ≠ 0 → cfg.exitActions[toString code]? = none := by
    intro code hcode
    rw [Option.eq_none_iff_forall_ne_some]
    intro policy hpolicy
    have hkey : toString code = toString (0 : Int32) :=
      congrArg Prod.fst ((hentry _ policy).mp hpolicy)
    cases @key_injective (.code code) (.code 0) hkey
    exact hcode rfl
  obtain ⟨hactions, hrestart, hkept⟩ := recovery_set_merges hrun hread hread'
  refine ⟨message, b', cfg', hrun, hread', ?_, ?_, fun code hcode hother => ?_, hrestart, ?_⟩
  · rw [hactions, lastSpoken_pickedArgs (by decide), Option.none_or]
    change ((cfg.exitActions[toString (0 : Int32)]?.map (·.action))).getD _ = _
    rw [hzero]
    rfl
  · rw [hactions]
    rfl
  · rw [hactions, lastSpoken_pickedArgs hother, Option.none_or]
    change ((cfg.exitActions[toString code]?.map (·.action))).getD _ = _
    rw [hnone code hcode]
    rfl
  · rw [hkept]
    exact eq_of_beq hthrottle

end Ngsm.Cli
