/-
# The policy in force

What the supervisor does on an exit code is what the recovery policy of its configuration says,
and after a save or an update that is the policy that was saved.
-/

import Ngsm.Ops.RecoveryPolicy

namespace Ngsm.Ops

open Ngsm.Lib Ngsm.Core Ngsm.Registry

/-- The policy lists the actions of the configuration under the codes. -/
theorem exitActions_recoveryOf (name : String) (cfg : ManagedApplicationConfig) (code : Int32) :
    (recoveryOf name cfg).exitActions[toString code]? =
      cfg.exitActions[toString code]?.map (·.action) := by
  have hcode : toString code ≠ "default" := by
    intro hsame
    cases @key_injective (.code code) .anyCode hsame
  rw [recoveryOf, Std.ExtTreeMap.getElem?_map, Std.ExtTreeMap.getElem?_filter']
  cases cfg.exitActions[toString code]? with
  | none => rfl
  | some policy => simp [Option.filter, hcode]

/-- The supervisor does what the policy of its configuration says. -/
theorem exitAction_recoveryOf (name : String) (cfg : ManagedApplicationConfig) (code : Int32) :
    Supervisor.exitAction cfg code =
      ((recoveryOf name cfg).exitActions[toString code]?).getD
        (recoveryOf name cfg).defaultAction := by
  rw [exitActions_recoveryOf]
  rfl

section

variable {fold : NameFold} {σ : Type} {b b' : Backend fold σ} {name message : String}
  {spec : RecoverySpec} {cfg : ManagedApplicationConfig}

/-- After a save the configuration that is read holds the policy that was saved. -/
theorem recoveryOf_saved (hsave : (saveRecoveryWithBackend spec).exec b = (.ok message, b'))
    (hread : readManagedFromKey b'.key spec.name = .ok (some cfg)) :
    recoveryOf spec.name cfg = spec := by
  obtain ⟨original, hsaved⟩ := saved_of_save hsave
  obtain ⟨exits, hpreflight, hwritten⟩ := hsaved.written
  have hshort : ShortCommands (applyRecovery original spec) :=
    shortCommands_of_read (accepted_of_preflightConfig fold hpreflight) hwritten hread
  have hagain := (read_of_saved hsaved).mpr hshort
  rw [exec_readRecovery hsaved.readable hread] at hagain
  exact Except.ok.inj hagain

/-- A saved configuration can be read when the commands of the service could be. -/
theorem read_after_save (hsave : (saveRecoveryWithBackend spec).exec b = (.ok message, b'))
    (hread : readManagedFromKey b.key spec.name = .ok (some cfg)) (hshort : ShortCommands cfg) :
    ∃ cfg', readManagedFromKey b'.key spec.name = .ok (some cfg') := by
  obtain ⟨original, hsaved⟩ := saved_of_save hsave
  have hsame : cfg = original := Option.some.inj (Except.ok.inj (hread.symm.trans hsaved.read))
  have hagain := (read_of_saved hsaved).mpr (hsame ▸ hshort)
  rcases hrun : (readRecoveryWithBackend spec.name).exec b' with ⟨outcome, after⟩
  rw [hrun] at hagain
  subst hagain
  obtain ⟨cfg', hcfg', -⟩ := of_readRecovery hrun
  exact ⟨cfg', hcfg'⟩

/-- An update saves what it makes of the policy that is stored. -/
theorem of_updateRecovery {update : RecoverySpec → Result RecoverySpec}
    (hrun : (updateRecoveryWithBackend name update).exec b = (.ok message, b')) :
    ∃ managed spec mid, readManagedFromKey b.key name = .ok (some managed) ∧
      update (recoveryOf name managed) = .ok spec ∧ spec.name = name ∧
      (saveRecoveryWithBackend spec).exec mid = (.ok message, b') := by
  have hwp : (updateRecoveryWithBackend name update).wp
      (fun answer last => ∃ managed spec mid, readManagedFromKey b.key name = .ok (some managed) ∧
        update (recoveryOf name managed) = .ok spec ∧ spec.name = name ∧
        (saveRecoveryWithBackend spec).exec mid = (.ok answer, last)) (fun _ _ => True) b := by
    unfold updateRecoveryWithBackend lockServiceConfig
    rw [Prog.wp_bind, Prog.wp_step]
    cases hlock : b.lockError with
    | some e => simp only
    | none =>
        simp only
        rw [Prog.wp_bind]
        rcases hread : (readRecoveryWithBackend name).exec b with ⟨outcome, mid⟩
        unfold Prog.wp
        rw [hread]
        cases outcome with
        | error e => trivial
        | ok current =>
            obtain ⟨managed, hmanaged, rfl⟩ := of_readRecovery hread
            change Prog.wp _ _ _ mid
            rw [Prog.wp_bind, Prog.wp_liftExcept]
            cases hupdate : update (recoveryOf name managed) with
            | error e => trivial
            | ok spec =>
                simp only
                split
                next => trivial
                next hname =>
                  rw [not_not] at hname
                  exact Prog.wp_mono _ (fun answer last h => ⟨managed, spec, mid, hmanaged, hupdate,
                    hname, h⟩) (fun _ _ _ => trivial) (Prog.wp_exec _)
  exact Prog.wp_ok _ hwp hrun

end

end Ngsm.Ops
