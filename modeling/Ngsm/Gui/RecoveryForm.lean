/-
# The recovery form

The editor shows a policy as texts and positions of pickers, and turns what the user typed back
into a policy.  A form is accepted exactly when its delays and codes are numbers and no code
stands in two rows, however they are spelled.  What is saved from it is what the supervisor does
on each exit code.
-/

import Ngsm.Gui.Editors
import Ngsm.Ops.PolicyInForce

namespace Ngsm.Gui

open Ngsm.Lib Ngsm.Core Ngsm.Ops Ngsm.Registry

/-! ## From the form to the policy -/

/-- The action at a position of the picker; an empty picker is at −1. -/
def intToExitAction : Int32 → ExitAction
  | 1 => .ignore
  | 2 => .exit
  | 3 => .suicide
  | _ => .restart

/-- A field of milliseconds; blank means none. -/
def parseOptU32 (s label : String) : Except String (Option UInt32) :=
  if (Text.trim s).isEmpty then
    .ok none
  else
    match Text.parseU32 (Text.trim s) with
    | some n => .ok (some (UInt32.ofNat n))
    | none => .error (label ++ " must be a whole number of milliseconds.")

/-- Add a row; one without a code is skipped, and a code may appear only once. -/
def addRow (exits : Std.ExtTreeMap String ExitAction) (row : RecoveryExitRow) :
    Except String (Std.ExtTreeMap String ExitAction) :=
  let code := Text.trim row.exitCode
  if code.isEmpty then
    .ok exits
  else
    match Text.parseI32 code with
    | none => .error ("Exit code '" ++ code ++ "' is not a valid signed 32-bit number.")
    | some value =>
        let code := toString value
        if exits.contains code then
          .error ("Duplicate exit code '" ++ code ++ "' — each exit code may appear only once.")
        else
          .ok (exits.insert code (intToExitAction row.action))

def RecoveryForm.toSpec (form : RecoveryForm) : Except String RecoverySpec := do
  let restartDelayMs ← parseOptU32 form.restartDelay "Restart delay"
  let throttleDelayMs ← parseOptU32 form.throttle "Throttle window"
  let exitActions ← form.rows.foldlM addRow ∅
  return {
    name := form.service
    restartDelayMs
    throttleDelayMs
    defaultAction := intToExitAction form.defaultAction
    exitActions }

theorem intToExitAction_exitActionToInt (action : ExitAction) :
    intToExitAction (exitActionToInt action) = action := by
  cases action <;> rfl

/-! ## What the rows say -/

namespace RecoveryExitRow

/-- The user left the code out. -/
def Blank (row : RecoveryExitRow) : Prop :=
  (Text.trim row.exitCode).isEmpty = true

instance (row : RecoveryExitRow) : Decidable row.Blank :=
  inferInstanceAs (Decidable (_ = true))

/-- The row is about this exit code. -/
def Spells (row : RecoveryExitRow) (code : Int32) : Prop :=
  Text.parseI32 (Text.trim row.exitCode) = some code.toInt

theorem Spells.not_blank {row : RecoveryExitRow} {code : Int32} (h : row.Spells code) :
    ¬ row.Blank := by
  intro hblank
  rw [Blank, String.isEmpty_iff] at hblank
  rw [Spells, hblank] at h
  cases h

theorem Spells.unique {row : RecoveryExitRow} {code code' : Int32} (h : row.Spells code)
    (h' : row.Spells code') : code = code' :=
  Int32.toInt_inj.mp (Option.some.inj (h.symm.trans h'))

/-- The two rows are not about the same exit code. -/
def Apart (row other : RecoveryExitRow) : Prop :=
  ∀ code, row.Spells code → ¬ other.Spells code

end RecoveryExitRow

/-- Every row is blank or about an exit code, and no two are about the same. -/
structure LegibleRows (rows : List RecoveryExitRow) : Prop where
  codes : ∀ row ∈ rows, row.Blank ∨ ∃ code, row.Spells code
  once : rows.Pairwise RecoveryExitRow.Apart

/-- The actions are those of these rows, under the codes as they are printed. -/
structure Collected (rows : List RecoveryExitRow) (exits : Std.ExtTreeMap String ExitAction) :
    Prop where
  legible : LegibleRows rows
  keys : ∀ key ∈ exits, ∃ code : Int32, key = toString code
  entries : ∀ (code : Int32) action, exits[toString code]? = some action ↔
    ∃ row ∈ rows, row.Spells code ∧ intToExitAction row.action = action

theorem toString_code_injective {code code' : Int32} (h : toString code = toString code') :
    code = code' := by
  have hkey := @key_injective (.code code) (.code code') h
  cases hkey
  rfl

theorem collected_nil : Collected [] ∅ where
  legible := ⟨fun _ hrow => absurd hrow List.not_mem_nil, .nil⟩
  keys key hkey := by simp at hkey
  entries code action := by simp

section

variable {rows : List RecoveryExitRow} {row : RecoveryExitRow}
  {exits exits' : Std.ExtTreeMap String ExitAction}

/-- A code is taken when an earlier row is about it. -/
theorem Collected.contains_iff (h : Collected rows exits) (code : Int32) :
    exits.contains (toString code) = true ↔ ∃ other ∈ rows, other.Spells code := by
  rw [Std.ExtTreeMap.contains_eq_isSome_getElem?, Option.isSome_iff_exists]
  constructor
  · rintro ⟨action, haction⟩
    obtain ⟨other, hother, hspells, -⟩ := (h.entries code action).mp haction
    exact ⟨other, hother, hspells⟩
  · rintro ⟨other, hother, hspells⟩
    exact ⟨_, (h.entries code _).mpr ⟨other, hother, hspells, rfl⟩⟩

theorem addRow_blank (hblank : row.Blank) : addRow exits row = .ok exits := by
  unfold RecoveryExitRow.Blank at hblank
  simp only [addRow, hblank, if_true]

theorem addRow_spells {code : Int32} (hspells : row.Spells code) :
    addRow exits row = if exits.contains (toString code) then
        .error ("Duplicate exit code '" ++ toString code ++
          "' — each exit code may appear only once.")
      else
        .ok (exits.insert (toString code) (intToExitAction row.action)) := by
  have hnot := hspells.not_blank
  rw [RecoveryExitRow.Blank, Bool.not_eq_true] at hnot
  rw [RecoveryExitRow.Spells] at hspells
  simp only [addRow, hnot, hspells, Bool.false_eq_true, if_false]
  rfl

/-- A row that is added is blank, or it is about a code. -/
theorem legible_of_addRow (hrun : addRow exits row = .ok exits') :
    row.Blank ∨ ∃ code, row.Spells code := by
  by_cases hblank : row.Blank
  · exact .inl hblank
  have hnot := hblank
  rw [RecoveryExitRow.Blank, Bool.not_eq_true] at hnot
  cases hparse : Text.parseI32 (Text.trim row.exitCode) with
  | none =>
      simp only [addRow, hnot, hparse, Bool.false_eq_true, if_false] at hrun
      cases hrun
  | some value =>
      have hrange := Text.isI32_of_parseI32 hparse
      refine .inr ⟨Int32.ofInt value, ?_⟩
      rw [RecoveryExitRow.Spells, hparse, Int32.toInt_ofInt_of_le hrange.1 hrange.2]

theorem Collected.blank (h : Collected rows exits) (hblank : row.Blank) :
    Collected (rows ++ [row]) exits := by
  have hnone : ∀ code, ¬ row.Spells code := fun code hspells => hspells.not_blank hblank
  refine ⟨⟨fun other hother => ?_, ?_⟩, h.keys, fun code action => ?_⟩
  · rcases List.mem_append.mp hother with hother | hother
    · exact h.legible.codes other hother
    · rw [List.mem_singleton.mp hother]
      exact .inl hblank
  · rw [List.pairwise_append]
    refine ⟨h.legible.once, List.pairwise_singleton _ _, fun other _ last hlast code _ => ?_⟩
    rw [List.mem_singleton.mp hlast]
    exact hnone code
  · rw [h.entries]
    simp [hnone]

theorem Collected.insert (h : Collected rows exits) {code : Int32} (hspells : row.Spells code)
    (hfree : exits.contains (toString code) = false) :
    Collected (rows ++ [row])
      (exits.insert (toString code) (intToExitAction row.action)) := by
  have hnone : ∀ other ∈ rows, ¬ other.Spells code := by
    intro other hother hsame
    have htaken := (h.contains_iff code).mpr ⟨other, hother, hsame⟩
    rw [hfree] at htaken
    cases htaken
  refine ⟨⟨fun other hother => ?_, ?_⟩, fun key hkey => ?_, fun code' action => ?_⟩
  · rcases List.mem_append.mp hother with hother | hother
    · exact h.legible.codes other hother
    · rw [List.mem_singleton.mp hother]
      exact .inr ⟨code, hspells⟩
  · rw [List.pairwise_append]
    refine ⟨h.legible.once, List.pairwise_singleton _ _, fun other hother last hlast code' h' => ?_⟩
    rw [List.mem_singleton.mp hlast]
    intro hlast'
    rw [hlast'.unique hspells] at h'
    exact hnone other hother h'
  · rw [Std.ExtTreeMap.mem_insert, Std.LawfulEqCmp.compare_eq_iff_eq] at hkey
    rcases hkey with rfl | hkey
    · exact ⟨code, rfl⟩
    · exact h.keys key hkey
  · by_cases hcode : code = code'
    · subst hcode
      rw [Std.ExtTreeMap.getElem?_insert_self]
      constructor
      · intro haction
        exact ⟨row, by simp, hspells, Option.some.inj haction⟩
      · rintro ⟨other, hother, hsame, rfl⟩
        rcases List.mem_append.mp hother with hother | hother
        · exact absurd hsame (hnone other hother)
        · rw [List.mem_singleton.mp hother]
    · have hkey : compare (toString code) (toString code') ≠ .eq := fun hsame =>
        hcode (toString_code_injective (Std.LawfulEqCmp.compare_eq_iff_eq.mp hsame))
      rw [Std.ExtTreeMap.getElem?_insert, if_neg hkey, h.entries]
      constructor
      · rintro ⟨other, hother, hrest⟩
        exact ⟨other, List.mem_append_left _ hother, hrest⟩
      · rintro ⟨other, hother, hsame, haction⟩
        rcases List.mem_append.mp hother with hother | hother
        · exact ⟨other, hother, hsame, haction⟩
        · rw [List.mem_singleton.mp hother] at hsame
          exact absurd (hspells.unique hsame) hcode

theorem Collected.extend (h : Collected rows exits) (hrun : addRow exits row = .ok exits') :
    Collected (rows ++ [row]) exits' := by
  rcases legible_of_addRow hrun with hblank | ⟨code, hspells⟩
  · rw [addRow_blank hblank] at hrun
    cases hrun
    exact h.blank hblank
  · rw [addRow_spells hspells] at hrun
    split at hrun
    next => cases hrun
    next hfree =>
      cases hrun
      exact h.insert hspells (Bool.not_eq_true _ ▸ hfree)

theorem collected_of_rows (hrun : rows.foldlM addRow ∅ = .ok exits) : Collected rows exits :=
  Check.foldlM_invariant Collected collected_nil (fun _ _ _ _ _ h hrow => h.extend hrow) hrun

/-- LegibleRows rows are added one after the other. -/
theorem rows_of_legible {done : List RecoveryExitRow} (h : Collected done exits)
    (hlegible : LegibleRows (done ++ rows)) :
    ∃ result, rows.foldlM addRow exits = .ok result := by
  induction rows generalizing done exits with
  | nil => exact ⟨exits, rfl⟩
  | cons row rows ih =>
      have hrest : ∀ next, addRow exits row = .ok next →
          ∃ result, (row :: rows).foldlM addRow exits = .ok result := by
        intro next hnext
        obtain ⟨result, hresult⟩ := ih (h.extend hnext) (by simpa using hlegible)
        exact ⟨result, by rw [List.foldlM_cons, hnext]; exact hresult⟩
      rcases hlegible.codes row (by simp) with hblank | ⟨code, hspells⟩
      · exact hrest exits (addRow_blank hblank)
      · have hfree : ¬ exits.contains (toString code) = true := by
          rw [h.contains_iff]
          rintro ⟨other, hother, hsame⟩
          have hapart := (List.pairwise_append.mp hlegible.once).2.2 other hother row
            List.mem_cons_self
          exact hapart code hsame hspells
        exact hrest _ (by rw [addRow_spells hspells, if_neg hfree])

/-- The rows are accepted exactly when they are legible. -/
theorem rows_accepted_iff :
    (∃ result, rows.foldlM addRow ∅ = .ok result) ↔ LegibleRows rows := by
  constructor
  · rintro ⟨result, hrun⟩
    exact (collected_of_rows hrun).legible
  · exact rows_of_legible collected_nil

end

/-! ## The form -/

section

variable {form : RecoveryForm} {spec : RecoverySpec}

/-- What an accepted form says. -/
structure Meant (form : RecoveryForm) (spec : RecoverySpec) : Prop where
  name : spec.name = form.service
  restartDelay : parseOptU32 form.restartDelay "Restart delay" = .ok spec.restartDelayMs
  throttle : parseOptU32 form.throttle "Throttle window" = .ok spec.throttleDelayMs
  defaultAction : spec.defaultAction = intToExitAction form.defaultAction
  rows : form.rows.foldlM addRow ∅ = .ok spec.exitActions

theorem toSpec_eq_ok : form.toSpec = .ok spec ↔ Meant form spec := by
  rw [RecoveryForm.toSpec, Check.bind_eq_ok]
  constructor
  · rintro ⟨restartDelayMs, hrestart, hrun⟩
    obtain ⟨throttleDelayMs, hthrottle, hrun⟩ := Check.bind_eq_ok.mp hrun
    obtain ⟨exitActions, hrows, hrun⟩ := Check.bind_eq_ok.mp hrun
    cases hrun
    exact ⟨rfl, hrestart, hthrottle, rfl, hrows⟩
  · rintro ⟨hname, hrestart, hthrottle, hdefault, hrows⟩
    refine ⟨_, hrestart, Check.bind_eq_ok.mpr ⟨_, hthrottle, Check.bind_eq_ok.mpr ⟨_, hrows, ?_⟩⟩⟩
    rw [← hname, ← hdefault]
    rfl

/-! ## From the policy to the form and back -/

theorem trim_digits {s : String} (hdigits : ∀ c ∈ s.toList, c = '-' ∨ c.isDigit = true) :
    Text.trim s = s :=
  trim_eq_self fun c hc => (key_char (hdigits c hc)).1

theorem parseU32_toString {n : ℕ} (hn : n < 2 ^ 32) : Text.parseU32 (toString n) = some n := by
  obtain ⟨c, rest, hdigits, hfirst⟩ := Text.toDigits_first_isDigit n
  rw [Text.parseU32, Text.toList_toString_nat, hdigits]
  split
  next heq =>
    cases heq
    exact absurd hfirst (by decide)
  next => rw [← hdigits, Text.parseDigits_toDigits, Option.bind_some, if_pos hn]

/-- A delay that is shown is read back. -/
theorem parseOptU32_toString (delay : Option UInt32) (label : String) :
    parseOptU32 ((delay.map toString).getD "") label = .ok delay := by
  cases delay with
  | none => rfl
  | some n =>
      have hdigits : ∀ c ∈ (toString n.toNat).toList, c = '-' ∨ c.isDigit = true :=
        fun c hc => Text.mem_toString_int (z := n.toNat) hc
      have htrim : Text.trim (toString n.toNat) = toString n.toNat := trim_digits hdigits
      have hnonempty : (toString n.toNat).isEmpty = false := by
        have hne := Text.toString_int_ne_empty n.toNat
        rw [← Bool.not_eq_true, String.isEmpty_iff]
        exact hne
      change parseOptU32 (toString n.toNat) label = _
      rw [parseOptU32, htrim, hnonempty, parseU32_toString n.toNat_lt]
      simp

/-- A row that shows a printed code is about it. -/
theorem spells_printed (code action : Int32) :
    RecoveryExitRow.Spells { exitCode := toString code, action } code := by
  have htrim : Text.trim (toString code) = toString code :=
    trim_digits fun c hc => Text.mem_toString_int (z := code.toInt) hc
  rw [RecoveryExitRow.Spells, htrim]
  exact parseI32_key code

section Shown

variable {spec : RecoverySpec}
  (hkeys : ∀ key ∈ spec.exitActions, ∃ code : Int32, key = toString code)

include hkeys

theorem exists_code_of_row {row : RecoveryExitRow}
    (hrow : row ∈ (RecoveryForm.fromSpec spec).rows) : ∃ (code : Int32) (action : ExitAction),
      spec.exitActions[toString code]? = some action ∧
        row = { exitCode := toString code, action := exitActionToInt action } := by
  obtain ⟨⟨key, action⟩, hentry, rfl⟩ := List.mem_map.mp hrow
  have hstored := Std.ExtTreeMap.mem_toList_iff_getElem?_eq_some.mp hentry
  obtain ⟨code, rfl⟩ := hkeys key
    (Std.ExtTreeMap.mem_iff_isSome_getElem?.mpr (by rw [hstored]; rfl))
  exact ⟨code, action, hstored, rfl⟩

theorem legible_fromSpec : LegibleRows (RecoveryForm.fromSpec spec).rows where
  codes row hrow := by
    obtain ⟨code, action, -, rfl⟩ := exists_code_of_row hkeys hrow
    exact .inr ⟨code, spells_printed code _⟩
  once := by
    have hdistinct := @Std.ExtTreeMap.distinct_keys_toList _ _ _ spec.exitActions _
    refine List.pairwise_map.mpr (hdistinct.imp_of_mem fun {entry other} hentry hother hne => ?_)
    obtain ⟨code, action, -, hrow⟩ := exists_code_of_row hkeys
      (List.mem_map.mpr ⟨entry, hentry, rfl⟩)
    obtain ⟨code', action', -, hrow'⟩ := exists_code_of_row hkeys
      (List.mem_map.mpr ⟨other, hother, rfl⟩)
    intro common hspells hspells'
    rw [hrow] at hspells
    rw [hrow'] at hspells'
    have hcode := hspells.unique (spells_printed code _)
    have hcode' := hspells'.unique (spells_printed code' _)
    have hkey : entry.1 = other.1 := by
      rw [show entry.1 = toString code from congrArg RecoveryExitRow.exitCode hrow,
        show other.1 = toString code' from congrArg RecoveryExitRow.exitCode hrow', ← hcode,
        ← hcode']
    exact hne (Std.LawfulEqCmp.compare_eq_iff_eq.mpr hkey)

/-- The rows of a policy with printed codes give its actions. -/
theorem rows_fromSpec :
    (RecoveryForm.fromSpec spec).rows.foldlM addRow ∅ = .ok spec.exitActions := by
  obtain ⟨result, hrun⟩ := rows_accepted_iff.mpr (legible_fromSpec hkeys)
  have hcollected := collected_of_rows hrun
  have hsame : result = spec.exitActions := by
    apply Std.ExtTreeMap.ext_getElem?
    intro key
    ext action
    constructor
    · intro hresult
      obtain ⟨code, rfl⟩ := hcollected.keys key
        (Std.ExtTreeMap.mem_iff_isSome_getElem?.mpr (by rw [hresult]; rfl))
      obtain ⟨row, hrow, hspells, haction⟩ := (hcollected.entries code action).mp hresult
      obtain ⟨code', action', hstored, rfl⟩ := exists_code_of_row hkeys hrow
      rw [hspells.unique (spells_printed code' _), hstored, ← haction,
        intToExitAction_exitActionToInt]
    · intro hstored
      obtain ⟨code, rfl⟩ := hkeys key
        (Std.ExtTreeMap.mem_iff_isSome_getElem?.mpr (by rw [hstored]; rfl))
      refine (hcollected.entries code action).mpr
        ⟨_, List.mem_map.mpr ⟨(toString code, action), ?_, rfl⟩, spells_printed code _,
          intToExitAction_exitActionToInt action⟩
      exact Std.ExtTreeMap.mem_toList_iff_getElem?_eq_some.mpr hstored
  rw [hrun, hsame]

/-- A form that is shown and not changed is the policy it was made from. -/
theorem toSpec_fromSpec : (RecoveryForm.fromSpec spec).toSpec = .ok spec :=
  toSpec_eq_ok.mpr ⟨rfl, parseOptU32_toString _ _, parseOptU32_toString _ _,
    (intToExitAction_exitActionToInt _).symm, rows_fromSpec hkeys⟩

end Shown

end

/-- A form is accepted exactly when its delays are numbers and its rows are legible, and it shows
a policy without loss exactly when the codes of the policy are printed numbers. -/
theorem recovery_form_accepted (form : RecoveryForm) (spec : RecoverySpec) :
    ((∃ accepted, form.toSpec = .ok accepted) ↔
      (∃ delay, parseOptU32 form.restartDelay "Restart delay" = .ok delay) ∧
        (∃ delay, parseOptU32 form.throttle "Throttle window" = .ok delay) ∧
          LegibleRows form.rows) ∧
    ((RecoveryForm.fromSpec spec).toSpec = .ok spec ↔
      ∀ key ∈ spec.exitActions, ∃ code : Int32, key = toString code) := by
  refine ⟨⟨?_, ?_⟩, ?_, toSpec_fromSpec⟩
  · rintro ⟨accepted, haccepted⟩
    have hmeant := toSpec_eq_ok.mp haccepted
    exact ⟨⟨_, hmeant.restartDelay⟩, ⟨_, hmeant.throttle⟩,
      rows_accepted_iff.mp ⟨_, hmeant.rows⟩⟩
  · rintro ⟨⟨restartDelayMs, hrestart⟩, ⟨throttleDelayMs, hthrottle⟩, hlegible⟩
    obtain ⟨exitActions, hrows⟩ := rows_accepted_iff.mpr hlegible
    exact ⟨⟨form.service, restartDelayMs, throttleDelayMs, intToExitAction form.defaultAction,
      exitActions⟩, toSpec_eq_ok.mpr ⟨rfl, hrestart, hthrottle, rfl, hrows⟩⟩
  · intro hshown
    exact (collected_of_rows (toSpec_eq_ok.mp hshown).rows).keys

/-! ## From the form to the supervisor -/

section

variable {fold : NameFold} {σ : Type} {b b' : Backend fold σ} {form : RecoveryForm}
  {spec : RecoverySpec} {message : String} {cfg : ManagedApplicationConfig}

/-- What the user types and saves is what the supervisor does: the action of the row that is
about the exit code, and the default action when none is.  The delays are those of the form, and
the editor shows the saved policy as a form that means the same. -/
theorem recovery_form_governs (hparsed : form.toSpec = .ok spec)
    (hsave : (saveRecoveryWithBackend spec).exec b = (.ok message, b'))
    (hread : readManagedFromKey b'.key form.service = .ok (some cfg)) :
    (∀ row ∈ form.rows, ∀ code, row.Spells code →
      Supervisor.exitAction cfg code = intToExitAction row.action) ∧
    (∀ code, (∀ row ∈ form.rows, ¬ row.Spells code) →
      Supervisor.exitAction cfg code = intToExitAction form.defaultAction) ∧
    parseOptU32 form.restartDelay "Restart delay" = .ok cfg.restart.restartDelayMs ∧
    parseOptU32 form.throttle "Throttle window" = .ok cfg.restart.throttleDelayMs ∧
    (RecoveryForm.fromSpec (recoveryOf form.service cfg)).toSpec = .ok spec := by
  have hmeant := toSpec_eq_ok.mp hparsed
  have hcollected := collected_of_rows hmeant.rows
  rw [← hmeant.name] at hread ⊢
  have hpolicy := recoveryOf_saved hsave hread
  have haction : ∀ code, Supervisor.exitAction cfg code =
      (spec.exitActions[toString code]?).getD spec.defaultAction := by
    intro code
    rw [exitAction_recoveryOf spec.name, hpolicy]
  refine ⟨fun row hrow code hspells => ?_, fun code hnone => ?_, ?_, ?_, ?_⟩
  · have hstored := (hcollected.entries code _).mpr ⟨row, hrow, hspells, rfl⟩
    rw [haction, hstored, Option.getD_some]
  · have habsent : spec.exitActions[toString code]? = none := by
      rw [Option.eq_none_iff_forall_ne_some]
      intro action hstored
      obtain ⟨row, hrow, hspells, -⟩ := (hcollected.entries code action).mp hstored
      exact hnone row hrow hspells
    rw [haction, habsent, Option.getD_none, hmeant.defaultAction]
  · rw [hmeant.restartDelay, ← congrArg RecoverySpec.restartDelayMs hpolicy]
    rfl
  · rw [hmeant.throttle, ← congrArg RecoverySpec.throttleDelayMs hpolicy]
    rfl
  · rw [hpolicy]
    exact toSpec_fromSpec hcollected.keys

end

/-! ### A form as it is typed -/

/-- Two codes, one of them in another spelling, and a row that is left blank. -/
def typedForm : RecoveryForm where
  service := "svc"
  restartDelay := " 1500 "
  throttle := "0"
  defaultAction := 2
  rows :=
    [{ exitCode := " +01 ", action := 1 }, { exitCode := "", action := -1 },
      { exitCode := "-1", action := 3 }]

/-- The policy that the form stands for is saved over a service without one. -/
theorem typed_form_governs :
    ∃ (spec : RecoverySpec) (b' : Backend asciiFold Unit) (message : String)
      (cfg : ManagedApplicationConfig), typedForm.toSpec = .ok spec ∧
      (saveRecoveryWithBackend spec).exec (calmBackend (foreignKey "hook.exe")) =
        (.ok message, b') ∧
      readManagedFromKey b'.key "svc" = .ok (some cfg) ∧
      Supervisor.exitAction cfg 1 = .ignore ∧ Supervisor.exitAction cfg (-1) = .suicide ∧
      (∀ code, code ≠ 1 → code ≠ -1 → Supervisor.exitAction cfg code = .exit) ∧
      cfg.restart.restartDelayMs = some 1500 ∧ cfg.restart.throttleDelayMs = some 0 := by
  have hparses : typedForm.toSpec.isOk = true := by decide +kernel
  have hreturns : (typedForm.toSpec.map fun spec => ((saveRecoveryWithBackend spec).exec
      (calmBackend (foreignKey "hook.exe"))).1.isOk) = .ok true := by
    decide +kernel
  obtain ⟨spec, hparsed⟩ := Check.exists_ok_of_isOk hparses
  rw [hparsed] at hreturns
  obtain ⟨message, b', hsave⟩ := Prog.exists_ok_of_isOk (Except.ok.inj hreturns)
  have hread : readManagedFromKey (foreignKey "hook.exe") spec.name =
      .ok (some (hookedConfig "hook.exe")) := by
    rw [(toSpec_eq_ok.mp hparsed).name]
    exact foreignKey_reads (by decide) (by decide) (by decide)
  have hshort : ShortCommands (hookedConfig "hook.exe") := by
    intro hook hhook
    obtain rfl := List.mem_singleton.mp hhook
    decide
  obtain ⟨cfg, hcfg⟩ := read_after_save hsave hread hshort
  rw [(toSpec_eq_ok.mp hparsed).name] at hcfg
  obtain ⟨hrows, hothers, hrestart, hthrottle, -⟩ := recovery_form_governs hparsed hsave hcfg
  have hone : RecoveryExitRow.Spells { exitCode := " +01 ", action := 1 } 1 := by
    unfold RecoveryExitRow.Spells
    decide
  have hminus : RecoveryExitRow.Spells { exitCode := "-1", action := 3 } (-1) := by
    unfold RecoveryExitRow.Spells
    decide
  refine ⟨spec, b', message, cfg, hparsed, hsave, hcfg, hrows _ (by decide) 1 hone,
    hrows _ (by decide) (-1) hminus, fun code hcode hcode' => ?_, ?_, ?_⟩
  · refine hothers code fun row hrow hspells => ?_
    simp only [typedForm, List.mem_cons, List.not_mem_nil, or_false] at hrow
    rcases hrow with rfl | rfl | rfl
    · exact hcode (hspells.unique hone)
    · exact hspells.not_blank (by decide)
    · exact hcode' (hspells.unique hminus)
  · exact (Except.ok.inj hrestart).symm
  · exact (Except.ok.inj hthrottle).symm

/-- One code, spelled twice. -/
example : ([⟨"1", 2⟩, ⟨"+01", 3⟩] : List RecoveryExitRow).foldlM addRow ∅ =
    .error "Duplicate exit code '1' — each exit code may appear only once." := by
  rfl

end Ngsm.Gui
