/-
# The names of exit actions

What the names under `AppExit` stand for, independently of how they are parsed: the
default action has an unnamed form and a named one, and a code has many decimal spellings.
Normalisation picks one key for each meaning.
-/

import Ngsm.Registry.ReadBack

namespace Ngsm.Registry

open Ngsm.Lib Ngsm.Core

/-! ## Meaning -/

/-- What an exit-action name stands for. -/
inductive ExitName where
  | anyCode
  | code (exit : Int32)
  deriving DecidableEq

/-- A decimal spelling of a number: an optional sign and digits, with any number of
leading zeros. -/
def SpellsNumber (name : String) (value : ℤ) : Prop :=
  ∃ digits : List Char, digits ≠ [] ∧ (∀ c ∈ digits, c.isDigit = true) ∧
    ((name.toList = digits ∨ name.toList = '+' :: digits) ∧ value = Nat.ofDigitChars 10 digits 0 ∨
      name.toList = '-' :: digits ∧ value = -(Nat.ofDigitChars 10 digits 0 : ℤ))

/-- The names that stand for a code are the spellings of its signed and of its unsigned
value. -/
def Spells (name : String) : ExitName → Prop
  | .anyCode => name = "" ∨ Text.eqIgnoreAsciiCase name "default" = true
  | .code exit => ∃ value, SpellsNumber name value ∧ -2 ^ 31 ≤ value ∧ value < 2 ^ 32 ∧
      Int32.ofInt value = exit

/-- The internal key of a meaning. -/
def ExitName.key : ExitName → String
  | .anyCode => "default"
  | .code exit => toString exit

/-! ## Parsing -/

theorem parseDigits_eq_some {cs : List Char} {n : ℕ} :
    Text.parseDigits cs = some n ↔
      cs ≠ [] ∧ (∀ c ∈ cs, c.isDigit = true) ∧ n = Nat.ofDigitChars 10 cs 0 := by
  rw [Text.parseDigits, Text.digitsValue_eq_ofDigitChars]
  split
  · rename_i hdigits
    rw [List.all_eq_true] at hdigits
    simp only [Option.some.injEq]
    exact ⟨fun h => ⟨hdigits.1, hdigits.2, h.symm⟩, fun h => h.2.2.symm⟩
  · rename_i hdigits
    rw [List.all_eq_true] at hdigits
    simp only [reduceCtorEq, false_iff]
    exact fun h => hdigits ⟨h.1, h.2.1⟩

theorem toInt_ofInt_neg {n : ℕ} (hn : n ≤ 2 ^ 31) : (Int32.ofInt (-(n : ℤ))).toInt = -(n : ℤ) := by
  apply Int32.toInt_ofInt_of_le
  all_goals omega

theorem toInt_ofInt_nat {n : ℕ} (hn : n < 2 ^ 32) : (Int32.ofInt (n : ℤ)).toInt = Text.wrapI32 n := by
  have hsize : ((Int32.size : ℕ) : ℤ) = 4294967296 := rfl
  have hmod : (n : ℤ) % 4294967296 = n := by omega
  rw [Int32.toInt_ofInt, Int.bmod_def, hsize, hmod, Text.wrapI32]
  split <;> split <;> omega

/-- The signed parser first, then the unsigned one. -/
theorem or_wrap_eq_some {o : Option ℕ} {z : ℤ} :
    (o.bind fun n => if n < 2 ^ 31 then some (n : ℤ) else none).or
        ((o.bind fun n => if n < 2 ^ 32 then some n else none).map Text.wrapI32) = some z ↔
      ∃ n, o = some n ∧ n < 2 ^ 32 ∧ Text.wrapI32 n = z := by
  cases o with
  | none => simp
  | some n =>
      simp only [Option.bind_some, Option.some.injEq, exists_eq_left']
      by_cases hsmall : n < 2 ^ 31
      · have hfits : n < 2 ^ 32 := by omega
        rw [if_pos hsmall, Option.some_or, Text.wrapI32, if_pos hsmall, Option.some.injEq]
        exact (and_iff_right hfits).symm
      · rw [if_neg hsmall, Option.none_or]
        by_cases hfits : n < 2 ^ 32
        · rw [if_pos hfits, Option.map_some, Option.some.injEq]
          exact (and_iff_right hfits).symm
        · rw [if_neg hfits]
          exact iff_of_false (by simp) fun h => hfits h.1

section

variable {name : String} {value : ℤ} {cs : List Char}

theorem spellsNumber_minus (hchars : name.toList = '-' :: cs) :
    SpellsNumber name value ↔ ∃ n, Text.parseDigits cs = some n ∧ value = -(n : ℤ) := by
  simp only [SpellsNumber, parseDigits_eq_some, hchars]
  constructor
  · rintro ⟨digits, hne, hdigits, ⟨rfl | hplus, -⟩ | ⟨hminus, rfl⟩⟩
    · exact absurd (hdigits '-' List.mem_cons_self) (by decide)
    · cases hplus
    · cases hminus
      exact ⟨_, ⟨hne, hdigits, rfl⟩, rfl⟩
  · rintro ⟨n, ⟨hne, hdigits, rfl⟩, rfl⟩
    exact ⟨cs, hne, hdigits, .inr ⟨rfl, rfl⟩⟩

theorem spellsNumber_plus (hchars : name.toList = '+' :: cs) :
    SpellsNumber name value ↔ ∃ n, Text.parseDigits cs = some n ∧ value = (n : ℤ) := by
  simp only [SpellsNumber, parseDigits_eq_some, hchars]
  constructor
  · rintro ⟨digits, hne, hdigits, ⟨rfl | hplus, rfl⟩ | ⟨hminus, -⟩⟩
    · exact absurd (hdigits '+' List.mem_cons_self) (by decide)
    · cases hplus
      exact ⟨_, ⟨hne, hdigits, rfl⟩, rfl⟩
    · cases hminus
  · rintro ⟨n, ⟨hne, hdigits, rfl⟩, rfl⟩
    exact ⟨cs, hne, hdigits, .inl ⟨.inr rfl, rfl⟩⟩

theorem spellsNumber_bare (hminus : ∀ cs, name.toList ≠ '-' :: cs)
    (hplus : ∀ cs, name.toList ≠ '+' :: cs) :
    SpellsNumber name value ↔
      ∃ n, Text.parseDigits name.toList = some n ∧ value = (n : ℤ) := by
  simp only [SpellsNumber, parseDigits_eq_some]
  constructor
  · rintro ⟨digits, hne, hdigits, ⟨rfl | hsign, rfl⟩ | ⟨hsign, -⟩⟩
    · exact ⟨_, ⟨hne, hdigits, rfl⟩, rfl⟩
    · exact absurd hsign (hplus digits)
    · exact absurd hsign (hminus digits)
  · rintro ⟨n, ⟨hne, hdigits, rfl⟩, rfl⟩
    exact ⟨name.toList, hne, hdigits, .inl ⟨.inl rfl, rfl⟩⟩

/-- A sign is not a digit. -/
theorem parseDigits_minus : Text.parseDigits ('-' :: cs) = none := by
  rw [Text.parseDigits, if_neg]
  rintro ⟨-, hdigits⟩
  exact absurd (List.all_eq_true.mp hdigits '-' List.mem_cons_self) (by decide)

theorem parse_eq_some {z : ℤ} :
    (Text.parseI32 name).or ((Text.parseU32 name).map Text.wrapI32) = some z ↔
      ∃ value, SpellsNumber name value ∧ -2 ^ 31 ≤ value ∧ value < 2 ^ 32 ∧
        (Int32.ofInt value).toInt = z := by
  have hunsigned : ∀ o : Option ℕ, (∀ value, SpellsNumber name value ↔
      ∃ n, o = some n ∧ value = (n : ℤ)) →
      ((∃ n, o = some n ∧ n < 2 ^ 32 ∧ Text.wrapI32 n = z) ↔
        ∃ value, SpellsNumber name value ∧ -2 ^ 31 ≤ value ∧ value < 2 ^ 32 ∧
          (Int32.ofInt value).toInt = z) := by
    intro o hspells
    constructor
    · rintro ⟨n, hn, hfits, hwrap⟩
      refine ⟨n, (hspells n).mpr ⟨n, hn, rfl⟩, by omega, by exact_mod_cast hfits, ?_⟩
      rw [toInt_ofInt_nat hfits, hwrap]
    · rintro ⟨value, hvalue, -, hfits, hcode⟩
      obtain ⟨n, hn, rfl⟩ := (hspells value).mp hvalue
      have hfits' : n < 2 ^ 32 := by exact_mod_cast hfits
      rw [toInt_ofInt_nat hfits'] at hcode
      exact ⟨n, hn, hfits', hcode⟩
  unfold Text.parseI32
  split
  · rename_i cs hchars
    have hnone : Text.parseU32 name = none := by
      rw [Text.parseU32, hchars]
      change (Text.parseDigits ('-' :: cs)).bind _ = none
      rw [parseDigits_minus, Option.bind_none]
    rw [hnone, Option.map_none, Option.or_none, Option.bind_eq_some_iff]
    constructor
    · rintro ⟨n, hn, hrange⟩
      split at hrange
      · rename_i hfits
        cases hrange
        exact ⟨-n, (spellsNumber_minus hchars).mpr ⟨n, hn, rfl⟩, by omega, by omega,
          toInt_ofInt_neg hfits⟩
      · cases hrange
    · rintro ⟨value, hvalue, hlow, -, hcode⟩
      obtain ⟨n, hn, rfl⟩ := (spellsNumber_minus hchars).mp hvalue
      have hfits : n ≤ 2 ^ 31 := by omega
      rw [toInt_ofInt_neg hfits] at hcode
      exact ⟨n, hn, by rw [if_pos hfits, hcode]⟩
  · rename_i cs hchars
    rw [← hunsigned (Text.parseDigits cs) fun value => spellsNumber_plus hchars, Text.parseU32,
      hchars]
    exact or_wrap_eq_some
  · rename_i hminus hplus
    rw [← hunsigned (Text.parseDigits name.toList) fun value =>
      spellsNumber_bare hminus hplus]
    unfold Text.parseU32
    split
    · rename_i cs hchars
      exact absurd hchars (hplus cs)
    · exact or_wrap_eq_some

theorem toAsciiLower_ne_d {c : Char} (hc : c = '+' ∨ c = '-' ∨ c.isDigit = true) :
    Text.toAsciiLower c ≠ 'd' := by
  rcases hc with rfl | rfl | hdigit
  · decide
  · decide
  · intro hlower
    rw [Char.isDigit_iff_toNat] at hdigit
    change 48 ≤ c.toNat ∧ c.toNat ≤ 57 at hdigit
    unfold Text.toAsciiLower at hlower
    rw [if_neg (by rintro ⟨h, -⟩; change 65 ≤ c.toNat at h; omega)] at hlower
    subst hlower
    exact absurd hdigit (by decide)

/-- The first character of a number. -/
theorem first_of_spellsNumber (hspells : SpellsNumber name value) :
    ∃ c rest, name.toList = c :: rest ∧ (c = '+' ∨ c = '-' ∨ c.isDigit = true) := by
  obtain ⟨digits, hne, hdigits, ⟨hbare | hplus, -⟩ | ⟨hminus, -⟩⟩ := hspells
  · obtain ⟨c, rest, rfl⟩ := List.exists_cons_of_ne_nil hne
    exact ⟨c, rest, hbare, .inr (.inr (hdigits c List.mem_cons_self))⟩
  · exact ⟨'+', digits, hplus, .inl rfl⟩
  · exact ⟨'-', digits, hminus, .inr (.inl rfl)⟩

/-- A number is neither spelled as nothing nor as a word. -/
theorem not_anyCode_of_spellsNumber (hspells : SpellsNumber name value) :
    ¬ Spells name .anyCode := by
  obtain ⟨c, rest, hchars, hc⟩ := first_of_spellsNumber hspells
  rintro (rfl | hword)
  · cases hchars
  · rw [Text.eqIgnoreAsciiCase, beq_iff_eq, hchars, List.map_cons] at hword
    exact toAsciiLower_ne_d hc (Option.some.inj (congrArg List.head? hword))

/-- Normalisation computes the key of what a name stands for. -/
theorem normalize_eq_ok {key : String} :
    normalizeExitActionName name = .ok key ↔ ∃ exit, Spells name exit ∧ exit.key = key := by
  by_cases hany : Spells name .anyCode
  · have hnormal : normalizeExitActionName name = .ok "default" := by
      rw [normalizeExitActionName, if_pos]
      simpa [Spells, String.isEmpty_iff] using hany
    rw [hnormal, Except.ok.injEq]
    constructor
    · intro hkey
      exact ⟨.anyCode, hany, hkey⟩
    · rintro ⟨exit, hspells, hkey⟩
      cases exit with
      | anyCode => exact hkey
      | code exit =>
          obtain ⟨value, hvalue, -⟩ := hspells
          exact absurd hany (not_anyCode_of_spellsNumber hvalue)
  · have hnamed : (name.isEmpty || Text.eqIgnoreAsciiCase name "default") = false := by
      simpa [Spells, String.isEmpty_iff] using hany
    rw [normalizeExitActionName, hnamed, if_neg Bool.false_ne_true]
    constructor
    · intro hkey
      split at hkey
      · rename_i code hcode
        cases hkey
        obtain ⟨value, hvalue, hlow, hhigh, hsame⟩ := parse_eq_some.mp hcode
        exact ⟨.code (Int32.ofInt value), ⟨value, hvalue, hlow, hhigh, rfl⟩,
          congrArg toString hsame⟩
      · cases hkey
    · rintro ⟨exit, hspells, rfl⟩
      cases exit with
      | anyCode => exact absurd hspells hany
      | code exit =>
          obtain ⟨value, hvalue, hlow, hhigh, rfl⟩ := hspells
          rw [parse_eq_some.mpr ⟨value, hvalue, hlow, hhigh, rfl⟩]
          rfl

end

theorem isI32_toInt (code : Int32) : Text.IsI32 code.toInt :=
  ⟨code.le_toInt, code.toInt_lt⟩

/-- A code is the number that its key spells. -/
theorem parseI32_key (code : Int32) : Text.parseI32 (toString code) = some code.toInt :=
  Text.parseI32_toString (isI32_toInt code)

theorem isExitKey_key (exit : ExitName) : IsExitKey exit.key := by
  cases exit with
  | anyCode => exact .inl rfl
  | code exit => exact .inr ⟨exit.toInt, isI32_toInt exit, rfl⟩

/-- Different meanings have different keys. -/
theorem key_injective : Function.Injective ExitName.key := by
  have hnumber : ∀ exit : Int32, toString exit ≠ "default" := by
    intro exit hkey
    have hparse := parseI32_key exit
    rw [hkey] at hparse
    have hnone : Text.parseI32 "default" = none := by decide
    rw [hnone] at hparse
    cases hparse
  intro exit other hkey
  cases exit with
  | anyCode =>
      cases other with
      | anyCode => rfl
      | code other => exact absurd hkey.symm (hnumber other)
  | code exit =>
      cases other with
      | anyCode => exact absurd hkey (hnumber exit)
      | code other =>
          have hparse := parseI32_key exit
          rw [show toString exit = toString other from hkey, parseI32_key other] at hparse
          exact congrArg ExitName.code (Int32.toInt_inj.mp (Option.some.inj hparse)).symm

theorem normalize_key (exit : ExitName) : normalizeExitActionName exit.key = .ok exit.key :=
  normalize_of_isExitKey (isExitKey_key exit)

/-! ## Reading -/

/-- One entry of the subkey, as a name and an action. -/
def EntryMeans (entry : String × String × UInt32) (exit : ExitName) (action : ExitAction) : Prop :=
  Spells entry.1 exit ∧ parseExitAction entry.2.1 = some action

/-- The entries under which the subkey cannot be read. -/
def Unreadable (entries : List (String × String × UInt32)) : Prop :=
  (∃ entry ∈ entries, ∀ exit, ¬ Spells entry.1 exit) ∨
    (∃ entry ∈ entries, parseExitAction entry.2.1 = none) ∨
    ∃ entry ∈ entries, ∃ other ∈ entries, ∃ exit, Spells entry.1 exit ∧ Spells other.1 exit ∧
      parseExitAction entry.2.1 ≠ parseExitAction other.2.1

/-- The exit actions hold what the entries mean, and nothing else. -/
def Collects (entries : List (String × String × UInt32)) (exits : ExitActions) : Prop :=
  ∀ exit action, exits[exit.key]? = some ⟨action⟩ ↔
    ∃ entry ∈ entries, EntryMeans entry exit action

theorem spells_unique {name : String} {exit other : ExitName} (hspells : Spells name exit)
    (hother : Spells name other) : exit = other := by
  have hkey := normalize_eq_ok.mpr ⟨exit, hspells, rfl⟩
  rw [normalize_eq_ok.mpr ⟨other, hother, rfl⟩, Except.ok.injEq] at hkey
  exact key_injective hkey.symm

theorem addExitEntry_of_means {entry : String × String × UInt32} {exit : ExitName}
    {action : ExitAction} (hmeans : EntryMeans entry exit action) (out : ExitActions) :
    addExitEntry out entry = insertExitAction out exit.key action := by
  obtain ⟨hspells, hparse⟩ := hmeans
  have hnormal : normalizeExitActionName entry.1 = .ok exit.key :=
    normalize_eq_ok.mpr ⟨exit, hspells, rfl⟩
  simp only [addExitEntry, hnormal, hparse, bind, Except.bind]

/-- An entry that is added has a meaning. -/
theorem means_of_addExitEntry {entry : String × String × UInt32} {out out' : ExitActions}
    (hadd : addExitEntry out entry = .ok out') : ∃ exit action, EntryMeans entry exit action := by
  rw [addExitEntry, Check.bind_eq_ok] at hadd
  obtain ⟨key, hkey, hadd⟩ := hadd
  obtain ⟨exit, hspells, -⟩ := normalize_eq_ok.mp hkey
  cases hparse : parseExitAction entry.2.1 with
  | none =>
      rw [hparse] at hadd
      cases hadd
  | some action => exact ⟨exit, action, hspells, hparse⟩

/-- What inserting under a key does. -/
theorem insertExitAction_key (out : ExitActions) (exit : ExitName) (action : ExitAction) :
    (out[exit.key]? = none ∧
      insertExitAction out exit.key action = .ok (out.insert exit.key ⟨action⟩)) ∨
    (out[exit.key]? = some ⟨action⟩ ∧ insertExitAction out exit.key action = .ok out) ∨
    ∃ previous, out[exit.key]? = some ⟨previous⟩ ∧ previous ≠ action ∧
      ∀ out', insertExitAction out exit.key action ≠ .ok out' := by
  simp only [insertExitAction, normalize_key, bind, Except.bind]
  cases hprevious : out[exit.key]? with
  | none => exact .inl ⟨rfl, rfl⟩
  | some previous =>
      obtain ⟨previous⟩ := previous
      by_cases hagree : previous = action
      · subst hagree
        exact .inr (.inl ⟨rfl, if_neg (by simp)⟩)
      · refine .inr (.inr ⟨previous, rfl, hagree, ?_⟩)
        intro out' hinsert
        simp only [if_pos hagree] at hinsert
        cases hinsert

theorem collects_step {done : List (String × String × UInt32)} {out out' : ExitActions}
    {entry : String × String × UInt32} (hout : Collects done out)
    (hadd : addExitEntry out entry = .ok out') : Collects (done ++ [entry]) out' := by
  obtain ⟨exit, action, hmeans⟩ := means_of_addExitEntry hadd
  -- the new entry means this and nothing else
  have honly : ∀ other act, EntryMeans entry other act → other = exit ∧ act = action := by
    rintro other act ⟨hspells, hparse⟩
    rw [hmeans.2] at hparse
    exact ⟨spells_unique hspells hmeans.1, (Option.some.inj hparse).symm⟩
  rw [addExitEntry_of_means hmeans] at hadd
  have hget : ∀ other act, out'[other.key]? = some ⟨act⟩ ↔
      out[other.key]? = some ⟨act⟩ ∨ (other = exit ∧ act = action) := by
    intro other act
    rcases insertExitAction_key out exit action with
      ⟨hnone, hinsert⟩ | ⟨hsame, hinsert⟩ | ⟨_, _, _, hrefused⟩
    · rw [hinsert] at hadd
      cases hadd
      rw [Std.ExtTreeMap.getElem?_insert]
      by_cases hexit : other = exit
      · subst hexit
        simp [hnone, eq_comm]
      · have hkeys : ¬ compare exit.key other.key = .eq := by
          rw [Std.LawfulEqCmp.compare_eq_iff_eq]
          exact fun hkey => hexit (key_injective hkey).symm
        rw [if_neg hkeys]
        simp [hexit]
    · rw [hinsert] at hadd
      cases hadd
      constructor
      · exact .inl
      · rintro (hold | ⟨rfl, rfl⟩)
        · exact hold
        · exact hsame
    · exact absurd hadd (hrefused out')
  intro other act
  rw [hget, hout other act]
  constructor
  · rintro (⟨old, hold, hmeaning⟩ | ⟨rfl, rfl⟩)
    · exact ⟨old, by simp [hold], hmeaning⟩
    · exact ⟨entry, by simp, hmeans⟩
  · rintro ⟨found, hmem, hmeaning⟩
    rcases List.mem_append.mp hmem with hold | hnew
    · exact .inl ⟨found, hold, hmeaning⟩
    · rw [List.mem_singleton] at hnew
      subst hnew
      exact .inr (honly other act hmeaning)

/-- Entries that were collected all have a meaning, and the result holds it. -/
theorem collects_of_foldlM {entries : List (String × String × UInt32)} {exits : ExitActions}
    (hfold : entries.foldlM addExitEntry ∅ = .ok exits) :
    Collects entries exits ∧ ∀ entry ∈ entries, ∃ exit action, EntryMeans entry exit action := by
  refine Check.foldlM_invariant (fun done out => Collects done out ∧
    ∀ entry ∈ done, ∃ exit action, EntryMeans entry exit action) ?_ ?_ hfold
  · refine ⟨?_, by simp⟩
    intro exit action
    simp
  · rintro done entry before after - ⟨hcollects, hmeans⟩ hstep
    refine ⟨collects_step hcollects hstep, ?_⟩
    intro other hother
    rcases List.mem_append.mp hother with hold | hnew
    · exact hmeans other hold
    · rw [List.mem_singleton] at hnew
      subst hnew
      exact means_of_addExitEntry hstep

/-- Reading fails exactly on an unknown name, an unknown action or two names of one
meaning that disagree. -/
theorem foldlM_addExitEntry_iff {entries : List (String × String × UInt32)} :
    (∃ exits, entries.foldlM addExitEntry ∅ = .ok exits) ↔ ¬ Unreadable entries := by
  constructor
  · rintro ⟨exits, hfold⟩
    obtain ⟨hcollects, hmeans⟩ := collects_of_foldlM hfold
    rintro (⟨entry, hentry, hunknown⟩ | ⟨entry, hentry, hunknown⟩ |
      ⟨entry, hentry, other, hother, exit, hspells, hspells', hdiffer⟩)
    · obtain ⟨exit, action, hspells, -⟩ := hmeans entry hentry
      exact hunknown exit hspells
    · obtain ⟨exit, action, -, hparse⟩ := hmeans entry hentry
      rw [hunknown] at hparse
      cases hparse
    · obtain ⟨exit₁, action₁, hspells₁, hparse₁⟩ := hmeans entry hentry
      obtain ⟨exit₂, action₂, hspells₂, hparse₂⟩ := hmeans other hother
      have hfirst := (hcollects exit action₁).mpr ⟨entry, hentry, hspells, hparse₁⟩
      have hsecond := (hcollects exit action₂).mpr ⟨other, hother, hspells', hparse₂⟩
      rw [hfirst] at hsecond
      cases hsecond
      exact hdiffer (hparse₁.trans hparse₂.symm)
  · intro hreadable
    suffices hrest : ∀ rest done out, entries = done ++ rest → Collects done out →
        ∃ exits, rest.foldlM addExitEntry out = .ok exits from
      hrest entries [] ∅ rfl (by intro exit action; simp)
    intro rest
    induction rest with
    | nil => exact fun done out _ _ => ⟨out, rfl⟩
    | cons entry rest ih =>
        intro done out hsplit hout
        have hentry : entry ∈ entries := by simp [hsplit]
        have hspelled : ∃ exit, Spells entry.1 exit := by
          by_contra hunknown
          exact hreadable (.inl ⟨entry, hentry, not_exists.mp hunknown⟩)
        have hknown : ∃ action, parseExitAction entry.2.1 = some action := by
          cases hparse : parseExitAction entry.2.1 with
          | none => exact absurd (.inr (.inl ⟨entry, hentry, hparse⟩)) hreadable
          | some action => exact ⟨action, rfl⟩
        obtain ⟨exit, hspells⟩ := hspelled
        obtain ⟨action, hparse⟩ := hknown
        have hadd : ∃ out', addExitEntry out entry = .ok out' := by
          rw [addExitEntry_of_means ⟨hspells, hparse⟩]
          rcases insertExitAction_key out exit action with
            ⟨-, hinsert⟩ | ⟨-, hinsert⟩ | ⟨previous, hprevious, hdiffer, -⟩
          · exact ⟨_, hinsert⟩
          · exact ⟨_, hinsert⟩
          · obtain ⟨other, hother, hspells', hparse'⟩ := (hout exit previous).mp hprevious
            refine absurd (.inr (.inr ⟨entry, hentry, other, by simp [hsplit, hother], exit,
              hspells, hspells', ?_⟩)) hreadable
            rw [hparse, hparse']
            exact fun hsame => hdiffer (Option.some.inj hsame).symm
        obtain ⟨out', hadd⟩ := hadd
        obtain ⟨exits, hfold⟩ := ih (done ++ [entry]) out' (by simp [hsplit])
          (collects_step hout hadd)
        exact ⟨exits, by rw [List.foldlM_cons, hadd]; exact hfold⟩

section

variable {fold : NameFold} {σ : Type} {node : Params fold σ}

/-- The values of the `AppExit` subkey, which may be absent. -/
def exitEntries (node : Params fold σ) : Result (List (String × String × UInt32)) :=
  match node.subkey? NssmKeys.appExit with
  | none => .ok []
  | some exitKey => enumerateTypedStringValues exitKey

theorem readExitActions_eq_fold (node : Params fold σ) :
    readExitActions node = exitEntries node >>= fun entries => entries.foldlM addExitEntry ∅ := by
  unfold readExitActions exitEntries
  cases node.subkey? NssmKeys.appExit <;> rfl

/-- The exit actions of a configuration are those of the subkey, and its default action
mirrors the entry for every other code. -/
theorem exits_of_read {service : String} {cfg : ManagedApplicationConfig}
    (hread : readManagedFromKey node service = .ok (some cfg)) :
    readExitActions node = .ok cfg.exitActions ∧
      cfg.restart.defaultAction = cfg.exitActions["default"]?.map (·.action) := by
  refine of_readManagedFromKey (fun cfg => readExitActions node = .ok cfg.exitActions ∧
    cfg.restart.defaultAction = cfg.exitActions["default"]?.map (·.action)) ?_ hread
  intro app value marked hvalue hholds hblank
  unfold readFields
  iterate 2 refine wp_skip _ fun _ _ => ?_
  rw [Prog.wp_bind, Prog.wp_liftExcept]
  rcases hexits : readExitActions node with e | exits
  · trivial
  iterate 22 refine wp_skip _ fun _ _ => ?_
  exact ⟨rfl, rfl⟩

/-- A configuration that was read collects the entries of the subkey. -/
theorem collects_of_read {service : String} {cfg : ManagedApplicationConfig}
    (hread : readManagedFromKey node service = .ok (some cfg)) :
    ∃ entries, exitEntries node = .ok entries ∧ Collects entries cfg.exitActions ∧
      ∀ entry ∈ entries, ∃ exit action, EntryMeans entry exit action := by
  have hexits := (exits_of_read hread).1
  rw [readExitActions_eq_fold, Check.bind_eq_ok] at hexits
  obtain ⟨entries, hentries, hfold⟩ := hexits
  exact ⟨entries, hentries, collects_of_foldlM hfold⟩

/-- When the subkey can be read. -/
theorem readExitActions_fails_iff {entries : List (String × String × UInt32)}
    (hentries : exitEntries node = .ok entries) :
    (∀ exits, readExitActions node ≠ .ok exits) ↔ Unreadable entries := by
  rw [readExitActions_eq_fold, hentries, ← not_exists]
  exact (not_congr foldlM_addExitEntry_iff).trans not_not

end

end Ngsm.Registry
