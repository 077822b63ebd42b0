/-
# Variable references

What the percent signs of a text enclose when they are paired from the left.  A
reference is a pair with something between its signs.  Scans that look for
references in different ways are compared with this one reading.
-/

import Mathlib.Data.List.TakeWhile
import Ngsm.Core.Expansion

namespace Ngsm.Core

open Ngsm.Lib

/-! ## Pairing the percent signs -/

/-- A text has no percent sign, has one, or begins with a pair. -/
theorem sign_induction {P : List Char → Prop} (plain : ∀ text, '%' ∉ text → P text)
    (single : ∀ before after, '%' ∉ before → '%' ∉ after → P (before ++ '%' :: after))
    (pair : ∀ before name rest, '%' ∉ before → '%' ∉ name → P rest →
      P (before ++ '%' :: (name ++ '%' :: rest))) (text : List Char) : P text := by
  induction hlength : text.length using Nat.strongRecOn generalizing text with
  | _ n ih =>
      by_cases hfirst : '%' ∈ text
      · obtain ⟨before, tail, rfl, hbefore⟩ := List.eq_append_cons_of_mem hfirst
        by_cases hsecond : '%' ∈ tail
        · obtain ⟨name, rest, rfl, hname⟩ := List.eq_append_cons_of_mem hsecond
          refine pair before name rest hbefore hname (ih rest.length ?_ rest rfl)
          simp only [List.length_append, List.length_cons] at hlength
          omega
        · exact single before tail hbefore hsecond
      · exact plain text hfirst

/-- What the pairs of signs between the parts of a text enclose. -/
def enclosed : List (List Char) → List (List Char)
  | _ :: name :: next :: rest => name :: enclosed (next :: rest)
  | _ => []

/-- The text in front of the first pair that encloses something. -/
def lead : List (List Char) → List Char
  | before :: name :: next :: rest =>
      if name = [] then before ++ '%' :: '%' :: lead (next :: rest) else before
  | _ => []

def HasReference (text : List Char) : Prop :=
  ∃ name ∈ enclosed (text.splitOn '%'), name ≠ []

def beforeReference (text : List Char) : List Char :=
  lead (text.splitOn '%')

/-- The text behind a last sign that has no partner. -/
def behind : List (List Char) → List Char
  | _ :: _ :: next :: rest => behind (next :: rest)
  | [_, after] => after
  | _ => []

def behindUnpaired (text : List Char) : List Char :=
  behind (text.splitOn '%')

section

variable {before name rest text : List Char}

theorem splitOn_plain (h : '%' ∉ text) : text.splitOn '%' = [text] :=
  List.splitOn_eq_singleton h

theorem splitOn_sign (h : '%' ∉ before) (rest : List Char) :
    (before ++ '%' :: rest).splitOn '%' = before :: rest.splitOn '%' := by
  rw [List.splitOn_append_cons_self, List.splitOn_eq_singleton h, List.singleton_append]

/-- The parts of a text after its first pair of signs. -/
theorem splitOn_pair (hbefore : '%' ∉ before) (hname : '%' ∉ name) (rest : List Char) :
    ∃ next parts, rest.splitOn '%' = next :: parts ∧
      (before ++ '%' :: (name ++ '%' :: rest)).splitOn '%' = before :: name :: next :: parts := by
  obtain ⟨next, parts, hparts⟩ := List.exists_cons_of_ne_nil (List.splitOn_ne_nil '%' rest)
  refine ⟨next, parts, hparts, ?_⟩
  rw [splitOn_sign hbefore, splitOn_sign hname, hparts]

theorem not_hasReference_plain (h : '%' ∉ text) : ¬ HasReference text := by
  rw [HasReference, splitOn_plain h]
  simp [enclosed]

theorem not_hasReference_single {after : List Char} (hbefore : '%' ∉ before)
    (hafter : '%' ∉ after) : ¬ HasReference (before ++ '%' :: after) := by
  rw [HasReference, splitOn_sign hbefore, splitOn_plain hafter]
  simp [enclosed]

theorem hasReference_pair (hbefore : '%' ∉ before) (hname : '%' ∉ name) :
    HasReference (before ++ '%' :: (name ++ '%' :: rest)) ↔ name ≠ [] ∨ HasReference rest := by
  obtain ⟨next, parts, hparts, hsplit⟩ := splitOn_pair hbefore hname rest
  rw [HasReference, HasReference, hsplit, hparts, enclosed]
  simp

theorem beforeReference_pair (hbefore : '%' ∉ before) (hname : '%' ∉ name) :
    beforeReference (before ++ '%' :: (name ++ '%' :: rest)) =
      if name = [] then before ++ '%' :: '%' :: beforeReference rest else before := by
  obtain ⟨next, parts, hparts, hsplit⟩ := splitOn_pair hbefore hname rest
  rw [beforeReference, beforeReference, hsplit, hparts, lead]

/-! ## The scan of the expansion -/

theorem fromSign_plain (h : '%' ∉ text) : fromSign text = [] := by
  rw [fromSign, List.dropWhile_eq_nil_iff]
  intro c hc
  rw [bne_iff_ne]
  rintro rfl
  exact h hc

theorem signs_split (h : '%' ∉ before) (rest : List Char) :
    beforeSign (before ++ '%' :: rest) = before ∧
      fromSign (before ++ '%' :: rest) = '%' :: rest := by
  have hkeep : ∀ c ∈ before, (c != '%') = true := by
    intro c hc
    rw [bne_iff_ne]
    rintro rfl
    exact h hc
  constructor
  · rw [beforeSign, List.takeWhile_append_of_pos hkeep, List.takeWhile_cons_of_neg (by decide),
      List.append_nil]
  · rw [fromSign, List.dropWhile_append_of_pos hkeep, List.dropWhile_cons_of_neg (by decide)]

variable {σ : Type} (field : String) (lookup : Lookup σ) (expanded : Expanded)

theorem expandLoop_plain (h : '%' ∉ text) :
    expandLoop field lookup text expanded =
      liftExcept (appendExpanded field expanded (String.ofList text)) := by
  rw [expandLoop]
  split
  · rfl
  · rename_i hstart
    rw [fromSign_plain h] at hstart
    cases hstart

theorem expandLoop_single {after : List Char} (hbefore : '%' ∉ before) (hafter : '%' ∉ after) :
    expandLoop field lookup (before ++ '%' :: after) expanded = (do
      let expanded ← liftExcept (appendExpanded field expanded (String.ofList before))
      liftExcept (appendExpanded field expanded (String.ofList ('%' :: after)))) := by
  obtain ⟨hfront, hfrom⟩ := signs_split hbefore after
  rw [expandLoop]
  split
  · rename_i hstart
    rw [hfrom] at hstart
    cases hstart
  · rename_i hstart
    rw [hfrom] at hstart
    cases hstart
    rw [hfront]
    congr 1
    funext expanded
    split
    · rfl
    · rename_i hend
      rw [fromSign_plain hafter] at hend
      cases hend

theorem expandLoop_pair (hbefore : '%' ∉ before) (hname : '%' ∉ name) :
    expandLoop field lookup (before ++ '%' :: (name ++ '%' :: rest)) expanded = (do
      let expanded ← liftExcept (appendExpanded field expanded (String.ofList before))
      let value ← lookupName lookup name
      let reference := String.ofList ('%' :: name ++ ['%'])
      let expanded ← liftExcept (appendExpanded field expanded (value.getD reference))
      expandLoop field lookup rest expanded) := by
  obtain ⟨hfront, hfrom⟩ := signs_split hbefore (name ++ '%' :: rest)
  obtain ⟨hinner, hbehind⟩ := signs_split hname rest
  rw [expandLoop]
  split
  · rename_i hstart
    rw [hfrom] at hstart
    cases hstart
  · rename_i hstart
    rw [hfrom] at hstart
    cases hstart
    rw [hfront]
    congr 1
    funext expanded
    split
    · rename_i hend
      rw [hbehind] at hend
      cases hend
    · rename_i hend
      rw [hbehind] at hend
      cases hend
      rw [hinner]

end

/-! ## The lookups of the expansion -/

/-- A lookup that keeps the names it was asked for; the answer may depend on the
names asked for earlier. -/
def recorded (known : List String → String → Option String) : Lookup (List String) :=
  fun name => do
    let names ← get
    set (names ++ [name])
    pure (known names name)

/-- The names that are looked up when a text is expanded. -/
def lookups (field : String) (known : List String → String → Option String) (text : String) :
    List String :=
  ((expand field text (recorded known)).exec []).2

/-- A text can be appended to what has been written. -/
def Fits (expanded : Expanded) (text : List Char) : Prop :=
  '\x00' ∉ text ∧ expanded.units + (Utf16.encode (String.ofList text)).length < expandedLimit

theorem length_encode_append (a b : List Char) :
    (Utf16.encode (String.ofList (a ++ b))).length =
      (Utf16.encode (String.ofList a)).length + (Utf16.encode (String.ofList b)).length := by
  simp [Utf16.encode]

theorem appendExpanded_iff {field : String} {expanded expanded' : Expanded} {text : List Char} :
    appendExpanded field expanded (String.ofList text) = .ok expanded' ↔
      Fits expanded text ∧ expanded'.units =
        expanded.units + (Utf16.encode (String.ofList text)).length ∧
        expanded'.out = expanded.out ++ String.ofList text := by
  obtain ⟨out, units⟩ := expanded'
  unfold appendExpanded Fits Text.contains
  rw [String.toList_ofList]
  by_cases hnul : '\x00' ∈ text
  · simp [hnul]
  · by_cases hlimit : expandedLimit ≤
        expanded.units + (Utf16.encode (String.ofList text)).length
    · simp [hnul, hlimit, Nat.not_lt.mpr hlimit]
    · simp only [List.contains_eq_mem, hnul, decide_false, Bool.false_eq_true, if_false, hlimit,
        Except.ok.injEq, Expanded.mk.injEq, not_false_eq_true, true_and, Nat.not_le.mp hlimit]
      constructor
      · rintro ⟨rfl, rfl⟩
        exact ⟨rfl, rfl⟩
      · rintro ⟨rfl, rfl⟩
        exact ⟨rfl, rfl⟩

theorem Fits.appended {expanded : Expanded} {text : List Char} (field : String)
    (h : Fits expanded text) :
    ∃ expanded', appendExpanded field expanded (String.ofList text) = .ok expanded' :=
  ⟨⟨expanded.out ++ String.ofList text,
    expanded.units + (Utf16.encode (String.ofList text)).length⟩,
    appendExpanded_iff.mpr ⟨h, rfl, rfl⟩⟩

/-- A text that fits is not refused. -/
theorem not_fits_of_error {field : String} {expanded : Expanded} {text : List Char} {e : Error}
    (h : appendExpanded field expanded (String.ofList text) = .error e) :
    ¬ Fits expanded text := by
  intro hfits
  obtain ⟨expanded', hok⟩ := hfits.appended field
  rw [hok] at h
  cases h

/-- A text fits when its first part does and the rest does behind it. -/
theorem Fits.append_iff {expanded expanded' : Expanded} {a b : List Char}
    (hunits : expanded'.units = expanded.units + (Utf16.encode (String.ofList a)).length)
    (ha : Fits expanded a) : Fits expanded (a ++ b) ↔ Fits expanded' b := by
  unfold Fits
  rw [length_encode_append, hunits, ← Nat.add_assoc]
  simp [ha.1]

theorem Fits.of_append {expanded : Expanded} {a b : List Char} (h : Fits expanded (a ++ b)) :
    Fits expanded a := by
  obtain ⟨hnul, hlength⟩ := h
  rw [length_encode_append] at hlength
  exact ⟨fun hmem => hnul (List.mem_append_left b hmem), by omega⟩

section

variable {field : String} {known : List String → String → Option String} {names : List String}

theorem wp_lookupName {Q : Option String → List String → Prop} {R : Error → List String → Prop}
    (name : List Char) :
    (lookupName (recorded known) name).wp Q R names ↔
      if name = [] then Q none names
      else Q (known names (String.ofList name)) (names ++ [String.ofList name]) := by
  unfold lookupName
  cases name with
  | nil => rfl
  | cons c cs => rfl

/-- Names are only added. -/
theorem expandLoop_extends (text : List Char) (expanded : Expanded) (names : List String) :
    (expandLoop field (recorded known) text expanded).wp (fun _ later => names <+: later)
      (fun _ later => names <+: later) names := by
  induction text using sign_induction generalizing expanded names with
  | plain text htext =>
      rw [expandLoop_plain _ _ _ htext, Prog.wp_liftExcept]
      split <;> exact List.prefix_refl names
  | single before after hbefore hafter =>
      rw [expandLoop_single _ _ _ hbefore hafter, Prog.wp_bind, Prog.wp_liftExcept]
      split
      · rw [Prog.wp_liftExcept]
        split <;> exact List.prefix_refl names
      · exact List.prefix_refl names
  | pair before name rest hbefore hname ih =>
      rw [expandLoop_pair _ _ _ hbefore hname, Prog.wp_bind, Prog.wp_liftExcept]
      split
      · rename_i expanded' _
        have hrest : ∀ value names', names <+: names' →
            (do
              let expanded ← liftExcept (appendExpanded field expanded' value)
              expandLoop field (recorded known) rest expanded : Prog _ Error Expanded).wp
              (fun _ later => names <+: later) (fun _ later => names <+: later) names' := by
          intro value names' hnames
          rw [Prog.wp_bind, Prog.wp_liftExcept]
          split
          · exact Prog.wp_mono _ (fun _ _ h => hnames.trans h) (fun _ _ h => hnames.trans h)
              (ih _ names')
          · exact hnames
        rw [Prog.wp_bind, wp_lookupName]
        split
        · exact hrest _ names (List.prefix_refl names)
        · exact hrest _ _ (List.prefix_append names [String.ofList name])
      · exact List.prefix_refl names

/-- Something is looked up exactly when there is a reference and the text in front of
the first one can be written. -/
theorem expandLoop_lookups (text : List Char) (expanded : Expanded) (names : List String) :
    (expandLoop field (recorded known) text expanded).wp
      (fun _ later => later ≠ names ↔ HasReference text ∧ Fits expanded (beforeReference text))
      (fun _ later => later ≠ names ↔ HasReference text ∧ Fits expanded (beforeReference text))
      names := by
  induction text using sign_induction generalizing expanded names with
  | plain text htext =>
      have hsame : names ≠ names ↔ HasReference text ∧ Fits expanded (beforeReference text) :=
        iff_of_false (fun h => h rfl) fun h => not_hasReference_plain htext h.1
      rw [expandLoop_plain _ _ _ htext, Prog.wp_liftExcept]
      split <;> exact hsame
  | single before after hbefore hafter =>
      have hsame : names ≠ names ↔ HasReference (before ++ '%' :: after) ∧
          Fits expanded (beforeReference (before ++ '%' :: after)) :=
        iff_of_false (fun h => h rfl) fun h => not_hasReference_single hbefore hafter h.1
      rw [expandLoop_single _ _ _ hbefore hafter, Prog.wp_bind, Prog.wp_liftExcept]
      split
      · rw [Prog.wp_liftExcept]
        split <;> exact hsame
      · exact hsame
  | pair before name rest hbefore hname ih =>
      rw [expandLoop_pair _ _ _ hbefore hname, hasReference_pair hbefore hname,
        beforeReference_pair hbefore hname, Prog.wp_bind, Prog.wp_liftExcept]
      split
      · rename_i expanded' hfirst
        obtain ⟨hfits, hunits, -⟩ := appendExpanded_iff.mp hfirst
        rw [Prog.wp_bind, wp_lookupName]
        by_cases hempty : name = []
        · subst hempty
          rw [if_pos rfl, if_pos rfl, Fits.append_iff hunits hfits]
          rw [Prog.wp_bind, Prog.wp_liftExcept]
          have hsigns : '%' :: '%' :: beforeReference rest =
              (['%'] ++ ['%']) ++ beforeReference rest := rfl
          split
          · rename_i expanded'' hsecond
            obtain ⟨hpair, hlength, -⟩ := appendExpanded_iff.mp hsecond
            rw [hsigns, Fits.append_iff hlength hpair]
            simpa using ih expanded'' names
          · rename_i hsecond
            have hrefused : ¬ Fits expanded' (['%'] ++ ['%']) := not_fits_of_error hsecond
            refine iff_of_false (fun h => h rfl) fun h => ?_
            rw [hsigns] at h
            exact hrefused h.2.of_append
        · rw [if_neg hempty, if_neg hempty]
          have hlater : ∀ later, names ++ [String.ofList name] <+: later → (later ≠ names ↔
              (name ≠ [] ∨ HasReference rest) ∧ Fits expanded before) := by
            rintro later ⟨more, rfl⟩
            exact iff_of_true (by simp) ⟨.inl hempty, hfits⟩
          rw [Prog.wp_bind, Prog.wp_liftExcept]
          split
          · exact Prog.wp_mono _ (fun _ later h => hlater later h) (fun _ later h => hlater later h)
              (expandLoop_extends _ _ _)
          · exact hlater _ (List.prefix_refl _)
      · rename_i hfirst
        refine iff_of_false (fun h => h rfl) fun h => ?_
        refine not_fits_of_error hfirst ?_
        by_cases hempty : name = []
        · rw [if_pos hempty] at h
          exact h.2.of_append
        · rw [if_neg hempty] at h
          exact h.2

theorem lookups_ne_nil_iff (text : String) :
    lookups field known text ≠ [] ↔
      HasReference text.toList ∧ Fits {} (beforeReference text.toList) := by
  have hloop : (expandLoop field (recorded known) text.toList {}).wp _ _ [] :=
    expandLoop_lookups text.toList {} []
  unfold lookups expand
  rw [Prog.exec_bind]
  cases hrun : (expandLoop field (recorded known) text.toList {}).exec [] with
  | mk outcome later =>
      cases outcome with
      | ok expanded => exact Prog.wp_ok _ hloop hrun
      | error e => exact Prog.wp_error _ hloop hrun

end

end Ngsm.Core
