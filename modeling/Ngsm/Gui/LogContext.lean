/-
# Whether a log path needs the service's environment

Three scans of a marked string look for variable references.  The window that shows
a log pairs the positions of the percent signs, the check of a stored path takes
every other part between them, and the expansion searches from sign to sign.  The
first and the last find the same strings.  The check of a stored path refuses
control characters first, and otherwise agrees wherever no text stands behind an
unpaired last sign.
-/

import Ngsm.Registry.Preflight
import Ngsm.Core.References

namespace Ngsm.Gui

open Ngsm.Lib
open Ngsm.Core
open Ngsm.Registry

/-- The byte offsets at which a character occurs. -/
def matchIndices (c : Char) : ℕ → List Char → List ℕ
  | _, [] => []
  | offset, d :: text =>
      if d = c then offset :: matchIndices c (offset + d.utf8Size) text
      else matchIndices c (offset + d.utf8Size) text

/-- Some pair of signs has a byte between them. -/
def pairEncloses : List ℕ → Bool
  | start :: stop :: signs => if stop > start + 1 then true else pairEncloses signs
  | _ => false

def logNeedsServiceEnvironment (cfg : ManagedApplicationConfig) (field path : String) : Bool :=
  if !cfg.isExpandableString field then false
  else pairEncloses (matchIndices '%' 0 path.toList)

section

variable {before name rest text : List Char} {c : Char}

def utf8Length : List Char → ℕ
  | [] => 0
  | c :: text => c.utf8Size + utf8Length text

theorem utf8Length_pos (h : name ≠ []) : 0 < utf8Length name := by
  cases name with
  | nil => exact absurd rfl h
  | cons c cs =>
      have hsize := c.utf8Size_pos
      rw [utf8Length]
      omega

theorem matchIndices_plain (h : c ∉ text) (offset : ℕ) : matchIndices c offset text = [] := by
  induction text generalizing offset with
  | nil => rfl
  | cons d text ih =>
      rw [List.mem_cons, not_or] at h
      rw [matchIndices, if_neg (Ne.symm h.1)]
      exact ih h.2 _

theorem matchIndices_append (h : c ∉ before) (offset : ℕ) :
    matchIndices c offset (before ++ c :: rest) =
      (offset + utf8Length before) ::
        matchIndices c (offset + utf8Length before + c.utf8Size) rest := by
  induction before generalizing offset with
  | nil => simp [matchIndices, utf8Length]
  | cons d before ih =>
      rw [List.mem_cons, not_or] at h
      rw [List.cons_append, matchIndices, if_neg (Ne.symm h.1), ih h.2]
      simp only [utf8Length, Nat.add_assoc]

/-- The window finds the references. -/
theorem pairEncloses_iff (text : List Char) (offset : ℕ) :
    pairEncloses (matchIndices '%' offset text) = true ↔ HasReference text := by
  induction text using sign_induction generalizing offset with
  | plain text htext =>
      rw [matchIndices_plain htext]
      exact iff_of_false (by simp [pairEncloses]) (not_hasReference_plain htext)
  | single before after hbefore hafter =>
      rw [matchIndices_append hbefore, matchIndices_plain hafter]
      exact iff_of_false (by simp [pairEncloses]) (not_hasReference_single hbefore hafter)
  | pair before name rest hbefore hname ih =>
      rw [matchIndices_append hbefore, matchIndices_append hname, hasReference_pair hbefore hname,
        pairEncloses]
      have hsign : Char.utf8Size '%' = 1 := rfl
      by_cases hempty : name = []
      · subst hempty
        rw [if_neg (by simp [utf8Length, hsign]), ih]
        simp
      · have hlength := utf8Length_pos hempty
        rw [if_pos (by omega)]
        exact iff_of_true rfl (.inl hempty)

end

theorem logNeedsServiceEnvironment_iff (cfg : ManagedApplicationConfig) (field path : String) :
    logNeedsServiceEnvironment cfg field path = true ↔
      cfg.isExpandableString field = true ∧ HasReference path.toList := by
  unfold logNeedsServiceEnvironment
  cases cfg.isExpandableString field with
  | false => simp
  | true => simp [pairEncloses_iff]

/-! ## The check of a stored path -/

/-- A variable may supply the front of the path. -/
def variablePrefix (value : String) : Bool :=
  ((Text.split value '%').zipIdx.any fun (part, index) => index % 2 == 1 && !part.isEmpty) &&
    2 ≤ value.toList.count '%'

/-- The check of a stored path does not ask for an absolute path. -/
def skipsAbsoluteCheck (cfg : ManagedApplicationConfig) (name value : String) : Bool :=
  cfg.isExpandableString name && !value.toList.any Text.isControl && variablePrefix value

theorem validateRawPath_eq (cfg : ManagedApplicationConfig) (name value : String) :
    validateRawPath cfg name value =
      if skipsAbsoluteCheck cfg name value then .ok ()
      else if cfg.isExpandableString name && value.toList.any Text.isControl then
        .error (.invalidConfig (name ++ " contains a control character"))
      else validateAbsolutePath name value := by
  unfold validateRawPath skipsAbsoluteCheck variablePrefix
  cases cfg.isExpandableString name <;> cases value.toList.any Text.isControl <;>
    simp only [Bool.false_and, Bool.true_and, Bool.not_true, Bool.not_false, Bool.false_eq_true,
      if_true, if_false]

/-- The odd parts are the names and what stands behind an unpaired last sign. -/
theorem any_odd_iff (parts : List (List Char)) (start : ℕ) (hstart : start % 2 = 0) :
    (((parts.map String.ofList).zipIdx start).any fun (part, index) =>
        index % 2 == 1 && !part.isEmpty) = true ↔
      (∃ name ∈ enclosed parts, name ≠ []) ∨ behind parts ≠ [] := by
  have hnext : (start + 1) % 2 = 1 := by omega
  induction parts using enclosed.induct generalizing start with
  | case1 before name next rest ih =>
      have hrest := ih (start + 1 + 1) (by omega) (by omega)
      rw [enclosed, behind, List.map_cons, List.map_cons, List.zipIdx_cons, List.zipIdx_cons,
        List.any_cons, List.any_cons, Bool.or_eq_true, Bool.or_eq_true]
      simp only [hrest, List.mem_cons, exists_eq_or_imp, hstart, hnext]
      simp [or_assoc]
  | case2 parts hshort =>
      rcases parts with _ | ⟨before, _ | ⟨after, _ | ⟨next, rest⟩⟩⟩
      · simp [enclosed, behind]
      · simp [enclosed, behind, hstart]
      · simp [enclosed, behind, hstart, hnext]
      · exact absurd rfl (hshort before after next rest)

theorem two_le_count_of_reference {text : List Char} (h : HasReference text) :
    2 ≤ text.count '%' := by
  induction text using sign_induction with
  | plain text htext => exact absurd h (not_hasReference_plain htext)
  | single before after hbefore hafter =>
      exact absurd h (not_hasReference_single hbefore hafter)
  | pair before name rest hbefore hname ih =>
      rw [List.count_append, List.count_cons_self, List.count_append, List.count_cons_self]
      omega

/-- What the check of a stored path takes for a variable in front. -/
theorem variablePrefix_iff (value : String) :
    variablePrefix value = true ↔ HasReference value.toList ∨
      (behindUnpaired value.toList ≠ [] ∧ 2 ≤ value.toList.count '%') := by
  unfold variablePrefix Text.split behindUnpaired HasReference
  rw [Bool.and_eq_true, any_odd_iff _ 0 rfl, decide_eq_true_iff, or_and_right]
  exact or_congr_left (and_iff_left_of_imp two_le_count_of_reference)

/-! ## The three scans -/

section

variable {cfg : ManagedApplicationConfig} {field : String}

theorem skipsAbsoluteCheck_iff (hmarked : cfg.isExpandableString field = true) {s : String}
    (hcontrol : s.toList.any Text.isControl = false) (hbehind : behindUnpaired s.toList = []) :
    skipsAbsoluteCheck cfg field s = true ↔ HasReference s.toList := by
  unfold skipsAbsoluteCheck
  rw [hmarked, hcontrol, Bool.not_false, Bool.true_and, Bool.true_and, variablePrefix_iff]
  exact or_iff_left fun h => h.1 hbehind

theorem skipsAbsoluteCheck_of_reference (hmarked : cfg.isExpandableString field = true)
    {s : String} (hcontrol : s.toList.any Text.isControl = false)
    (h : HasReference s.toList) : skipsAbsoluteCheck cfg field s = true := by
  unfold skipsAbsoluteCheck
  rw [hmarked, hcontrol, Bool.not_false, Bool.true_and, Bool.true_and]
  exact (variablePrefix_iff s).mpr (.inl h)

theorem validateRawPath_control (hmarked : cfg.isExpandableString field = true) {s : String}
    (hcontrol : s.toList.any Text.isControl = true) :
    validateRawPath cfg field s =
      .error (.invalidConfig (field ++ " contains a control character")) := by
  unfold validateRawPath
  rw [if_pos hmarked, if_pos hcontrol]

/-- In a marked field the log window and the expansion find the same references, and
the check of a stored path makes its exception for them once the text holds no control
character. -/
theorem references_agree (known : List String → String → Option String) (s : String)
    (hmarked : cfg.isExpandableString field = true) :
    (logNeedsServiceEnvironment cfg field s = true ↔ HasReference s.toList) ∧
      (lookups field known s ≠ [] ↔ logNeedsServiceEnvironment cfg field s = true ∧
        Fits {} (beforeReference s.toList)) ∧
      (s.toList.any Text.isControl = true → validateRawPath cfg field s =
        .error (.invalidConfig (field ++ " contains a control character"))) ∧
      (s.toList.any Text.isControl = false →
        (logNeedsServiceEnvironment cfg field s = true →
          skipsAbsoluteCheck cfg field s = true ∧ validateRawPath cfg field s = .ok ()) ∧
        (behindUnpaired s.toList = [] →
          (skipsAbsoluteCheck cfg field s = true ↔
            logNeedsServiceEnvironment cfg field s = true))) := by
  have hlog : logNeedsServiceEnvironment cfg field s = true ↔ HasReference s.toList := by
    rw [logNeedsServiceEnvironment_iff, hmarked]
    exact and_iff_right rfl
  refine ⟨hlog, ?_, validateRawPath_control hmarked, fun hcontrol => ⟨?_, ?_⟩⟩
  · rw [hlog]
    exact lookups_ne_nil_iff s
  · intro hneeds
    have hskips := skipsAbsoluteCheck_of_reference hmarked hcontrol (hlog.mp hneeds)
    rw [validateRawPath_eq, hskips]
    exact ⟨rfl, rfl⟩
  · intro hbehind
    rw [hlog]
    exact skipsAbsoluteCheck_iff hmarked hcontrol hbehind

end

/-- A configuration whose output path is marked. -/
def markedOutput : ManagedApplicationConfig :=
  { expandableStrings := {"AppStdout"} }

theorem markedOutput_marked : markedOutput.isExpandableString "AppStdout" = true := by
  simp [markedOutput, ManagedApplicationConfig.isExpandableString, Text.eqIgnoreAsciiCase]

theorem references_agree_home :
    (logNeedsServiceEnvironment markedOutput "AppStdout" "%HOME%" = true ↔
        HasReference "%HOME%".toList) ∧
      lookups "AppStdout" (fun _ _ => none) "%HOME%" ≠ [] ∧
      skipsAbsoluteCheck markedOutput "AppStdout" "%HOME%" = true ∧
      validateRawPath markedOutput "AppStdout" "%HOME%" = .ok () ∧
      (skipsAbsoluteCheck markedOutput "AppStdout" "%HOME%" = true ↔
        logNeedsServiceEnvironment markedOutput "AppStdout" "%HOME%" = true) := by
  have htext : "%HOME%".toList = ['%', 'H', 'O', 'M', 'E', '%'] := by simp
  obtain ⟨hlog, hlookups, -, hplain⟩ :=
    references_agree (fun _ _ => none) "%HOME%" markedOutput_marked
  have hreference : HasReference "%HOME%".toList := by
    rw [htext]
    exact ⟨['H', 'O', 'M', 'E'], by decide, by decide⟩
  have hneeds := hlog.mpr hreference
  have hfits : Fits {} (beforeReference "%HOME%".toList) := by
    have hnone : beforeReference "%HOME%".toList = [] := by
      rw [htext]
      decide
    rw [hnone]
    exact ⟨List.not_mem_nil, by decide⟩
  obtain ⟨hpasses, hsame⟩ := hplain (by rw [htext]; decide)
  obtain ⟨hskips, hvalid⟩ := hpasses hneeds
  exact ⟨hlog, hlookups.mpr ⟨hneeds, hfits⟩, hskips, hvalid, hsame (by rw [htext]; decide)⟩

/-- A control character keeps a reference from supplying the front of a path. -/
theorem tab_reference_refused :
    markedOutput.isExpandableString "AppStdout" = true ∧
      logNeedsServiceEnvironment markedOutput "AppStdout" "\t%HOME%" = true ∧
      skipsAbsoluteCheck markedOutput "AppStdout" "\t%HOME%" = false ∧
      validateRawPath markedOutput "AppStdout" "\t%HOME%" ≠ .ok () := by
  have htext : "\t%HOME%".toList = ['\t', '%', 'H', 'O', 'M', 'E', '%'] := by simp
  have hcontrol : "\t%HOME%".toList.any Text.isControl = true := by
    rw [htext]
    decide
  refine ⟨markedOutput_marked, ?_, ?_, ?_⟩
  · rw [logNeedsServiceEnvironment_iff, htext]
    exact ⟨markedOutput_marked, ['H', 'O', 'M', 'E'], by decide, by decide⟩
  · unfold skipsAbsoluteCheck
    rw [hcontrol, Bool.not_true, Bool.and_false, Bool.false_and]
  · rw [validateRawPath_control markedOutput_marked hcontrol]
    intro h
    cases h

end Ngsm.Gui
