/-
# Lists as one line of text

A list is shown as its entries joined by commas, with the commas and backslashes of the entries
escaped, and read back by undoing the escapes.  A lone backslash that is typed stands for
itself, so several texts can mean one list; what is shown is the one of them that has no lone
backslash and no empty entry.
-/

import Ngsm.Ops.ValueCalls

namespace Ngsm.Ops

open Ngsm.Lib Ngsm.Core Ngsm.Registry NssmKeys

/-! ## One entry -/

/-- An entry as it is written between the commas. -/
def escapeEntry (cs : List Char) : List Char :=
  replaceChar ',' ['\\', ','] (replaceChar '\\' ['\\', '\\'] cs)

theorem replaceChar_cons (c d : Char) (replacement cs : List Char) :
    replaceChar c replacement (d :: cs) =
      (if d = c then replacement else [d]) ++ replaceChar c replacement cs :=
  List.flatMap_cons

theorem escapeEntry_nil : escapeEntry [] = [] :=
  rfl

/-- The two replacements escape each character by itself. -/
theorem escapeEntry_cons (c : Char) (cs : List Char) :
    escapeEntry (c :: cs) =
      (if c = ',' ∨ c = '\\' then ['\\', c] else [c]) ++ escapeEntry cs := by
  unfold escapeEntry
  rw [replaceChar_cons]
  by_cases hback : c = '\\'
  · subst hback
    rfl
  · rw [if_neg hback, List.singleton_append, replaceChar_cons]
    by_cases hcomma : c = ','
    · subst hcomma
      rfl
    · rw [if_neg hcomma, if_neg (by simp [hcomma, hback])]

/-- A character that is neither a comma nor a backslash is part of the entry. -/
theorem splitEntries_plain {c : Char} (hcomma : c ≠ ',') (hback : c ≠ '\\')
    (current rest : List Char) :
    splitEntries current (c :: rest) = splitEntries (current ++ [c]) rest := by
  rw [splitEntries]
  · rintro _ rfl
    exact absurd rfl hback
  · rintro _ rfl
    exact absurd rfl hback
  · exact fun h => hback h
  · exact fun h => hcomma h

/-- Reading an escaped entry adds the entry to what has been read of it. -/
theorem splitEntries_escapeEntry (cs current rest : List Char) :
    splitEntries current (escapeEntry cs ++ rest) = splitEntries (current ++ cs) rest := by
  induction cs generalizing current with
  | nil => rw [escapeEntry_nil, List.nil_append, List.append_nil]
  | cons c cs ih =>
      have hnext := ih (current ++ [c])
      rw [List.append_assoc, List.singleton_append] at hnext
      rw [escapeEntry_cons]
      by_cases hcomma : c = ','
      · subst hcomma
        exact hnext
      · by_cases hback : c = '\\'
        · subst hback
          exact hnext
        · rw [if_neg (by simp [hcomma, hback]), List.singleton_append, List.cons_append,
            splitEntries_plain hcomma hback]
          exact hnext

/-! ## The whole list -/

theorem splitEntries_nil (current : List Char) : splitEntries current [] = [String.ofList current] :=
  rfl

theorem splitEntries_comma (current rest : List Char) :
    splitEntries current (',' :: rest) = String.ofList current :: splitEntries [] rest :=
  rfl

theorem toList_joinMultiValue_cons (entry next : String) (rest : List String) :
    (joinMultiValue (entry :: next :: rest)).toList =
      escapeEntry entry.toList ++ ',' :: (joinMultiValue (next :: rest)).toList := by
  unfold joinMultiValue
  rw [List.map_cons, List.map_cons, String.intercalate_cons_cons]
  simp [escapeEntry]

theorem toList_joinMultiValue_singleton (entry : String) :
    (joinMultiValue [entry]).toList = escapeEntry entry.toList := by
  unfold joinMultiValue
  rw [List.map_cons, List.map_nil, String.intercalate_singleton]
  simp [escapeEntry]

/-- Reading a list that was written gives its entries, empty ones included. -/
theorem splitEntries_joinMultiValue (entry : String) (rest : List String) :
    splitEntries [] (joinMultiValue (entry :: rest)).toList = entry :: rest := by
  induction rest generalizing entry with
  | nil =>
      have hentry := splitEntries_escapeEntry entry.toList [] []
      rw [List.append_nil, List.nil_append, splitEntries_nil, String.ofList_toList] at hentry
      rw [toList_joinMultiValue_singleton]
      exact hentry
  | cons next rest ih =>
      rw [toList_joinMultiValue_cons, splitEntries_escapeEntry, List.nil_append,
        splitEntries_comma, String.ofList_toList, ih]

theorem ne_empty_of_mem_splitMultiValue {value entry : String}
    (hentry : entry ∈ splitMultiValue value) : entry ≠ "" := by
  rintro rfl
  have hkept := (List.mem_filter.mp hentry).2
  exact absurd hkept (by decide)

theorem splitMultiValue_joinMultiValue {entries : List String}
    (hentries : ∀ entry ∈ entries, entry ≠ "") :
    splitMultiValue (joinMultiValue entries) = entries := by
  cases entries with
  | nil => rfl
  | cons entry rest =>
      rw [splitMultiValue, splitEntries_joinMultiValue, List.filter_eq_self]
      intro e he
      simpa using hentries e he

/-! ## Showing and setting -/

section

variable {fold : NameFold} {σ : Type} {node : Params fold σ} {faults : Nat → Option Fault}

/-- The guard lets a managed service pass, unless the registry fails. -/
theorem wp_requireManagedMarker_managed {R : Error → World (Params fold σ) → Prop}
    {Q : Unit → World (Params fold σ) → Prop} (hmarker : HasMarker node)
    (hstop : ¬ Calm faults → ∀ e faults', R e ⟨node, faults'⟩)
    (hgo : Q () ⟨node, fun n => faults (n + 1)⟩) :
    requireManagedMarker.wp Q R ⟨node, faults⟩ := by
  obtain ⟨app, kind, htext, hnonblank⟩ := hmarker
  rw [textAt, field_eq_some] at htext
  unfold requireManagedMarker
  rw [wp_query]
  rcases hfault : faults 0 with _ | fault
  · simp only [htext, Registry.optional, hnonblank, Bool.false_eq_true, if_false]
    exact hgo
  · refine hstop (fun hcalm => ?_) _ _
    rw [hcalm 0] at hfault
    cases hfault

/-- What is shown of a stored list. -/
theorem exists_of_shown {name canonical : String} {record : ValueRecord}
    (hlookup : lookupKind name = .ok (canonical, .multiString))
    (hshown : getValueInKey node name = .ok (some record)) :
    ∃ entries, readMultiString node canonical = .ok entries ∧
      record.value = joinMultiValue entries := by
  simp only [getValueInKey, hlookup, bind, Except.bind] at hshown
  rcases hread : readMultiString node canonical with e | entries
  · rw [hread] at hshown
    cases e <;> cases hshown
  · rw [hread] at hshown
    cases hshown
    exact ⟨entries, rfl, rfl⟩

theorem checkSetValue_multiString {canonical : String} (value : String)
    (hknown : (canonical, .multiString) ∈ knownValues) : checkSetValue canonical value = .ok () := by
  have hpath : isPathValue canonical = false := by
    by_contra hpath
    rw [Bool.not_eq_false] at hpath
    cases kind_unique hknown (known_of_isPathValue hpath).2
  have happ : canonical ≠ application := by
    rintro rfl
    exact absurd hpath (by decide)
  unfold checkSetValue
  rw [if_neg fun h => happ h.1, hpath]
  rfl

/-- Setting what is shown stores the entries that were stored. -/
theorem wp_setShown {name canonical : String} {record : ValueRecord}
    (hlookup : lookupKind name = .ok (canonical, .multiString))
    (hshown : getValueInKey node name = .ok (some record)) (hmarker : HasMarker node) :
    (setValueInKey name record.value).wp
      (fun _ w => readMultiString w.node canonical = readMultiString node canonical)
      (fun _ _ => ¬ Calm faults) ⟨node, faults⟩ := by
  obtain ⟨entries, hread, hvalue⟩ := exists_of_shown hlookup hshown
  have hentries : ∀ v ∈ entries, StorableEntry v :=
    storable_of_listAt (field_eq_some.mpr hread)
  have hknown := (of_lookupKind hlookup).1
  have hscalar := mem_scalarNames_of_known hknown
  have hclean : (entries.any fun v => Text.contains v '\x00' || v.isEmpty) = false := by
    rw [List.any_eq_false]
    intro v hv
    simp [(hentries v hv).1, (hentries v hv).2]
  unfold setValueInKey
  rw [Prog.wp_bind, Prog.wp_liftExcept, hlookup]
  simp only
  rw [Prog.wp_bind, Prog.wp_liftExcept, checkSetValue_multiString _ hknown]
  simp only
  rw [Prog.wp_bind]
  refine wp_requireManagedMarker_managed hmarker (fun hfault _ _ => hfault) ?_
  simp only [putValue, writeMultiString, hvalue,
    splitMultiValue_joinMultiValue fun v hv => (hentries v hv).2, hclean, Bool.false_eq_true, if_false]
  rw [wp_setValue]
  rcases hfault : faults 1 with _ | fault
  · simp only
    rw [hread]
    refine readMultiString_of_multiValue ?_ hentries
    rw [value?_setValue hscalar hscalar, if_pos rfl]
  · simp only
    intro hcalm
    rw [hcalm 1] at hfault
    cases hfault

end

/-- Joining and splitting are inverse on lists without empty entries, splitting gives such lists,
and setting what is shown changes no list. -/
theorem multi_value_notation (fold : NameFold) (σ : Type) :
    (∀ entries : List String, (∀ entry ∈ entries, entry ≠ "") →
      splitMultiValue (joinMultiValue entries) = entries) ∧
    (∀ text, splitMultiValue (joinMultiValue (splitMultiValue text)) = splitMultiValue text) ∧
    (∀ text, ∀ entry ∈ splitMultiValue text, entry ≠ "") ∧
    (∀ (node : Params fold σ) name canonical record, HasMarker node →
      lookupKind name = .ok (canonical, .multiString) →
      getValueInKey node name = .ok (some record) → ∀ faults,
        (setValueInKey name record.value).wp
          (fun _ w => readMultiString w.node canonical = readMultiString node canonical)
          (fun _ _ => ¬ Calm faults) ⟨node, faults⟩) := by
  refine ⟨fun _ => splitMultiValue_joinMultiValue, fun text => ?_,
    fun _ _ => ne_empty_of_mem_splitMultiValue, ?_⟩
  · exact splitMultiValue_joinMultiValue fun _ => ne_empty_of_mem_splitMultiValue
  · intro node name canonical record hmarker hlookup hshown faults
    exact wp_setShown hlookup hshown hmarker

example : joinMultiValue ["\\\\server\\share", "FOO=a,b"] =
    "\\\\\\\\server\\\\share,FOO=a\\,b" := by decide

end Ngsm.Ops
