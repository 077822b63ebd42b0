/-
# Sequences of single-value calls

Every call that sets or clears one value is a change that keeps a configuration sound, also
when a registry fault cuts it short.  So whatever is done to a managed service value by value,
its configuration stays readable and acceptable, and it stays managed; a native service
does not become managed.
-/

import Ngsm.Ops.Sound

namespace Ngsm.Ops

open Ngsm.Lib Ngsm.Core Ngsm.Registry NssmKeys

variable {fold : NameFold} {σ : Type}

/-! ## Names -/

theorem names_knownValues : knownValues.map Prod.fst = ownedValueNames :=
  rfl

theorem mem_scalarNames_of_known {name : String} {kind : ManagedValueKind}
    (hname : (name, kind) ∈ knownValues) : name ∈ scalarNames := by
  rw [mem_scalarNames_iff, ← names_knownValues]
  exact List.mem_map_of_mem hname

/-- A known name has one kind. -/
theorem kind_unique {name : String} {kind kind' : ManagedValueKind}
    (hname : (name, kind) ∈ knownValues) (hname' : (name, kind') ∈ knownValues) : kind = kind' := by
  have hnodup : (knownValues.map Prod.fst).Nodup := by decide
  exact congrArg Prod.snd (List.inj_on_of_nodup_map hnodup hname hname' rfl)

theorem of_lookupKind {name canonical : String} {kind : ManagedValueKind}
    (hlookup : lookupKind name = .ok (canonical, kind)) :
    (canonical, kind) ∈ knownValues ∧
      Text.eqIgnoreAsciiCase (Text.trim name) canonical = true := by
  unfold lookupKind at hlookup
  split at hlookup
  · rename_i known hknown
    cases hlookup
    have hequal := List.find?_some hknown
    exact ⟨List.mem_of_find?_eq_some hknown, hequal⟩
  · cases hlookup

/-- A name is looked up by its letters: case and the spaces around it do not count. -/
theorem lookupKind_congr {name name' canonical : String} {kind : ManagedValueKind}
    (hsame : Text.eqIgnoreAsciiCase (Text.trim name) (Text.trim name') = true)
    (hlookup : lookupKind name = .ok (canonical, kind)) :
    lookupKind name' = .ok (canonical, kind) := by
  have hfind : (knownValues.find? fun known => Text.eqIgnoreAsciiCase (Text.trim name') known.1) =
      knownValues.find? fun known => Text.eqIgnoreAsciiCase (Text.trim name) known.1 := by
    simp only [Text.eqIgnoreAsciiCase, beq_iff_eq] at hsame ⊢
    rw [hsame]
  unfold lookupKind at hlookup ⊢
  rw [hfind]
  split at hlookup
  · exact hlookup
  · cases hlookup

/-! ## Changes of one value -/

section

variable {node : Params fold σ} {name : String} {kind : ManagedValueKind}

theorem value?_setValue {other : String} {v : RegValue} (hname : name ∈ scalarNames)
    (hother : other ∈ scalarNames) :
    (node.setValue name v).value? other = if other = name then some v else node.value? other := by
  rw [Node.value?_eq, Node.valueAt_setValue, Node.value?_eq]
  by_cases hsame : other = name
  · rw [hsame, if_pos rfl, if_pos rfl]
  · rw [if_neg hsame, if_neg fun hkey => hsame (eq_of_toWide hother hname hkey)]

theorem value?_eraseValue {other : String} (hname : name ∈ scalarNames)
    (hother : other ∈ scalarNames) :
    (node.eraseValue name).value? other = if other = name then none else node.value? other := by
  rw [Node.value?_eq, Node.valueAt_eraseValue, Node.value?_eq]
  by_cases hsame : other = name
  · rw [hsame, if_pos rfl, if_pos rfl]
  · rw [if_neg hsame, if_neg fun hkey => hsame (eq_of_toWide hother hname hkey)]

theorem adjusted_setValue {value : RegValue} (hname : (name, kind) ∈ knownValues)
    (hstoring : Storing name value kind) : Adjusted node (node.setValue name value) := by
  refine ⟨rfl, fun other kind' hother => ?_⟩
  rw [value?_setValue (mem_scalarNames_of_known hname) (mem_scalarNames_of_known hother)]
  by_cases hsame : other = name
  · subst hsame
    rw [if_pos rfl, kind_unique hother hname]
    exact .inr (.inr ⟨value, rfl, hstoring⟩)
  · rw [if_neg hsame]
    exact .inl rfl

theorem adjusted_eraseValue (node : Params fold σ) (hname : (name, kind) ∈ knownValues) (hother : name ≠ application) :
    Adjusted node (node.eraseValue name) := by
  refine ⟨rfl, fun other kind' hknown => ?_⟩
  rw [value?_eraseValue (mem_scalarNames_of_known hname) (mem_scalarNames_of_known hknown)]
  by_cases hsame : other = name
  · subst hsame
    rw [if_pos rfl]
    exact .inr (.inl ⟨rfl, hother⟩)
  · rw [if_neg hsame]
    exact .inl rfl

end

/-! ## One call -/

/-- The error reports a registry call that failed as scheduled. -/
def Reported (faults : Nat → Option Fault) (e : Error) : Prop :=
  ∃ n fault context, faults n = some fault ∧ e = mapRegError context fault

theorem Reported.of_tail {faults : Nat → Option Fault} {e : Error}
    (h : Reported (fun n => faults (n + 1)) e) : Reported faults e := by
  obtain ⟨n, fault, context, hfault, rfl⟩ := h
  exact ⟨n + 1, fault, context, hfault, rfl⟩

section

variable {ν α : Type} {node : ν} {faults : Nat → Option Fault}

theorem wp_query {report : Fault → Error} {body : ν → Result α} {Q : α → World ν → Prop}
    {R : Error → World ν → Prop} :
    (query report body).wp Q R ⟨node, faults⟩ ↔
      match faults 0 with
      | some fault => R (report fault) ⟨node, fun n => faults (n + 1)⟩
      | none =>
          match body node with
          | .ok a => Q a ⟨node, fun n => faults (n + 1)⟩
          | .error e => R e ⟨node, fun n => faults (n + 1)⟩ := by
  unfold query call
  rw [Prog.wp_step]
  rcases hfault : faults 0 with _ | fault
  · simp only [hfault]
    rcases body node with e | a <;> rfl
  · simp only [hfault]

end

section

variable {node : Params fold σ} {faults : Nat → Option Fault}
  {R : Error → World (Params fold σ) → Prop}

theorem wp_setValue {name : String} {value : RegValue}
    {Q : Unit → World (Params fold σ) → Prop} :
    (Registry.setValue name value).wp Q R ⟨node, faults⟩ ↔
      match faults 0 with
      | some fault => R (mapRegError ("RegSetValueEx(" ++ name ++ ")") fault)
          ⟨node, fun n => faults (n + 1)⟩
      | none => Q () ⟨node.setValue name value, fun n => faults (n + 1)⟩ := by
  unfold Registry.setValue call
  rw [Prog.wp_step]
  rcases hfault : faults 0 with _ | fault <;> simp only [hfault]

/-- A value that is dropped is gone, whether or not it was there. -/
theorem wp_dropValue {name : String} {Q : Unit → World (Params fold σ) → Prop} :
    (ignoreMissing (deleteValue name)).wp Q R ⟨node, faults⟩ ↔
      match faults 0 with
      | some fault => R (mapRegError ("RegDeleteValue(" ++ name ++ ")") fault)
          ⟨node, fun n => faults (n + 1)⟩
      | none => Q () ⟨node.eraseValue name, fun n => faults (n + 1)⟩ := by
  unfold ignoreMissing deleteValue call
  rw [Prog.wp_bind, Prog.wp_attempt, Prog.wp_step]
  rcases hfault : faults 0 with _ | fault
  · rcases hvalue : node.value? name with _ | value
    · have hsame : node.eraseValue name = node := by
        rw [Node.value?, Table.find?, Option.map_eq_none_iff] at hvalue
        rw [Node.eraseValue, Table.erase_of_lookup_none hvalue]
      simp only [hfault, hvalue, hsame]
      rfl
    · simp only [hfault, hvalue]
      rfl
  · simp only [hfault]
    split
    · rename_i context heq
      exact absurd (Except.error.inj heq) (Runs.mapRegError_ne_notFound _ fault context)
    · rename_i e _ heq
      cases heq
      rfl
    · rename_i heq
      cases heq

/-- Dropping values other than the marker, as far as it gets. -/
theorem wp_dropValues (names : List String)
    (hnames : ∀ name ∈ names, name ∈ ownedValueNames ∧ name ≠ application) :
    (names.forM fun name => ignoreMissing (deleteValue name)).wp
      (fun _ w => Adjusted node w.node ∧ (∀ name ∈ names, w.node.value? name = none) ∧
        ∀ name ∈ scalarNames, node.value? name = none → w.node.value? name = none)
      (fun e w => Adjusted node w.node ∧ Reported faults e) ⟨node, faults⟩ := by
  induction names generalizing node faults with
  | nil => exact ⟨Adjusted.refl node, by simp, fun _ _ h => h⟩
  | cons name names ih =>
      obtain ⟨howned, hother⟩ := hnames name (by simp)
      have hscalar := (mem_scalarNames_iff name).mpr howned
      obtain ⟨⟨_, kind⟩, hknown, rfl⟩ := List.mem_map.mp (names_knownValues ▸ howned)
      change (ignoreMissing (deleteValue _) >>= fun _ =>
        names.forM fun name => ignoreMissing (deleteValue name)).wp _ _ _
      rw [Prog.wp_bind, wp_dropValue]
      have hgone := adjusted_eraseValue node hknown hother
      rcases hfault : faults 0 with _ | fault
      · refine Prog.wp_mono _ ?_ ?_ (ih fun n hn => hnames n (by simp [hn]))
        · rintro ⟨⟩ w ⟨hadjusted, hrest, hkept⟩
          refine ⟨hgone.trans hadjusted, ?_, fun n hn hnone => hkept n hn ?_⟩
          · rw [List.forall_mem_cons]
            refine ⟨hkept _ hscalar ?_, hrest⟩
            rw [value?_eraseValue hscalar hscalar, if_pos rfl]
          · rw [value?_eraseValue hscalar hn, hnone]
            split <;> rfl
        · rintro e w ⟨hadjusted, hreported⟩
          exact ⟨hgone.trans hadjusted, hreported.of_tail⟩
      · exact ⟨Adjusted.refl node, 0, fault, _, hfault, rfl⟩

/-- What is shown after a value was set: nothing for a path that was cleared, and otherwise
the text, the entries of the list that are not empty, or the number in plain decimal. -/
def rendering (canonical value : String) : ManagedValueKind → Option ValueRecord
  | .string =>
      if isPathValue canonical && (Text.trim value).isEmpty then none else some ⟨.string, value⟩
  | .multiString => some ⟨.multiString, joinMultiValue (splitMultiValue value)⟩
  | .number => (Text.parseU32 value).map fun n => ⟨.number, toString n⟩

/-- The value of a known name, as it is shown. -/
def Shows (node : Params fold σ) (canonical : String) (kind : ManagedValueKind)
    (shown : Option ValueRecord) : Prop :=
  ∀ name, lookupKind name = .ok (canonical, kind) → getValueInKey node name = .ok shown

theorem shows_string {canonical text : String} {code : UInt32}
    (hread : readTypedString node canonical = .ok (text, code)) :
    Shows node canonical .string (some ⟨.string, text⟩) := by
  intro name hlookup
  simp only [getValueInKey, hlookup, hread, bind, Except.bind]
  rfl

theorem shows_string_none {canonical : String} (hnone : node.value? canonical = none) :
    Shows node canonical .string none := by
  intro name hlookup
  have hread : readTypedString node canonical =
      .error (.notFound ("RegQueryValueEx(" ++ canonical ++ ") size")) := by
    rw [readTypedString, queryValueRaw_of_none hnone]
    rfl
  simp only [getValueInKey, hlookup, hread, bind, Except.bind]
  rfl

theorem shows_multiString {canonical : String} {entries : List String}
    (hread : readMultiString node canonical = .ok entries) :
    Shows node canonical .multiString (some ⟨.multiString, joinMultiValue entries⟩) := by
  intro name hlookup
  simp only [getValueInKey, hlookup, hread, bind, Except.bind]
  rfl

theorem shows_number {canonical : String} {n : UInt32}
    (hread : readU32 node canonical = .ok n) :
    Shows node canonical .number (some ⟨.number, toString n.toNat⟩) := by
  intro name hlookup
  simp only [getValueInKey, hlookup, hread, bind, Except.bind]
  rfl

/-- The values that go when a path is cleared. -/
def clearedNames (canonical : String) : List String :=
  canonical :: if isStdioPathValue canonical then stdioAttributeNames canonical else []

theorem clearPathValue_eq (canonical : String) :
    (clearPathValue canonical : RegM (Params fold σ) Unit) =
      (clearedNames canonical).forM fun name => ignoreMissing (deleteValue name) := by
  unfold clearPathValue clearedNames
  cases isStdioPathValue canonical <;> rfl

theorem mem_clearedNames {canonical : String} {kind : ManagedValueKind}
    (hknown : (canonical, kind) ∈ knownValues) (hother : canonical ≠ application) :
    ∀ name ∈ clearedNames canonical, name ∈ ownedValueNames ∧ name ≠ application := by
  have hattributes : ∀ base ∈ [appStdin, appStdout, appStderr], ∀ name ∈ stdioAttributeNames base,
      name ∈ ownedValueNames ∧ name ≠ application := by decide
  intro name hname
  rcases List.mem_cons.mp hname with rfl | hattribute
  · refine ⟨?_, hother⟩
    rw [← names_knownValues]
    exact List.mem_map_of_mem hknown
  · cases hstdio : isStdioPathValue canonical with
    | false => simp [hstdio] at hattribute
    | true =>
        rw [hstdio, if_pos rfl] at hattribute
        exact hattributes canonical (List.contains_iff_mem.mp hstdio) name hattribute

/-- Clearing a path clears its value and, for a stream, the attributes. -/
theorem wp_clearPathValue (node : Params fold σ) (faults : Nat → Option Fault)
    {canonical : String} {kind : ManagedValueKind}
    (hknown : (canonical, kind) ∈ knownValues) (hother : canonical ≠ application) :
    (clearPathValue canonical).wp
      (fun _ w => Adjusted node w.node ∧
        ∀ name ∈ clearedNames canonical, w.node.value? name = none)
      (fun e w => Adjusted node w.node ∧ Reported faults e) ⟨node, faults⟩ := by
  rw [clearPathValue_eq]
  refine Prog.wp_mono _ ?_ (fun _ _ h => h) (wp_dropValues _ (mem_clearedNames hknown hother))
  rintro ⟨⟩ w ⟨hadjusted, hnone, -⟩
  exact ⟨hadjusted, hnone⟩

/-- What the key shows after a value was set under a known name. -/
structure Stored (node : Params fold σ) (canonical value : String) (kind : ManagedValueKind) :
    Prop where
  shows : Shows node canonical kind (rendering canonical value kind)
  cleared : isStdioPathValue canonical = true → (Text.trim value).isEmpty = true →
    ∀ name ∈ clearedNames canonical, node.value? name = none

theorem of_checkSetValue {canonical value : String}
    (hcheck : checkSetValue canonical value = .ok ()) :
    (canonical = application → (Text.trim value).isEmpty = false) ∧
      (isPathValue canonical = true → (Text.trim value).isEmpty = false →
        validateAbsolutePath canonical value = .ok ()) := by
  unfold checkSetValue at hcheck
  split at hcheck
  · cases hcheck
  · rename_i hmarker
    refine ⟨fun happ => ?_, fun hpath hnonblank => ?_⟩
    · simpa using fun hblank => hmarker ⟨happ, hblank⟩
    · rwa [hpath, hnonblank, if_pos (by rfl)] at hcheck

theorem string_of_isStdioPathValue {canonical : String} {kind : ManagedValueKind}
    (hknown : (canonical, kind) ∈ knownValues) (hstdio : isStdioPathValue canonical = true) :
    kind = .string := by
  have hall : ∀ base ∈ [appStdin, appStdout, appStderr], (base, .string) ∈ knownValues := by decide
  exact kind_unique hknown (hall canonical (List.contains_iff_mem.mp hstdio))

theorem isPathValue_of_isStdioPathValue {canonical : String}
    (hstdio : isStdioPathValue canonical = true) : isPathValue canonical = true := by
  have hall : ∀ base ∈ [appStdin, appStdout, appStderr], isPathValue base = true := by decide
  exact hall canonical (List.contains_iff_mem.mp hstdio)

theorem wp_store {canonical value : String} {stored : RegValue} {kind : ManagedValueKind}
    (hknown : (canonical, kind) ∈ knownValues) (hstoring : Storing canonical stored kind)
    (hstored : Stored (node.setValue canonical stored) canonical value kind) :
    (Registry.setValue canonical stored).wp
      (fun _ w => Adjusted node w.node ∧ Stored w.node canonical value kind)
      (fun e w => Adjusted node w.node ∧ (w.node = node ∨ Reported faults e)) ⟨node, faults⟩ := by
  rw [wp_setValue]
  rcases hfault : faults 0 with _ | fault
  · exact ⟨adjusted_setValue hknown hstoring, hstored⟩
  · exact ⟨Adjusted.refl node, .inl rfl⟩

/-- Writing a value that passed the check. -/
theorem wp_putValue {canonical value : String} {kind : ManagedValueKind}
    (hknown : (canonical, kind) ∈ knownValues) (hcheck : checkSetValue canonical value = .ok ()) :
    (putValue canonical value kind).wp
      (fun _ w => Adjusted node w.node ∧ Stored w.node canonical value kind)
      (fun e w => Adjusted node w.node ∧ (w.node = node ∨ Reported faults e)) ⟨node, faults⟩ := by
  obtain ⟨hmarker, habsolute⟩ := of_checkSetValue hcheck
  have hscalar := mem_scalarNames_of_known hknown
  have hset : ∀ v, (node.setValue canonical v).value? canonical = some v := by
    intro v
    rw [value?_setValue hscalar hscalar, if_pos rfl]
  cases kind with
  | string =>
      simp only [putValue]
      split
      · rename_i hblank
        simp only [Bool.and_eq_true, bne_iff_ne] at hblank
        refine Prog.wp_mono _ ?_ ?_ (wp_clearPathValue node faults hknown hblank.1.2)
        · rintro ⟨⟩ w ⟨hadjusted, hnone⟩
          refine ⟨hadjusted, ?_, fun _ _ => hnone⟩
          simp only [rendering, hblank.1.1, hblank.2, Bool.and_self, if_true]
          exact shows_string_none (hnone canonical List.mem_cons_self)
        · rintro e w ⟨hadjusted, hreported⟩
          exact ⟨hadjusted, .inr hreported⟩
      · rename_i hkept
        have hnonblank : isPathValue canonical = true → (Text.trim value).isEmpty = false := by
          intro hpath
          by_cases happ : canonical = application
          · exact hmarker happ
          · simpa [hpath, happ] using hkept
        cases hnul : Text.contains value '\x00' with
        | true =>
            simp only [writeString, writeStringTyped, hnul, if_true, Prog.wp_bind, Prog.wp_throw]
            exact ⟨Adjusted.refl node, .inl trivial⟩
        | false =>
            simp only [writeString, writeStringTyped, hnul, Bool.false_eq_true, if_false]
            refine wp_store hknown ⟨value, rfl, hnul, fun hpath => habsolute hpath (hnonblank hpath),
              hmarker⟩ ⟨?_, ?_⟩
            · have hshown : (isPathValue canonical && (Text.trim value).isEmpty) = false := by
                cases hpath : isPathValue canonical with
                | false => rfl
                | true => exact hnonblank hpath
              simp only [rendering, hshown, Bool.false_eq_true, if_false]
              exact shows_string (readTypedString_of_stringValue (hset _) (.inl rfl) hnul)
            · intro hstdio hblank
              rw [hnonblank (isPathValue_of_isStdioPathValue hstdio)] at hblank
              cases hblank
  | multiString =>
      simp only [putValue, writeMultiString]
      split
      · simp only [Prog.wp_bind, Prog.wp_throw]
        exact ⟨Adjusted.refl node, .inl trivial⟩
      · rename_i hclean
        have hentries : ∀ v ∈ splitMultiValue value, StorableEntry v := by
          simpa [StorableEntry, not_or] using hclean
        refine wp_store hknown ⟨_, rfl, hentries⟩ ⟨?_, fun hstdio => ?_⟩
        · exact shows_multiString (readMultiString_of_multiValue (hset _) hentries)
        · cases string_of_isStdioPathValue hknown hstdio
  | number =>
      simp only [putValue]
      rcases hparse : Text.parseU32 value with _ | parsed
      · exact ⟨Adjusted.refl node, .inl rfl⟩
      · refine wp_store hknown ⟨_, rfl⟩ ⟨?_, fun hstdio => ?_⟩
        · have hshows := shows_number
            (readU32_of_dwordValue (hset (dwordValue (UInt32.ofNat parsed))))
          rw [UInt32.toNat_ofNat_of_lt' (Text.lt_of_parseU32 hparse)] at hshows
          simp only [rendering, hparse, Option.map_some]
          exact hshows
        · cases string_of_isStdioPathValue hknown hstdio

end

/-! ## The calls -/

/-- A call that changes one value. -/
inductive ValueCall where
  | set (name value : String)
  | unset (name : String)
  deriving DecidableEq, Repr

def ValueCall.run (service : String) : ValueCall → RegM (Params fold σ) Unit
  | .set name value => SingleValue.setValue service name value
  | .unset name => SingleValue.unsetValue service name

/-- The key after a sequence of calls, each with the faults that lie ahead of it. -/
def afterCalls (service : String) (calls : List ((Nat → Option Fault) × ValueCall))
    (node : Params fold σ) : Params fold σ :=
  calls.foldl (fun node call => ((call.2.run service).exec ⟨node, call.1⟩).2.node) node

/-- What a call leaves when it returns. -/
def ValueCall.Done (service : String) (node : Params fold σ) : ValueCall → Prop
  | .set name value => ∃ canonical kind, lookupKind name = .ok (canonical, kind) ∧
      (∀ name', Text.eqIgnoreAsciiCase (Text.trim name) (Text.trim name') = true →
        SingleValue.getValue service name' (some node) = .ok (rendering canonical value kind)) ∧
      (isStdioPathValue canonical = true → (Text.trim value).isEmpty = true →
        ∀ attr ∈ stdioAttributeNames canonical, node.value? attr = none)
  | .unset name => ∃ canonical kind, lookupKind name = .ok (canonical, kind) ∧
      node.value? canonical = none ∧ (isStdioPathValue canonical = true →
        ∀ attr ∈ stdioAttributeNames canonical, node.value? attr = none)

section

variable {node : Params fold σ} {faults : Nat → Option Fault}
  {R : Error → World (Params fold σ) → Prop}

theorem attributes_cleared {canonical : String}
    (hcleared : ∀ name ∈ clearedNames canonical, node.value? name = none)
    (hstdio : isStdioPathValue canonical = true) :
    ∀ attr ∈ stdioAttributeNames canonical, node.value? attr = none := by
  intro attr hattr
  apply hcleared
  rw [clearedNames, hstdio, if_pos rfl]
  exact List.mem_cons_of_mem _ hattr

/-! ## The guards of a call -/

variable {α : Type} {Q : α → World (Params fold σ) → Prop}

/-- The errors of `faults'` are errors of `faults`: some calls have been made meanwhile. -/
def Later (faults faults' : Nat → Option Fault) : Prop :=
  ∀ e, Reported faults' e → Reported faults e

theorem wp_query_then {report : Fault → Error} {body : Params fold σ → Result Unit}
    {m : RegM (Params fold σ) α} (hstop : ∀ e faults', R e ⟨node, faults'⟩)
    (hm : body node = .ok () → ∀ faults', Later faults faults' → m.wp Q R ⟨node, faults'⟩) :
    (query report body >>= fun _ => m).wp Q R ⟨node, faults⟩ := by
  rw [Prog.wp_bind, wp_query]
  rcases hfault : faults 0 with _ | fault
  · rcases hbody : body node with e | ⟨⟩
    · exact hstop _ _
    · exact hm hbody _ fun _ => Reported.of_tail
  · exact hstop _ _

/-- Behind the guard the service is managed. -/
theorem wp_requireManagedMarker_then {m : RegM (Params fold σ) α}
    (hstop : ∀ e faults', R e ⟨node, faults'⟩)
    (hm : HasMarker node → ∀ faults', Later faults faults' → m.wp Q R ⟨node, faults'⟩) :
    (requireManagedMarker >>= fun _ => m).wp Q R ⟨node, faults⟩ := by
  unfold requireManagedMarker
  refine wp_query_then hstop fun hbody => hm ?_
  rcases hread : readTypedString node application with e | ⟨app, kind⟩
  · rw [hread] at hbody
    cases e <;> cases hbody
  · rw [hread] at hbody
    refine ⟨app, kind, by rw [textAt, hread]; rfl, ?_⟩
    cases hblank : (Text.trim app).isEmpty with
    | false => rfl
    | true =>
        simp only [Registry.optional, hblank, if_true] at hbody
        cases hbody

/-- The lock and the key come before everything else. -/
theorem wp_opened {service : String} {m : RegM (Params fold σ) α}
    (hstop : ∀ e faults', R e ⟨node, faults'⟩)
    (hm : validateServiceName service = .ok () → ∀ faults', Later faults faults' →
      m.wp Q R ⟨node, faults'⟩) :
    (liftExcept (validateServiceName service) >>= fun _ => SingleValue.lockConfiguration >>= fun _ =>
      SingleValue.openParameters service >>= fun _ => m).wp Q R ⟨node, faults⟩ := by
  rw [Prog.wp_bind, Prog.wp_liftExcept]
  rcases hservice : validateServiceName service with e | ⟨⟩
  · exact hstop _ _
  · refine wp_query_then hstop fun _ faults' hlater => ?_
    refine wp_query_then hstop fun _ faults'' hlater' => ?_
    exact hm hservice faults'' fun e he => hlater e (hlater' e he)

/-- What a call has done when it stops: nothing, unless a registry fault stopped it. -/
def Stopped (node : Params fold σ) (faults : Nat → Option Fault) (e : Error)
    (w : World (Params fold σ)) : Prop :=
  w.node = node ∨ HasMarker node ∧ Adjusted node w.node ∧ Reported faults e

theorem Stopped.of_later {faults' : Nat → Option Fault} {e : Error} {w : World (Params fold σ)}
    (hstopped : Stopped node faults' e w) (hlater : Later faults faults') :
    Stopped node faults e w := by
  rcases hstopped with hsame | ⟨hmarker, hadjusted, hreported⟩
  · exact .inl hsame
  · exact .inr ⟨hmarker, hadjusted, hlater e hreported⟩

theorem wp_setValueInKey (node : Params fold σ) {faults' : Nat → Option Fault}
    (hlater : Later faults faults') {service : String} (hservice : validateServiceName service = .ok ())
    (name value : String) :
    (setValueInKey name value).wp
      (fun _ w => HasMarker node ∧ Adjusted node w.node ∧
        (ValueCall.set name value).Done service w.node)
      (Stopped node faults) ⟨node, faults'⟩ := by
  unfold setValueInKey
  rw [Prog.wp_bind, Prog.wp_liftExcept]
  rcases hlookup : lookupKind name with e | ⟨canonical, kind⟩
  · exact .inl rfl
  simp only
  rw [Prog.wp_bind, Prog.wp_liftExcept]
  rcases hcheck : checkSetValue canonical value with e | ⟨⟩
  · exact .inl rfl
  refine wp_requireManagedMarker_then (fun _ _ => .inl rfl) fun hmarker faults'' hlater' => ?_
  refine Prog.wp_mono _ ?_ ?_ (wp_putValue (of_lookupKind hlookup).1 hcheck)
  · rintro ⟨⟩ w ⟨hadjusted, hstored⟩
    refine ⟨hmarker, hadjusted, canonical, kind, hlookup, fun name' hsame => ?_,
      fun hstdio hblank => attributes_cleared (hstored.cleared hstdio hblank) hstdio⟩
    simp only [SingleValue.getValue, hservice]
    exact hstored.shows name' (lookupKind_congr hsame hlookup)
  · rintro e w ⟨hadjusted, hsame | hreported⟩
    · exact .inl hsame
    · exact .inr ⟨hmarker, hadjusted, hlater e (hlater' e hreported)⟩

theorem wp_unsetValueInKey (node : Params fold σ) {faults' : Nat → Option Fault}
    (hlater : Later faults faults') (service name : String) :
    (unsetValueInKey name).wp
      (fun _ w => HasMarker node ∧ Adjusted node w.node ∧
        (ValueCall.unset name).Done service w.node)
      (Stopped node faults) ⟨node, faults'⟩ := by
  unfold unsetValueInKey
  rw [Prog.wp_bind, Prog.wp_liftExcept]
  rcases hlookup : lookupKind name with e | ⟨canonical, kind⟩
  · exact .inl rfl
  simp only
  by_cases happ : canonical = application
  · rw [if_pos happ]
    exact .inl rfl
  rw [if_neg happ]
  refine wp_requireManagedMarker_then (fun _ _ => .inl rfl) fun hmarker faults'' hlater' => ?_
  have hdone : (clearPathValue canonical).wp
      (fun _ w => HasMarker node ∧ Adjusted node w.node ∧
        (ValueCall.unset name).Done service w.node)
      (Stopped node faults) ⟨node, faults''⟩ := by
    refine Prog.wp_mono _ ?_ ?_
      (wp_clearPathValue node faults'' (of_lookupKind hlookup).1 happ)
    · rintro ⟨⟩ w ⟨hadjusted, hcleared⟩
      exact ⟨hmarker, hadjusted, canonical, kind, hlookup,
        hcleared canonical List.mem_cons_self, attributes_cleared hcleared⟩
    · rintro e w ⟨hadjusted, hreported⟩
      exact .inr ⟨hmarker, hadjusted, hlater e (hlater' e hreported)⟩
  cases hstdio : isStdioPathValue canonical with
  | true =>
      rw [if_pos rfl]
      exact hdone
  | false =>
      rw [if_neg Bool.false_ne_true]
      have hsingle : (clearPathValue canonical : RegM (Params fold σ) Unit) =
          ignoreMissing (deleteValue canonical) := by
        unfold clearPathValue
        rw [hstdio, if_neg Bool.false_ne_true]
        exact bind_pure_unit
      rw [← hsingle]
      exact hdone

end

/-! ## Sequences of calls -/

section

variable {node : Params fold σ} {faults : Nat → Option Fault}

/-- What one call does to a key, whether it returns or stops. -/
theorem wp_valueCall (node : Params fold σ) (faults : Nat → Option Fault) (service : String)
    (call : ValueCall) :
    (call.run service).wp
      (fun _ w => HasMarker node ∧ Adjusted node w.node ∧ call.Done service w.node)
      (Stopped node faults) ⟨node, faults⟩ := by
  cases call with
  | set name value =>
      apply wp_opened (fun _ _ => .inl rfl)
      intro hservice faults' hlater
      apply wp_setValueInKey node hlater hservice
  | unset name =>
      apply wp_opened (fun _ _ => .inl rfl)
      intro _ faults' hlater
      apply wp_unsetValueInKey node hlater

/-- One call leaves the key as it is, or the service is managed and the change is sound. -/
theorem step_valueCall (node : Params fold σ) (faults : Nat → Option Fault) (service : String)
    (call : ValueCall) :
    ((call.run service).exec ⟨node, faults⟩).2.node = node ∨
      HasMarker node ∧ Adjusted node ((call.run service).exec ⟨node, faults⟩).2.node := by
  have hcall := wp_valueCall node faults service call
  rcases hrun : (call.run service).exec ⟨node, faults⟩ with ⟨e | ⟨⟩, w⟩
  · rcases Prog.wp_error _ hcall hrun with hsame | ⟨hmarker, hadjusted, -⟩
    · exact .inl hsame
    · exact .inr ⟨hmarker, hadjusted⟩
  · obtain ⟨hmarker, hadjusted, -⟩ := Prog.wp_ok _ hcall hrun
    exact .inr ⟨hmarker, hadjusted⟩

/-- So does a sequence of calls. -/
theorem run_valueCalls (service : String) (calls : List ((Nat → Option Fault) × ValueCall))
    (node : Params fold σ) :
    afterCalls service calls node = node ∨
      HasMarker node ∧ Adjusted node (afterCalls service calls node) := by
  induction calls generalizing node with
  | nil => exact .inl rfl
  | cons call calls ih =>
      have hstep := step_valueCall node call.1 service call.2
      change afterCalls service calls ((call.2.run service).exec ⟨node, call.1⟩).2.node = node ∨
        HasMarker node ∧
          Adjusted node (afterCalls service calls ((call.2.run service).exec ⟨node, call.1⟩).2.node)
      rcases hstep with hsame | ⟨hmarker, hadjusted⟩
      · rw [hsame]
        exact ih node
      · rcases ih ((call.2.run service).exec ⟨node, call.1⟩).2.node with hsame | ⟨-, hrest⟩
        · rw [hsame]
          exact .inr ⟨hmarker, hadjusted⟩
        · exact .inr ⟨hmarker, hadjusted.trans hrest⟩

end

/-! ## What sequences keep -/

/-- The key has an application that is not empty. -/
def HasApplication (node : Params fold σ) : Prop :=
  ∃ app kind, textAt node application = some (app, kind) ∧ app ≠ ""

theorem HasMarker.hasApplication {node : Params fold σ} (hmarker : HasMarker node) :
    HasApplication node := by
  obtain ⟨app, kind, htext, hnonblank⟩ := hmarker
  refine ⟨app, kind, htext, ?_⟩
  rintro rfl
  exact absurd hnonblank (by decide)

/-- What a sequence of calls keeps: the kinds of the values, the marker, and a configuration
that reads and is accepted. -/
structure KeepsSound (service : String) (node after : Params fold σ) : Prop where
  wellFormed : WellFormed after
  marker : HasMarker after ↔ HasMarker node
  application : HasApplication after ↔ HasApplication node
  sound : ∀ cfg, readManagedFromKey node service = .ok (some cfg) →
    validateManagedConfig fold cfg = .ok () →
      ∃ cfg', readManagedFromKey after service = .ok (some cfg') ∧
        validateManagedConfig fold cfg' = .ok ()

/-- What one call does to a key: an error leaves the key alone unless the registry failed, and
what was set is shown. -/
structure CallSound (service : String) (node : Params fold σ) (faults : Nat → Option Fault)
    (call : ValueCall) : Prop where
  refused : ∀ e w, (call.run service).exec ⟨node, faults⟩ = (.error e, w) →
    w.node = node ∨ Reported faults e
  done : ∀ w, (call.run service).exec ⟨node, faults⟩ = (.ok (), w) → call.Done service w.node

theorem callSound (service : String) (node : Params fold σ) (faults : Nat → Option Fault)
    (call : ValueCall) : CallSound service node faults call := by
  have hcall := wp_valueCall node faults service call
  constructor
  · intro e w hrun
    rcases Prog.wp_error _ hcall hrun with hsame | ⟨-, -, hreported⟩
    · exact .inl hsame
    · exact .inr hreported
  · intro w hrun
    exact (Prog.wp_ok _ hcall hrun).2.2

/-- Setting and clearing single values, in any order and with any registry faults, keeps a
configuration sound. -/
theorem single_values_sound (service : String) (node : Params fold σ) (hwf : WellFormed node)
    (calls : List ((Nat → Option Fault) × ValueCall)) :
    KeepsSound service node (afterCalls service calls node) ∧
      ∀ faults call, CallSound service (afterCalls service calls node) faults call := by
  refine ⟨?_, fun faults call => callSound service _ faults call⟩
  rcases run_valueCalls service calls node with hsame | ⟨hmarker, hadjusted⟩
  · rw [hsame]
    exact ⟨hwf, Iff.rfl, Iff.rfl, fun cfg hread hvalid => ⟨cfg, hread, hvalid⟩⟩
  · have hmarker' := hadjusted.hasMarker hmarker
    exact {
      wellFormed := hadjusted.wellFormed hwf
      marker := iff_of_true hmarker' hmarker
      application := iff_of_true hmarker'.hasApplication hmarker.hasApplication
      sound := fun cfg hread hvalid => hadjusted.sound hwf hread hvalid }

theorem wellFormed_empty : WellFormed (.empty : Params fold σ) := by
  have hnone : ∀ name, (Node.empty : Params fold σ).value? name = none := fun _ => rfl
  rintro ⟨name, kind⟩ -
  cases kind with
  | string =>
      apply settled_of_notFound
      rw [readTypedString, queryValueRaw_of_none (hnone name)]
      rfl
  | multiString =>
      apply settled_of_notFound
      rw [readMultiString, queryValueRaw_of_none (hnone name)]
      rfl
  | number =>
      apply settled_of_notFound
      rw [readU32, queryValueRaw_of_none (hnone name)]
      rfl

/-- A key with an application and nothing else. -/
def appKey : Params asciiFold Unit :=
  Node.empty.setValue application (stringValue regSz "C:\\app.exe")

theorem wellFormed_appKey : WellFormed appKey := by
  have hknown : (application, ManagedValueKind.string) ∈ knownValues := by decide
  apply (adjusted_setValue hknown ?_).wellFormed wellFormed_empty
  exact ⟨"C:\\app.exe", rfl, by decide, fun _ => by rfl, fun _ => by decide⟩

theorem single_values_sound_appKey :
    WellFormed appKey ∧
      KeepsSound "svc" appKey (afterCalls "svc"
        [(noFaults, .set " appstdout " "C:\\log.txt"), (noFaults, .set "APPSTDOUT" "  ")] appKey) :=
  ⟨wellFormed_appKey, (single_values_sound "svc" appKey wellFormed_appKey _).1⟩

end Ngsm.Ops
