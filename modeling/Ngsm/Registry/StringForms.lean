/-
# String values as bytes

Strings and string lists are written with their terminators and read back strictly.  Every
byte sequence is accepted or refused by its form alone: the text or the entries come first,
and behind them there are terminators only.  Windows writes more terminators than it needs
and leaves out the one of a plain string; both are accepted.
-/

import Ngsm.Registry.Reconcile

namespace Ngsm.Registry

open Ngsm.Lib Ngsm.Core

variable {fold : NameFold} {σ : Type}

theorem value?_setValue_self (node : Node fold σ) (name : String) (value : RegValue) :
    (node.setValue name value).value? name = some value := by
  rw [Node.value?_eq, Node.valueAt_setValue, if_pos rfl]

/-- A list that is written reads back as it was. -/
theorem runs_writeMultiString {node : Node fold σ} {name : String} {values : List String}
    (hvalues : ∀ v ∈ values, StorableEntry v) :
    Runs (writeMultiString name values) node
      (fun _ n => ∃ v, n.value? name = some v ∧ bytesToWideMulti v.data = .ok values)
      (fun n => n = node) := by
  have hclean : (values.any fun v => Text.contains v '\x00' || v.isEmpty) = false := by
    rw [List.any_eq_false]
    intro v hv
    simp [(hvalues v hv).1, (hvalues v hv).2]
  unfold writeMultiString
  simp only [hclean, Bool.false_eq_true, if_false]
  refine Runs.setValue rfl ?_
  exact ⟨_, value?_setValue_self node name _, multiValue_decodes hvalues⟩

/-- A string that is written reads back as it was, whatever type it is written with. -/
theorem runs_writeStringTyped_decodes {node : Node fold σ} {name value : String} (kind : UInt32)
    (hvalue : Text.contains value '\x00' = false) :
    Runs (writeStringTyped name value kind) node
      (fun _ n => ∃ v, n.value? name = some v ∧ bytesToWideString v.data = .ok value)
      (fun n => n = node) := by
  refine runs_writeStringTyped hvalue rfl ?_
  exact ⟨_, value?_setValue_self node name _, stringValue_decodes kind hvalue⟩

/-- What is written decodes, and what decodes is known by its form. -/
theorem string_codecs (fold : NameFold) (σ : Type) :
    (∀ (node : Node fold σ) name values, (∀ v ∈ values, StorableEntry v) →
      Runs (writeMultiString name values) node
        (fun _ n => ∃ v, n.value? name = some v ∧ bytesToWideMulti v.data = .ok values)
        (fun n => n = node)) ∧
    (∀ (node : Node fold σ) name value kind, Text.contains value '\x00' = false →
      Runs (writeStringTyped name value kind) node
        (fun _ n => ∃ v, n.value? name = some v ∧ bytesToWideString v.data = .ok value)
        (fun n => n = node)) ∧
    (∀ bytes values, bytesToWideMulti bytes = .ok values ↔ MultiForm bytes values) ∧
    (∀ bytes value, bytesToWideString bytes = .ok value ↔ StringForm bytes value) :=
  ⟨fun _ _ _ hvalues => runs_writeMultiString hvalues,
    fun _ _ _ kind hvalue => runs_writeStringTyped_decodes kind hvalue,
    fun _ _ => bytesToWideMulti_eq_ok, fun _ _ => bytesToWideString_eq_ok⟩

end Ngsm.Registry
