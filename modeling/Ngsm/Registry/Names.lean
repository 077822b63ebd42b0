/-
# Comparing registry names

The facts about names that reading and writing rest on.  A name that decodes is
the encoding of its text, so going through the text loses nothing.  An ASCII name
folds to its ASCII upper case, which makes comparisons between the names of the
schema computable.  A name without letters is equal only to itself.
-/

import Mathlib.Data.List.TakeWhile
import Ngsm.Registry.Schema
import Ngsm.Registry.Rules

namespace Ngsm.Registry

open Ngsm.Lib Ngsm.Core

variable {fold : NameFold} {σ : Type}

/-- A stored name that the code can read. -/
def DecodableName (words : Name) : Prop :=
  words.length + 1 ≤ nameCapLimit ∧ ∃ s, decodeRegistryName words = .ok s

/-- The text of a stored name. -/
def nameText (words : Name) : String :=
  (Utf16.decode words).getD ""

theorem toWide_of_noNul {s : String} (hs : Text.contains s '\x00' = false) :
    toWide s = Utf16.encode s := by
  have hzero : (0 : UInt16) ∉ Utf16.encode s := by
    rw [← contains_nul_iff, hs]
    decide
  rw [toWide, List.takeWhile_eq_self_iff]
  intro u hu
  simp only [ne_eq, decide_eq_true_eq]
  rintro rfl
  exact hzero hu

/-- The key a call with this name looks under is the name's identity. -/
theorem key_toWide {s : String} (hs : Text.contains s '\x00' = false) :
    fold.key (toWide s) = windowsNameKey fold s := by
  rw [toWide_of_noNul hs, windowsNameKey]

theorem decodeRegistryName_ok_iff (words : Name) (s : String) :
    decodeRegistryName words = .ok s ↔
      Utf16.encode s = words ∧ Text.contains s '\x00' = false := by
  unfold decodeRegistryName
  constructor
  · intro h
    split at h
    · cases h
    · rename_i name hdecode
      split at h
      · cases h
      · rename_i hclean
        cases h
        exact ⟨Utf16.encode_of_decode hdecode, by simpa using hclean⟩
  · rintro ⟨rfl, hs⟩
    simp [hs]

theorem decodableName_encode {s : String} (hs : Text.contains s '\x00' = false)
    (hlength : (Utf16.encode s).length + 1 ≤ nameCapLimit) : DecodableName (Utf16.encode s) :=
  ⟨hlength, s, (decodeRegistryName_ok_iff _ s).mpr ⟨rfl, hs⟩⟩

namespace DecodableName

variable {words : Name}

theorem encode_text (h : DecodableName words) : Utf16.encode (nameText words) = words := by
  obtain ⟨-, s, hs⟩ := h
  obtain ⟨rfl, -⟩ := (decodeRegistryName_ok_iff words s).mp hs
  simp [nameText]

theorem text_noNul (h : DecodableName words) :
    Text.contains (nameText words) '\x00' = false := by
  obtain ⟨-, s, hs⟩ := h
  obtain ⟨rfl, hnul⟩ := (decodeRegistryName_ok_iff words s).mp hs
  simpa [nameText] using hnul

theorem decode_eq (h : DecodableName words) :
    decodeRegistryName words = .ok (nameText words) :=
  (decodeRegistryName_ok_iff words _).mpr ⟨h.encode_text, h.text_noNul⟩

theorem readName_eq (h : DecodableName words) (tooLong : String) :
    readName tooLong words = .ok (nameText words) := by
  unfold readName
  rw [if_neg (Nat.not_lt.mpr h.1), h.decode_eq]

theorem toWide_text (h : DecodableName words) : toWide (nameText words) = words := by
  rw [toWide_of_noNul h.text_noNul, h.encode_text]

theorem key_text (h : DecodableName words) :
    windowsNameKey fold (nameText words) = fold.key words := by
  rw [windowsNameKey, h.encode_text]

end DecodableName

/-- A name that was read decodes. -/
theorem decodableName_of_readName {tooLong : String} {words : Name} {s : String}
    (h : readName tooLong words = .ok s) : DecodableName words := by
  unfold readName at h
  split at h
  · cases h
  · rename_i hfits
    exact ⟨Nat.not_lt.mp hfits, s, h⟩

/-! ## Enumeration -/

namespace Runs

variable {node : Node fold σ} {R : Node fold σ → Prop}
  {Q : List String → Node fold σ → Prop}

theorem enumerateValueNames (hnames : ∀ entry ∈ node.values.entries, DecodableName entry.1)
    (hcut : R node) (hpost : Q (node.values.entries.map fun entry => nameText entry.1) node) :
    Runs enumerateValueNames node Q R := by
  refine bind (current (Q := fun n n' => n = node ∧ n' = node) ⟨rfl, rfl⟩) ?_
  rintro _ _ ⟨rfl, rfl⟩
  exact readEntries _ _ (fun entry hentry _ => (hnames entry hentry).readName_eq _) hcut hpost

theorem enumerateSubkeyNames (hnames : ∀ entry ∈ node.subkeys.entries, DecodableName entry.1)
    (hcut : R node)
    (hpost : Q (node.subkeys.entries.map fun entry => nameText entry.1) node) :
    Runs enumerateSubkeyNames node Q R := by
  refine bind (current (Q := fun n n' => n = node ∧ n' = node) ⟨rfl, rfl⟩) ?_
  rintro _ _ ⟨rfl, rfl⟩
  exact readEntries _ _ (fun entry hentry _ => (hnames entry hentry).readName_eq _) hcut hpost

end Runs

/-! ## Folding -/

theorem key_append (fold : NameFold) (u v : Name) :
    fold.key (u ++ v) = fold.key u ++ fold.key v :=
  List.map_append

/-- A text whose characters are ASCII. -/
def IsAscii (s : String) : Prop :=
  ∀ c ∈ s.toList, c.toNat < 128

instance (s : String) : Decidable (IsAscii s) :=
  List.decidableBAll (fun c : Char => c.toNat < 128) s.toList

/-- The identity of an ASCII text, computed. -/
def asciiKey (s : String) : Name :=
  s.toList.map fun c => asciiUpcase (UInt16.ofNat c.toNat)

theorem encode_of_isAscii {s : String} (hs : IsAscii s) :
    Utf16.encode s = s.toList.map fun c => UInt16.ofNat c.toNat := by
  unfold Utf16.encode
  rw [List.map_eq_flatMap]
  apply List.flatMap_congr
  intro c hc
  have hlt := hs c hc
  rw [Utf16.encodeChar, if_pos (by omega)]

theorem windowsNameKey_of_isAscii {s : String} (hs : IsAscii s) :
    windowsNameKey fold s = asciiKey s := by
  rw [windowsNameKey, encode_of_isAscii hs, NameFold.key, List.map_map, asciiKey]
  apply List.map_congr_left
  intro c hc
  have hlt := hs c hc
  apply fold.ascii
  rw [Utf16.ofNat_toNat_of_lt (by omega)]
  exact hlt

/-- The case of an ASCII letter makes no difference to the identity of a name. -/
theorem upcase_encodeChar_toAsciiLower (c : Char) :
    (Utf16.encodeChar (Text.toAsciiLower c)).map fold.upcase =
      (Utf16.encodeChar c).map fold.upcase := by
  unfold Text.toAsciiLower
  split
  · rename_i hletter
    have hupper : 65 ≤ c.toNat ∧ c.toNat ≤ 90 := hletter
    have hlower : (Char.ofNat (c.toNat + 32)).toNat = c.toNat + 32 :=
      Utf16.toNat_charOfNat (.inl (by omega))
    rw [Utf16.encodeChar, Utf16.encodeChar, hlower, if_pos (by omega), if_pos (by omega)]
    have hlow := Utf16.ofNat_toNat_of_lt (show c.toNat + 32 < 0x10000 by omega)
    have hhigh := Utf16.ofNat_toNat_of_lt (show c.toNat < 0x10000 by omega)
    simp only [List.map_cons, List.map_nil]
    rw [fold.ascii _ (by omega), fold.ascii _ (by omega), asciiUpcase, asciiUpcase,
      if_pos (by omega), if_neg (by omega), hlow, Nat.add_sub_cancel]
  · rfl

theorem windowsNameKey_of_eqIgnoreAsciiCase {s t : String}
    (hsame : Text.eqIgnoreAsciiCase s t = true) :
    windowsNameKey fold s = windowsNameKey fold t := by
  have hlower : ∀ text : String, windowsNameKey fold text =
      (text.toList.map Text.toAsciiLower).flatMap fun c =>
        (Utf16.encodeChar c).map fold.upcase := by
    intro text
    simp only [windowsNameKey, Utf16.encode, NameFold.key, List.map_flatMap, List.flatMap_map,
      upcase_encodeChar_toAsciiLower]
  rw [hlower s, hlower t, beq_iff_eq.mp hsame]

/-- A name whose units have no case. -/
def Caseless (words : Name) : Prop :=
  ∀ v ∈ words, v.toNat < 0xA0 ∧ ¬ isAsciiLetter v

theorem eq_of_key_eq {u v : Name} (hv : Caseless v) (hkey : fold.key u = fold.key v) :
    u = v := by
  unfold NameFold.key at hkey
  induction u generalizing v with
  | nil =>
      cases v with
      | nil => rfl
      | cons w v => cases hkey
  | cons x u ih =>
      cases v with
      | nil => cases hkey
      | cons w v =>
          rw [List.map_cons, List.map_cons, List.cons.injEq] at hkey
          obtain ⟨hlt, hletter⟩ := hv w (by simp)
          rw [fold.caseless x w hlt hletter hkey.1,
            ih (fun y hy => hv y (by simp [hy])) hkey.2]

end Ngsm.Registry
