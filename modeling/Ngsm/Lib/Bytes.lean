/-
# Byte offsets of a text

A slice of a text is taken at byte offsets of its UTF-8 form, and it fails where
an offset is not the boundary of a character.  The offsets at which characters
start are boundaries, and so is an offset behind ASCII characters.
-/

import Mathlib.Data.List.Basic
import Ngsm.Lib.Text

namespace Ngsm.Lib

namespace Bytes

/-- The UTF-8 form of a text. -/
def encode (cs : List Char) : List UInt8 :=
  cs.flatMap String.utf8EncodeChar

/-- The number of bytes of a text. -/
def length : List Char → Nat
  | [] => 0
  | c :: cs => c.utf8Size + length cs

/-- Split a text at a byte offset, where the offset is a boundary. -/
def splitAt : Nat → List Char → Option (List Char × List Char)
  | 0, cs => some ([], cs)
  | _ + 1, [] => none
  | n + 1, c :: cs =>
      if c.utf8Size ≤ n + 1 then
        (splitAt (n + 1 - c.utf8Size) cs).map fun parts => (c :: parts.1, parts.2)
      else
        none

/-- The characters of a text, each with the offset at which it starts. -/
def charIndices : Nat → List Char → List (Nat × Char)
  | _, [] => []
  | start, c :: cs => (start, c) :: charIndices (start + c.utf8Size) cs

example : splitAt 2 ['é', 'a'] = some (['é'], ['a']) := by decide

example : splitAt 1 ['é', 'a'] = none := by decide

variable {before rest : List Char}

@[simp]
theorem length_nil : length [] = 0 :=
  rfl

@[simp]
theorem length_cons (c : Char) (cs : List Char) : length (c :: cs) = c.utf8Size + length cs :=
  rfl

theorem length_append (before rest : List Char) :
    length (before ++ rest) = length before + length rest := by
  induction before with
  | nil => simp
  | cons c before ih =>
      rw [List.cons_append, length_cons, length_cons, ih, Nat.add_assoc]

/-- The end of a part of a text is a boundary. -/
theorem splitAt_length (before rest : List Char) :
    splitAt (length before) (before ++ rest) = some (before, rest) := by
  induction before with
  | nil => rw [length_nil, List.nil_append, splitAt]
  | cons c before ih =>
      have hsize : 0 < c.utf8Size := c.utf8Size_pos
      obtain ⟨n, hn⟩ : ∃ n, length (c :: before) = n + 1 :=
        ⟨length (c :: before) - 1, by rw [length_cons]; omega⟩
      have hleft : n + 1 - c.utf8Size = length before := by
        rw [length_cons] at hn
        omega
      rw [hn, List.cons_append, splitAt, hleft, ih, if_pos (by rw [← hn, length_cons]; omega)]
      rfl

/-- A byte of an ASCII character is the character. -/
theorem encode_eq_cons {cs : List Char} {byte : UInt8} {bytes : List UInt8}
    (hbytes : encode cs = byte :: bytes) (hascii : byte.toNat < 128) :
    ∃ c rest, cs = c :: rest ∧ c.toNat = byte.toNat ∧ encode rest = bytes := by
  cases cs with
  | nil => cases hbytes
  | cons c rest =>
      have hmod : ∀ n, (UInt8.ofNat n).toNat = n % 256 := fun n => by simp
      refine ⟨c, rest, rfl, ?_⟩
      rw [encode, List.flatMap_cons] at hbytes
      unfold String.utf8EncodeChar at hbytes
      dsimp only at hbytes
      split at hbytes
      · rename_i hone
        rw [List.cons_append, List.cons.injEq] at hbytes
        obtain ⟨hfirst, hrest⟩ := hbytes
        refine ⟨?_, hrest⟩
        rw [← hfirst, hmod]
        exact (Nat.mod_eq_of_lt (Nat.lt_of_le_of_lt hone (by decide))).symm
      · exfalso
        split at hbytes
        · rw [List.cons_append, List.cons.injEq] at hbytes
          rw [← hbytes.1, hmod] at hascii
          omega
        · split at hbytes
          · rw [List.cons_append, List.cons.injEq] at hbytes
            rw [← hbytes.1, hmod] at hascii
            omega
          · rw [List.cons_append, List.cons.injEq] at hbytes
            rw [← hbytes.1, hmod] at hascii
            omega

theorem encode_cons_of_ascii {c : Char} (hascii : c.toNat < 128) (cs : List Char) :
    encode (c :: cs) = UInt8.ofNat c.toNat :: encode cs := by
  rw [encode, List.flatMap_cons, String.utf8EncodeChar,
    if_pos (show c.val.toNat ≤ 127 from Nat.le_of_lt_succ hascii)]
  rfl

theorem utf8Size_of_ascii {c : Char} (hascii : c.toNat < 128) : c.utf8Size = 1 := by
  rw [Char.utf8Size, if_pos]
  exact UInt32.le_iff_toNat_le.mpr (Nat.le_of_lt_succ hascii)

end Bytes

end Ngsm.Lib
