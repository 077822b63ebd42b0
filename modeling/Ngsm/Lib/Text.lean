/-
# Text operations of the standard library

The operations on strings that the modelled programs call, on the characters of
the string: white space and control characters in the sense of Unicode, ASCII
case folding, splitting at a separator, and decimal parsing with its range
checks.  Decimal printing is inverse to parsing on the values of the type.
-/

import Mathlib.Algebra.Group.Int.Defs
import Mathlib.Algebra.Group.Nat.Defs
import Mathlib.Data.List.Basic
import Mathlib.Data.List.TakeWhile
import Ngsm.Lib.Utf16

namespace Ngsm.Lib

namespace Text

/-- The Unicode property `White_Space`. -/
def isWhitespace (c : Char) : Bool :=
  let n := c.toNat
  (9 ≤ n && n ≤ 13) || n == 0x20 || n == 0x85 || n == 0xA0 || n == 0x1680 ||
    (0x2000 ≤ n && n ≤ 0x200A) || n == 0x2028 || n == 0x2029 || n == 0x202F ||
    n == 0x205F || n == 0x3000

/-- The Unicode category `Cc`. -/
def isControl (c : Char) : Bool :=
  let n := c.toNat
  n < 0x20 || (0x7F ≤ n && n < 0xA0)

/-- Remove white space at both ends. -/
def trim (s : String) : String :=
  String.ofList ((s.toList.dropWhile isWhitespace).reverse.dropWhile isWhitespace).reverse

/-- Lower case of the ASCII letters; every other character stays. -/
def toAsciiLower (c : Char) : Char :=
  if 'A'.toNat ≤ c.toNat ∧ c.toNat ≤ 'Z'.toNat then Char.ofNat (c.toNat + 32) else c

/-- Convert the ASCII letters of a text to lower case. -/
def toAsciiLowercase (s : String) : String :=
  String.ofList (s.toList.map toAsciiLower)

/-- Equality up to the case of ASCII letters. -/
def eqIgnoreAsciiCase (s t : String) : Bool :=
  s.toList.map toAsciiLower == t.toList.map toAsciiLower

/-- Whether a character occurs in a text. -/
def contains (s : String) (c : Char) : Bool :=
  s.toList.contains c

/-- Whether a text occurs inside another. -/
def containsText (s part : String) : Bool :=
  s.toList.tails.any fun rest => part.toList.isPrefixOf rest

/-- The parts of a text between the occurrences of a separator. -/
def split (s : String) (c : Char) : List String :=
  (s.toList.splitOn c).map String.ofList

/-- The text before the first occurrence of a separator and the text after it. -/
def splitOnce (s : String) (c : Char) : Option (String × String) :=
  match s.toList.dropWhile (· != c) with
  | [] => none
  | _ :: after => some (String.ofList (s.toList.takeWhile (· != c)), String.ofList after)

theorem splitOnce_none {s : String} {c : Char} (hnone : c ∉ s.toList) : splitOnce s c = none := by
  have hdrop : s.toList.dropWhile (· != c) = [] := by
    rw [List.dropWhile_eq_nil_iff]
    intro d hd
    have hne : d ≠ c := fun heq => hnone (heq ▸ hd)
    simpa using hne
  rw [splitOnce, hdrop]

theorem splitOnce_some {s : String} {before after : List Char} {c : Char}
    (hsplit : s.toList = before ++ c :: after) (hnone : c ∉ before) :
    splitOnce s c = some (String.ofList before, String.ofList after) := by
  have hall : ∀ d ∈ before, (d != c) = true := by
    intro d hd
    have hne : d ≠ c := fun heq => hnone (heq ▸ hd)
    simpa using hne
  have hdrop : s.toList.dropWhile (· != c) = c :: after := by
    rw [hsplit, List.dropWhile_append_of_pos hall]
    simp
  have htake : s.toList.takeWhile (· != c) = before := by
    rw [hsplit, List.takeWhile_append_of_pos hall]
    simp
  rw [splitOnce, hdrop, htake]

theorem eq_of_splitOnce {s : String} {c : Char} {before after : String}
    (hsplit : splitOnce s c = some (before, after)) :
    s.toList = before.toList ++ c :: after.toList := by
  unfold splitOnce at hsplit
  split at hsplit
  · cases hsplit
  · rename_i d rest hdrop
    rw [Option.some.injEq, Prod.mk.injEq] at hsplit
    obtain ⟨rfl, rfl⟩ := hsplit
    have hd : d = c := by
      have hhead := List.head?_dropWhile_not (· != c) s.toList
      rw [hdrop] at hhead
      simpa using hhead
    have hall := List.takeWhile_append_dropWhile (p := (· != c)) (l := s.toList)
    rw [hdrop, hd] at hall
    simpa using hall.symm

/-! ## Decimal numbers -/

/-- The value of a list of decimal digits. -/
def digitsValue (cs : List Char) : Nat :=
  cs.foldl (fun n c => 10 * n + (c.toNat - '0'.toNat)) 0

/-- A non-empty run of decimal digits. -/
def parseDigits (cs : List Char) : Option Nat :=
  if cs ≠ [] ∧ cs.all Char.isDigit then some (digitsValue cs) else none

/-- Parse a signed 32-bit number: an optional sign, then digits, in range. -/
def parseI32 (s : String) : Option Int :=
  match s.toList with
  | '-' :: digits =>
      (parseDigits digits).bind fun n => if n ≤ 2 ^ 31 then some (-(n : Int)) else none
  | '+' :: digits =>
      (parseDigits digits).bind fun n => if n < 2 ^ 31 then some (n : Int) else none
  | digits =>
      (parseDigits digits).bind fun n => if n < 2 ^ 31 then some (n : Int) else none

/-- Parse an unsigned 32-bit number: an optional plus sign, then digits, in
range. -/
def parseU32 (s : String) : Option Nat :=
  match s.toList with
  | '+' :: digits => (parseDigits digits).bind fun n => if n < 2 ^ 32 then some n else none
  | digits => (parseDigits digits).bind fun n => if n < 2 ^ 32 then some n else none

/-- The two's-complement reading of an unsigned 32-bit number. -/
def wrapI32 (n : Nat) : Int :=
  if n < 2 ^ 31 then (n : Int) else (n : Int) - 2 ^ 32

/-- The values of a signed 32-bit number. -/
def IsI32 (z : Int) : Prop :=
  -2 ^ 31 ≤ z ∧ z < 2 ^ 31

theorem isI32_of_parseI32 {s : String} {z : Int} (hparse : parseI32 s = some z) : IsI32 z := by
  unfold parseI32 at hparse
  unfold IsI32
  split at hparse
  all_goals
    rw [Option.bind_eq_some_iff] at hparse
    obtain ⟨n, -, hrange⟩ := hparse
    split at hrange
    · cases hrange
      omega
    · cases hrange

theorem lt_of_parseU32 {s : String} {n : Nat} (hparse : parseU32 s = some n) : n < 2 ^ 32 := by
  unfold parseU32 at hparse
  split at hparse
  all_goals
    rw [Option.bind_eq_some_iff] at hparse
    obtain ⟨m, -, hrange⟩ := hparse
    split at hrange
    · cases hrange
      assumption
    · cases hrange

theorem isI32_wrapI32 {s : String} {n : Nat} (hparse : parseU32 s = some n) :
    IsI32 (wrapI32 n) := by
  have hbound := lt_of_parseU32 hparse
  unfold wrapI32 IsI32
  split <;> omega

theorem digitsValue_eq_ofDigitChars (cs : List Char) :
    digitsValue cs = Nat.ofDigitChars 10 cs 0 := by
  rfl

theorem parseDigits_toDigits (n : Nat) : parseDigits (Nat.toDigits 10 n) = some n := by
  have hdigits : (Nat.toDigits 10 n).all Char.isDigit :=
    List.all_eq_true.mpr fun c hc => Nat.isDigit_of_mem_toDigits (by decide) (by decide) hc
  unfold parseDigits
  rw [if_pos ⟨Nat.toDigits_ne_nil, hdigits⟩]
  rw [digitsValue_eq_ofDigitChars, Nat.ofDigitChars_ten_toDigits]

theorem toList_toString_nat (n : Nat) : (toString n).toList = Nat.toDigits 10 n :=
  Nat.toList_repr

theorem toList_toString_neg (n : Nat) :
    (toString (-((n : Int) + 1))).toList = '-' :: Nat.toDigits 10 (n + 1) := by
  rw [show -((n : Int) + 1) = Int.negSucc n from rfl]
  change ("-" ++ Nat.repr (n + 1)).toList = _
  simp [Nat.toList_repr]

theorem toDigits_first_isDigit (n : Nat) :
    ∃ c rest, Nat.toDigits 10 n = c :: rest ∧ c.isDigit = true := by
  rcases hdigits : Nat.toDigits 10 n with _ | ⟨c, rest⟩
  · exact absurd hdigits Nat.toDigits_ne_nil
  · refine ⟨c, rest, rfl, ?_⟩
    exact Nat.isDigit_of_mem_toDigits (by decide) (by decide)
      (show c ∈ Nat.toDigits 10 n by simp [hdigits])

/-- Printing a signed number and parsing it again returns the number. -/
theorem parseI32_toString {z : Int} (hz : IsI32 z) : parseI32 (toString z) = some z := by
  unfold IsI32 at hz
  unfold parseI32
  rcases z with n | n
  · have hchars : (toString (Int.ofNat n)).toList = Nat.toDigits 10 n := toList_toString_nat n
    obtain ⟨c, rest, hdigits, hfirst⟩ := toDigits_first_isDigit n
    rw [hchars, hdigits]
    split
    · rename_i heq
      cases heq
      exact absurd hfirst (by decide)
    · rename_i heq
      cases heq
      exact absurd hfirst (by decide)
    · have hsmall : n < 2 ^ 31 := by
        have hupper : (n : Int) < 2 ^ 31 := hz.2
        omega
      rw [← hdigits, parseDigits_toDigits, Option.bind_some, if_pos hsmall]
      rfl
  · have hchars : (toString (Int.negSucc n)).toList = '-' :: Nat.toDigits 10 (n + 1) :=
      toList_toString_neg n
    rw [hchars]
    have hsmall : n + 1 ≤ 2 ^ 31 := by
      have := hz.1
      omega
    simp only [parseDigits_toDigits, Option.bind_some, if_pos hsmall]
    rfl

/-- A printed number consists of digits and a minus sign. -/
theorem mem_toString_int {z : Int} {c : Char} (hc : c ∈ (toString z).toList) :
    c = '-' ∨ c.isDigit = true := by
  rcases z with n | n
  · have hchars : (toString (Int.ofNat n)).toList = Nat.toDigits 10 n := toList_toString_nat n
    rw [hchars] at hc
    exact .inr (Nat.isDigit_of_mem_toDigits (by decide) (by decide) hc)
  · have hchars : (toString (Int.negSucc n)).toList = '-' :: Nat.toDigits 10 (n + 1) :=
      toList_toString_neg n
    rw [hchars, List.mem_cons] at hc
    rcases hc with rfl | hdigit
    · exact .inl rfl
    · exact .inr (Nat.isDigit_of_mem_toDigits (by decide) (by decide) hdigit)

theorem length_toString_int {z : Int} (hz : IsI32 z) : (toString z).toList.length ≤ 11 := by
  unfold IsI32 at hz
  rcases z with n | n
  · have hchars : (toString (Int.ofNat n)).toList = Nat.toDigits 10 n := toList_toString_nat n
    have hupper : (n : Int) < 2 ^ 31 := hz.2
    rw [hchars, Nat.length_toDigits_le_iff (by decide) (by decide)]
    omega
  · have hchars : (toString (Int.negSucc n)).toList = '-' :: Nat.toDigits 10 (n + 1) :=
      toList_toString_neg n
    have hdigits : (Nat.toDigits 10 (n + 1)).length ≤ 10 := by
      rw [Nat.length_toDigits_le_iff (by decide) (by decide)]
      have hlower := hz.1
      omega
    rw [hchars, List.length_cons]
    omega

theorem toString_int_ne_empty (z : Int) : toString z ≠ "" := by
  intro hempty
  rcases z with n | n
  · have hchars : (toString (Int.ofNat n)).toList = Nat.toDigits 10 n := toList_toString_nat n
    rw [hempty] at hchars
    exact Nat.toDigits_ne_nil hchars.symm
  · have hchars : (toString (Int.negSucc n)).toList = '-' :: Nat.toDigits 10 (n + 1) :=
      toList_toString_neg n
    rw [hempty] at hchars
    cases hchars

end Text

end Ngsm.Lib
