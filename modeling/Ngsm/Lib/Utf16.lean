/-
# UTF-16 text

Text crosses into an operating system as a list of 16-bit code units.  A scalar
value below `0x10000` is one unit, every other one is a pair of surrogates, and
strict decoding refuses a surrogate that stands alone.

Encoding and strict decoding are inverse to each other in both directions: text
survives a round trip, and units that decode at all are the encoding of what
they decode to.  The second half lets a name read back from the system stand for
the units it was read from.
-/

import Mathlib.Data.List.Basic

namespace Ngsm.Lib

namespace Utf16

/-- The code units of one scalar value. -/
def encodeChar (c : Char) : List UInt16 :=
  if c.toNat < 0x10000 then
    [UInt16.ofNat c.toNat]
  else
    [UInt16.ofNat (0xD800 + (c.toNat - 0x10000) / 0x400),
      UInt16.ofNat (0xDC00 + (c.toNat - 0x10000) % 0x400)]

/-- The code units of a text, without a terminator. -/
def encode (s : String) : List UInt16 :=
  s.toList.flatMap encodeChar

/-- Decode the units one scalar value at a time; a lone surrogate is refused. -/
def decodeChars : List UInt16 → Option (List Char)
  | [] => some []
  | u :: rest =>
      if u.toNat < 0xD800 ∨ 0xDFFF < u.toNat then
        (decodeChars rest).map (Char.ofNat u.toNat :: ·)
      else if 0xDC00 ≤ u.toNat then
        none
      else
        match rest with
        | [] => none
        | v :: rest =>
            if 0xDC00 ≤ v.toNat ∧ v.toNat ≤ 0xDFFF then
              (decodeChars rest).map
                (Char.ofNat
                  (0x10000 + (u.toNat - 0xD800) * 0x400 + (v.toNat - 0xDC00)) :: ·)
            else
              none

/-- Strict decoding of a whole unit list. -/
def decode (units : List UInt16) : Option String :=
  (decodeChars units).map String.ofList

/-- The character that stands for a surrogate that stands alone. -/
def replacementCharacter : Char :=
  Char.ofNat 0xFFFD

/-- Decode the units one scalar value at a time; a lone surrogate is replaced. -/
def decodeCharsLossy : List UInt16 → List Char
  | [] => []
  | u :: rest =>
      if u.toNat < 0xD800 ∨ 0xDFFF < u.toNat then
        Char.ofNat u.toNat :: decodeCharsLossy rest
      else if 0xDC00 ≤ u.toNat then
        replacementCharacter :: decodeCharsLossy rest
      else
        match rest with
        | [] => [replacementCharacter]
        | v :: later =>
            if 0xDC00 ≤ v.toNat ∧ v.toNat ≤ 0xDFFF then
              Char.ofNat (0x10000 + (u.toNat - 0xD800) * 0x400 + (v.toNat - 0xDC00)) ::
                decodeCharsLossy later
            else
              replacementCharacter :: decodeCharsLossy (v :: later)

/-- Decoding that never fails. -/
def decodeLossy (units : List UInt16) : String :=
  String.ofList (decodeCharsLossy units)

/-! ## Shape of the encoding -/

@[simp]
theorem encode_empty : encode "" = [] :=
  rfl

@[simp]
theorem encode_append (s t : String) : encode (s ++ t) = encode s ++ encode t := by
  simp [encode]

theorem encode_ofList (cs : List Char) : encode (String.ofList cs) = cs.flatMap encodeChar := by
  simp [encode]

theorem toNat_scalar (c : Char) :
    c.toNat < 0xD800 ∨ 0xDFFF < c.toNat ∧ c.toNat < 0x110000 :=
  c.valid

theorem ofNat_toNat_of_lt {n : Nat} (hn : n < 0x10000) : (UInt16.ofNat n).toNat = n := by
  simp only [UInt16.toNat_ofNat']
  omega

theorem encodeChar_ne_nil (c : Char) : encodeChar c ≠ [] := by
  unfold encodeChar
  split <;> simp

theorem encode_eq_nil_iff (s : String) : encode s = [] ↔ s = "" := by
  constructor
  · intro hnil
    rw [encode, List.flatMap_eq_nil_iff] at hnil
    have hchars : s.toList = [] := by
      rcases hlist : s.toList with _ | ⟨c, rest⟩
      · rfl
      · exact absurd (hnil c (by simp [hlist])) (encodeChar_ne_nil c)
    simpa using hchars
  · rintro rfl
    rfl

/-- A unit below the surrogate range occurs in the encoding exactly when the
scalar value with that number occurs in the text. -/
theorem mem_encodeChar_of_lt {c : Char} {u : UInt16} (hu : u.toNat < 0xD800) :
    u ∈ encodeChar c ↔ c.toNat = u.toNat := by
  unfold encodeChar
  have hscalar := toNat_scalar c
  split
  · rename_i hsmall
    rw [List.mem_singleton]
    constructor
    · rintro rfl
      exact (ofNat_toNat_of_lt hsmall).symm
    · intro heq
      apply UInt16.toNat_inj.mp
      rw [ofNat_toNat_of_lt hsmall, heq]
  · rename_i hlarge
    constructor
    · intro hmem
      rw [List.mem_cons, List.mem_singleton] at hmem
      rcases hmem with rfl | rfl
      · rw [ofNat_toNat_of_lt (by omega)] at hu
        omega
      · rw [ofNat_toNat_of_lt (by omega)] at hu
        omega
    · intro heq
      omega

theorem mem_encode_of_lt {s : String} {u : UInt16} (hu : u.toNat < 0xD800) :
    u ∈ encode s ↔ ∃ c ∈ s.toList, c.toNat = u.toNat := by
  simp only [encode, List.mem_flatMap, mem_encodeChar_of_lt hu]

/-! ## Round trips -/

theorem decodeChars_encodeChar_append (c : Char) (rest : List UInt16) :
    decodeChars (encodeChar c ++ rest) = (decodeChars rest).map (c :: ·) := by
  have hscalar := toNat_scalar c
  unfold encodeChar
  split
  · rename_i hsmall
    rw [List.singleton_append, decodeChars.eq_def]
    dsimp only
    rw [ofNat_toNat_of_lt hsmall, if_pos (by omega), Char.ofNat_toNat]
  · rename_i hlarge
    have hhigh : 0xD800 + (c.toNat - 0x10000) / 0x400 < 0xDC00 := by omega
    have hlow : (c.toNat - 0x10000) % 0x400 < 0x400 := Nat.mod_lt _ (by decide)
    simp only [List.cons_append, List.nil_append, decodeChars]
    rw [ofNat_toNat_of_lt (by omega), ofNat_toNat_of_lt (by omega)]
    rw [if_neg (by omega), if_neg (by omega), if_pos (by omega)]
    have hvalue : 0x10000 + (0xD800 + (c.toNat - 0x10000) / 0x400 - 0xD800) * 0x400 +
        (0xDC00 + (c.toNat - 0x10000) % 0x400 - 0xDC00) = c.toNat := by omega
    rw [hvalue, Char.ofNat_toNat]

/-- Text survives encoding and decoding. -/
@[simp]
theorem decode_encode (s : String) : decode (encode s) = some s := by
  have hchars : ∀ cs : List Char, decodeChars (cs.flatMap encodeChar) = some cs := by
    intro cs
    induction cs with
    | nil => rfl
    | cons c cs ih => rw [List.flatMap_cons, decodeChars_encodeChar_append, ih]; rfl
  rw [decode, encode, hchars]
  simp

theorem toNat_charOfNat {n : Nat} (hn : n < 0xD800 ∨ 0xDFFF < n ∧ n < 0x110000) :
    (Char.ofNat n).toNat = n := by
  have hvalid : n.isValidChar := hn
  rw [Char.ofNat, dif_pos hvalid]
  exact UInt32.toNat_ofNatLT

theorem encodeChar_of_unit {u : UInt16} (hu : u.toNat < 0xD800 ∨ 0xDFFF < u.toNat) :
    encodeChar (Char.ofNat u.toNat) = [u] := by
  have hbound : u.toNat < 0x10000 := u.toNat_lt
  rw [encodeChar, toNat_charOfNat (by omega), if_pos hbound, UInt16.ofNat_toNat]

theorem encodeChar_of_pair {u v : UInt16} (hu : 0xD800 ≤ u.toNat ∧ u.toNat < 0xDC00)
    (hv : 0xDC00 ≤ v.toNat ∧ v.toNat ≤ 0xDFFF) :
    encodeChar (Char.ofNat
      (0x10000 + (u.toNat - 0xD800) * 0x400 + (v.toNat - 0xDC00))) = [u, v] := by
  have hhigh : 0xD800 + (0x10000 + (u.toNat - 0xD800) * 0x400 + (v.toNat - 0xDC00) - 0x10000) /
      0x400 = u.toNat := by omega
  have hlow : 0xDC00 + (0x10000 + (u.toNat - 0xD800) * 0x400 + (v.toNat - 0xDC00) - 0x10000) %
      0x400 = v.toNat := by omega
  rw [encodeChar, toNat_charOfNat (by omega), if_neg (by omega), hhigh, hlow,
    UInt16.ofNat_toNat, UInt16.ofNat_toNat]

/-- Units that decode are the encoding of what they decode to. -/
theorem encode_of_decode {units : List UInt16} {s : String} (hdecode : decode units = some s) :
    encode s = units := by
  have hchars : ∀ (units : List UInt16) (cs : List Char),
      decodeChars units = some cs → cs.flatMap encodeChar = units := by
    intro units
    induction units using decodeChars.induct with
    | case1 =>
        intro cs h
        cases h
        rfl
    | case2 u rest hu ih =>
        intro cs h
        rw [decodeChars.eq_def] at h
        simp only [hu, if_true] at h
        obtain ⟨tail, htail, rfl⟩ := Option.map_eq_some_iff.mp h
        rw [List.flatMap_cons, ih tail htail, encodeChar_of_unit hu, List.singleton_append]
    | case3 u rest hu hlow =>
        intro cs h
        rw [decodeChars.eq_def] at h
        simp [hu, hlow] at h
    | case4 u hu hlow =>
        intro cs h
        rw [decodeChars.eq_def] at h
        simp [hu, hlow] at h
    | case5 u hu hlow v rest hv ih =>
        intro cs h
        rw [decodeChars.eq_def] at h
        simp only [hu, hlow, hv, if_false] at h
        obtain ⟨tail, htail, rfl⟩ := Option.map_eq_some_iff.mp h
        rw [List.flatMap_cons, ih tail htail, encodeChar_of_pair (by omega) hv]
        rfl
    | case6 u hu hlow v rest hv =>
        intro cs h
        rw [decodeChars.eq_def] at h
        simp [hu, hlow, hv] at h
  obtain ⟨cs, hcs, rfl⟩ := Option.map_eq_some_iff.mp hdecode
  rw [encode_ofList, hchars units cs hcs]

/-- Replacing does not change what strict decoding accepts. -/
theorem decodeCharsLossy_of_decodeChars {units : List UInt16} {cs : List Char}
    (hdecode : decodeChars units = some cs) : decodeCharsLossy units = cs := by
  induction units using decodeChars.induct generalizing cs with
  | case1 =>
      cases hdecode
      rfl
  | case2 u rest hu ih =>
      rw [decodeChars.eq_def] at hdecode
      simp only [hu, if_true] at hdecode
      obtain ⟨tail, htail, rfl⟩ := Option.map_eq_some_iff.mp hdecode
      rw [decodeCharsLossy.eq_def]
      simp only [hu, if_true, ih htail]
  | case3 u rest hu hlow =>
      rw [decodeChars.eq_def] at hdecode
      simp [hu, hlow] at hdecode
  | case4 u hu hlow =>
      rw [decodeChars.eq_def] at hdecode
      simp [hu, hlow] at hdecode
  | case5 u hu hlow v rest hv ih =>
      rw [decodeChars.eq_def] at hdecode
      simp only [hu, hlow, hv, if_false] at hdecode
      obtain ⟨tail, htail, rfl⟩ := Option.map_eq_some_iff.mp hdecode
      rw [decodeCharsLossy.eq_def]
      simp only [hu, hlow, hv, if_false, ih htail]
      rfl
  | case6 u hu hlow v rest hv =>
      rw [decodeChars.eq_def] at hdecode
      simp [hu, hlow, hv] at hdecode

@[simp]
theorem decodeLossy_encode (s : String) : decodeLossy (encode s) = s := by
  obtain ⟨cs, hcs, hs⟩ := Option.map_eq_some_iff.mp (decode_encode s)
  rw [decodeLossy, decodeCharsLossy_of_decodeChars hcs, hs]

theorem encode_injective {s t : String} (h : encode s = encode t) : s = t := by
  have hdecoded : decode (encode s) = decode (encode t) := congrArg decode h
  simpa using hdecoded

/-! ## Byte order -/

/-- The little-endian bytes of a list of units. -/
def toBytes (units : List UInt16) : List UInt8 :=
  units.flatMap fun u => [UInt8.ofNat (u.toNat % 256), UInt8.ofNat (u.toNat / 256)]

/-- Pair the bytes up into units; a final single byte is dropped, as
`chunks_exact` does. -/
def ofBytes : List UInt8 → List UInt16
  | low :: high :: rest => UInt16.ofNat (low.toNat + 256 * high.toNat) :: ofBytes rest
  | _ => []

@[simp]
theorem ofBytes_toBytes (units : List UInt16) : ofBytes (toBytes units) = units := by
  induction units with
  | nil => rfl
  | cons u units ih =>
      have hbound : u.toNat < 65536 := u.toNat_lt
      simp only [toBytes, List.flatMap_cons, List.cons_append, List.nil_append, ofBytes] at ih ⊢
      rw [ih]
      have hvalue : (UInt8.ofNat (u.toNat % 256)).toNat +
          256 * (UInt8.ofNat (u.toNat / 256)).toNat = u.toNat := by
        simp only [UInt8.toNat_ofNat']
        omega
      rw [hvalue, UInt16.ofNat_toNat]

@[simp]
theorem length_toBytes (units : List UInt16) : (toBytes units).length = 2 * units.length := by
  induction units with
  | nil => rfl
  | cons u units ih =>
      simp only [toBytes, List.flatMap_cons, List.length_append, List.length_cons] at ih ⊢
      simp only [List.length_nil]
      omega

end Utf16

end Ngsm.Lib
