/-
# The layout of an allowing entry

An entry of an access control list is a header, a mask, for some types of entries the types of
objects it is about, and the identifier of a principal.  The check of a runner reads such an
entry back whatever bytes stand behind it.
-/

import Ngsm.Win32.RunnerAcl

namespace Ngsm.Win32

open Ngsm.Lib

namespace Memory

variable {memory : Memory} {bytes first second : List UInt8}

theorem length_take (memory : Memory) (n : ℕ) : (memory.take n).length = n := by
  rw [take, List.length_map, List.length_range]

theorem take_add (memory : Memory) (m n : ℕ) :
    memory.take (m + n) = memory.take m ++ (memory.drop m).take n := by
  simp only [take, List.range_add, List.map_append, List.map_map]
  rfl

theorem holds_append : memory.Holds (first ++ second) ↔
    memory.Holds first ∧ (memory.drop first.length).Holds second := by
  unfold Holds
  rw [List.length_append, take_add]
  constructor
  · intro h
    exact List.append_inj h (length_take _ _)
  · intro h
    rw [h.1, h.2]

theorem holds_cons {byte : UInt8} : memory.Holds (byte :: bytes) ↔
    memory 0 = byte ∧ (memory.drop 1).Holds bytes := by
  have h : memory.Holds ([byte] ++ bytes) ↔
      memory.Holds [byte] ∧ (memory.drop [byte].length).Holds bytes := holds_append
  rw [List.singleton_append] at h
  rw [h]
  refine and_congr_left fun _ => ?_
  simp [Holds, take]

theorem drop_drop (memory : Memory) (m n : ℕ) : (memory.drop m).drop n = memory.drop (m + n) := by
  funext i
  simp only [drop, Nat.add_assoc]

theorem holds_ofBytes (bytes : List UInt8) : (ofBytes bytes).Holds bytes := by
  apply List.ext_getElem
  · exact length_take _ _
  · intro i hi hbytes
    simp [take, ofBytes, hbytes]

end Memory

section

variable (api : SidApi)

/-! ## Entries as the system documents them -/

/-- The identifier is valid, and these are its bytes. -/
structure IsSid (sid : List UInt8) : Prop where
  valid : api.isValidSid (Memory.ofBytes sid) = true
  length : api.getLengthSid (Memory.ofBytes sid) = sid.length
  nonempty : sid ≠ []

abbrev Guid : Type :=
  { bytes : List UInt8 // bytes.length = guidSize }

/-- The types of objects that an entry is about. -/
structure ObjectTypes where
  object : Option Guid
  inherited : Option Guid

namespace ObjectTypes

def flags (types : ObjectTypes) : UInt8 :=
  (if types.object.isSome then 1 else 0) ||| (if types.inherited.isSome then 2 else 0)

def guidBytes (guid : Option Guid) : List UInt8 :=
  guid.elim [] Subtype.val

def encode (types : ObjectTypes) : List UInt8 :=
  [types.flags, 0, 0, 0] ++ guidBytes types.object ++ guidBytes types.inherited

end ObjectTypes

/-- An entry that allows, with the data of an application behind its identifier. -/
structure AllowAce where
  callback : Bool
  types : Option ObjectTypes
  flags : UInt8
  mask : UInt32
  sid : List UInt8
  data : List UInt8
  sid_valid : IsSid api sid
  fits : 64 + sid.length + data.length < 65536

namespace AllowAce

variable {api} (ace : AllowAce api)

def code : UInt8 :=
  if ace.types.isSome then (if ace.callback then 11 else 5) else (if ace.callback then 9 else 0)

def front : List UInt8 :=
  ace.types.elim [] ObjectTypes.encode

def size : ℕ :=
  8 + ace.front.length + ace.sid.length + ace.data.length

def inheritOnly : Bool :=
  ace.flags &&& 8 ≠ 0

def maskBytes : List UInt8 :=
  let n := ace.mask.toNat
  [UInt8.ofNat (n % 256), UInt8.ofNat (n / 256 % 256), UInt8.ofNat (n / 65536 % 256),
    UInt8.ofNat (n / 16777216)]

/-- The layout of an entry: type, flags, size, mask, types, identifier, data. -/
def encode : List UInt8 :=
  [ace.code, ace.flags, UInt8.ofNat (ace.size % 256), UInt8.ofNat (ace.size / 256)] ++
    ace.maskBytes ++ ace.front ++ ace.sid ++ ace.data

/-! ## Reading it back -/

variable {memory : Memory}

theorem length_front_le : ace.front.length ≤ 36 := by
  unfold front
  cases ace.types with
  | none => simp
  | some types =>
      have hguid : ∀ guid : Option Guid, (ObjectTypes.guidBytes guid).length ≤ 16 := by
        intro guid
        cases guid with
        | none => simp [ObjectTypes.guidBytes]
        | some guid => exact guid.property.le
      have hobject := hguid types.object
      have hinherited := hguid types.inherited
      simp only [Option.elim_some, ObjectTypes.encode, List.length_append, List.length_cons,
        List.length_nil]
      omega

/-- What stands where in an entry. -/
structure Laid (memory : Memory) : Prop where
  code : memory 0 = ace.code
  flags : memory 1 = ace.flags
  sizeLow : memory 2 = UInt8.ofNat (ace.size % 256)
  sizeHigh : memory 3 = UInt8.ofNat (ace.size / 256)
  mask : (memory.drop 4).Holds ace.maskBytes
  front : (memory.drop 8).Holds ace.front
  sid : (memory.drop (8 + ace.front.length)).Holds ace.sid

theorem laid (h : memory.Holds ace.encode) : ace.Laid memory := by
  unfold encode at h
  rw [List.append_assoc, List.append_assoc, List.append_assoc, Memory.holds_append,
    Memory.holds_append, Memory.holds_append, Memory.holds_append] at h
  obtain ⟨hheader, hmask, hfront, hsid, -⟩ := h
  simp only [Memory.drop_drop] at hmask hfront hsid
  simp only [Memory.holds_cons] at hheader
  obtain ⟨hcode, hflags, hlow, hhigh, -⟩ := hheader
  exact ⟨hcode, hflags, hlow, hhigh, hmask, hfront, hsid⟩

theorem readU16_size (h : ace.Laid memory) : (memory.drop 2).readU16 = ace.size := by
  have hfront := ace.length_front_le
  have hfits := ace.fits
  have hsize : ace.size < 65536 := by
    unfold size
    omega
  have hlow : (memory.drop 2) 0 = UInt8.ofNat (ace.size % 256) := h.sizeLow
  have hhigh : (memory.drop 2) 1 = UInt8.ofNat (ace.size / 256) := h.sizeHigh
  rw [Memory.readU16, hlow, hhigh, UInt8.toNat_ofNat', UInt8.toNat_ofNat']
  omega

theorem readU32_mask (h : ace.Laid memory) : (memory.drop 4).readU32 = ace.mask := by
  have hmask := h.mask
  unfold maskBytes at hmask
  simp only [Memory.holds_cons, Memory.drop_drop] at hmask
  obtain ⟨h0, h1, h2, h3, -⟩ := hmask
  have hlt := ace.mask.toNat_lt
  have hvalue : ace.mask.toNat % 256 + 256 * (ace.mask.toNat / 256 % 256 + 256 *
      (ace.mask.toNat / 65536 % 256 + 256 * (ace.mask.toNat / 16777216))) = ace.mask.toNat := by
    omega
  have htop : ace.mask.toNat / 16777216 < 256 := by omega
  have hread : ((memory.drop 4) 0).toNat + 256 * (((memory.drop 4) 1).toNat + 256 *
      (((memory.drop 4) 2).toNat + 256 * ((memory.drop 4) 3).toNat)) = ace.mask.toNat := by
    simp only [Memory.drop, Nat.add_zero, Nat.reduceAdd] at h0 h1 h2 h3 ⊢
    rw [h0, h1, h2, h3]
    simp only [UInt8.toNat_ofNat']
    omega
  rw [Memory.readU32, hread, UInt32.ofNat_toNat]

theorem readAceU32_of_le {aceSize offset : ℕ} (h : offset + 4 ≤ aceSize) :
    readAceU32 memory aceSize offset = .ok (memory.drop offset).readU32 := by
  rw [readAceU32, if_neg (Nat.not_lt.mpr h)]

theorem length_guidBytes (guid : Option Guid) :
    (ObjectTypes.guidBytes guid).length = if guid.isSome then guidSize else 0 := by
  cases guid with
  | none => rfl
  | some guid => exact guid.property

/-- The types of objects shift the identifier by their own length. -/
theorem allowedAceSidOffset_eq (h : ace.Laid memory) :
    allowedAceSidOffset memory ace.size ace.types.isSome = .ok (8 + ace.front.length) := by
  cases htypes : ace.types with
  | none => simp [allowedAceSidOffset, aceHeaderSize, front, htypes]
  | some types =>
      have hfront : ace.front = types.encode := by rw [front, htypes, Option.elim_some]
      have hlength : ace.front.length = 4 + (if types.object.isSome then guidSize else 0) +
          (if types.inherited.isSome then guidSize else 0) := by
        rw [hfront, ObjectTypes.encode, List.length_append, List.length_append, length_guidBytes,
          length_guidBytes]
        rfl
      have hsize : 8 + 4 ≤ ace.size := by
        unfold size
        omega
      have hflags : (memory.drop 8).readU32 = UInt32.ofNat types.flags.toNat := by
        have hholds := h.front
        rw [hfront, ObjectTypes.encode, List.append_assoc, Memory.holds_append] at hholds
        simp only [Memory.holds_cons, Memory.drop_drop] at hholds
        obtain ⟨⟨h0, h1, h2, h3, -⟩, -⟩ := hholds
        simp only [Memory.drop, Nat.add_zero, Nat.reduceAdd] at h0 h1 h2 h3
        simp only [Memory.readU32, Memory.drop, Nat.add_zero, Nat.reduceAdd, h0, h1, h2, h3]
        simp
      simp only [allowedAceSidOffset, Option.isSome_some, if_true, aceHeaderSize,
        readAceU32_of_le hsize, hflags, hlength, ObjectTypes.flags, bind, Except.bind]
      cases types.object.isSome <;> cases types.inherited.isSome <;> rfl

end AllowAce

/-! ## What an entry says -/

variable {api} {memory memory' : Memory}

/-- What is said of a valid identifier depends on its bytes only. -/
theorem classifyAclSid_congr (hvalid : api.isValidSid memory = true)
    (htake : memory.take (api.getLengthSid memory) = memory'.take (api.getLengthSid memory)) :
    classifyAclSid api memory' = classifyAclSid api memory := by
  obtain ⟨hvalid', -, hknown, hequal⟩ := api.content memory memory' hvalid htake
  simp only [classifyAclSid, isTrustedInstallerSid, hvalid, hvalid', hknown, hequal]

theorem IsSid.take {sid : List UInt8} (h : IsSid api sid) (hholds : memory.Holds sid) :
    (Memory.ofBytes sid).take (api.getLengthSid (Memory.ofBytes sid)) =
      memory.take (api.getLengthSid (Memory.ofBytes sid)) := by
  rw [h.length, hholds]
  exact Memory.holds_ofBytes sid

/-- An allowing entry is read back as its grant. -/
theorem allowedGrantFromAce_encode (ace : AllowAce api) (hholds : memory.Holds ace.encode) :
    allowedGrantFromAce api (some memory) =
      (classifyAclSid api (Memory.ofBytes ace.sid)).map fun principal =>
        some { principal, mask := ace.mask, inheritOnly := ace.inheritOnly } := by
  have h := ace.laid hholds
  have hsize : 8 + ace.front.length + ace.sid.length ≤ ace.size := by
    unfold AllowAce.size
    omega
  have hsid : 0 < ace.sid.length := List.length_pos_iff.mpr ace.sid_valid.nonempty
  have htake := ace.sid_valid.take h.sid
  obtain ⟨hvalid, hlength, -, -⟩ := api.content _ _ ace.sid_valid.valid htake
  have hgrant : grantFromAllowedAce api memory ace.size ace.inheritOnly ace.types.isSome =
      (classifyAclSid api (Memory.ofBytes ace.sid)).map fun principal =>
        some { principal, mask := ace.mask, inheritOnly := ace.inheritOnly } := by
    rw [ace.sid_valid.length] at hlength
    have hin : ¬ace.size ≤ 8 + ace.front.length := by omega
    have hwhole : ¬(ace.sid.length = 0 ∨ ace.size < 8 + ace.front.length + ace.sid.length) := by
      omega
    unfold grantFromAllowedAce
    simp only [aceHeaderSize, AllowAce.readAceU32_of_le (show 4 + 4 ≤ ace.size by omega),
      ace.readU32_mask h, ace.allowedAceSidOffset_eq h, bind, Except.bind, if_neg hin, hvalid,
      hlength, if_neg hwhole, classifyAclSid_congr ace.sid_valid.valid htake]
    cases classifyAclSid api (Memory.ofBytes ace.sid) <;> rfl
  have hheader : ¬ace.size < aceHeaderSize := by
    unfold aceHeaderSize
    omega
  simp only [allowedGrantFromAce, ace.readU16_size h, if_neg hheader, h.code, h.flags]
  rw [← hgrant]
  unfold AllowAce.code AllowAce.inheritOnly
  cases ace.types.isSome <;> cases ace.callback <;> rfl

end

end Ngsm.Win32
