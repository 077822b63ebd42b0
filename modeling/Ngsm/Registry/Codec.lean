/-
# Registry value encodings

How strings, string lists and numbers are laid out in the bytes of a value.
Decoding is strict: an odd byte count, a lone surrogate, data behind a
terminator or a number of the wrong width is an error, never a guess.  Each
encoder has a round-trip theorem against its decoder.
-/

import Ngsm.Registry.Store

namespace Ngsm.Registry

open Ngsm.Lib Ngsm.Core

/-! ## Decoders -/

/-- How a decoding error of the standard library prints. -/
def utf16ErrorText : String :=
  "invalid utf-16: lone surrogate found"

/-- Strict UTF-16, reporting a failure under the given subject. -/
def decodeText (subject : String) (words : Name) : Result String :=
  match Utf16.decode words with
  | some s => .ok s
  | none => .error (.registry (subject ++ " is not valid UTF-16: " ++ utf16ErrorText))

/-- Decode the bytes of a string value.  The terminator may be missing; behind
it only padding is allowed. -/
def bytesToWideString (bytes : List UInt8) : Result String :=
  if bytes = [] then
    .ok ""
  else if bytes.length % 2 ≠ 0 then
    .error (.registry
      s!"REG_SZ value has an odd byte length ({bytes.length}) — not valid UTF-16")
  else
    let words := Utf16.ofBytes bytes
    match words.findIdx? (· == 0) with
    | some stop =>
        if (words.drop (stop + 1)).any (· != 0) then
          .error (.registry
            "REG_SZ value has non-zero data after its NUL terminator — corrupt")
        else
          decodeText "REG_SZ value" (words.take stop)
    | none => decodeText "REG_SZ value" words

/-- Walk the units of a string list: `entry` is the entry being read and `out`
the entries before it.  An empty entry is the block terminator. -/
def splitMulti (entry : Name) (out : List String) : Name → Result (List String)
  | [] => .error (.registry "REG_MULTI_SZ value is missing its block terminator")
  | c :: rest =>
      if c = 0 then
        if entry = [] then
          if rest.any (· != 0) then
            .error (.registry "REG_MULTI_SZ value has data after its block terminator")
          else
            .ok out
        else
          match decodeText "REG_MULTI_SZ entry" entry with
          | .ok s => splitMulti [] (out ++ [s]) rest
          | .error e => .error e
      else
        splitMulti (entry ++ [c]) out rest

/-- Decode the bytes of a string list. -/
def bytesToWideMulti (bytes : List UInt8) : Result (List String) :=
  if bytes = [] then
    .ok []
  else if bytes.length % 2 ≠ 0 then
    .error (.registry
      s!"REG_MULTI_SZ value has an odd byte length ({bytes.length}) — not valid UTF-16")
  else
    let words := Utf16.ofBytes bytes
    if words.getLast? ≠ some 0 then
      .error (.registry "REG_MULTI_SZ value is not NUL-terminated — corrupt or truncated")
    else
      splitMulti [] [] words

/-- The number in little-endian bytes. -/
def leValue : List UInt8 → Nat
  | [] => 0
  | b :: rest => b.toNat + 256 * leValue rest

/-- Decode a number of exactly the width its type announces. -/
def decodeU32 (name : String) (kind : UInt32) (bytes : List UInt8) : Result UInt32 :=
  if kind = regDword then
    if bytes.length = 4 then
      .ok (UInt32.ofNat (leValue bytes))
    else
      .error (.registry s!"value {name} is REG_DWORD but holds {bytes.length} bytes (expected 4)")
  else if kind = regQword then
    if bytes.length = 8 then
      let v := leValue bytes
      if v > 0xFFFFFFFF then
        .error (.registry s!"value {name} ({v}) exceeds the 32-bit range expected here")
      else
        .ok (UInt32.ofNat v)
    else
      .error (.registry s!"value {name} is REG_QWORD but holds {bytes.length} bytes (expected 8)")
  else
    .error (.registry s!"value {name} is not numeric")

/-! ## Encoders -/

/-- A string value: the units and one terminator. -/
def stringValue (kind : UInt32) (s : String) : RegValue :=
  ⟨kind, Utf16.toBytes (Utf16.encode s ++ [0])⟩

/-- A string-list value: every entry terminated, and the block terminator. -/
def multiValue (values : List String) : RegValue :=
  ⟨regMultiSz, Utf16.toBytes (values.flatMap (fun v => Utf16.encode v ++ [0]) ++ [0])⟩

/-- A number value: four little-endian bytes. -/
def dwordValue (v : UInt32) : RegValue :=
  ⟨regDword, [UInt8.ofNat (v.toNat % 256), UInt8.ofNat (v.toNat / 256 % 256),
    UInt8.ofNat (v.toNat / 65536 % 256), UInt8.ofNat (v.toNat / 16777216 % 256)]⟩

/-! ## Round trips -/

theorem contains_nul_iff (s : String) :
    Text.contains s '\x00' = true ↔ (0 : UInt16) ∈ Utf16.encode s := by
  rw [Utf16.mem_encode_of_lt (by decide), Text.contains, List.contains_iff_mem]
  constructor
  · intro hmem
    exact ⟨'\x00', hmem, rfl⟩
  · rintro ⟨c, hc, hzero⟩
    have hnul : c = '\x00' := Char.toNat_inj.mp hzero
    rwa [← hnul]

@[simp]
theorem decodeText_encode (subject s : String) :
    decodeText subject (Utf16.encode s) = .ok s := by
  simp [decodeText]

theorem toBytes_append_ne_nil (units : Name) (u : UInt16) :
    Utf16.toBytes (units ++ [u]) ≠ [] := by
  intro hnil
  have hlength := congrArg List.length hnil
  simp at hlength

theorem stringValue_decodes (kind : UInt32) {s : String}
    (hs : Text.contains s '\x00' = false) :
    bytesToWideString (stringValue kind s).data = .ok s := by
  have hzero : (0 : UInt16) ∉ Utf16.encode s := by
    rw [← contains_nul_iff, hs]
    decide
  have hfind : (Utf16.encode s ++ [0]).findIdx? (· == 0) = some (Utf16.encode s).length := by
    rw [List.findIdx?_append]
    have hnone : (Utf16.encode s).findIdx? (· == 0) = none := by
      rw [List.findIdx?_eq_none_iff]
      intro u hu
      simp only [beq_eq_false_iff_ne]
      rintro rfl
      exact hzero hu
    simp [hnone]
  simp only [bytesToWideString, stringValue, toBytes_append_ne_nil, if_false,
    Utf16.length_toBytes, Utf16.ofBytes_toBytes, hfind]
  simp

theorem splitMulti_entry (entry : Name) (out : List String) (word : Name)
    (rest : Name) (hword : (0 : UInt16) ∉ word) :
    splitMulti entry out (word ++ rest) = splitMulti (entry ++ word) out rest := by
  induction word generalizing entry with
  | nil => simp
  | cons c word ih =>
      rw [List.mem_cons, not_or] at hword
      rw [List.cons_append, splitMulti, if_neg (fun h => hword.1 h.symm), ih _ hword.2]
      simp

theorem splitMulti_values (values : List String) (out : List String) (n : Nat)
    (hvalues : ∀ v ∈ values, Text.contains v '\x00' = false ∧ v ≠ "") :
    splitMulti [] out
      (values.flatMap (fun v => Utf16.encode v ++ [0]) ++ List.replicate (n + 1) 0) =
        .ok (out ++ values) := by
  induction values generalizing out with
  | nil =>
      have hzeros : (List.replicate n (0 : UInt16)).any (· != 0) = false := by simp
      rw [List.flatMap_nil, List.nil_append, List.replicate_succ, splitMulti, if_pos rfl,
        if_pos rfl, hzeros]
      simp
  | cons v values ih =>
      obtain ⟨hnul, hempty⟩ := hvalues v (by simp)
      have hzero : (0 : UInt16) ∉ Utf16.encode v := by
        rw [← contains_nul_iff, hnul]
        decide
      have hentry : Utf16.encode v ≠ [] := fun h => hempty ((Utf16.encode_eq_nil_iff v).mp h)
      rw [List.flatMap_cons, List.append_assoc, List.append_assoc,
        splitMulti_entry _ _ _ _ hzero]
      simp only [List.nil_append, List.cons_append, splitMulti, if_true, hentry, if_false,
        decodeText_encode]
      rw [ih _ (fun w hw => hvalues w (by simp [hw]))]
      simp

theorem multiValue_decodes {values : List String}
    (hvalues : ∀ v ∈ values, Text.contains v '\x00' = false ∧ v ≠ "") :
    bytesToWideMulti (multiValue values).data = .ok values := by
  have hsplit := splitMulti_values values [] 0 hvalues
  rw [List.nil_append] at hsplit
  simp only [bytesToWideMulti, multiValue, toBytes_append_ne_nil, if_false,
    Utf16.length_toBytes, Utf16.ofBytes_toBytes, List.getLast?_append]
  simpa using hsplit

theorem dwordValue_decodes (name : String) (v : UInt32) :
    decodeU32 name (dwordValue v).kind (dwordValue v).data = .ok v := by
  have hbound : v.toNat < 4294967296 := v.toNat_lt
  have hvalue : leValue (dwordValue v).data = v.toNat := by
    simp only [dwordValue, leValue, UInt8.toNat_ofNat']
    omega
  have hlength : (dwordValue v).data.length = 4 := rfl
  have hkind : (dwordValue v).kind = regDword := rfl
  rw [decodeU32, if_pos hkind, if_pos hlength, hvalue, UInt32.ofNat_toNat]

theorem length_stringValue (kind : UInt32) (s : String) :
    (stringValue kind s).data.length = 2 * (Utf16.encode s).length + 2 := by
  simp only [stringValue, Utf16.length_toBytes, List.length_append, List.length_singleton]
  omega

/-! ## What decodes -/

theorem decodeText_eq_ok {subject s : String} {words : Name} :
    decodeText subject words = .ok s ↔ words = Utf16.encode s := by
  constructor
  · intro hdecode
    unfold decodeText at hdecode
    split at hdecode
    · rename_i text htext
      cases hdecode
      exact (Utf16.encode_of_decode htext).symm
    · cases hdecode
  · rintro rfl
    exact decodeText_encode subject s

/-- Units that are all terminators. -/
theorem any_ne_zero_eq_false {words : Name} :
    words.any (· != 0) = false ↔ words = List.replicate words.length 0 := by
  rw [List.any_eq_false, List.eq_replicate_iff]
  simp

/-- The bytes of a string value that decodes: the text, then terminators only. -/
def StringForm (bytes : List UInt8) (s : String) : Prop :=
  bytes.length % 2 = 0 ∧ Text.contains s '\x00' = false ∧
    ∃ n, Utf16.ofBytes bytes = Utf16.encode s ++ List.replicate n 0

theorem zero_not_mem_encode {s : String} (hs : Text.contains s '\x00' = false) :
    (0 : UInt16) ∉ Utf16.encode s := by
  rw [← contains_nul_iff, hs]
  decide

theorem noNul_of_zero_not_mem {s : String} (hzero : (0 : UInt16) ∉ Utf16.encode s) :
    Text.contains s '\x00' = false := by
  rw [← Bool.not_eq_true, contains_nul_iff]
  exact hzero

theorem takeWhile_terminator {front : Name} (hfront : (0 : UInt16) ∉ front) (back : Name) :
    (front ++ 0 :: back).takeWhile (· != 0) = front := by
  rw [List.takeWhile_append_of_pos fun u hu => ?_, List.takeWhile_cons_of_neg (by decide),
    List.append_nil]
  rw [bne_iff_ne]
  rintro rfl
  exact hfront hu

/-- The text of units that end in terminators is what stands before the first of them. -/
theorem encode_eq_front {front back : Name} {s : String} {n : Nat}
    (hfront : (0 : UInt16) ∉ front) (hs : Text.contains s '\x00' = false)
    (hwords : front ++ 0 :: back = Utf16.encode s ++ List.replicate n 0) :
    front = Utf16.encode s ∧ 0 :: back = List.replicate n 0 := by
  have hsame : front = Utf16.encode s := by
    cases n with
    | zero =>
        have hmem : (0 : UInt16) ∈ Utf16.encode s := by
          rw [List.replicate_zero, List.append_nil] at hwords
          rw [← hwords]
          simp
        exact absurd hmem (zero_not_mem_encode hs)
    | succ n =>
        rw [List.replicate_succ] at hwords
        have hcut := congrArg (List.takeWhile (· != 0)) hwords
        rwa [takeWhile_terminator hfront, takeWhile_terminator (zero_not_mem_encode hs)] at hcut
  subst hsame
  exact ⟨rfl, List.append_cancel_left hwords⟩

/-- Which string values decode, and as what. -/
theorem bytesToWideString_eq_ok {bytes : List UInt8} {s : String} :
    bytesToWideString bytes = .ok s ↔ StringForm bytes s := by
  unfold bytesToWideString StringForm
  by_cases hempty : bytes = []
  · subst hempty
    rw [if_pos rfl]
    constructor
    · intro h
      cases h
      exact ⟨rfl, by decide, 0, rfl⟩
    · rintro ⟨-, -, n, hwords⟩
      have hs : Utf16.encode s = [] := (List.append_eq_nil_iff.mp hwords.symm).1
      rw [(Utf16.encode_eq_nil_iff s).mp hs]
  rw [if_neg hempty]
  by_cases hodd : bytes.length % 2 ≠ 0
  · rw [if_pos hodd]
    exact iff_of_false (by simp) fun h => hodd h.1
  rw [if_neg hodd]
  rw [not_not] at hodd
  simp only [hodd, true_and]
  generalize Utf16.ofBytes bytes = words
  by_cases hmem : (0 : UInt16) ∈ words
  · obtain ⟨front, back, rfl, hfront⟩ := List.eq_append_cons_of_mem hmem
    have hfind : (front ++ 0 :: back).findIdx? (· == 0) = some front.length := by
      rw [List.findIdx?_append, List.findIdx?_eq_none_iff.mpr]
      · simp [List.findIdx?_cons]
      · intro u hu
        rw [beq_eq_false_iff_ne]
        rintro rfl
        exact hfront hu
    have hdrop : (front ++ 0 :: back).drop (front.length + 1) = back := by simp
    simp only [hfind, hdrop, List.take_left]
    cases hback : back.any (· != 0) with
    | true =>
        rw [if_pos rfl]
        refine iff_of_false (by simp) ?_
        rintro ⟨hs, n, hwords⟩
        have hzeros := (encode_eq_front hfront hs hwords).2
        obtain ⟨u, hu, hnonzero⟩ := List.any_eq_true.mp hback
        have hzero := List.eq_of_mem_replicate (hzeros ▸ List.mem_cons_of_mem 0 hu)
        rw [hzero] at hnonzero
        cases hnonzero
    | false =>
        rw [if_neg Bool.false_ne_true, decodeText_eq_ok]
        rw [any_ne_zero_eq_false] at hback
        constructor
        · rintro rfl
          refine ⟨noNul_of_zero_not_mem hfront, back.length + 1, ?_⟩
          rw [List.replicate_succ, ← hback]
        · rintro ⟨hs, n, hwords⟩
          exact (encode_eq_front hfront hs hwords).1
  · have hfind : words.findIdx? (· == 0) = none := by
      rw [List.findIdx?_eq_none_iff]
      intro u hu
      rw [beq_eq_false_iff_ne]
      rintro rfl
      exact hmem hu
    simp only [hfind, decodeText_eq_ok]
    constructor
    · rintro rfl
      exact ⟨noNul_of_zero_not_mem hmem, 0, by simp⟩
    · rintro ⟨-, n, rfl⟩
      cases n with
      | zero => simp
      | succ n => exact absurd (by simp [List.replicate_succ]) hmem

/-- Whatever decodes holds no terminator. -/
theorem noNul_of_bytesToWideString {bytes : List UInt8} {s : String}
    (hdecode : bytesToWideString bytes = .ok s) : Text.contains s '\x00' = false :=
  (bytesToWideString_eq_ok.mp hdecode).2.1

/-- An entry of a string list: it holds no terminator and is not empty. -/
def StorableEntry (s : String) : Prop :=
  Text.contains s '\x00' = false ∧ s ≠ ""

/-- The units of the entries of a list, each with its terminator. -/
def entryUnits (values : List String) : Name :=
  values.flatMap fun v => Utf16.encode v ++ [0]

/-- The bytes of a string list that decodes: nothing, or the entries and then one or more
terminators. -/
def MultiForm (bytes : List UInt8) (values : List String) : Prop :=
  (bytes = [] ∧ values = []) ∨
    (bytes.length % 2 = 0 ∧ (∀ v ∈ values, StorableEntry v) ∧
      ∃ n, Utf16.ofBytes bytes = entryUnits values ++ List.replicate (n + 1) 0)

/-- The walk accepts the rest of an entry, further entries and the terminators, and returns
the entries behind those it had. -/
theorem of_splitMulti {words entry : Name} {out values : List String}
    (hsplit : splitMulti entry out words = .ok values) (hentry : (0 : UInt16) ∉ entry) :
    ∃ found n, values = out ++ found ∧ (∀ v ∈ found, StorableEntry v) ∧
      entry ++ words = entryUnits found ++ List.replicate (n + 1) 0 := by
  induction words generalizing entry out with
  | nil => cases hsplit
  | cons c rest ih =>
      rw [splitMulti] at hsplit
      by_cases hc : c = 0
      · rw [if_pos hc] at hsplit
        subst hc
        by_cases hempty : entry = []
        · rw [if_pos hempty] at hsplit
          subst hempty
          cases hback : rest.any (· != 0) with
          | true =>
              rw [hback, if_pos rfl] at hsplit
              cases hsplit
          | false =>
              rw [hback, if_neg Bool.false_ne_true] at hsplit
              cases hsplit
              rw [any_ne_zero_eq_false] at hback
              refine ⟨[], rest.length, by simp, by simp, ?_⟩
              rw [List.replicate_succ, ← hback]
              rfl
        · rw [if_neg hempty] at hsplit
          rcases htext : decodeText "REG_MULTI_SZ entry" entry with e | s
          · rw [htext] at hsplit
            cases hsplit
          · rw [htext] at hsplit
            rw [decodeText_eq_ok] at htext
            subst htext
            obtain ⟨found, n, rfl, hfound, hwords⟩ := ih hsplit (by simp)
            refine ⟨s :: found, n, by simp, ?_, ?_⟩
            · rw [List.forall_mem_cons]
              refine ⟨⟨noNul_of_zero_not_mem hentry, ?_⟩, hfound⟩
              rintro rfl
              exact hempty rfl
            · rw [List.nil_append] at hwords
              rw [hwords]
              simp [entryUnits]
      · rw [if_neg hc] at hsplit
        obtain ⟨found, n, hvalues, hfound, hwords⟩ := ih hsplit (by
          rw [List.mem_append, List.mem_singleton, not_or]
          exact ⟨hentry, fun h => hc h.symm⟩)
        rw [List.append_assoc, List.singleton_append] at hwords
        exact ⟨found, n, hvalues, hfound, hwords⟩

/-- Which string lists decode, and as what. -/
theorem bytesToWideMulti_eq_ok {bytes : List UInt8} {values : List String} :
    bytesToWideMulti bytes = .ok values ↔ MultiForm bytes values := by
  unfold bytesToWideMulti MultiForm
  by_cases hempty : bytes = []
  · subst hempty
    rw [if_pos rfl]
    constructor
    · intro h
      cases h
      exact .inl ⟨rfl, rfl⟩
    · rintro (⟨-, rfl⟩ | ⟨-, -, n, hwords⟩)
      · rfl
      · have hlength := congrArg List.length hwords
        simp [Utf16.ofBytes] at hlength
  rw [if_neg hempty]
  by_cases hodd : bytes.length % 2 ≠ 0
  · rw [if_pos hodd]
    refine iff_of_false (by simp) ?_
    rintro (⟨h, -⟩ | ⟨h, -⟩)
    · exact hempty h
    · exact hodd h
  rw [if_neg hodd]
  rw [not_not] at hodd
  simp only [hempty, hodd, false_and, false_or, true_and]
  generalize Utf16.ofBytes bytes = words
  constructor
  · intro hdecode
    split at hdecode
    · cases hdecode
    · obtain ⟨found, n, rfl, hfound, hwords⟩ := of_splitMulti hdecode (by simp)
      exact ⟨hfound, n, hwords⟩
  · rintro ⟨hvalues, n, rfl⟩
    have hlast : (entryUnits values ++ List.replicate (n + 1) 0).getLast? = some 0 := by
      rw [List.replicate_succ', ← List.append_assoc, List.getLast?_append]
      rfl
    rw [if_neg (by simp [hlast])]
    exact splitMulti_values values [] n hvalues

theorem storable_of_bytesToWideMulti {bytes : List UInt8} {values : List String}
    (hdecode : bytesToWideMulti bytes = .ok values) : ∀ v ∈ values, StorableEntry v := by
  rcases bytesToWideMulti_eq_ok.mp hdecode with ⟨-, rfl⟩ | ⟨-, hvalues, -⟩
  · simp
  · exact hvalues

end Ngsm.Registry
