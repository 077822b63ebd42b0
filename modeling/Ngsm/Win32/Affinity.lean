/-
# The processors of a service

A service can be restricted to some processors by a text such as `0-2,4`.  The parser turns the
text into a mask with one bit for each processor.  The text is accepted exactly if it follows
the grammar and every processor in it is available, and the mask has the bits it lists.
-/

import Mathlib.Data.List.Forall2
import Ngsm.Core.Config
import Ngsm.Lib.Program
import Ngsm.Lib.Text

namespace Ngsm.Win32

open Ngsm.Lib Ngsm.Core

/-- How the parser fails: it refuses the text, or a shift leaves the word and panics. -/
inductive AffinityFault where
  | refused (error : Error)
  | shiftOverflow
  deriving DecidableEq, Repr

def invalidAffinity : AffinityFault :=
  .refused (.invalidConfig ("AppAffinity must be CPU IDs/ranges (for example 0-2,4) available " ++
    "in processor group 0"))

-- the size of a word, `usize::BITS`
variable (bits : UInt32)

/-- `1usize << cpu`, which panics where it overflows. -/
def shiftOne (cpu : Nat) : Except AffinityFault (BitVec bits.toNat) :=
  if cpu < bits.toNat then .ok (1#(bits.toNat) <<< cpu) else .error .shiftOverflow

def parseCpu (digits : String) : Except AffinityFault Nat :=
  match Text.parseU32 digits with
  | some cpu => .ok cpu
  | none => .error invalidAffinity

/-- Set the bit of every processor in a range. -/
def setCpus (mask : BitVec bits.toNat) (first last : Nat) :
    Except AffinityFault (BitVec bits.toNat) :=
  (List.range' first (last + 1 - first)).foldlM
    (fun mask cpu => do return mask ||| (← shiftOne bits cpu)) mask

def parseAffinityPart (mask : BitVec bits.toNat) (part : String) :
    Except AffinityFault (BitVec bits.toNat) := do
  let (first, last) := (Text.splitOnce part '-').getD (part, part)
  if first.isEmpty || last.isEmpty || !first.toList.all Char.isDigit ||
      !last.toList.all Char.isDigit then
    throw invalidAffinity
  let first ← parseCpu first
  let last ← parseCpu last
  if first > last ∨ last ≥ bits.toNat then
    throw invalidAffinity
  setCpus bits mask first last

def parseAffinity (value : String) (available : BitVec bits.toNat) :
    Except AffinityFault (BitVec bits.toNat) := do
  let mask ← (Text.split value ',').foldlM (parseAffinityPart bits) 0
  if mask = 0 ∨ mask &&& ~~~available ≠ 0 then
    throw invalidAffinity
  return mask

example : parseAffinity 32 "0-2,4" 0xFF = .ok 0x17 := by decide

example : parseAffinity 32 "2-1" 0xFF = .error invalidAffinity := by decide

/-! ## Grammar -/

/-- A decimal number, leading zeros included. -/
def Decimal (text : List Char) (n : Nat) : Prop :=
  text ≠ [] ∧ (∀ c ∈ text, c.isDigit = true) ∧ Nat.ofDigitChars 10 text 0 = n

/-- A part of the text: one processor, or a range of processors. -/
inductive Part : List Char → Nat × Nat → Prop where
  | cpu {text : List Char} {n : Nat} (hcpu : Decimal text n) : Part text (n, n)
  | range {first last : List Char} {n m : Nat} (hfirst : Decimal first n)
      (hlast : Decimal last m) : Part (first ++ '-' :: last) (n, m)

/-- A text lists ranges: its parts, with commas between them. -/
def Lists (value : String) (ranges : List (Nat × Nat)) : Prop :=
  ∃ texts, texts ≠ [] ∧ value.toList = [','].intercalate texts ∧ List.Forall₂ Part texts ranges

/-- The processors of a list of ranges. -/
def Covered (ranges : List (Nat × Nat)) (cpu : Nat) : Prop :=
  ∃ range ∈ ranges, range.1 ≤ cpu ∧ cpu ≤ range.2

instance (ranges : List (Nat × Nat)) (cpu : Nat) : Decidable (Covered ranges cpu) :=
  inferInstanceAs (Decidable (∃ range ∈ ranges, range.1 ≤ cpu ∧ cpu ≤ range.2))

/-- A text is accepted, with a mask: it lists ranges that are not reversed, every processor in
them is within the word and available, and the mask has exactly their bits. -/
def Accepted (value : String) (available mask : BitVec bits.toNat) : Prop :=
  ∃ ranges, Lists value ranges ∧ (∀ range ∈ ranges, range.1 ≤ range.2) ∧
    (∀ cpu, Covered ranges cpu → cpu < bits.toNat ∧ available.getLsbD cpu = true) ∧
      ∀ cpu, mask.getLsbD cpu = decide (Covered ranges cpu)

/-! ## Numbers -/

section

variable {text : List Char} {n : Nat}

theorem isDigit_ne {c d : Char} (hc : c.isDigit = true) (hd : d.isDigit = false) : c ≠ d := by
  rintro rfl
  rw [hc] at hd
  cases hd

theorem not_mem_of_decimal (hnumber : Decimal text n) {c : Char} (hc : c.isDigit = false) :
    c ∉ text :=
  fun hmem => isDigit_ne (hnumber.2.1 c hmem) hc rfl

theorem parseDigits_eq (hsome : text ≠ []) (hdigits : ∀ c ∈ text, c.isDigit = true) :
    Text.parseDigits text = some (Nat.ofDigitChars 10 text 0) := by
  rw [Text.parseDigits, if_pos ⟨hsome, List.all_eq_true.mpr hdigits⟩,
    Text.digitsValue_eq_ofDigitChars]

/-- A number is parsed if it fits into 32 bits. -/
theorem parseCpu_eq (hsome : text ≠ []) (hdigits : ∀ c ∈ text, c.isDigit = true) :
    parseCpu (String.ofList text) =
      if Nat.ofDigitChars 10 text 0 < 2 ^ 32 then .ok (Nat.ofDigitChars 10 text 0)
      else .error invalidAffinity := by
  have hparse : Text.parseU32 (String.ofList text) =
      if Nat.ofDigitChars 10 text 0 < 2 ^ 32 then some (Nat.ofDigitChars 10 text 0)
      else none := by
    unfold Text.parseU32
    split
    · rename_i rest hplus
      rw [String.toList_ofList] at hplus
      exact absurd rfl (isDigit_ne (hdigits '+' (by simp [hplus])) (by decide))
    · rw [String.toList_ofList, parseDigits_eq hsome hdigits, Option.bind_some]
  rw [parseCpu, hparse]
  by_cases hfits : Nat.ofDigitChars 10 text 0 < 2 ^ 32
  · rw [if_pos hfits, if_pos hfits]
  · rw [if_neg hfits, if_neg hfits]

end

/-! ## Masks -/

section

variable {bits} {mask : BitVec bits.toNat}

/-- A mask has the bits of another one and those of a range. -/
def Extends (mask : BitVec bits.toNat) (range : Nat × Nat) (mask' : BitVec bits.toNat) : Prop :=
  ∀ cpu, mask'.getLsbD cpu = (mask.getLsbD cpu || decide (range.1 ≤ cpu ∧ cpu ≤ range.2))

theorem getLsbD_setCpu {cpu : Nat} (hcpu : cpu < bits.toNat) (i : Nat) :
    (mask ||| 1#(bits.toNat) <<< cpu).getLsbD i = (mask.getLsbD i || decide (cpu = i)) := by
  rw [BitVec.getLsbD_or, ← BitVec.twoPow_eq, BitVec.getLsbD_twoPow, decide_eq_true hcpu,
    Bool.true_and]

/-- No shift overflows where the range ends within the word. -/
theorem foldlM_setCpu (first count : Nat) (hend : first + count ≤ bits.toNat)
    (mask : BitVec bits.toNat) :
    ∃ mask', (List.range' first count).foldlM
        (fun mask cpu => do return mask ||| (← shiftOne bits cpu)) mask = .ok mask' ∧
      ∀ i, mask'.getLsbD i = (mask.getLsbD i || decide (first ≤ i ∧ i < first + count)) := by
  induction count generalizing first mask with
  | zero =>
      refine ⟨mask, rfl, fun i => ?_⟩
      rw [decide_eq_false (by omega), Bool.or_false]
  | succ count ih =>
      have hfirst : first < bits.toNat := by omega
      obtain ⟨mask', hrun, hbits⟩ := ih (first + 1) (by omega) (mask ||| 1#(bits.toNat) <<< first)
      refine ⟨mask', ?_, fun i => ?_⟩
      · rw [List.range'_succ, List.foldlM_cons, shiftOne, if_pos hfirst]
        exact hrun
      · rw [hbits, getLsbD_setCpu hfirst, Bool.or_assoc, ← Bool.decide_or]
        congr 2
        rw [eq_iff_iff]
        omega

theorem setCpus_ok {first last : Nat} (horder : first ≤ last) (hlast : last < bits.toNat)
    (mask : BitVec bits.toNat) :
    ∃ mask', setCpus bits mask first last = .ok mask' ∧ Extends mask (first, last) mask' := by
  obtain ⟨mask', hrun, hbits⟩ := foldlM_setCpu first (last + 1 - first) (by omega) mask
  refine ⟨mask', hrun, fun i => ?_⟩
  rw [hbits]
  congr 2
  rw [eq_iff_iff]
  omega

end

/-! ## Parts -/

/-- The check of the parser on the shape of a part. -/
theorem shape_eq_false_iff (first last : List Char) :
    ((String.ofList first).isEmpty || (String.ofList last).isEmpty ||
      !(String.ofList first).toList.all Char.isDigit ||
        !(String.ofList last).toList.all Char.isDigit) = false ↔
      (∃ n, Decimal first n) ∧ ∃ m, Decimal last m := by
  have hshape : ∀ text, (∃ n, Decimal text n) ↔ text ≠ [] ∧ ∀ c ∈ text, c.isDigit = true := by
    intro text
    constructor
    · rintro ⟨n, hsome, hdigits, -⟩
      exact ⟨hsome, hdigits⟩
    · rintro ⟨hsome, hdigits⟩
      exact ⟨_, hsome, hdigits, rfl⟩
  rw [hshape, hshape]
  simp only [Bool.or_eq_false_iff, Bool.not_eq_false', List.all_eq_true, String.toList_ofList,
    String.isEmpty_eq_false_iff, Ne, String.ofList_eq_empty_iff]
  constructor
  · rintro ⟨⟨⟨hfirst, hlast⟩, hdigits⟩, hdigits'⟩
    exact ⟨⟨hfirst, hdigits⟩, hlast, hdigits'⟩
  · rintro ⟨⟨hfirst, hdigits⟩, hlast, hdigits'⟩
    exact ⟨⟨⟨hfirst, hlast⟩, hdigits⟩, hdigits'⟩

section

variable {bits} {mask : BitVec bits.toNat} {part : String} {first last : List Char}
  (hsplit : (Text.splitOnce part '-').getD (part, part) =
    (String.ofList first, String.ofList last))

include hsplit

theorem parseAffinityPart_of_numbers {n m : Nat} (hfirst : Decimal first n)
    (hlast : Decimal last m) :
    parseAffinityPart bits mask part =
      if n ≤ m ∧ m < bits.toNat then setCpus bits mask n m else .error invalidAffinity := by
  obtain ⟨hfirst, hfirstDigits, rfl⟩ := hfirst
  obtain ⟨hlast, hlastDigits, rfl⟩ := hlast
  have hword : bits.toNat < 2 ^ 32 := bits.toNat_lt
  have hshape := (shape_eq_false_iff first last).mpr
    ⟨⟨_, hfirst, hfirstDigits, rfl⟩, ⟨_, hlast, hlastDigits, rfl⟩⟩
  unfold parseAffinityPart
  rw [hsplit]
  dsimp only
  rw [if_neg (by rw [hshape]; decide), parseCpu_eq hfirst hfirstDigits,
    parseCpu_eq hlast hlastDigits]
  by_cases hrange : Nat.ofDigitChars 10 first 0 ≤ Nat.ofDigitChars 10 last 0 ∧
      Nat.ofDigitChars 10 last 0 < bits.toNat
  · rw [if_pos hrange, if_pos (by omega), if_pos (by omega)]
    simp only [bind, Except.bind]
    rw [if_neg (by omega)]
  · rw [if_neg hrange]
    split
    · split
      · simp only [bind, Except.bind]
        rw [if_pos (by omega)]
        rfl
      · rfl
    · rfl

theorem parseAffinityPart_of_other
    (hother : (∀ n, ¬ Decimal first n) ∨ ∀ m, ¬ Decimal last m) :
    parseAffinityPart bits mask part = .error invalidAffinity := by
  have hnumbers : ¬ ((∃ n, Decimal first n) ∧ ∃ m, Decimal last m) := by
    rintro ⟨⟨n, hfirst⟩, ⟨m, hlast⟩⟩
    rcases hother with hnone | hnone
    · exact hnone n hfirst
    · exact hnone m hlast
  have hshape := mt (shape_eq_false_iff first last).mp hnumbers
  rw [Bool.not_eq_false] at hshape
  unfold parseAffinityPart
  rw [hsplit]
  dsimp only
  rw [hshape]
  rfl

end

section

variable {bits} {part : String}

/-- A part of the grammar is split as the parser splits it. -/
theorem split_of_part {range : Nat × Nat} (hpart : Part part.toList range) :
    ∃ first last, (Text.splitOnce part '-').getD (part, part) =
        (String.ofList first, String.ofList last) ∧
      Decimal first range.1 ∧ Decimal last range.2 := by
  generalize htext : part.toList = text at hpart
  cases hpart with
  | cpu hcpu =>
      refine ⟨text, text, ?_, hcpu, hcpu⟩
      have hnone : '-' ∉ part.toList := by
        rw [htext]
        exact not_mem_of_decimal hcpu (by decide)
      rw [Text.splitOnce_none hnone, Option.getD_none, ← htext, String.ofList_toList]
  | range hfirst hlast =>
      refine ⟨_, _, ?_, hfirst, hlast⟩
      rw [Text.splitOnce_some htext (not_mem_of_decimal hfirst (by decide)), Option.getD_some]

/-- What the parser splits a part into is a part of the grammar, if it is numbers. -/
theorem part_of_split {first last : List Char} {n m : Nat}
    (hsplit : (Text.splitOnce part '-').getD (part, part) =
      (String.ofList first, String.ofList last))
    (hfirst : Decimal first n) (hlast : Decimal last m) : Part part.toList (n, m) := by
  rcases hparts : Text.splitOnce part '-' with _ | ⟨before, after⟩
  · rw [hparts, Option.getD_none, Prod.mk.injEq] at hsplit
    obtain ⟨hpart, hsame⟩ := hsplit
    have htexts : first = last := by
      rw [← String.toList_ofList (l := first), ← hpart, hsame, String.toList_ofList]
    subst htexts
    have hvalues : n = m := hfirst.2.2.symm.trans hlast.2.2
    rw [hpart, String.toList_ofList, hvalues]
    exact .cpu hlast
  · rw [hparts, Option.getD_some, Prod.mk.injEq] at hsplit
    obtain ⟨rfl, rfl⟩ := hsplit
    have hpart := Text.eq_of_splitOnce hparts
    rw [String.toList_ofList, String.toList_ofList] at hpart
    rw [hpart]
    exact .range hfirst hlast

theorem parseAffinityPart_ok {range : Nat × Nat} (hpart : Part part.toList range)
    (horder : range.1 ≤ range.2) (hword : range.2 < bits.toNat) (mask : BitVec bits.toNat) :
    ∃ mask', parseAffinityPart bits mask part = .ok mask' ∧ Extends mask range mask' := by
  obtain ⟨first, last, hsplit, hfirst, hlast⟩ := split_of_part hpart
  rw [parseAffinityPart_of_numbers hsplit hfirst hlast, if_pos ⟨horder, hword⟩]
  exact setCpus_ok horder hword mask

/-- A part is added to the mask if it is in the grammar, and refused otherwise. -/
theorem parseAffinityPart_result (mask : BitVec bits.toNat) (part : String) :
    (∃ mask' range, parseAffinityPart bits mask part = .ok mask' ∧ Part part.toList range ∧
      range.1 ≤ range.2 ∧ range.2 < bits.toNat ∧ Extends mask range mask') ∨
    parseAffinityPart bits mask part = .error invalidAffinity := by
  rcases hparts : (Text.splitOnce part '-').getD (part, part) with ⟨first, last⟩
  have hsplit : (Text.splitOnce part '-').getD (part, part) =
      (String.ofList first.toList, String.ofList last.toList) := by
    rw [hparts, String.ofList_toList, String.ofList_toList]
  by_cases hfirst : ∃ n, Decimal first.toList n
  · by_cases hlast : ∃ m, Decimal last.toList m
    · obtain ⟨n, hfirst⟩ := hfirst
      obtain ⟨m, hlast⟩ := hlast
      rw [parseAffinityPart_of_numbers hsplit hfirst hlast]
      by_cases hrange : n ≤ m ∧ m < bits.toNat
      · left
        obtain ⟨mask', hset, hextends⟩ := setCpus_ok hrange.1 hrange.2 mask
        refine ⟨mask', (n, m), ?_, part_of_split hsplit hfirst hlast, hrange.1, hrange.2,
          hextends⟩
        rw [if_pos hrange, hset]
      · right
        rw [if_neg hrange]
    · right
      exact parseAffinityPart_of_other hsplit (.inr (not_exists.mp hlast))
  · right
    exact parseAffinityPart_of_other hsplit (.inl (not_exists.mp hfirst))

end

/-! ## Lists of parts -/

section

variable {bits} {mask available : BitVec bits.toNat} {value : String}
  {ranges : List (Nat × Nat)}

theorem covered_cons {range : Nat × Nat} {cpu : Nat} :
    Covered (range :: ranges) cpu ↔
      (range.1 ≤ cpu ∧ cpu ≤ range.2) ∨ Covered ranges cpu := by
  simp [Covered]

/-- A mask with the bits of one range, extended by the bits of the others. -/
theorem extends_cons {range : Nat × Nat} {mask' mask'' : BitVec bits.toNat}
    (hfirst : Extends mask range mask')
    (hrest : ∀ cpu, mask''.getLsbD cpu = (mask'.getLsbD cpu || decide (Covered ranges cpu))) :
    ∀ cpu, mask''.getLsbD cpu =
      (mask.getLsbD cpu || decide (Covered (range :: ranges) cpu)) := by
  intro cpu
  rw [hrest, hfirst, Bool.or_assoc, ← Bool.decide_or]
  congr 2
  rw [covered_cons]

theorem foldlM_part_ok {parts : List String}
    (hparts : List.Forall₂ (fun part range => Part part.toList range) parts ranges)
    (horder : ∀ range ∈ ranges, range.1 ≤ range.2)
    (hword : ∀ range ∈ ranges, range.2 < bits.toNat) (mask : BitVec bits.toNat) :
    ∃ mask', parts.foldlM (parseAffinityPart bits) mask = .ok mask' ∧
      ∀ cpu, mask'.getLsbD cpu = (mask.getLsbD cpu || decide (Covered ranges cpu)) := by
  induction hparts generalizing mask with
  | nil =>
      refine ⟨mask, rfl, fun cpu => ?_⟩
      simp [Covered]
  | cons hpart _ ih =>
      rw [List.forall_mem_cons] at horder hword
      obtain ⟨mask', hrun, hextends⟩ := parseAffinityPart_ok hpart horder.1 hword.1 mask
      obtain ⟨mask'', hrest, hbits⟩ := ih horder.2 hword.2 mask'
      refine ⟨mask'', ?_, extends_cons hextends hbits⟩
      rw [List.foldlM_cons, hrun]
      exact hrest

theorem foldlM_part_result (parts : List String) (mask : BitVec bits.toNat) :
    (∃ mask' ranges, parts.foldlM (parseAffinityPart bits) mask = .ok mask' ∧
      List.Forall₂ (fun part range => Part part.toList range) parts ranges ∧
      (∀ range ∈ ranges, range.1 ≤ range.2) ∧ (∀ range ∈ ranges, range.2 < bits.toNat) ∧
      ∀ cpu, mask'.getLsbD cpu = (mask.getLsbD cpu || decide (Covered ranges cpu))) ∨
    parts.foldlM (parseAffinityPart bits) mask = .error invalidAffinity := by
  induction parts generalizing mask with
  | nil =>
      left
      refine ⟨mask, [], rfl, .nil, by simp, by simp, fun cpu => ?_⟩
      simp [Covered]
  | cons part parts ih =>
      rw [List.foldlM_cons]
      rcases parseAffinityPart_result mask part with
        ⟨mask', range, hrun, hpart, horder, hword, hextends⟩ | hrefused
      · rw [hrun]
        rcases ih mask' with ⟨mask'', ranges, hrest, hparts, horders, hwords, hbits⟩ | hrefused
        · left
          refine ⟨mask'', range :: ranges, hrest, .cons hpart hparts, ?_, ?_,
            extends_cons hextends hbits⟩
          · exact List.forall_mem_cons.mpr ⟨horder, horders⟩
          · exact List.forall_mem_cons.mpr ⟨hword, hwords⟩
        · right
          exact hrefused
      · right
        rw [hrefused]
        rfl

theorem not_mem_of_part {text : List Char} {range : Nat × Nat} (hpart : Part text range) :
    ',' ∉ text := by
  cases hpart with
  | cpu hcpu => exact not_mem_of_decimal hcpu (by decide)
  | range hfirst hlast =>
      intro hmem
      rcases List.mem_append.mp hmem with hmem | hmem
      · exact not_mem_of_decimal hfirst (by decide) hmem
      · rcases List.mem_cons.mp hmem with hdash | hmem
        · exact absurd hdash (by decide)
        · exact not_mem_of_decimal hlast (by decide) hmem

theorem not_mem_of_parts {texts : List (List Char)} (hparts : List.Forall₂ Part texts ranges) :
    ∀ text ∈ texts, ',' ∉ text := by
  induction hparts with
  | nil => simp
  | cons hpart _ ih => exact List.forall_mem_cons.mpr ⟨not_mem_of_part hpart, ih⟩

/-- The parts between the commas are the parts of the grammar. -/
theorem lists_iff : Lists value ranges ↔
    List.Forall₂ (fun part range => Part part.toList range) (Text.split value ',') ranges := by
  rw [Text.split, List.forall₂_map_left_iff]
  simp only [String.toList_ofList]
  constructor
  · rintro ⟨texts, hsome, hvalue, hparts⟩
    rwa [hvalue, List.splitOn_intercalate ',' (not_mem_of_parts hparts) hsome]
  · intro hparts
    exact ⟨_, List.splitOn_ne_nil _ _, (List.intercalate_splitOn ',').symm, hparts⟩

theorem unavailable_iff : mask &&& ~~~available ≠ 0 ↔
    ∃ cpu, mask.getLsbD cpu = true ∧ available.getLsbD cpu = false := by
  constructor
  · intro hsome
    by_contra hnone
    apply hsome
    apply BitVec.eq_of_getLsbD_eq
    intro cpu hcpu
    rw [BitVec.getLsbD_and, BitVec.getLsbD_not, decide_eq_true hcpu, Bool.true_and]
    cases hmask : mask.getLsbD cpu with
    | false => simp
    | true =>
        cases havailable : available.getLsbD cpu with
        | false => exact absurd ⟨cpu, hmask, havailable⟩ hnone
        | true => simp
  · rintro ⟨cpu, hmask, havailable⟩ hzero
    have hcpu : cpu < bits.toNat := BitVec.lt_of_getLsbD hmask
    have hbit : (mask &&& ~~~available).getLsbD cpu = (0 : BitVec bits.toNat).getLsbD cpu := by
      rw [hzero]
    rw [BitVec.getLsbD_and, BitVec.getLsbD_not, hmask, havailable, decide_eq_true hcpu] at hbit
    simp at hbit

/-- A list of ranges that are not reversed covers a processor. -/
theorem exists_covered (hlists : Lists value ranges)
    (horder : ∀ range ∈ ranges, range.1 ≤ range.2) : ∃ cpu, Covered ranges cpu := by
  obtain ⟨texts, hsome, -, hparts⟩ := hlists
  cases hparts with
  | nil => exact absurd rfl hsome
  | cons =>
      rename_i range _ _ _ _
      exact ⟨range.1, covered_cons.mpr (.inl ⟨Nat.le_refl _, horder range (by simp)⟩)⟩

end

/-! ## The parser -/

section

variable {bits} {mask available : BitVec bits.toNat} {value : String}

theorem parseAffinity_of_accepted (haccepted : Accepted bits value available mask) :
    parseAffinity bits value available = .ok mask := by
  obtain ⟨ranges, hlists, horder, hcpus, hmask⟩ := haccepted
  have hword : ∀ range ∈ ranges, range.2 < bits.toNat := fun range hrange =>
    (hcpus range.2 ⟨range, hrange, horder range hrange, Nat.le_refl _⟩).1
  obtain ⟨mask', hrun, hbits⟩ := foldlM_part_ok (lists_iff.mp hlists) horder hword 0
  have hsame : mask' = mask := by
    apply BitVec.eq_of_getLsbD_eq
    intro cpu _
    rw [hbits, hmask]
    simp
  subst hsame
  obtain ⟨cpu, hcovered⟩ := exists_covered hlists horder
  have hset : mask'.getLsbD cpu = true := by rw [hmask, decide_eq_true hcovered]
  have hnonzero : mask' ≠ 0 := by
    rintro rfl
    simp at hset
  have havailable : ¬ (mask' &&& ~~~available ≠ 0) := by
    rw [unavailable_iff]
    rintro ⟨cpu, hset, hmissing⟩
    rw [hmask, decide_eq_true_iff] at hset
    rw [(hcpus cpu hset).2] at hmissing
    cases hmissing
  unfold parseAffinity
  rw [hrun]
  simp only [bind, Except.bind]
  rw [if_neg (not_or.mpr ⟨hnonzero, havailable⟩)]
  rfl

theorem parseAffinity_result (value : String) (available : BitVec bits.toNat) :
    (∃ mask, parseAffinity bits value available = .ok mask ∧
      Accepted bits value available mask) ∨
    parseAffinity bits value available = .error invalidAffinity := by
  unfold parseAffinity
  rcases foldlM_part_result (Text.split value ',') (0 : BitVec bits.toNat) with
    ⟨mask, ranges, hrun, hparts, horder, hword, hbits⟩ | hrefused
  · rw [hrun]
    simp only [bind, Except.bind]
    split
    · right
      rfl
    · rename_i hchecked
      left
      rw [not_or, unavailable_iff, not_exists] at hchecked
      have hmask : ∀ cpu, mask.getLsbD cpu = decide (Covered ranges cpu) := by
        intro cpu
        rw [hbits]
        simp
      refine ⟨mask, rfl, ranges, lists_iff.mpr hparts, horder, fun cpu hcovered => ?_, hmask⟩
      have hset : mask.getLsbD cpu = true := by rw [hmask, decide_eq_true hcovered]
      obtain ⟨range, hrange, -, hlast⟩ := hcovered
      refine ⟨Nat.lt_of_le_of_lt hlast (hword range hrange), ?_⟩
      have hpresent := not_and.mp (hchecked.2 cpu) hset
      rwa [Bool.not_eq_false] at hpresent
  · right
    rw [hrefused]
    rfl

end

/-- The parser accepts the grammar, refuses everything else, and no shift in it overflows. -/
theorem parseAffinity_exact (value : String) (available : BitVec bits.toNat) :
    (∀ mask, parseAffinity bits value available = .ok mask ↔
      Accepted bits value available mask) ∧
    ((∀ mask, ¬ Accepted bits value available mask) →
      parseAffinity bits value available = .error invalidAffinity) ∧
    parseAffinity bits value available ≠ .error .shiftOverflow := by
  refine ⟨fun mask => ⟨fun hparsed => ?_, parseAffinity_of_accepted⟩, fun hnone => ?_, ?_⟩
  all_goals rcases parseAffinity_result value available with ⟨mask', hrun, haccepted⟩ | hrefused
  · rw [hrun, Except.ok.injEq] at hparsed
    rwa [hparsed] at haccepted
  · rw [hrefused] at hparsed
    cases hparsed
  · exact absurd haccepted (hnone mask')
  · exact hrefused
  · rw [hrun]
    simp
  · rw [hrefused]
    rintro ⟨⟩

end Ngsm.Win32
