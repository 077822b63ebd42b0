/-
# The grammar of an image path

What the recogniser of image paths accepts is stated here as a grammar and without
a search: the executable is a quoted text, or the shortest part of the line that
ends in `.exe` at a blank or at the end.  The executable that the recogniser finds
is that of the grammar.
-/

import Mathlib.Data.List.TakeWhile
import Ngsm.Core.ImagePath
import Ngsm.Lib.ArgumentVector

namespace Ngsm.Core

open Ngsm.Lib

/-! ## The grammar -/

/-- A text that ends in `.exe`, in any case. -/
def EndsInExe (text : List Char) : Prop :=
  ∃ stem extension, text = stem ++ extension ∧
    extension.map Text.toAsciiLower = ".exe".toList

/-- An executable that is not quoted ends before a blank or with the line. -/
def AtBoundary (rest : List Char) : Prop :=
  rest = [] ∨ ∃ blank after, rest = blank :: after ∧ Text.isWhitespace blank = true

/-- The shortest part of a line that ends in `.exe` at a boundary. -/
structure Shortest (line exe rest : List Char) : Prop where
  line_eq : line = exe ++ rest
  boundary : AtBoundary rest
  extension : EndsInExe exe
  shortest : ∀ front back, line = front ++ back → AtBoundary back → EndsInExe front →
    exe.length ≤ front.length

def NoBlank (text : List Char) : Prop :=
  ∀ c ∈ text, Text.isWhitespace c = false

/-- The program files directory of a drive, in any case and with either separator. -/
def ProgramFilesRoot (root : List Char) : Prop :=
  ∃ drive first name last, root = drive :: ':' :: first :: (name ++ [last]) ∧
    isAsciiAlphabetic drive = true ∧ isSeparator first = true ∧ isSeparator last = true ∧
    (name.map Text.toAsciiLower = "program files".toList ∨
      name.map Text.toAsciiLower = "program files (x86)".toList)

/-- A line that starts with a quoted executable. -/
def QuotedLine (line exe : List Char) : Prop :=
  '"' ∉ exe ∧ ∃ rest, line = '"' :: (exe ++ '"' :: rest)

/-- A line that starts with an executable that is not quoted. -/
def UnquotedLine (line exe : List Char) : Prop :=
  ∃ rest, Shortest line exe rest ∧
    (NoBlank exe ∨ ∃ root tail, exe = root ++ tail ∧ ProgramFilesRoot root ∧ NoBlank tail) ∧
    (rest.dropWhile Text.isWhitespace = [] ∨ RunsService rest)

/-- The last component of a path. -/
def LastComponent (path name : List Char) : Prop :=
  (∀ c ∈ name, isSeparator c = false) ∧
    (path = name ∨ ∃ directory separator, path = directory ++ separator :: name ∧
      isSeparator separator = true)

/-- The executable token of a line: a quoted text, or a text that ends in `.exe` at its end
and at none of its blanks. -/
inductive IsToken : List Char → Prop where
  | quoted {exe : List Char} (hquote : '"' ∉ exe) : IsToken ('"' :: (exe ++ ['"']))
  | unquoted {exe : List Char} (hshortest : Shortest exe exe [])
      (hfirst : ∀ c tail, exe = c :: tail → c ≠ '"' ∧ Text.isWhitespace c = false) : IsToken exe

/-- What may follow a token: anything after a closing quote, else a boundary. -/
def MayFollow (token after : List Char) : Prop :=
  token.head? = some '"' ∨ AtBoundary after

/-! ## The search finds the shortest part -/

variable {before line exe rest cs : List Char} {c : Char}

theorem endsWithExe_iff : endsWithExe cs = true ↔ EndsInExe cs := by
  unfold endsWithExe EndsInExe
  rw [List.isSuffixOf_iff_suffix]
  constructor
  · rintro ⟨front, hfront⟩
    obtain ⟨stem, extension, rfl, -, hextension⟩ := List.map_eq_append_iff.mp hfront.symm
    exact ⟨stem, extension, rfl, hextension⟩
  · rintro ⟨stem, extension, rfl, hextension⟩
    exact ⟨stem.map Text.toAsciiLower, by rw [List.map_append, hextension]⟩

/-- The search goes on from `before`, none of whose parts has been a match. -/
theorem findExecutable_eq_some :
    findExecutable before line = some (exe, rest) ↔
      ∃ mid, exe = before ++ mid ∧ line = mid ++ rest ∧ AtBoundary rest ∧ EndsInExe exe ∧
        ∀ front back, line = front ++ back → AtBoundary back → EndsInExe (before ++ front) →
          mid.length ≤ front.length := by
  induction line generalizing before with
  | nil =>
      rw [findExecutable]
      constructor
      · intro hfind
        split at hfind
        · rename_i hends
          cases hfind
          exact ⟨[], by simp, rfl, .inl rfl, endsWithExe_iff.mp hends, fun _ _ _ _ _ => by simp⟩
        · cases hfind
      · rintro ⟨mid, rfl, hline, -, hends, -⟩
        obtain ⟨rfl, rfl⟩ := List.append_eq_nil_iff.mp hline.symm
        rw [List.append_nil, ← endsWithExe_iff] at hends
        rw [if_pos hends, List.append_nil]
  | cons c line ih =>
      rw [findExecutable]
      by_cases hstop : (Text.isWhitespace c && endsWithExe before) = true
      · rw [if_pos hstop]
        rw [Bool.and_eq_true] at hstop
        have hboundary : AtBoundary (c :: line) := .inr ⟨c, line, rfl, hstop.1⟩
        have hends := endsWithExe_iff.mp hstop.2
        constructor
        · intro hfind
          cases hfind
          exact ⟨[], by simp, rfl, hboundary, hends, fun _ _ _ _ _ => by simp⟩
        · rintro ⟨mid, rfl, hline, -, -, hshortest⟩
          have hnil : mid = [] := List.eq_nil_of_length_eq_zero (Nat.le_zero.mp
            (hshortest [] (c :: line) rfl hboundary (by rwa [List.append_nil])))
          subst hnil
          rw [List.append_nil, hline, List.nil_append]
      · rw [if_neg hstop, ih]
        have hnot : ∀ back, c :: line = back → AtBoundary back → ¬ EndsInExe before := by
          rintro back rfl (hnil | ⟨blank, after, hcons, hblank⟩) hends
          · cases hnil
          · cases hcons
            exact hstop (by rw [hblank, endsWithExe_iff.mpr hends]; rfl)
        constructor
        · rintro ⟨mid, rfl, rfl, hboundary, hends, hshortest⟩
          refine ⟨c :: mid, by simp, rfl, hboundary, hends, ?_⟩
          intro front back hline hback hfront
          cases front with
          | nil => exact absurd (by simpa using hfront) (hnot back hline hback)
          | cons x front =>
              obtain ⟨rfl, hrest⟩ := List.cons.inj hline
              exact Nat.succ_le_succ (hshortest front back hrest hback (by simpa using hfront))
        · rintro ⟨mid, rfl, hline, hboundary, hends, hshortest⟩
          cases mid with
          | nil => exact absurd (by simpa using hends) (hnot rest hline hboundary)
          | cons x mid =>
              obtain ⟨rfl, rfl⟩ := List.cons.inj hline
              refine ⟨mid, by simp, rfl, hboundary, hends, ?_⟩
              intro front back hsplit hback hfront
              exact Nat.le_of_succ_le_succ (hshortest (c :: front) back (by rw [hsplit]; rfl)
                hback (by simpa using hfront))

theorem findExecutable_nil_iff :
    findExecutable [] line = some (exe, rest) ↔ Shortest line exe rest := by
  rw [findExecutable_eq_some]
  constructor
  · rintro ⟨mid, hexe, hline, hboundary, hends, hshortest⟩
    rw [List.nil_append] at hexe
    subst hexe
    exact ⟨hline, hboundary, hends, hshortest⟩
  · rintro ⟨hline, hboundary, hends, hshortest⟩
    exact ⟨exe, rfl, hline, hboundary, hends, hshortest⟩

/-! ## Case and separators -/

/-- A character with the case folded and the separator made a backslash. -/
def normalChar (c : Char) : Char :=
  Text.toAsciiLower (if c = '/' then '\\' else c)

theorem toNat_toAsciiLower (c : Char) :
    (Text.toAsciiLower c).toNat =
      if 65 ≤ c.toNat ∧ c.toNat ≤ 90 then c.toNat + 32 else c.toNat := by
  unfold Text.toAsciiLower
  by_cases hupper : 65 ≤ c.toNat ∧ c.toNat ≤ 90
  · rw [if_pos hupper, if_pos (show 'A'.toNat ≤ c.toNat ∧ c.toNat ≤ 'Z'.toNat from hupper)]
    exact Utf16.toNat_charOfNat (.inl (by omega))
  · rw [if_neg hupper, if_neg (show ¬ ('A'.toNat ≤ c.toNat ∧ c.toNat ≤ 'Z'.toNat) from hupper)]

theorem eq_iff_toNat_eq (c d : Char) : c = d ↔ c.toNat = d.toNat :=
  ⟨fun h => h ▸ rfl, fun h => Char.ext (UInt32.toNat_inj.mp h)⟩

theorem isSeparator_iff : isSeparator c = true ↔ c.toNat = 92 ∨ c.toNat = 47 := by
  rw [isSeparator, Bool.or_eq_true, beq_iff_eq, beq_iff_eq, eq_iff_toNat_eq, eq_iff_toNat_eq]
  rfl

theorem toNat_normalChar (c : Char) :
    (normalChar c).toNat =
      if c.toNat = 47 then 92 else (Text.toAsciiLower c).toNat := by
  unfold normalChar
  by_cases hslash : c = '/'
  · rw [if_pos hslash, if_pos (by rw [hslash]; rfl)]
    rfl
  · rw [if_neg hslash, if_neg (show ¬ c.toNat = 47 from fun h =>
      hslash ((eq_iff_toNat_eq c '/').mpr h))]

theorem normalChar_eq_backslash : normalChar c = '\\' ↔ isSeparator c = true := by
  rw [eq_iff_toNat_eq, isSeparator_iff, toNat_normalChar, toNat_toAsciiLower]
  change _ = 92 ↔ _
  split <;> [omega; (split <;> omega)]

theorem normalChar_eq_colon : normalChar c = ':' ↔ c = ':' := by
  rw [eq_iff_toNat_eq, eq_iff_toNat_eq, toNat_normalChar, toNat_toAsciiLower]
  change _ = 58 ↔ _ = 58
  split <;> [omega; (split <;> omega)]

theorem isAsciiAlphabetic_iff :
    isAsciiAlphabetic c = true ↔
      (97 ≤ c.toNat ∧ c.toNat ≤ 122) ∨ (65 ≤ c.toNat ∧ c.toNat ≤ 90) := by
  rw [isAsciiAlphabetic, Bool.or_eq_true, Bool.and_eq_true, Bool.and_eq_true,
    decide_eq_true_eq, decide_eq_true_eq, decide_eq_true_eq, decide_eq_true_eq]
  rfl

theorem isAsciiAlphabetic_normalChar :
    isAsciiAlphabetic (normalChar c) = true ↔ isAsciiAlphabetic c = true := by
  rw [isAsciiAlphabetic_iff, isAsciiAlphabetic_iff, toNat_normalChar, toNat_toAsciiLower]
  split <;> [omega; (split <;> omega)]

theorem isWhitespace_normalChar : Text.isWhitespace (normalChar c) = Text.isWhitespace c := by
  unfold Text.isWhitespace
  rw [toNat_normalChar, toNat_toAsciiLower]
  by_cases hslash : c.toNat = 47
  · rw [if_pos hslash, hslash]
    rfl
  · rw [if_neg hslash]
    by_cases hupper : 65 ≤ c.toNat ∧ c.toNat ≤ 90
    · rw [if_pos hupper, Bool.eq_iff_iff]
      simp only [Bool.or_eq_true, Bool.and_eq_true, decide_eq_true_eq, beq_iff_eq]
      omega
    · rw [if_neg hupper]

theorem noBlank_map : NoBlank (cs.map normalChar) ↔ NoBlank cs := by
  unfold NoBlank
  rw [List.forall_mem_map]
  simp only [isWhitespace_normalChar]

theorem hasBlank_eq_false : hasBlank cs = false ↔ NoBlank cs := by
  rw [hasBlank, List.any_eq_false]
  exact forall₂_congr fun c _ => by rw [Bool.not_eq_true]

/-- A name without separators is what was there, up to case, before a separator. -/
theorem map_normalChar_eq {name : List Char} (hname : ∀ c ∈ name, isSeparator c = false) :
    cs.map normalChar = name ++ ['\\'] ↔
      ∃ front last, cs = front ++ [last] ∧ isSeparator last = true ∧
        front.map Text.toAsciiLower = name := by
  have hfold : ∀ front : List Char, (front.map normalChar = name ∨
      front.map Text.toAsciiLower = name) → front.map normalChar = front.map Text.toAsciiLower := by
    intro front hfront
    apply List.map_congr_left
    intro c hc
    by_cases hslash : c = '/'
    · subst hslash
      obtain h | h := hfront
      · exact absurd (hname _ (h ▸ List.mem_map_of_mem hc)) (by decide)
      · exact absurd (hname _ (h ▸ List.mem_map_of_mem hc)) (by decide)
    · rw [normalChar, if_neg hslash]
  constructor
  · intro hmap
    obtain ⟨front, back, rfl, hfront, hback⟩ := List.map_eq_append_iff.mp hmap
    obtain ⟨last, rfl, hlast⟩ := List.map_eq_singleton_iff.mp hback
    refine ⟨front, last, rfl, normalChar_eq_backslash.mp hlast, ?_⟩
    rw [← hfold front (.inl hfront), hfront]
  · rintro ⟨front, last, rfl, hlast, hfront⟩
    rw [List.map_append, hfold front (.inr hfront), hfront, List.map_singleton,
      normalChar_eq_backslash.mpr hlast]

/-! ## The recogniser accepts the grammar -/

theorem dropPrefix?_eq_some {text name tail : List Char} :
    text.dropPrefix? name = some tail ↔ text = name ++ tail := by
  rw [List.dropPrefix?_eq_some_iff]
  constructor
  · rintro ⟨found, rfl, hfound⟩
    rw [eq_of_beq hfound]
  · rintro rfl
    exact ⟨name, rfl, beq_self_eq_true name⟩

/-- Neither directory name begins the other, so the order of the two tests is of no matter. -/
theorem directory_eq_some {text tail : List Char} :
    (text.dropPrefix? "program files\\".toList).or
        (text.dropPrefix? "program files (x86)\\".toList) = some tail ↔
      ∃ name, (name = "program files".toList ∨ name = "program files (x86)".toList) ∧
        text = name ++ '\\' :: tail := by
  have hplain : "program files\\".toList = "program files".toList ++ ['\\'] := by simp
  have hx86 : "program files (x86)\\".toList = "program files (x86)".toList ++ ['\\'] := by simp
  rw [Option.or_eq_some_iff, dropPrefix?_eq_some, dropPrefix?_eq_some, hplain, hx86,
    List.append_assoc, List.append_assoc, List.singleton_append]
  constructor
  · rintro (htext | ⟨-, htext⟩)
    · exact ⟨_, .inl rfl, htext⟩
    · exact ⟨_, .inr rfl, htext⟩
  · rintro ⟨name, rfl | rfl, rfl⟩
    · exact .inl rfl
    · refine .inr ⟨?_, rfl⟩
      rw [Option.eq_none_iff_forall_ne_some]
      intro other hother
      have heq := dropPrefix?_eq_some.mp hother
      simp at heq

theorem programFilesTail_eq_some {tail : List Char} :
    programFilesTail cs = some tail ↔
      ∃ drive name, cs.map normalChar = drive :: ':' :: '\\' :: (name ++ '\\' :: tail) ∧
        isAsciiAlphabetic drive = true ∧
        (name = "program files".toList ∨ name = "program files (x86)".toList) := by
  have hmap : (cs.map fun c => Text.toAsciiLower (if c = '/' then '\\' else c)) =
      cs.map normalChar := rfl
  unfold programFilesTail
  rw [hmap]
  split
  · rename_i drive rest hsplit
    rw [hsplit]
    by_cases hdrive : isAsciiAlphabetic drive = true
    · rw [if_pos hdrive, directory_eq_some]
      constructor
      · rintro ⟨name, hname, rfl⟩
        exact ⟨drive, name, rfl, hdrive, hname⟩
      · rintro ⟨other, name, hother, -, hname⟩
        cases hother
        exact ⟨name, hname, rfl⟩
    · rw [if_neg hdrive]
      constructor
      · nofun
      · rintro ⟨other, name, hother, hletter, -⟩
        cases hother
        exact absurd hletter hdrive
  · rename_i hother
    constructor
    · nofun
    · rintro ⟨drive, name, hsplit, -⟩
      exact absurd hsplit (hother drive _)

theorem isSeparator_of_mem_directory {name : List Char}
    (hname : name = "program files".toList ∨ name = "program files (x86)".toList) :
    ∀ c ∈ name, isSeparator c = false := by
  have hplain : "program files".toList.all (!isSeparator ·) = true := by decide
  have hx86 : "program files (x86)".toList.all (!isSeparator ·) = true := by decide
  intro c hc
  obtain rfl | rfl := hname
  · simpa using List.all_eq_true.mp hplain c hc
  · simpa using List.all_eq_true.mp hx86 c hc

/-- The tail of a candidate is free of blanks exactly when the candidate is a program files
directory followed by a text without blanks. -/
theorem programFilesTail_noBlank :
    (∃ tail, programFilesTail cs = some tail ∧ NoBlank tail) ↔
      ∃ root tail, cs = root ++ tail ∧ ProgramFilesRoot root ∧ NoBlank tail := by
  constructor
  · rintro ⟨folded, htail, hblank⟩
    obtain ⟨letter, name, hmap, hletter, hname⟩ := programFilesTail_eq_some.mp htail
    obtain ⟨drive, afterDrive, rfl, rfl, hafterDrive⟩ := List.map_eq_cons_iff.mp hmap
    obtain ⟨colon, afterColon, rfl, hcolon, hafterColon⟩ := List.map_eq_cons_iff.mp hafterDrive
    obtain ⟨first, afterFirst, rfl, hfirst, hafterFirst⟩ := List.map_eq_cons_iff.mp hafterColon
    rw [← List.singleton_append (l := folded), ← List.append_assoc] at hafterFirst
    obtain ⟨directory, tail, rfl, hdirectory, rfl⟩ := List.map_eq_append_iff.mp hafterFirst
    obtain ⟨front, last, rfl, hlast, rfl⟩ :=
      (map_normalChar_eq (isSeparator_of_mem_directory hname)).mp hdirectory
    rw [normalChar_eq_colon] at hcolon
    subst hcolon
    refine ⟨drive :: ':' :: first :: (front ++ [last]), tail, rfl, ?_, noBlank_map.mp hblank⟩
    exact ⟨drive, first, front, last, rfl, isAsciiAlphabetic_normalChar.mp hletter,
      normalChar_eq_backslash.mp hfirst, hlast, hname⟩
  · rintro ⟨root, tail, rfl, ⟨drive, first, front, last, rfl, hdrive, hfirst, hlast, hname⟩,
      hblank⟩
    have hdirectory : (front ++ [last]).map normalChar =
        front.map Text.toAsciiLower ++ ['\\'] :=
      (map_normalChar_eq (isSeparator_of_mem_directory hname)).mpr ⟨front, last, rfl, hlast, rfl⟩
    refine ⟨tail.map normalChar, programFilesTail_eq_some.mpr ?_, noBlank_map.mpr hblank⟩
    refine ⟨normalChar drive, front.map Text.toAsciiLower, ?_,
      isAsciiAlphabetic_normalChar.mpr hdrive, hname⟩
    rw [List.map_append, List.map_cons, List.map_cons, List.map_cons, hdirectory,
      normalChar_eq_colon.mpr rfl, normalChar_eq_backslash.mpr hfirst]
    simp

theorem acceptsCandidate_iff :
    acceptsCandidate cs = true ↔ NoBlank cs ∨
      ∃ root tail, cs = root ++ tail ∧ ProgramFilesRoot root ∧ NoBlank tail := by
  rw [← programFilesTail_noBlank, ← hasBlank_eq_false]
  unfold acceptsCandidate
  cases hblank : hasBlank cs with
  | false => simp
  | true =>
      rw [if_pos rfl]
      cases htail : programFilesTail cs with
      | none => simp
      | some tail => simp [← hasBlank_eq_false]

theorem quotedLine_iff {rest : List Char} :
    QuotedLine ('"' :: rest) exe ↔ '"' ∈ rest ∧ rest.takeWhile (· != '"') = exe := by
  have hcut : ∀ {front : List Char}, '"' ∉ front → ∀ back : List Char,
      (front ++ '"' :: back).takeWhile (· != '"') = front := fun hfront back =>
    (ArgumentVector.takeWhile_append_stop back (fun c hc => bne_iff_ne.mpr fun h : c = '"' =>
      hfront (h ▸ hc)) (by decide)).1
  constructor
  · rintro ⟨hquote, back, hline⟩
    rw [(List.cons.inj hline).2]
    exact ⟨List.mem_append_right exe List.mem_cons_self, hcut hquote back⟩
  · rintro ⟨hmem, rfl⟩
    obtain ⟨front, back, rfl, hfront⟩ := List.eq_append_cons_of_mem hmem
    rw [hcut hfront]
    exact ⟨hfront, back, rfl⟩

theorem imagePathExe_eq_some :
    imagePathExe line = some exe ↔
      QuotedLine line exe ∨ line.head? ≠ some '"' ∧ UnquotedLine line exe := by
  unfold imagePathExe
  split
  · rename_i rest
    rw [quotedLine_iff]
    simp
  · rename_i hquote
    have hhead : line.head? ≠ some '"' := by
      intro hhead
      obtain ⟨rest, hrest⟩ := List.head?_eq_some_iff.mp hhead
      exact hquote rest hrest
    have hunquoted : ¬ QuotedLine line exe := fun ⟨_, rest, hrest⟩ => hquote _ hrest
    rw [or_iff_right hunquoted, and_iff_right hhead]
    constructor
    · intro hexe
      split at hexe
      · rename_i candidate rest hfind
        split at hexe
        · rename_i haccepts
          rw [Bool.and_eq_true, acceptsCandidate_iff, acceptsRemainder_iff] at haccepts
          cases hexe
          exact ⟨rest, findExecutable_nil_iff.mp hfind, haccepts.1, haccepts.2⟩
        · cases hexe
      · cases hexe
    · rintro ⟨rest, hshortest, hcandidate, hrest⟩
      rw [findExecutable_nil_iff.mpr hshortest]
      dsimp only
      rw [acceptsCandidate_iff.mpr hcandidate, acceptsRemainder_iff.mpr hrest]
      rfl

/-- A list up to its first stop, and what is left. -/
theorem takeWhile_or_stop (p : Char → Bool) (cs : List Char) :
    cs.takeWhile p = cs ∨ ∃ stop back, cs = cs.takeWhile p ++ stop :: back ∧ p stop = false := by
  induction cs with
  | nil => exact .inl rfl
  | cons c cs ih =>
      cases hc : p c with
      | false => exact .inr ⟨c, cs, by rw [List.takeWhile_cons_of_neg (by simp [hc])]; rfl, hc⟩
      | true =>
          rw [List.takeWhile_cons_of_pos hc]
          obtain hall | ⟨stop, back, hcs, hstop⟩ := ih
          · exact .inl (congrArg (c :: ·) hall)
          · exact .inr ⟨stop, back, congrArg (c :: ·) hcs, hstop⟩

theorem lastComponent_iff {path name : List Char} :
    LastComponent path name ↔ fileName path = name := by
  unfold fileName
  constructor
  · rintro ⟨hname, hpath⟩
    have hkeep : ∀ c ∈ name.reverse, (!isSeparator c) = true := fun c hc => by
      rw [hname c (List.mem_reverse.mp hc)]
      rfl
    rw [List.reverse_eq_iff]
    obtain rfl | ⟨directory, separator, rfl, hseparator⟩ := hpath
    · exact List.takeWhile_eq_self_iff.mpr hkeep
    · rw [List.reverse_append, List.reverse_cons, List.append_assoc, List.singleton_append]
      exact (ArgumentVector.takeWhile_append_stop _ hkeep (by rw [hseparator]; rfl)).1
  · rintro rfl
    constructor
    · intro c hc
      have hkeep := List.all_eq_true.mp List.all_takeWhile c (List.mem_reverse.mp hc)
      simpa using hkeep
    · obtain hall | ⟨stop, back, hpath, hstop⟩ :=
        takeWhile_or_stop (fun c => !isSeparator c) path.reverse
      · left
        rw [hall, List.reverse_reverse]
      · right
        refine ⟨back.reverse, stop, ?_, by simpa using hstop⟩
        have hreverse := congrArg List.reverse hpath
        rwa [List.reverse_reverse, List.reverse_append, List.reverse_cons, List.append_assoc,
          List.singleton_append] at hreverse

theorem imagePathExeName_eq_some {imagePath name : String} :
    imagePathExeName imagePath = some name ↔
      ∃ exe, imagePathExe (imagePath.toList.dropWhile Text.isWhitespace) = some exe ∧
        LastComponent exe name.toList ∧ name ≠ "" := by
  unfold imagePathExeName
  cases hexe : imagePathExe (imagePath.toList.dropWhile Text.isWhitespace) with
  | none => simp
  | some exe =>
      dsimp only
      constructor
      · intro hname
        split at hname
        · cases hname
        · rename_i hempty
          cases hname
          refine ⟨exe, rfl, lastComponent_iff.mpr String.toList_ofList.symm, ?_⟩
          intro hnil
          have hchars := congrArg String.toList hnil
          rw [String.toList_ofList] at hchars
          exact hempty (List.isEmpty_iff.mpr hchars)
      · rintro ⟨other, hother, hlast, hname⟩
        cases hother
        rw [lastComponent_iff.mp hlast, String.ofList_toList, if_neg]
        rw [List.isEmpty_iff]
        exact fun hnil => hname (String.toList_injective (by rw [hnil]; rfl))

end Ngsm.Core
