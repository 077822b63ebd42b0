/-
# The slices of an image path

The program takes the executable out of an image path with slices at byte offsets.
The recogniser is given here with these slices: every offset is a boundary of
characters, and the slices find what the recogniser on characters finds.  With the
grammar this settles which image paths are recognised, and that the text behind the
executable never chooses the name.
-/

import Ngsm.Core.ImageGrammar
import Ngsm.Lib.Bytes

namespace Ngsm.Core

open Ngsm.Lib

variable {exe rest cs : List Char}

/-! ## What follows the token -/

theorem endsInExe_ne_nil (hends : EndsInExe exe) : exe ≠ [] := by
  rintro rfl
  obtain ⟨stem, extension, hnil, hextension⟩ := hends
  obtain ⟨-, rfl⟩ := List.append_eq_nil_iff.mp hnil.symm
  simp at hextension

/-- The shortest executable of a token is that of every line which the token starts. -/
theorem Shortest.eq_of_append {after found : List Char} (htoken : Shortest exe exe [])
    (hafter : AtBoundary after) (hline : Shortest (exe ++ after) found rest) : found = exe := by
  have hle : found.length ≤ exe.length := hline.shortest exe after rfl hafter htoken.extension
  obtain ⟨mid, rfl⟩ : found <+: exe :=
    List.prefix_of_prefix_length_le ⟨rest, hline.line_eq.symm⟩ (List.prefix_append exe after) hle
  have hrest : rest = mid ++ after := by
    have hsplit := hline.line_eq
    rw [List.append_assoc] at hsplit
    exact (List.append_cancel_left hsplit).symm
  have hmid : AtBoundary mid := by
    cases mid with
    | nil => exact .inl rfl
    | cons c mid =>
        obtain hnil | ⟨blank, tail, hcons, hblank⟩ := hline.boundary
        · rw [hnil] at hrest
          cases hrest
        · rw [hrest, List.cons_append, List.cons.injEq] at hcons
          exact .inr ⟨c, mid, rfl, by rw [hcons.1, hblank]⟩
  have hge := htoken.shortest found mid rfl hmid hline.extension
  rw [List.length_append] at hge
  rw [List.eq_nil_of_length_eq_zero (show mid.length = 0 by omega), List.append_nil]

/-- What follows a token can make the recogniser reject the line and nothing else. -/
theorem imagePathExe_append {token after : List Char} (htoken : IsToken token)
    (hafter : MayFollow token after) :
    imagePathExe (token ++ after) = none ∨
      imagePathExe (token ++ after) = imagePathExe token := by
  cases htoken with
  | @quoted exe hquote =>
      right
      have hboth : ∀ tail, imagePathExe ('"' :: (exe ++ ['"']) ++ tail) = some exe := fun tail =>
        imagePathExe_eq_some.mpr (.inl ⟨hquote, tail, by simp⟩)
      rw [hboth after, ← hboth [], List.append_nil]
  | unquoted hshortest hfirst =>
      have hhead : ∀ tail, (token ++ tail).head? ≠ some '"' := by
        intro tail hhead
        obtain ⟨c, rest, hcons⟩ :=
          List.exists_cons_of_ne_nil (endsInExe_ne_nil hshortest.extension)
        rw [hcons, List.cons_append, List.head?_cons, Option.some_inj] at hhead
        exact (hfirst c rest hcons).1 hhead
      have hboundary : AtBoundary after :=
        hafter.resolve_left (by simpa using hhead [])
      cases hline : imagePathExe (token ++ after) with
      | none => exact .inl rfl
      | some found =>
          right
          obtain ⟨-, rest, hrest⟩ | ⟨-, rest, hfound, hcandidate, -⟩ :=
            imagePathExe_eq_some.mp hline
          · exact absurd (by rw [hrest]; rfl) (hhead after)
          · obtain rfl := hshortest.eq_of_append hboundary hfound
            exact (imagePathExe_eq_some.mpr (.inr ⟨by simpa using hhead [], [], hshortest,
              hcandidate, .inl rfl⟩)).symm

theorem dropWhile_token {blanks token : List Char} (htoken : IsToken token)
    (hblanks : ∀ c ∈ blanks, Text.isWhitespace c = true) (after : List Char) :
    (blanks ++ (token ++ after)).dropWhile Text.isWhitespace = token ++ after := by
  rw [List.dropWhile_append_of_pos hblanks]
  cases htoken with
  | quoted hquote => rw [List.cons_append, List.dropWhile_cons_of_neg (by decide)]
  | unquoted hshortest hfirst =>
      obtain ⟨c, rest, rfl⟩ :=
        List.exists_cons_of_ne_nil (endsInExe_ne_nil hshortest.extension)
      have hc := (hfirst c rest rfl).2
      rw [List.cons_append, List.dropWhile_cons_of_neg (by rw [hc]; decide)]

theorem imagePathExeName_append {blanks token after : List Char} (htoken : IsToken token)
    (hblanks : ∀ c ∈ blanks, Text.isWhitespace c = true) (hafter : MayFollow token after) :
    imagePathExeName (String.ofList (blanks ++ (token ++ after))) = none ∨
      imagePathExeName (String.ofList (blanks ++ (token ++ after))) =
        imagePathExeName (String.ofList (blanks ++ token)) := by
  have halone := dropWhile_token htoken hblanks []
  rw [List.append_nil] at halone
  unfold imagePathExeName
  rw [String.toList_ofList, String.toList_ofList, dropWhile_token htoken hblanks, halone]
  obtain hnone | hsame := imagePathExe_append htoken hafter
  · left
    rw [hnone]
  · right
    rw [hsame]

/-! ## The slices -/

/-- The byte offset at which an executable that is not quoted ends: the first blank, or the
end of the line, that a text ending in `.exe` reaches. -/
def executableEnd (trimmed : List Char) : Option (Option Nat) :=
  let blanks := (Bytes.charIndices 0 trimmed).filterMap fun entry =>
    if Text.isWhitespace entry.2 then some entry.1 else none
  (blanks ++ [Bytes.length trimmed]).findM? fun stop => do
    let (front, _) ← Bytes.splitAt stop trimmed
    return endsWithExe front

/-- Whether the first three bytes are the root of a drive. -/
def rooted (normalized : List Char) : Bool :=
  match Bytes.encode normalized with
  | drive :: colon :: slash :: _ =>
      ((97 ≤ drive.toNat && drive.toNat ≤ 122) || (65 ≤ drive.toNat && drive.toNat ≤ 90)) &&
        colon.toNat == 58 && slash.toNat == 92
  | _ => false

/-- The test of a candidate, with the root sliced off behind its third byte. -/
def acceptsCandidateSliced (candidate : List Char) : Option Bool :=
  if hasBlank candidate then
    let normalized := candidate.map normalChar
    if rooted normalized then do
      let (_, afterRoot) ← Bytes.splitAt 3 normalized
      match (afterRoot.dropPrefix? "program files\\".toList).or
          (afterRoot.dropPrefix? "program files (x86)\\".toList) with
      | some tail => return !hasBlank tail
      | none => return false
    else
      return false
  else
    return true

def imagePathExeSliced (trimmed : List Char) : Option (Option (List Char)) :=
  match trimmed with
  | '"' :: rest => some (if rest.contains '"' then some (rest.takeWhile (· != '"')) else none)
  | _ => do
      match ← executableEnd trimmed with
      | none => return none
      | some stop =>
          let (candidate, rest) ← Bytes.splitAt stop trimmed
          let accepted ← acceptsCandidateSliced candidate
          return if accepted && acceptsRemainder rest then some candidate else none

/-- The recogniser with its slices: `none` on the outside is a slice that is no boundary. -/
def imagePathExeNameSliced (imagePath : String) : Option (Option String) := do
  match ← imagePathExeSliced (imagePath.toList.dropWhile Text.isWhitespace) with
  | some exe =>
      let name := fileName exe
      return if name.isEmpty then none else some (String.ofList name)
  | none => return none

/-- Every offset of the search is a boundary.  The induction is on what the search has still
to read; `before` is what it has read. -/
theorem findM?_offsets (before rest : List Char) :
    ((((Bytes.charIndices (Bytes.length before) rest).filterMap fun entry =>
        if Text.isWhitespace entry.2 then some entry.1 else none) ++
        [Bytes.length (before ++ rest)]).findM? fun stop => do
      let (front, _) ← Bytes.splitAt stop (before ++ rest)
      return endsWithExe front) =
      some ((findExecutable before rest).map fun parts => Bytes.length parts.1) := by
  induction rest generalizing before with
  | nil =>
      have hsplit := Bytes.splitAt_length before []
      simp only [List.append_nil] at hsplit ⊢
      simp only [Bytes.charIndices, List.filterMap_nil, List.nil_append, List.findM?, hsplit,
        findExecutable, Option.bind_eq_bind, Option.bind_some, Option.pure_def]
      cases endsWithExe before <;> rfl
  | cons c rest ih =>
      have hnext : Bytes.length before + c.utf8Size = Bytes.length (before ++ [c]) := by
        rw [Bytes.length_append]
        rfl
      have hsplit := Bytes.splitAt_length before (c :: rest)
      have hline : before ++ c :: rest = before ++ [c] ++ rest := by simp
      rw [Bytes.charIndices, hnext, findExecutable]
      cases hblank : Text.isWhitespace c with
      | false =>
          rw [List.filterMap_cons_none (by rw [hblank]; rfl), hline, ih (before ++ [c])]
          rfl
      | true =>
          rw [List.filterMap_cons_some (by rw [hblank]; rfl), List.cons_append, List.findM?, hsplit]
          cases hends : endsWithExe before with
          | true => simp [hends]
          | false =>
              rw [hline, Bool.and_false, if_neg (by decide), ← ih (before ++ [c])]
              simp [hends]

theorem executableEnd_eq (line : List Char) :
    executableEnd line =
      some ((findExecutable [] line).map fun parts => Bytes.length parts.1) :=
  findM?_offsets [] line

theorem rooted_iff :
    rooted cs = true ↔ ∃ drive rest, cs = drive :: ':' :: '\\' :: rest ∧
      isAsciiAlphabetic drive = true := by
  unfold rooted
  constructor
  · intro hrooted
    split at hrooted
    · rename_i drive colon slash bytes hbytes
      simp only [Bool.and_eq_true, Bool.or_eq_true, decide_eq_true_eq, beq_iff_eq] at hrooted
      obtain ⟨⟨hdrive, hcolon⟩, hslash⟩ := hrooted
      obtain ⟨a, afterA, rfl, ha, hbytes⟩ := Bytes.encode_eq_cons hbytes (by omega)
      obtain ⟨b, afterB, rfl, hb, hbytes⟩ := Bytes.encode_eq_cons hbytes (by omega)
      obtain ⟨c, afterC, rfl, hc, -⟩ := Bytes.encode_eq_cons hbytes (by omega)
      have hb' : b = ':' := (eq_iff_toNat_eq b ':').mpr (hb.trans hcolon)
      have hc' : c = '\\' := (eq_iff_toNat_eq c '\\').mpr (hc.trans hslash)
      refine ⟨a, afterC, by rw [hb', hc'], isAsciiAlphabetic_iff.mpr ?_⟩
      rw [ha]
      exact hdrive
    · cases hrooted
  · rintro ⟨drive, rest, rfl, hdrive⟩
    rw [isAsciiAlphabetic_iff] at hdrive
    have hvalue : (UInt8.ofNat drive.toNat).toNat = drive.toNat := by
      rw [UInt8.toNat_ofNat']
      omega
    rw [Bytes.encode_cons_of_ascii (by omega), Bytes.encode_cons_of_ascii (by decide),
      Bytes.encode_cons_of_ascii (by decide)]
    dsimp only
    rw [hvalue]
    simpa using hdrive

theorem programFilesTail_eq_none (hrooted : rooted (cs.map normalChar) = false) :
    programFilesTail cs = none := by
  rw [Option.eq_none_iff_forall_ne_some]
  intro tail htail
  obtain ⟨drive, name, hmap, hdrive, -⟩ := programFilesTail_eq_some.mp htail
  rw [rooted_iff.mpr ⟨drive, _, hmap, hdrive⟩] at hrooted
  cases hrooted

/-- The root of a drive is three bytes, so the slice behind it is what follows the root. -/
theorem splitAt_root {drive : Char} (hdrive : isAsciiAlphabetic drive = true)
    (rest : List Char) :
    Bytes.splitAt 3 (drive :: ':' :: '\\' :: rest) = some ([drive, ':', '\\'], rest) := by
  have hroot : Bytes.length [drive, ':', '\\'] = 3 := by
    rw [isAsciiAlphabetic_iff] at hdrive
    rw [Bytes.length_cons, Bytes.utf8Size_of_ascii (by omega)]
    rfl
  rw [← hroot]
  exact Bytes.splitAt_length [drive, ':', '\\'] rest

theorem acceptsCandidateSliced_eq (candidate : List Char) :
    acceptsCandidateSliced candidate = some (acceptsCandidate candidate) := by
  unfold acceptsCandidateSliced acceptsCandidate
  cases hasBlank candidate with
  | false => rfl
  | true =>
      rw [if_pos rfl, if_pos rfl]
      dsimp only
      cases hrooted : rooted (candidate.map normalChar) with
      | false =>
          rw [programFilesTail_eq_none hrooted]
          rfl
      | true =>
          obtain ⟨drive, rest, hsplit, hdrive⟩ := rooted_iff.mp hrooted
          have htail : programFilesTail candidate =
              (rest.dropPrefix? "program files\\".toList).or
                (rest.dropPrefix? "program files (x86)\\".toList) := by
            have hmap : (candidate.map fun c =>
                Text.toAsciiLower (if c = '/' then '\\' else c)) =
                drive :: ':' :: '\\' :: rest := hsplit
            unfold programFilesTail
            rw [hmap]
            exact if_pos hdrive
          rw [hsplit, splitAt_root hdrive, if_pos rfl, htail]
          simp only [Option.bind_eq_bind, Option.bind_some]
          cases (rest.dropPrefix? "program files\\".toList).or
            (rest.dropPrefix? "program files (x86)\\".toList) <;> rfl

theorem imagePathExeSliced_eq (line : List Char) :
    imagePathExeSliced line = some (imagePathExe line) := by
  unfold imagePathExeSliced
  split
  · rfl
  · rename_i hquote
    have hplain : imagePathExe line = (findExecutable [] line).bind fun parts =>
        if acceptsCandidate parts.1 && acceptsRemainder parts.2 then some parts.1 else none := by
      unfold imagePathExe
      split
      · exact absurd rfl (hquote _)
      · cases findExecutable [] line <;> rfl
    rw [hplain, executableEnd_eq]
    cases hfind : findExecutable [] line with
    | none => rfl
    | some parts =>
        obtain ⟨candidate, rest⟩ := parts
        have hline := (findExecutable_nil_iff.mp hfind).line_eq
        have hslice := Bytes.splitAt_length candidate rest
        rw [← hline] at hslice
        simp only [Option.map_some, Option.bind_eq_bind, Option.bind_some, hslice,
          acceptsCandidateSliced_eq]
        rfl

/-- No slice of the recogniser is off a boundary. -/
theorem imagePathExeNameSliced_eq (imagePath : String) :
    imagePathExeNameSliced imagePath = some (imagePathExeName imagePath) := by
  unfold imagePathExeNameSliced imagePathExeName
  rw [imagePathExeSliced_eq]
  cases imagePathExe (imagePath.toList.dropWhile Text.isWhitespace) <;> rfl

/-! ## The result -/

/-- The recogniser accepts the grammar and nothing else: after blanks a quoted executable, or
without a leading quote one that is not quoted.  What follows the token changes nothing but
whether the path is recognised, and no slice is off a boundary. -/
theorem imagePathExeName_grammar :
    (∀ imagePath name, imagePathExeName imagePath = some name ↔
      name ≠ "" ∧ ∃ exe, LastComponent exe name.toList ∧
        (QuotedLine (imagePath.toList.dropWhile Text.isWhitespace) exe ∨
          (imagePath.toList.dropWhile Text.isWhitespace).head? ≠ some '"' ∧
            UnquotedLine (imagePath.toList.dropWhile Text.isWhitespace) exe)) ∧
    (∀ blanks token after, (∀ c ∈ blanks, Text.isWhitespace c = true) → IsToken token →
      MayFollow token after →
        imagePathExeName (String.ofList (blanks ++ (token ++ after))) = none ∨
          imagePathExeName (String.ofList (blanks ++ (token ++ after))) =
            imagePathExeName (String.ofList (blanks ++ token))) ∧
    (∀ imagePath, imagePathExeNameSliced imagePath = some (imagePathExeName imagePath)) := by
  refine ⟨?_, ?_, imagePathExeNameSliced_eq⟩
  · intro imagePath name
    rw [imagePathExeName_eq_some]
    constructor
    · rintro ⟨exe, hexe, hlast, hname⟩
      exact ⟨hname, exe, hlast, imagePathExe_eq_some.mp hexe⟩
    · rintro ⟨hname, exe, hlast, hline⟩
      exact ⟨exe, imagePathExe_eq_some.mpr hline, hlast, hname⟩
  · intro blanks token after hblanks htoken hafter
    exact imagePathExeName_append htoken hblanks hafter

/-- A line with an opening quote and no closing one is rejected, also where its shortest part
that ends in `.exe` is in order. -/
theorem imagePathExeName_open_quote :
    ¬ ∀ imagePath name, imagePathExeName imagePath = some name ↔
      name ≠ "" ∧ ∃ exe, LastComponent exe name.toList ∧
        (QuotedLine (imagePath.toList.dropWhile Text.isWhitespace) exe ∨
          UnquotedLine (imagePath.toList.dropWhile Text.isWhitespace) exe) := by
  intro hclaimed
  have hline : ("\"ngsm.exe".toList.dropWhile Text.isWhitespace) = "\"ngsm.exe".toList := by decide
  have hrejected : imagePathExeName "\"ngsm.exe" = none := by decide
  have hnot := (not_congr (hclaimed "\"ngsm.exe" "\"ngsm.exe")).mp (by rw [hrejected]; nofun)
  apply hnot
  refine ⟨by decide, "\"ngsm.exe".toList, lastComponent_iff.mpr (by decide), .inr ?_⟩
  rw [hline]
  exact ⟨[], findExecutable_nil_iff.mp (by decide), .inl (hasBlank_eq_false.mp (by decide)),
    .inl rfl⟩

end Ngsm.Core
