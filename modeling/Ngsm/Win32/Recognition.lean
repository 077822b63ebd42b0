/-
# Recognising an installed service

The image path that the installer writes is read back when the configuration of a
service is missing.  The writer quotes the runner's path when it holds a blank of
ASCII, while the reader ends an executable that is not quoted at any blank of
Unicode.  So a directory with such a blank in its name hides the service.
-/

import Ngsm.Core.ImageGrammar
import Ngsm.Win32.RunnerCommand

namespace Ngsm.Win32

open Ngsm.Lib Ngsm.Core

/-- The resolved path of a runner: of the extended-length form, without quotes, to
a file that is named like the service manager. -/
structure CanonicalRunner (exe file : String) : Prop where
  extended : "\\\\?\\".toList <+: exe.toList
  noQuote : '"' ∉ exe.toList
  fileName : fileName exe.toList = file.toList
  name : Text.eqIgnoreAsciiCase file "ngsm.exe" = true

/-- The reader finds the runner where the writer put it, or finds a namesake in
front of it. -/
def Recognisable (exe file : String) : Prop :=
  (∃ c ∈ exe.toList, isQuotedChar c = true) ∨
    (∀ c ∈ exe.toList, Text.isWhitespace c = false) ∨
      ∃ before blank after, exe.toList = before ++ blank :: after ∧
        (∀ c ∈ before, Text.isWhitespace c = false) ∧ Text.isWhitespace blank = true ∧
        fileName before = file.toList ∧ RunsService after

section

variable {exe file : String}

theorem fileName_suffix (path : List Char) : fileName path <:+ path := by
  have hprefix := List.takeWhile_prefix (l := path.reverse) fun c => !isSeparator c
  simpa [fileName] using List.reverse_suffix.mpr hprefix

theorem endsWithExe_of_suffix {path name : List Char} (hsuffix : name <:+ path)
    (hname : endsWithExe name = true) : endsWithExe path = true := by
  unfold endsWithExe at hname ⊢
  rw [List.isSuffixOf_iff_suffix] at hname ⊢
  exact hname.trans (hsuffix.map Text.toAsciiLower)

/-- A file that is named like the service manager is an executable. -/
theorem endsWithExe_of_fileName {path : List Char}
    (hname : Text.eqIgnoreAsciiCase file "ngsm.exe" = true)
    (hpath : fileName path = file.toList) : endsWithExe path = true := by
  refine endsWithExe_of_suffix (hpath ▸ fileName_suffix path) ?_
  have hlower : file.toList.map Text.toAsciiLower = "ngsm.exe".toList.map Text.toAsciiLower := by
    rw [← beq_iff_eq]
    exact hname
  rw [endsWithExe, hlower]
  decide

theorem CanonicalRunner.endsWithExe (h : CanonicalRunner exe file) :
    endsWithExe exe.toList = true :=
  endsWithExe_of_fileName h.name h.fileName

theorem CanonicalRunner.file_ne_nil (h : CanonicalRunner exe file) : file.toList ≠ [] := by
  intro hnil
  have hname := h.name
  rw [Text.eqIgnoreAsciiCase, hnil] at hname
  revert hname
  decide

/-- Nothing of the extended-length form is a program files directory. -/
theorem acceptsCandidate_extended {candidate : List Char}
    (hextended : "\\\\?\\".toList <+: candidate) :
    acceptsCandidate candidate = !hasBlank candidate := by
  obtain ⟨rest, rfl⟩ := hextended
  have htail : programFilesTail ("\\\\?\\".toList ++ rest) = none := by
    rfl
  unfold acceptsCandidate
  rw [htail]
  cases hasBlank ("\\\\?\\".toList ++ rest) <;> rfl

/-! ## The end of an executable -/

theorem toAsciiLower_of_isWhitespace {c : Char} (h : Text.isWhitespace c = true) :
    Text.toAsciiLower c = c := by
  rw [Text.toAsciiLower, if_neg]
  rintro ⟨hlow, hhigh⟩
  have hA : 'A'.toNat = 65 := rfl
  have hZ : 'Z'.toNat = 90 := rfl
  simp [Text.isWhitespace] at h
  omega

theorem isWhitespace_extension : ∀ c ∈ ".exe".toList, Text.isWhitespace c = false := by
  have hchars : ".exe".toList = ['.', 'e', 'x', 'e'] := by simp
  have hall : ['.', 'e', 'x', 'e'].all (!Text.isWhitespace ·) = true := by decide
  intro c hc
  rw [hchars] at hc
  simpa using List.all_eq_true.mp hall c hc

theorem isWhitespace_extendedMark :
    ∀ c ∈ "\\\\?\\".toList, Text.isWhitespace c = false := by
  have hchars : "\\\\?\\".toList = ['\\', '\\', '?', '\\'] := by simp
  have hall : ['\\', '\\', '?', '\\'].all (!Text.isWhitespace ·) = true := by decide
  intro c hc
  rw [hchars] at hc
  simpa using List.all_eq_true.mp hall c hc

/-- What makes a path the path of an executable. -/
def Extension (four : List Char) : Prop :=
  four.map Text.toAsciiLower = ".exe".toList

theorem Extension.not_blank {four : List Char} (h : Extension four) :
    ∀ c ∈ four, Text.isWhitespace c = false := by
  intro c hc
  rw [Bool.eq_false_iff]
  intro hblank
  have hmem : Text.toAsciiLower c ∈ ".exe".toList := by
    rw [← h]
    exact List.mem_map_of_mem hc
  rw [toAsciiLower_of_isWhitespace hblank] at hmem
  rw [isWhitespace_extension c hmem] at hblank
  cases hblank

theorem Extension.dropWhile {four : List Char} (h : Extension four) (front : List Char) :
    ∃ front', (front ++ four).dropWhile Text.isWhitespace = front' ++ four := by
  rw [List.dropWhile_append]
  split
  · refine ⟨[], ?_⟩
    cases four with
    | nil => rfl
    | cons c four =>
        rw [List.dropWhile_cons_of_neg (by simp [h.not_blank c List.mem_cons_self])]
        rfl
  · exact ⟨_, rfl⟩

/-- An executable with a blank in it ends behind the blank. -/
theorem exists_extension_behind {before after : List Char} {blank : Char}
    (hexe : Core.endsWithExe (before ++ blank :: after) = true)
    (hblank : Text.isWhitespace blank = true) :
    ∃ front four, after = front ++ four ∧ Extension four := by
  obtain ⟨front, four, hsplit, (hfour : Extension four)⟩ := endsWithExe_iff.mp hexe
  have hnot : blank ∉ four := fun h => by
    have hfalse := hfour.not_blank blank h
    rw [hblank] at hfalse
    cases hfalse
  rcases List.append_eq_append_iff.mp hsplit with ⟨middle, rfl, hrest⟩ | ⟨middle, rfl, hrest⟩
  · cases middle with
    | nil =>
        rw [List.nil_append] at hrest
        exact absurd (hrest ▸ List.mem_cons_self) hnot
    | cons c middle =>
        cases hrest
        exact ⟨middle, four, rfl, hfour⟩
  · rw [hrest] at hnot
    exact absurd (List.mem_append_right middle List.mem_cons_self) hnot

/-! ## The rest of the image path -/

/-- The arguments of the runner behind its path. -/
def runnerArguments (name : String) : List Char :=
  "run-service".toList ++ ' ' :: (quoteWindowsArg name).toList

theorem toList_verb_padded :
    " run-service ".toList = ' ' :: ("run-service".toList ++ [' ']) := by
  simp

theorem toList_runServiceCommand (exe name : String) :
    (runServiceCommand exe name).toList =
      (quoteWindowsArg exe).toList ++ ' ' :: runnerArguments name := by
  unfold runServiceCommand runnerArguments
  rw [String.toList_append, String.toList_append, toList_verb_padded]
  rw [List.append_assoc, List.cons_append, List.append_assoc, List.singleton_append]

theorem toList_verb :
    "run-service".toList = ['r', 'u', 'n', '-', 's', 'e', 'r', 'v', 'i', 'c', 'e'] := by
  simp

theorem dropWhile_arguments (name : String) :
    (' ' :: runnerArguments name).dropWhile Text.isWhitespace = runnerArguments name := by
  have hspace : Text.isWhitespace ' ' = true := by decide
  have hverb : ¬ Text.isWhitespace 'r' = true := by decide
  unfold runnerArguments
  rw [List.dropWhile_cons_of_pos hspace, toList_verb]
  exact List.dropWhile_cons_of_neg hverb

theorem acceptsRemainder_arguments (name : String) :
    acceptsRemainder (' ' :: runnerArguments name) = true := by
  have hspace : Text.isWhitespace ' ' = true := by decide
  exact acceptsRemainder_iff.mpr (.inr ⟨' ', _, dropWhile_arguments name, hspace⟩)

/-- A part of the path that is taken for the arguments looks like them. -/
theorem acceptsRemainder_behind {front four : List Char} {blank : Char} (name : String)
    (hblank : Text.isWhitespace blank = true) (hfour : Extension four) :
    acceptsRemainder (blank :: (front ++ four) ++ ' ' :: runnerArguments name) = true ↔
      RunsService (front ++ four) := by
  obtain ⟨kept, hkept⟩ := hfour.dropWhile front
  have hlength : four.length = 4 := by
    simpa using congrArg List.length hfour
  have hdrop : (blank :: (front ++ four) ++ ' ' :: runnerArguments name).dropWhile
      Text.isWhitespace = kept ++ four ++ ' ' :: runnerArguments name := by
    rw [List.cons_append, List.dropWhile_cons_of_pos hblank, List.dropWhile_append, hkept,
      if_neg]
    cases four with
    | nil => simp at hlength
    | cons c four => simp
  have hnot : kept ++ four ≠ "run-service".toList := by
    intro h
    have hexe := endsWithExe_iff.mpr ⟨kept, four, h.symm, hfour⟩
    revert hexe
    decide
  rw [acceptsRemainder_iff]
  unfold RunsService
  rw [hdrop, hkept]
  generalize runnerArguments name = arguments
  constructor
  · rintro (hnil | ⟨b, after, hsplit, hb⟩)
    · simp at hnil
    · rcases List.append_eq_append_iff.mp hsplit with ⟨mid, hverb, hrest⟩ | ⟨mid, hverb, hrest⟩
      · cases mid with
        | nil => exact absurd (by simpa using hverb.symm) hnot
        | cons c mid =>
            have hspace : c ∈ "run-service".toList := by simp [hverb]
            cases hrest
            simp [toList_verb] at hspace
      · cases mid with
        | nil => exact absurd (by simpa using hverb) hnot
        | cons c mid =>
            cases hrest
            exact ⟨b, mid, hverb, hb⟩
  · rintro ⟨b, after, hsplit, hb⟩
    exact .inr ⟨b, after ++ ' ' :: arguments, by simp [hsplit], hb⟩

/-! ## The whole image path -/

/-- The mark of the extended-length form stands in front of every blank. -/
theorem prefix_before_blank {before after : List Char} {blank : Char}
    (hextended : "\\\\?\\".toList <+: before ++ blank :: after)
    (hblank : Text.isWhitespace blank = true) : "\\\\?\\".toList <+: before := by
  have hnone := isWhitespace_extendedMark
  obtain ⟨rest, hrest⟩ := hextended
  rcases List.append_eq_append_iff.mp hrest with ⟨mid, hbefore, -⟩ | ⟨mid, hmark, htail⟩
  · exact ⟨mid, hbefore.symm⟩
  · cases mid with
    | nil => exact ⟨[], by simpa using hmark⟩
    | cons c mid =>
        cases htail
        rw [hnone blank (by rw [hmark]; simp)] at hblank
        cases hblank

theorem imagePathExeName_eq_iff {imagePath : String} (hfile : file.toList ≠ []) :
    imagePathExeName imagePath = some file ↔
      ∃ found, imagePathExe (imagePath.toList.dropWhile Text.isWhitespace) = some found ∧
        fileName found = file.toList := by
  unfold imagePathExeName
  cases imagePathExe (imagePath.toList.dropWhile Text.isWhitespace) with
  | none => simp
  | some found =>
      dsimp only
      constructor
      · intro h
        refine ⟨found, rfl, ?_⟩
        by_cases hempty : (fileName found).isEmpty = true
        · rw [if_pos hempty] at h
          cases h
        · rw [if_neg hempty] at h
          rw [← Option.some.inj h, String.toList_ofList]
      · rintro ⟨_, ⟨⟩, hname⟩
        have hnonempty : ¬ (fileName found).isEmpty = true := by
          rw [hname, List.isEmpty_iff]
          exact hfile
        rw [if_neg hnonempty, hname, String.ofList_toList]

namespace CanonicalRunner

variable (h : CanonicalRunner exe file) (name : String)

include h

theorem namesFile : NamesFile exe := by
  obtain ⟨front, four, hexe, (hfour : Extension four)⟩ := endsWithExe_iff.mp h.endsWithExe
  have hne : four ≠ [] := by
    rintro rfl
    cases hfour
  refine ⟨h.noQuote, front ++ four.dropLast, four.getLast hne, ?_, ?_⟩
  · rw [List.append_assoc, List.dropLast_concat_getLast, hexe]
  · intro hback
    have hmem : Text.toAsciiLower '\\' ∈ ".exe".toList := by
      rw [← hfour, ← hback]
      exact List.mem_map_of_mem (List.getLast_mem hne)
    revert hmem
    decide

theorem imagePathExe_quoted (hquotes : needsQuotes exe = true) :
    imagePathExe ((runServiceCommand exe name).toList.dropWhile Text.isWhitespace) =
      some exe.toList := by
  obtain ⟨init, last, hexe, hlast⟩ := h.namesFile.fileName
  have hescape : ArgumentVector.escape 0 exe.toList = exe.toList := by
    rw [hexe, ArgumentVector.escape_of_noQuote 0 init last hlast (hexe ▸ h.noQuote)]
    rfl
  have hquoteChar : ¬ Text.isWhitespace '"' = true := by decide
  have hkeep : ∀ c ∈ exe.toList, (c != '"') = true := by
    intro c hc
    rw [bne_iff_ne]
    rintro rfl
    exact h.noQuote hc
  have hstop : ('"' != '"') = false := by decide
  obtain ⟨htake, -⟩ :=
    ArgumentVector.takeWhile_append_stop (' ' :: runnerArguments name) hkeep hstop
  rw [toList_runServiceCommand, quoteWindowsArg_quoted hquotes, ArgumentVector.quoted, hescape]
  rw [List.cons_append, List.dropWhile_cons_of_neg hquoteChar, List.append_assoc,
    List.singleton_append, imagePathExe, if_pos (by simp), htake]

theorem dropWhile_plain (hplain : needsQuotes exe = false) :
    (runServiceCommand exe name).toList.dropWhile Text.isWhitespace =
      exe.toList ++ ' ' :: runnerArguments name := by
  obtain ⟨rest, hexe⟩ := h.extended
  have hback : ¬ Text.isWhitespace '\\' = true := by decide
  rw [toList_runServiceCommand, quoteWindowsArg_plain hplain, ← hexe]
  exact List.dropWhile_cons_of_neg hback

theorem imagePathExe_plain (hplain : needsQuotes exe = false) (found : List Char) :
    imagePathExe ((runServiceCommand exe name).toList.dropWhile Text.isWhitespace) = some found ↔
      ∃ rest, findExecutable [] (exe.toList ++ ' ' :: runnerArguments name) = some (found, rest) ∧
        acceptsCandidate found = true ∧ acceptsRemainder rest = true := by
  obtain ⟨front, hexe⟩ := h.extended
  rw [h.dropWhile_plain name hplain, ← hexe]
  generalize runnerArguments name = arguments
  unfold imagePathExe
  split
  · rename_i rest hquote
    simp at hquote
  · cases hfind : findExecutable [] ("\\\\?\\".toList ++ front ++ ' ' :: arguments) with
    | none => simp
    | some pair =>
        obtain ⟨candidate, rest⟩ := pair
        dsimp only
        constructor
        · intro haccepts
          split at haccepts
          · rename_i hboth
            cases haccepts
            exact ⟨rest, rfl, Bool.and_eq_true_iff.mp hboth⟩
          · cases haccepts
        · rintro ⟨_, ⟨⟩, hcandidate, hrest⟩
          rw [hcandidate, hrest]
          rfl

/-- A path without blanks is found. -/
theorem findExecutable_whole (hblank : ∀ c ∈ exe.toList, Text.isWhitespace c = false) :
    findExecutable [] (exe.toList ++ ' ' :: runnerArguments name) =
      some (exe.toList, ' ' :: runnerArguments name) := by
  have hspace : Text.isWhitespace ' ' = true := by decide
  rw [findExecutable_blank hblank hspace, List.nil_append, if_pos h.endsWithExe]

/-- What is accepted in a path with blanks ends at the first of them. -/
theorem accepted_iff {before after : List Char} {blank : Char}
    (hsplit : exe.toList = before ++ blank :: after)
    (hbefore : ∀ c ∈ before, Text.isWhitespace c = false)
    (hblank : Text.isWhitespace blank = true) (found : List Char) :
    (∃ rest, findExecutable [] (exe.toList ++ ' ' :: runnerArguments name) = some (found, rest) ∧
        acceptsCandidate found = true ∧ acceptsRemainder rest = true) ↔
      found = before ∧ Core.endsWithExe before = true ∧ RunsService after := by
  obtain ⟨front, four, rfl, hfour⟩ := exists_extension_behind (hsplit ▸ h.endsWithExe) hblank
  have hextended := prefix_before_blank (hsplit ▸ h.extended) hblank
  rw [hsplit, List.append_assoc, List.cons_append, findExecutable_blank hbefore hblank,
    List.nil_append]
  cases hends : Core.endsWithExe before with
  | true =>
      rw [if_pos rfl]
      have haccepts : acceptsCandidate before = true := by
        rw [acceptsCandidate_extended hextended]
        simpa [hasBlank] using hbefore
      constructor
      · rintro ⟨rest, ⟨⟩, -, hrest⟩
        exact ⟨rfl, rfl, (acceptsRemainder_behind name hblank hfour).mp hrest⟩
      · rintro ⟨rfl, -, hruns⟩
        exact ⟨_, rfl, haccepts, (acceptsRemainder_behind name hblank hfour).mpr hruns⟩
  | false =>
      rw [if_neg (by decide)]
      constructor
      · rintro ⟨rest, hfind, haccepts, -⟩
        have hfound := prefix_of_findExecutable hfind
        rw [acceptsCandidate_extended (hextended.trans ((List.prefix_append _ _).trans hfound))]
          at haccepts
        have hmem : blank ∈ found := hfound.subset (by simp)
        simp [hasBlank] at haccepts
        rw [haccepts blank hmem] at hblank
        cases hblank
      · rintro ⟨-, ⟨⟩, -⟩

end CanonicalRunner

/-- A path with a blank, and its part before the first one. -/
theorem exists_first_blank {path : List Char} (hblank : hasBlank path = true) :
    ∃ before blank after, path = before ++ blank :: after ∧
      (∀ c ∈ before, Text.isWhitespace c = false) ∧ Text.isWhitespace blank = true := by
  induction path with
  | nil => cases hblank
  | cons c path ih =>
      cases hc : Text.isWhitespace c with
      | true => exact ⟨[], c, path, rfl, by simp, hc⟩
      | false =>
          have hrest : hasBlank path = true := by simpa [hasBlank, hc] using hblank
          obtain ⟨before, blank, after, rfl, hbefore, hfirst⟩ := ih hrest
          refine ⟨c :: before, blank, after, rfl, ?_, hfirst⟩
          intro x hx
          rcases List.mem_cons.mp hx with rfl | hx
          · exact hc
          · exact hbefore x hx

/-- The image path of a service is recognised exactly when its runner can be. -/
theorem imagePathExeName_iff (h : CanonicalRunner exe file) (name : String) :
    imagePathExeName (runServiceCommand exe name) = some file ↔ Recognisable exe file := by
  rw [imagePathExeName_eq_iff h.file_ne_nil]
  cases hquotes : needsQuotes exe with
  | true =>
      rw [h.imagePathExe_quoted name hquotes]
      have hquoted : ∃ c ∈ exe.toList, isQuotedChar c = true := by
        have hne : exe.isEmpty = false := by
          simpa using h.namesFile.ne_nil
        simpa [needsQuotes, hne] using hquotes
      exact iff_of_true ⟨exe.toList, rfl, h.fileName⟩ (.inl hquoted)
  | false =>
      have hplain := (needsQuotes_eq_false.mp hquotes).2
      have hnone : ¬ ∃ c ∈ exe.toList, isQuotedChar c = true := by
        rintro ⟨c, hc, hquoted⟩
        rw [hplain c hc] at hquoted
        cases hquoted
      simp only [h.imagePathExe_plain name hquotes]
      unfold Recognisable
      rw [or_iff_right hnone]
      cases hblank : hasBlank exe.toList with
      | false =>
          have hnoBlank : ∀ c ∈ exe.toList, Text.isWhitespace c = false := by
            simpa [hasBlank] using hblank
          refine iff_of_true ⟨exe.toList, ⟨_, h.findExecutable_whole name hnoBlank, ?_,
            acceptsRemainder_arguments name⟩, h.fileName⟩ (.inl hnoBlank)
          rw [acceptsCandidate_extended h.extended, hblank]
          rfl
      | true =>
          obtain ⟨before, blank, after, hsplit, hbefore, hfirst⟩ := exists_first_blank hblank
          have hsome : ¬ ∀ c ∈ exe.toList, Text.isWhitespace c = false := by
            intro hall
            rw [hall blank (by simp [hsplit])] at hfirst
            cases hfirst
          simp only [h.accepted_iff name hsplit hbefore hfirst]
          rw [or_iff_right hsome]
          constructor
          · rintro ⟨_, ⟨rfl, -, hruns⟩, hname⟩
            exact ⟨_, blank, after, hsplit, hbefore, hfirst, hname, hruns⟩
          · rintro ⟨before', blank', after', hsplit', hbefore', hfirst', hname, hruns⟩
            have hends := endsWithExe_of_fileName h.name hname
            have hfound := (h.accepted_iff name hsplit' hbefore' hfirst' before').mpr
              ⟨rfl, hends, hruns⟩
            exact ⟨before', (h.accepted_iff name hsplit hbefore hfirst before').mp hfound, hname⟩

end

/-- The writer's image path is recognised under the runner's name exactly when the
path of the runner is quoted or holds no blank, or a namesake stands in front of
its first blank; then the service counts as managed. -/
theorem installed_recognised_iff (name : String) (original : Path)
    (validate : Path → Result Path) (canonical : Path) (exe file : String)
    (hvalid : validate original = .ok canonical) (hdecode : Utf16.decode canonical = some exe)
    (hrunner : CanonicalRunner exe file) :
    ∃ command, commandForValidatedRunner name original validate = .ok command ∧
      (imagePathExeName command = some file ↔ Recognisable exe file) ∧
      (Recognisable exe file →
        ∀ service : ServiceDefinition, service.native.imagePath = command →
          service.isManaged = true) := by
  refine ⟨runServiceCommand exe name, ?_, imagePathExeName_iff hrunner name, ?_⟩
  · exact commandForValidatedRunner_eq_ok.mpr ⟨canonical, exe, hvalid, hdecode, rfl⟩
  · intro hrecognisable service himage
    have hname := (imagePathExeName_iff hrunner name).mpr hrecognisable
    rw [ServiceDefinition.isManaged, himage, hname]
    dsimp only
    rw [hrunner.name]
    simp

theorem canonicalRunner_programFiles : CanonicalRunner programFilesRunner "ngsm.exe" where
  extended := ⟨"C:\\Program Files\\NGSM\\ngsm.exe".toList, by decide⟩
  noQuote := by decide
  fileName := by decide
  name := by decide

theorem programFiles_recognised :
    imagePathExeName (runServiceCommand programFilesRunner "svc") = some "ngsm.exe" := by
  obtain ⟨command, hcommand, hrecognised, -⟩ := installed_recognised_iff "svc"
    (Utf16.encode programFilesRunner) .ok _ _ _ rfl (Utf16.decode_encode _)
    canonicalRunner_programFiles
  obtain ⟨_, exe, hvalid, hdecode, rfl⟩ := commandForValidatedRunner_eq_ok.mp hcommand
  cases hvalid
  rw [Utf16.decode_encode] at hdecode
  cases hdecode
  exact hrecognised.mpr (.inl ⟨' ', by decide, by decide⟩)

/-- A runner below a directory with a no-break space in its name. -/
def noBreakRunner : String :=
  "\\\\?\\C:\\NGSM\u00a01\\ngsm.exe"

theorem noBreakRunner_hidden :
    ¬ ∀ (exe file name : String), CanonicalRunner exe file → validateServiceName name = .ok () →
      imagePathExeName (runServiceCommand exe name) = some file := by
  intro hall
  have hrunner : CanonicalRunner noBreakRunner "ngsm.exe" :=
    { extended := ⟨"C:\\NGSM\u00a01\\ngsm.exe".toList, by decide⟩
      noQuote := by decide
      fileName := by decide
      name := by decide }
  have hname : validateServiceName "svc" = .ok () := by decide
  have hfound := hall _ _ _ hrunner hname
  have hnone : imagePathExeName (runServiceCommand noBreakRunner "svc") = none := by decide
  rw [hnone] at hfound
  cases hfound

end Ngsm.Win32
