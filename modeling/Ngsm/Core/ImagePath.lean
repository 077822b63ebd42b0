/-
# Which services are managed

A service is managed when it has a managed configuration, or when the executable
of its image path is the service manager's own.  The second rule is for services
whose configuration is missing.  An image path is a command line, so the recogniser
isolates the executable: a quoted token, or the shortest part that ends in `.exe`
at a blank or at the end.
-/

import Ngsm.Core.Validate

namespace Ngsm.Core

open Ngsm.Lib

inductive StartupType where
  | boot
  | system
  | automatic
  | automaticDelayed
  | manual
  | disabled
  | unknown
  deriving DecidableEq, Repr

inductive ServiceState where
  | stopped
  | startPending
  | stopPending
  | running
  | continuePending
  | pausePending
  | paused
  | unknown
  deriving DecidableEq, Repr

structure NativeServiceConfig where
  name : String
  startup : StartupType
  imagePath : String
  deriving DecidableEq, Repr

structure ServiceRuntimeState where
  state : ServiceState
  deriving DecidableEq, Repr

structure ServiceDefinition where
  native : NativeServiceConfig
  managed : Option ManagedApplicationConfig := none
  runtime : Option ServiceRuntimeState := none

/-! ## The executable of an image path -/

def hasBlank (cs : List Char) : Bool :=
  cs.any Text.isWhitespace

def endsWithExe (cs : List Char) : Bool :=
  ".exe".toList.isSuffixOf (cs.map Text.toAsciiLower)

/-- The shortest part that ends in `.exe` at a blank or at the end, and the rest. -/
def findExecutable : List Char → List Char → Option (List Char × List Char)
  | before, [] => if endsWithExe before then some (before, []) else none
  | before, c :: rest =>
      if Text.isWhitespace c && endsWithExe before then
        some (before, c :: rest)
      else
        findExecutable (before ++ [c]) rest

/-- What follows a program files directory of a drive. -/
def programFilesTail (candidate : List Char) : Option (List Char) :=
  match candidate.map fun c => Text.toAsciiLower (if c = '/' then '\\' else c) with
  | drive :: ':' :: '\\' :: rest =>
      if isAsciiAlphabetic drive then
        (rest.dropPrefix? "program files\\".toList).or
          (rest.dropPrefix? "program files (x86)\\".toList)
      else
        none
  | _ => none

/-- Blanks inside an executable that is not quoted are accepted in the name of a
program files directory alone. -/
def acceptsCandidate (candidate : List Char) : Bool :=
  if hasBlank candidate then
    match programFilesTail candidate with
    | some tail => !hasBlank tail
    | none => false
  else
    true

/-- An executable that is not quoted has no arguments, or those of the runner. -/
def acceptsRemainder (rest : List Char) : Bool :=
  let remainder := rest.dropWhile Text.isWhitespace
  remainder.isEmpty ||
    match remainder.dropPrefix? "run-service".toList with
    | some (c :: _) => Text.isWhitespace c
    | _ => false

def imagePathExe (trimmed : List Char) : Option (List Char) :=
  match trimmed with
  | '"' :: rest => if rest.contains '"' then some (rest.takeWhile (· != '"')) else none
  | _ =>
      match findExecutable [] trimmed with
      | some (candidate, rest) =>
          if acceptsCandidate candidate && acceptsRemainder rest then some candidate else none
      | none => none

/-- The last component of a path. -/
def fileName (path : List Char) : List Char :=
  (path.reverse.takeWhile fun c => !isSeparator c).reverse

/-- The file name of the executable of an image path. -/
def imagePathExeName (imagePath : String) : Option String :=
  match imagePathExe (imagePath.toList.dropWhile Text.isWhitespace) with
  | some exe =>
      let name := fileName exe
      if name.isEmpty then none else some (String.ofList name)
  | none => none

def ServiceDefinition.isManaged (service : ServiceDefinition) : Bool :=
  service.managed.isSome ||
    match imagePathExeName service.native.imagePath with
    | some exe => Text.eqIgnoreAsciiCase exe "ngsm.exe" || Text.eqIgnoreAsciiCase exe "nssm.exe"
    | none => false

example : imagePathExeName "C:\\Program Files\\NGSM\\ngsm.exe run-service a" = some "ngsm.exe" := by
  decide

example : imagePathExeName "C:\\tools\\ngsm.exe data\\worker.exe" = none := by decide

/-! ## The search for the executable -/

section

variable {before pre rest : List Char} {c : Char}

/-- The search stops at a blank behind `.exe` and goes on at every other. -/
theorem findExecutable_blank (hpre : ∀ x ∈ pre, Text.isWhitespace x = false)
    (hblank : Text.isWhitespace c = true) :
    findExecutable before (pre ++ c :: rest) =
      if endsWithExe (before ++ pre) then some (before ++ pre, c :: rest)
      else findExecutable (before ++ pre ++ [c]) rest := by
  induction pre generalizing before with
  | nil => simp [findExecutable, hblank]
  | cons x pre ih =>
      have hx : Text.isWhitespace x = false := hpre x List.mem_cons_self
      rw [List.cons_append, findExecutable, hx, Bool.false_and, if_neg (by decide),
        ih fun y hy => hpre y (List.mem_cons_of_mem x hy)]
      simp

/-- What the search finds begins with what it started from. -/
theorem prefix_of_findExecutable {candidate after : List Char}
    (hfind : findExecutable before rest = some (candidate, after)) : before <+: candidate := by
  induction rest generalizing before with
  | nil =>
      rw [findExecutable] at hfind
      split at hfind
      · cases hfind
        exact List.prefix_refl _
      · cases hfind
  | cons x rest ih =>
      rw [findExecutable] at hfind
      split at hfind
      · cases hfind
        exact List.prefix_refl _
      · exact (List.prefix_append before [x]).trans (ih hfind)

/-! ## What follows it -/

/-- Blanks and then the first argument of the runner. -/
def RunsService (rest : List Char) : Prop :=
  ∃ blank after, rest.dropWhile Text.isWhitespace = "run-service".toList ++ blank :: after ∧
    Text.isWhitespace blank = true

theorem acceptsRemainder_iff :
    acceptsRemainder rest = true ↔ rest.dropWhile Text.isWhitespace = [] ∨ RunsService rest := by
  unfold acceptsRemainder RunsService
  rw [Bool.or_eq_true, List.isEmpty_iff]
  refine or_congr_right ?_
  cases hdrop : (rest.dropWhile Text.isWhitespace).dropPrefix? "run-service".toList with
  | none =>
      constructor
      · nofun
      · rintro ⟨blank, after, hrest, -⟩
        rw [hrest, List.dropPrefix?_append_of_beq _ (beq_self_eq_true _)] at hdrop
        cases hdrop
  | some tail =>
      obtain ⟨verb, hrest, hverb⟩ := List.dropPrefix?_eq_some_iff.mp hdrop
      rw [eq_of_beq hverb] at hrest
      cases tail with
      | nil =>
          constructor
          · nofun
          · rintro ⟨blank, after, hsplit, -⟩
            rw [hrest, List.append_cancel_left_eq] at hsplit
            cases hsplit
      | cons c tail =>
          constructor
          · intro hblank
            exact ⟨c, tail, hrest, hblank⟩
          · rintro ⟨blank, after, hsplit, hblank⟩
            rw [hrest, List.append_cancel_left_eq] at hsplit
            cases hsplit
            exact hblank

end

end Ngsm.Core
