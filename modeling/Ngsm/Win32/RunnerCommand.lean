/-
# The command line of a service

The service control manager starts a managed service by its image path, the
quoted path of the runner followed by `run-service` and the quoted name of the
service.  The runner reads it back as exactly these three arguments.
-/

import Ngsm.Core.Quote
import Ngsm.Core.Validate
import Ngsm.Lib.Program

namespace Ngsm.Win32

open Ngsm.Lib Ngsm.Core

/-- A path as the system stores it, in UTF-16 code units. -/
abbrev Path : Type :=
  List UInt16

/-- The image path of a service whose runner lives at `exe`. -/
def runServiceCommand (exe name : String) : String :=
  quoteWindowsArg exe ++ " run-service " ++ quoteWindowsArg name

/-- `validate` resolves the path of the runner and refuses locations that are not
trusted. -/
def commandForValidatedRunner (name : String) (original : Path)
    (validate : Path → Result Path) : Result String := do
  let canonical ← validate original
  match Utf16.decode canonical with
  | none => throw (.other
      "runner path contains invalid Unicode and cannot be stored losslessly")
  | some exe => pure (runServiceCommand exe name)

def buildRunServiceCommand (currentExe : Result Path) (validate : Path → Result Path)
    (name : String) : Result String := do
  validateServiceName name
  let exe ← currentExe
  commandForValidatedRunner name exe validate

theorem commandForValidatedRunner_eq_ok {name : String} {original : Path}
    {validate : Path → Result Path} {command : String} :
    commandForValidatedRunner name original validate = .ok command ↔
      ∃ canonical exe, validate original = .ok canonical ∧
        Utf16.decode canonical = some exe ∧ command = runServiceCommand exe name := by
  rw [commandForValidatedRunner, Check.bind_eq_ok]
  constructor
  · rintro ⟨canonical, hvalid, hcommand⟩
    cases hdecode : Utf16.decode canonical with
    | none =>
        rw [hdecode] at hcommand
        cases hcommand
    | some exe =>
        rw [hdecode] at hcommand
        cases hcommand
        exact ⟨canonical, exe, hvalid, hdecode, rfl⟩
  · rintro ⟨canonical, exe, hvalid, hdecode, rfl⟩
    refine ⟨canonical, hvalid, ?_⟩
    rw [hdecode]
    rfl

/-! ## Reading it back -/

/-- The program name of a command line. -/
def programName (line : String) : String :=
  String.ofList (ArgumentVector.programName line.toList).1

/-- The argument vector of a command line. -/
def argv (doubled : ArgumentVector.Quoting) (line : String) : List String :=
  (ArgumentVector.parse doubled line.toList).map String.ofList

/-- The path of a file: it holds no quote, and its last character belongs to the
name of the file. -/
structure NamesFile (exe : String) : Prop where
  noQuote : '"' ∉ exe.toList
  fileName : ∃ init last, exe.toList = init ++ [last] ∧ last ≠ '\\'

theorem NamesFile.ne_nil {exe : String} (h : NamesFile exe) : exe.toList ≠ [] := by
  obtain ⟨init, last, hexe, -⟩ := h.fileName
  rw [hexe]
  simp

section

variable {exe : String} (name : String)

/-- The runner is read back from the image path, and what follows it are the two
arguments. -/
theorem programName_runServiceCommand (h : NamesFile exe) :
    ArgumentVector.programName (runServiceCommand exe name).toList =
      (exe.toList, ' ' :: (joinArgs ["run-service", name]).toList) := by
  have hverb : quoteWindowsArg "run-service" = "run-service" :=
    quoteWindowsArg_plain (by decide)
  have hrest : (runServiceCommand exe name).toList =
      (quoteWindowsArg exe).toList ++ ' ' :: (joinArgs ["run-service", name]).toList := by
    rw [toList_joinArgs_pair, hverb, runServiceCommand]
    simp
  rw [hrest]
  cases hquotes : needsQuotes exe with
  | true =>
      obtain ⟨init, last, hexe, hlast⟩ := h.fileName
      have hescape : ArgumentVector.escape 0 exe.toList = exe.toList := by
        rw [hexe, ArgumentVector.escape_of_noQuote 0 init last hlast (hexe ▸ h.noQuote)]
        rfl
      rw [quoteWindowsArg_quoted hquotes, ArgumentVector.quoted, hescape]
      rw [List.cons_append, List.append_assoc]
      exact ArgumentVector.programName_quoted h.noQuote
  | false =>
      rw [quoteWindowsArg_plain hquotes]
      apply ArgumentVector.programName_plain rfl h.ne_nil
      intro c hc
      exact plain_of_not_isQuotedChar ((needsQuotes_eq_false.mp hquotes).2 c hc)

/-- The argument vector of the image path. -/
theorem argv_runServiceCommand (doubled : ArgumentVector.Quoting) (h : NamesFile exe) :
    argv doubled (runServiceCommand exe name) = [exe, "run-service", name] := by
  have hskip : ∀ cs, ArgumentVector.split doubled none (' ' :: cs) =
      ArgumentVector.split doubled none cs := by
    intro cs
    rw [ArgumentVector.split, if_pos (by decide)]
  have hargs := splitArgs_joinArgs doubled ["run-service", name]
  rw [splitArgs] at hargs
  rw [argv, ArgumentVector.parse, programName_runServiceCommand name h, hskip, List.map_cons,
    hargs]
  simp

end

/-- Arguments survive a command line, and the runner and its arguments survive the
image path of a service. -/
theorem command_lines_read_back (doubled : ArgumentVector.Quoting) :
    (∀ args : List String, splitArgs doubled (joinArgs args) = args) ∧
      ∀ (name : String) (original : Path) (validate : Path → Result Path) (command : String),
        commandForValidatedRunner name original validate = .ok command →
          ∃ canonical exe, validate original = .ok canonical ∧
            Utf16.decode canonical = some exe ∧
            (NamesFile exe → programName command = exe ∧
              argv doubled command = [exe, "run-service", name]) := by
  refine ⟨splitArgs_joinArgs doubled, fun name original validate command hcommand => ?_⟩
  obtain ⟨canonical, exe, hvalid, hdecode, rfl⟩ := commandForValidatedRunner_eq_ok.mp hcommand
  refine ⟨canonical, exe, hvalid, hdecode, fun hfile => ⟨?_, argv_runServiceCommand name doubled hfile⟩⟩
  rw [programName, programName_runServiceCommand name hfile, String.ofList_toList]

/-- A runner below a directory with a blank in its name. -/
def programFilesRunner : String :=
  "\\\\?\\C:\\Program Files\\NGSM\\ngsm.exe"

theorem namesFile_programFilesRunner : NamesFile programFilesRunner :=
  ⟨by decide, programFilesRunner.toList.dropLast, 'e', by decide, by decide⟩

theorem programFiles_command_read_back :
    argv .inside (runServiceCommand programFilesRunner "a \"b\" c") =
      [programFilesRunner, "run-service", "a \"b\" c"] := by
  have hcommand : commandForValidatedRunner "a \"b\" c" (Utf16.encode programFilesRunner) .ok =
      .ok (runServiceCommand programFilesRunner "a \"b\" c") :=
    commandForValidatedRunner_eq_ok.mpr ⟨_, _, rfl, Utf16.decode_encode _, rfl⟩
  obtain ⟨canonical, exe, hvalid, hdecode, hread⟩ :=
    (command_lines_read_back .inside).2 _ _ _ _ hcommand
  cases hvalid
  rw [Utf16.decode_encode] at hdecode
  cases hdecode
  exact (hread namesFile_programFilesRunner).2

end Ngsm.Win32
