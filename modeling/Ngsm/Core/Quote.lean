/-
# Quoting arguments

An argument is quoted when it is empty or holds a blank or a quote; every other
argument is its own spelling.  Whatever the arguments are, their spellings joined
with blanks are split into them again.
-/

import Ngsm.Lib.ArgumentVector

namespace Ngsm.Core

open Ngsm.Lib

/-- The characters that make quotes necessary. -/
def isQuotedChar (c : Char) : Bool :=
  c == ' ' || c == '\t' || c == '\n' || c == '\x0b' || c == '"'

def needsQuotes (arg : String) : Bool :=
  arg.isEmpty || arg.toList.any isQuotedChar

/-- Quote one argument; backslashes are doubled in front of a quote and at the
end. -/
def quoteWindowsArg (arg : String) : String :=
  if !needsQuotes arg then arg else String.ofList (ArgumentVector.quoted arg.toList)

example : quoteWindowsArg "a\\\"b c\\" = "\"a\\\\\\\"b c\\\\\"" := by decide

theorem quoteWindowsArg_plain {arg : String} (hplain : needsQuotes arg = false) :
    quoteWindowsArg arg = arg := by
  rw [quoteWindowsArg, hplain]
  rfl

theorem quoteWindowsArg_quoted {arg : String} (hquotes : needsQuotes arg = true) :
    (quoteWindowsArg arg).toList = ArgumentVector.quoted arg.toList := by
  rw [quoteWindowsArg, hquotes]
  simp

/-- An argument without quotes is not empty and holds none of the characters that
need them. -/
theorem needsQuotes_eq_false {arg : String} :
    needsQuotes arg = false ↔ arg ≠ "" ∧ ∀ c ∈ arg.toList, isQuotedChar c = false := by
  simp [needsQuotes]

theorem plain_of_not_isQuotedChar {c : Char} (h : isQuotedChar c = false) :
    ArgumentVector.isBlank c = false ∧ c ≠ '"' := by
  simp only [isQuotedChar, Bool.or_eq_false_iff, beq_eq_false_iff_ne] at h
  obtain ⟨⟨⟨⟨hspace, htab⟩, -⟩, -⟩, hquote⟩ := h
  exact ⟨by simp [ArgumentVector.isBlank, hspace, htab], hquote⟩

/-- The spelling of an argument is read back on its own. -/
theorem readable_quoteWindowsArg (doubled : ArgumentVector.Quoting) :
    ArgumentVector.Readable doubled fun cs => (quoteWindowsArg (String.ofList cs)).toList := by
  intro cs rest
  beta_reduce
  cases hquotes : needsQuotes (String.ofList cs) with
  | true =>
      rw [quoteWindowsArg_quoted hquotes, String.toList_ofList]
      exact ArgumentVector.readable_quoted doubled cs rest
  | false =>
      rw [quoteWindowsArg_plain hquotes, String.toList_ofList]
      obtain ⟨hnonempty, hchars⟩ := needsQuotes_eq_false.mp hquotes
      rw [String.toList_ofList] at hchars
      apply ArgumentVector.split_plain_arg
      · rintro rfl
        exact hnonempty rfl
      · intro c hc
        exact plain_of_not_isQuotedChar (hchars c hc)

/-- The command line of a list of arguments. -/
def joinArgs (args : List String) : String :=
  " ".intercalate (args.map quoteWindowsArg)

/-- The arguments of a command line after its program name. -/
def splitArgs (doubled : ArgumentVector.Quoting) (line : String) : List String :=
  (ArgumentVector.split doubled none line.toList).map String.ofList

theorem toList_joinArgs_pair (first second : String) :
    (joinArgs [first, second]).toList =
      (quoteWindowsArg first).toList ++ ' ' :: (quoteWindowsArg second).toList := by
  have hspace : " ".toList = [' '] := rfl
  rw [joinArgs, String.toList_intercalate, hspace]
  simp [List.intercalate_cons_cons]

theorem splitArgs_joinArgs (doubled : ArgumentVector.Quoting) (args : List String) :
    splitArgs doubled (joinArgs args) = args := by
  have hsplit := (readable_quoteWindowsArg doubled).split_join (args.map String.toList)
  have hspace : " ".toList = [' '] := rfl
  have hmap : (args.map quoteWindowsArg).map String.toList =
      (args.map String.toList).map fun cs => (quoteWindowsArg (String.ofList cs)).toList := by
    rw [List.map_map, List.map_map]
    apply List.map_congr_left
    intro arg _
    simp
  have hjoin : (joinArgs args).toList = [' '].intercalate ((args.map String.toList).map
      fun cs => (quoteWindowsArg (String.ofList cs)).toList) := by
    rw [joinArgs, String.toList_intercalate, hspace, hmap]
  rw [splitArgs, hjoin, hsplit, List.map_map]
  simp [Function.comp_def]

end Ngsm.Core
