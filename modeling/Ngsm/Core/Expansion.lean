/-
# Environment variables in stored strings

A string that is marked as expandable is stored with references `%name%` and
expanded by the service, whose account's environment it names.  The scan pairs the
percent signs from the left, replaces the references to known names and leaves
everything else as it stands; a value is not scanned again.
-/

import Ngsm.Core.Config
import Ngsm.Lib.Program

namespace Ngsm.Core

open Ngsm.Lib

/-- The result is shorter than this, in UTF-16 code units. -/
def expandedLimit : Nat :=
  32767

/-- What has been written, and its length in UTF-16 code units. -/
structure Expanded where
  out : String := ""
  units : Nat := 0
  deriving DecidableEq, Repr

def appendExpanded (field : String) (expanded : Expanded) (value : String) : Result Expanded :=
  if Text.contains value '\x00' then
    .error (.invalidConfig (field ++ " expands to a string containing NUL"))
  else
    let units := expanded.units + (Utf16.encode value).length
    if expandedLimit ≤ units then
      .error (.invalidConfig (field ++ " exceeds the Windows expanded-string limit"))
    else
      .ok { out := expanded.out ++ value, units }

section

variable {σ : Type}

/-- The lookup of a variable may keep a state of its own. -/
abbrev Lookup (σ : Type) : Type :=
  String → StateM σ (Option String)

/-- The text up to the next percent sign. -/
def beforeSign (text : List Char) : List Char :=
  text.takeWhile (· != '%')

/-- The text from the next percent sign on. -/
def fromSign (text : List Char) : List Char :=
  text.dropWhile (· != '%')

theorem length_fromSign_le (text : List Char) : (fromSign text).length ≤ text.length :=
  (List.dropWhile_suffix _).length_le

/-- Look a name up unless it is empty. -/
def lookupName (lookup : Lookup σ) (name : List Char) : Prog σ Error (Option String) :=
  if name.isEmpty then pure none else liftM (lookup (String.ofList name))

def expandLoop (field : String) (lookup : Lookup σ) (rest : List Char) (expanded : Expanded) :
    Prog σ Error Expanded :=
  match _hstart : fromSign rest with
  | [] => liftExcept (appendExpanded field expanded (String.ofList rest))
  | _ :: candidate => do
      let expanded ← liftExcept (appendExpanded field expanded (String.ofList (beforeSign rest)))
      match _hend : fromSign candidate with
      | [] => liftExcept (appendExpanded field expanded (String.ofList ('%' :: candidate)))
      | _ :: rest' => do
          let name := beforeSign candidate
          let value ← lookupName lookup name
          let reference := String.ofList ('%' :: name ++ ['%'])
          let expanded ← liftExcept (appendExpanded field expanded (value.getD reference))
          expandLoop field lookup rest' expanded
termination_by rest.length
decreasing_by
  have hfirst := length_fromSign_le rest
  have hsecond := length_fromSign_le candidate
  rw [_hstart] at hfirst
  rw [_hend] at hsecond
  simp only [List.length_cons] at hfirst hsecond
  omega

def expand (field text : String) (lookup : Lookup σ) : Prog σ Error String := do
  let expanded ← expandLoop field lookup text.toList {}
  pure expanded.out

/-- Expand a field when it is marked. -/
def expandMarked (cfg : ManagedApplicationConfig) (lookup : Lookup σ) (name text : String) :
    Prog σ Error String :=
  if cfg.isExpandableString name then expand name text lookup else pure text

def expandField (cfg : ManagedApplicationConfig) (lookup : Lookup σ) (name : String)
    (value : Option String) : Prog σ Error (Option String) :=
  match value with
  | some text => some <$> expandMarked cfg lookup name text
  | none => pure none

def expandStream (cfg : ManagedApplicationConfig) (lookup : Lookup σ) (name : String)
    (stream : Option IoStream) : Prog σ Error (Option IoStream) :=
  match stream with
  | some stream =>
      (fun path => some { stream with path }) <$> expandMarked cfg lookup name stream.path
  | none => pure none

def expandHook (cfg : ManagedApplicationConfig) (lookup : Lookup σ) (hook : HookConfig) :
    Prog σ Error HookConfig :=
  (fun command => { hook with command }) <$>
    expandMarked cfg lookup (ManagedApplicationConfig.hookExpansionKey hook.event hook.action)
      hook.command

/-- The configuration with its marked strings expanded and no marks. -/
def resolveExpandableStrings (cfg : ManagedApplicationConfig) (lookup : Lookup σ) :
    Prog σ Error ManagedApplicationConfig := do
  let application ← expandField cfg lookup "Application" cfg.application
  let appParameters ← expandField cfg lookup "AppParameters" cfg.appParameters
  let appDirectory ← expandField cfg lookup "AppDirectory" cfg.appDirectory
  let affinity ← expandField cfg lookup "AppAffinity" cfg.affinity
  let stdin ← expandStream cfg lookup "AppStdin" cfg.io.stdin
  let stdout ← expandStream cfg lookup "AppStdout" cfg.io.stdout
  let stderr ← expandStream cfg lookup "AppStderr" cfg.io.stderr
  let hooks ← cfg.hooks.mapM (expandHook cfg lookup)
  pure { cfg with
    application, appParameters, appDirectory, affinity
    io := { cfg.io with stdin, stdout, stderr }
    hooks, expandableStrings := ∅ }

end

end Ngsm.Core
