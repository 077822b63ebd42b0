/-
# Validation of caller-supplied strings

Service names, hook components and file system paths are checked before any
privileged call uses them.  Path checks work on the UTF-8 bytes of the value;
every separator and drive character is ASCII, so the characters of the string
give the same answer.
-/

import Ngsm.Core.Config

namespace Ngsm.Core

open Ngsm.Lib

/-- The longest service name, in UTF-16 code units. -/
def maxServiceNameLen : Nat :=
  256

/-- The checks on the characters of a name, in the order of its characters. -/
def checkNameChars (subject : String) : List Char → Result Unit
  | [] => .ok ()
  | c :: rest =>
      if c = '\\' ∨ c = '/' then
        .error (.invalidConfig (subject ++ " must not contain '\\' or '/'"))
      else if Text.isControl c then
        .error (.invalidConfig (subject ++ " must not contain control characters"))
      else
        checkNameChars subject rest

/-- A service name is not empty, fits the service control manager's limit and
holds no separator or control character. -/
def validateServiceName (name : String) : Result Unit :=
  let len := (Utf16.encode name).length
  if name.isEmpty then
    .error (.invalidConfig "service name must not be empty")
  else if len > maxServiceNameLen then
    .error (.invalidConfig
      s!"service name is {len} UTF-16 code units; the limit is {maxServiceNameLen}")
  else
    checkNameChars ("service name '" ++ name ++ "'") name.toList

/-- A hook event becomes a key name and a hook action a value name; neither may
be empty, long, or hold a separator or control character. -/
def validateHookComponent (name kind : String) : Result Unit :=
  let len := (Utf16.encode name).length
  if name.isEmpty then
    .error (.invalidConfig ("hook " ++ kind ++ " name must not be empty"))
  else if len > 255 then
    .error (.invalidConfig
      s!"hook {kind} name '{name}' is {len} UTF-16 code units; the limit is 255")
  else
    checkNameChars ("hook " ++ kind ++ " name '" ++ name ++ "'") name.toList

/-- The two path separators. -/
def isSeparator (c : Char) : Bool :=
  c == '\\' || c == '/'

/-- An ASCII letter. -/
def isAsciiAlphabetic (c : Char) : Bool :=
  ('a'.toNat ≤ c.toNat && c.toNat ≤ 'z'.toNat) || ('A'.toNat ≤ c.toNat && c.toNat ≤ 'Z'.toNat)

/-- A path is absolute when it is a share with a server and a name, or starts
with a drive letter, a colon and a separator. -/
def isUnambiguouslyAbsoluteWindows (value : String) : Bool :=
  match value.toList with
  | a :: b :: rest =>
      if isSeparator a && isSeparator b then
        match rest.findIdx? isSeparator with
        | none => false
        | some 0 => false
        | some serverEnd =>
            let afterServer := rest.drop (serverEnd + 1)
            0 < (afterServer.findIdx? isSeparator).getD afterServer.length
      else
        match rest with
        | c :: _ => isAsciiAlphabetic a && b == ':' && isSeparator c
        | [] => false
  | _ => false

/-- A configured path holds no control character and is absolute. -/
def validateAbsolutePath (field value : String) : Result Unit :=
  if value.toList.any Text.isControl then
    .error (.invalidConfig (field ++
      " contains a control character (e.g. NUL, tab, newline); " ++
      "these characters can truncate or corrupt the path as it crosses " ++
      "the registry / Win32 / process-spawn boundaries"))
  else if !isUnambiguouslyAbsoluteWindows value then
    .error (.invalidConfig (field ++
      " must be an absolute path (e.g. C:\\path or \\\\server\\share\\path), " ++
      "got '" ++ value ++ "'"))
  else
    .ok ()

theorem checkNameChars_ok_iff (subject : String) (cs : List Char) :
    checkNameChars subject cs = .ok () ↔
      ∀ c ∈ cs, c ≠ '\\' ∧ c ≠ '/' ∧ Text.isControl c = false := by
  induction cs with
  | nil => simp [checkNameChars]
  | cons c cs ih =>
      unfold checkNameChars
      by_cases hsep : c = '\\' ∨ c = '/'
      · rw [if_pos hsep]
        simp only [reduceCtorEq, List.mem_cons, forall_eq_or_imp, false_iff]
        rintro ⟨⟨hback, hslash, -⟩, -⟩
        exact hsep.elim hback hslash
      · rw [if_neg hsep]
        rw [not_or] at hsep
        cases hcontrol : Text.isControl c with
        | true => simp [hcontrol]
        | false => simp [hcontrol, ih, hsep]

/-- What an accepted service name looks like. -/
theorem validateServiceName_ok_iff (name : String) :
    validateServiceName name = .ok () ↔
      name ≠ "" ∧ (Utf16.encode name).length ≤ maxServiceNameLen ∧
        ∀ c ∈ name.toList, c ≠ '\\' ∧ c ≠ '/' ∧ Text.isControl c = false := by
  unfold validateServiceName
  by_cases hempty : name = ""
  · simp [hempty]
  · have hnonempty : name.isEmpty = false := by simpa using hempty
    by_cases hlong : (Utf16.encode name).length > maxServiceNameLen
    · simp [hnonempty, hlong, Nat.not_le.mpr hlong]
    · simp [hnonempty, hlong, checkNameChars_ok_iff, hempty]
      omega

/-- What an accepted hook component looks like; the acceptance does not depend on
which component it is. -/
theorem validateHookComponent_ok_iff (name kind : String) :
    validateHookComponent name kind = .ok () ↔
      name ≠ "" ∧ (Utf16.encode name).length ≤ 255 ∧
        ∀ c ∈ name.toList, c ≠ '\\' ∧ c ≠ '/' ∧ Text.isControl c = false := by
  unfold validateHookComponent
  by_cases hempty : name = ""
  · simp [hempty]
  · have hnonempty : name.isEmpty = false := by simpa using hempty
    by_cases hlong : (Utf16.encode name).length > 255
    · simp [hnonempty, hlong, Nat.not_le.mpr hlong]
    · simp [hnonempty, hlong, checkNameChars_ok_iff, hempty]
      omega

end Ngsm.Core
