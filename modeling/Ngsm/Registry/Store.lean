/-
# The registry below a service's parameters key

A key holds named values and named subkeys.  Names are UTF-16 strings compared
without regard to case, through the upper-case table of the system; that table
is a parameter here, with the two facts the code depends on.

Every system call may fail.  A `Fault` schedule says which of the following
calls fail; a failed call changes nothing, except that removing a subtree may
already have removed some of its subkeys.  A handle to a subkey is the program
run on that subkey by `inSubkey`.
-/

import Ngsm.Lib.NameTable
import Ngsm.Lib.Program
import Ngsm.Core.Validate

namespace Ngsm.Registry

open Ngsm.Lib Ngsm.Core

/-! ## Names -/

/-- A stored name: counted UTF-16 units. -/
abbrev Name : Type :=
  List UInt16

/-- An ASCII letter, as a code unit. -/
def isAsciiLetter (u : UInt16) : Prop :=
  (0x41 ≤ u.toNat ∧ u.toNat ≤ 0x5A) ∨ (0x61 ≤ u.toNat ∧ u.toNat ≤ 0x7A)

instance (u : UInt16) : Decidable (isAsciiLetter u) :=
  inferInstanceAs (Decidable (_ ∨ _))

/-- Upper case of an ASCII code unit. -/
def asciiUpcase (u : UInt16) : UInt16 :=
  if 0x61 ≤ u.toNat ∧ u.toNat ≤ 0x7A then UInt16.ofNat (u.toNat - 32) else u

/-- The invariant upper-case table of the system.  It extends ASCII upper case,
and a unit below `0xA0` that is not a letter is the image of itself alone. -/
structure NameFold where
  upcase : UInt16 → UInt16
  ascii : ∀ u : UInt16, u.toNat < 128 → upcase u = asciiUpcase u
  caseless : ∀ u v : UInt16, v.toNat < 0xA0 → ¬ isAsciiLetter v → upcase u = upcase v → u = v

/-- The key under which the registry compares a name. -/
def NameFold.key (fold : NameFold) (name : Name) : Name :=
  name.map fold.upcase

/-- The case-insensitive identity of a text, `windows_name_key` of the source. -/
def windowsNameKey (fold : NameFold) (name : String) : Name :=
  fold.key (Utf16.encode name)

/-- The name a system call sees: the units before the first terminator. -/
def toWide (s : String) : Name :=
  (Utf16.encode s).takeWhile (· ≠ 0)

/-! ## Keys and values -/

/-- The value types that occur. -/
def regSz : UInt32 := 1
def regExpandSz : UInt32 := 2
def regDword : UInt32 := 4
def regMultiSz : UInt32 := 7
def regQword : UInt32 := 11

/-- A value: its type code and its bytes. -/
structure RegValue where
  kind : UInt32
  data : List UInt8
  deriving DecidableEq, Repr

/-- A registry key whose subkeys are `σ`. -/
structure Node (fold : NameFold) (σ : Type) where
  values : Table fold.key RegValue
  subkeys : Table fold.key σ

namespace Node

variable {fold : NameFold} {σ : Type}

/-- A key as it is created. -/
def empty : Node fold σ where
  values := .empty
  subkeys := .empty

/-- The value a call with this name finds. -/
def value? (node : Node fold σ) (name : String) : Option RegValue :=
  node.values.find? (toWide name)

/-- The subkey a call with this name finds. -/
def subkey? (node : Node fold σ) (name : String) : Option σ :=
  node.subkeys.find? (toWide name)

def setValue (node : Node fold σ) (name : String) (value : RegValue) : Node fold σ :=
  { node with values := node.values.insert (toWide name) value }

def eraseValue (node : Node fold σ) (name : String) : Node fold σ :=
  { node with values := node.values.erase (toWide name) }

def setSubkey (node : Node fold σ) (name : String) (child : σ) : Node fold σ :=
  { node with subkeys := node.subkeys.insert (toWide name) child }

def eraseSubkey (node : Node fold σ) (name : String) : Node fold σ :=
  { node with subkeys := node.subkeys.erase (toWide name) }

/-- Remove the subkeys that a predicate does not keep. -/
def keepSubkeys (node : Node fold σ) (keep : Name → Bool) : Node fold σ :=
  { node with subkeys := node.subkeys.filter keep }

end Node

/-! ## System calls -/

/-- The codes a call answers in the ordinary course of things: success, not
found, a buffer that is too small, the end of an enumeration. -/
def errorSuccess : UInt32 := 0
def errorFileNotFound : UInt32 := 2
def errorMoreData : UInt32 := 234
def errorNoMoreItems : UInt32 := 259

/-- A failing call: a system error other than the ordinary answers, and for the
removal of a subtree the subkeys it has not yet reached. -/
structure Fault where
  code : UInt32
  text : String
  keep : Name → Bool := fun _ => true
  genuine : code ∉ [errorSuccess, errorFileNotFound, errorMoreData, errorNoMoreItems]

/-- Report a system error; only "file not found" counts as absence. -/
def mapRegError (context : String) (fault : Fault) : Error :=
  if fault.code = errorFileNotFound then
    .notFound context
  else
    .registry (context ++ ": " ++ fault.text)

/-- The key a program works on and the failures that lie ahead. -/
structure World (ν : Type) where
  node : ν
  faults : Nat → Option Fault

/-- A program over one open key. -/
abbrev RegM (ν α : Type) : Type :=
  Prog (World ν) Error α

variable {fold : NameFold} {ν σ α : Type}

/-- One system call: fail as scheduled, or do `body`. -/
def call (report : Fault → Error) (cut : Fault → ν → ν) (body : ν → Result α × ν) :
    RegM ν α :=
  Prog.step fun w =>
    let rest := fun n => w.faults (n + 1)
    match w.faults 0 with
    | some fault => (.error (report fault), ⟨cut fault w.node, rest⟩)
    | none =>
        let (outcome, node) := body w.node
        (outcome, ⟨node, rest⟩)

/-- A call that only looks at the key. -/
def query (report : Fault → Error) (body : ν → Result α) : RegM ν α :=
  call report (fun _ node => node) fun node => (body node, node)

/-- `RegOpenKeyEx`. -/
def openSubkey (name : String) : RegM (Node fold σ) Unit :=
  query (mapRegError ("RegOpenKeyEx(" ++ name ++ ")")) fun node =>
    match node.subkey? name with
    | some _ => .ok ()
    | none => .error (.notFound ("RegOpenKeyEx(" ++ name ++ ")"))

def keyDeleted : Error :=
  .registry "Illegal operation attempted on a registry key that has been marked for deletion."

/-- Use the handle of an open subkey. -/
def inSubkey (name : String) (m : RegM σ α) : RegM (Node fold σ) α :=
  Prog.step fun w =>
    match w.node.subkey? name with
    | none => (.error keyDeleted, w)
    | some child =>
        let (outcome, w') := m.exec ⟨child, w.faults⟩
        (outcome, ⟨w.node.setSubkey name w'.node, w'.faults⟩)

/-- `RegCreateKeyEx`: open the subkey, creating it when it is absent. -/
def createSubkeyUnder (name : String) : RegM (Node fold (Node fold σ)) Unit :=
  call (mapRegError ("RegCreateKeyEx(" ++ name ++ ")")) (fun _ node => node) fun node =>
    match node.subkey? name with
    | some _ => (.ok (), node)
    | none => (.ok (), node.setSubkey name .empty)

/-- `RegSetValueEx`. -/
def setValue (name : String) (value : RegValue) : RegM (Node fold σ) Unit :=
  call (mapRegError ("RegSetValueEx(" ++ name ++ ")")) (fun _ node => node) fun node =>
    (.ok (), node.setValue name value)

/-- `RegDeleteValue`. -/
def deleteValue (name : String) : RegM (Node fold σ) Unit :=
  call (mapRegError ("RegDeleteValue(" ++ name ++ ")")) (fun _ node => node) fun node =>
    match node.value? name with
    | some _ => (.ok (), node.eraseValue name)
    | none => (.error (.notFound ("RegDeleteValue(" ++ name ++ ")")), node)

/-- What a cut-short `RegDeleteTree` leaves: the key with the subkeys that were
not yet reached. -/
def cutSubtree (name : String) (fault : Fault) (node : Node fold (Node fold σ)) :
    Node fold (Node fold σ) :=
  match node.subkey? name with
  | some child => node.setSubkey name (child.keepSubkeys fault.keep)
  | none => node

/-- `RegDeleteTree`. -/
def deleteSubtree (name : String) : RegM (Node fold (Node fold σ)) Unit :=
  call (mapRegError ("RegDeleteTree(" ++ name ++ ")")) (cutSubtree name) fun node =>
    match node.subkey? name with
    | some _ => (.ok (), node.eraseSubkey name)
    | none => (.error (.notFound ("RegDeleteTree(" ++ name ++ ")")), node)

/-- Turn a plain "not found" into success. -/
def ignoreMissing (m : RegM ν Unit) : RegM ν Unit := do
  match ← m.attempt with
  | .error (.notFound _) => pure ()
  | .error e => throw e
  | .ok () => pure ()

/-- Open a subkey and go on with it, or with `absent` when there is none. -/
def openSubkeyOr (name : String) (absent : RegM (Node fold σ) α)
    (present : RegM (Node fold σ) α) : RegM (Node fold σ) α := do
  match ← (openSubkey name).attempt with
  | .error (.notFound _) => absent
  | .error e => throw e
  | .ok () => present

/-! ## Enumeration -/

/-- Decode a stored name; owned names are strict UTF-16 without a NUL. -/
def decodeRegistryName (words : Name) : Result String :=
  match Utf16.decode words with
  | none => .error (.registry "owned registry name contains invalid UTF-16")
  | some name =>
      if Text.contains name '\x00' then
        .error (.registry "owned registry name contains an embedded NUL")
      else
        .ok name

/-- The largest name buffer, in units with the terminator. -/
def nameCapLimit : Nat :=
  64 * 1024

/-- Read a name through a buffer that is grown up to `nameCapLimit`. -/
def readName (tooLong : String) (words : Name) : Result String :=
  if words.length + 1 > nameCapLimit then
    .error (.registry tooLong)
  else
    decodeRegistryName words

/-- Enumerate entries by index: one call for each, and one that finds no more. -/
def readEntries {β γ : Type} (report : Nat → Fault → Error) (read : Nat → β → Result γ) :
    Nat → List β → RegM ν (List γ)
  | index, [] => do
      query (report index) fun _ => .ok ()
      pure []
  | index, entry :: rest => do
      query (report index) fun _ => .ok ()
      let x ← liftExcept (read index entry)
      let xs ← readEntries report read (index + 1) rest
      pure (x :: xs)

/-- The key as it is now. -/
def current : RegM ν ν :=
  Prog.step fun w => (.ok w.node, w)

/-- The names of the values of a key. -/
def enumerateValueNames : RegM (Node fold σ) (List String) := do
  let node ← current
  readEntries (fun _ => mapRegError "RegEnumValue(names)")
    (fun _ entry => readName "RegEnumValue(names): More data is available. (0x800700EA)" entry.1)
    0 node.values.entries

/-- The names of the subkeys of a key. -/
def enumerateSubkeyNames : RegM (Node fold σ) (List String) := do
  let node ← current
  readEntries
    (fun index fault =>
      .registry s!"RegEnumKeyEx(index {index}) failed: WIN32_ERROR {fault.code}")
    (fun index entry =>
      readName s!"registry subkey name at index {index} exceeds the supported size" entry.1)
    0 node.subkeys.entries

end Ngsm.Registry
