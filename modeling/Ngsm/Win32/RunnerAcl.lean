/-
# The access control list of a runner

The image path of a service is permanent, so a file that someone else can replace would later
run with the rights of the service.  Before a path is registered, the security descriptor of
the file and of each directory above it is read entry by entry from the bytes the system
returns.  An entry that allows a principal who is not trusted to write, delete or take over
the object is refused, and so is every entry that is not understood.

An entry that denies is passed over, because it can only take rights away.
-/

import Mathlib.Data.UInt
import Ngsm.Core.Config
import Ngsm.Lib.AccessControl

namespace Ngsm.Win32

open Ngsm.Lib

/-! ## Rights -/

namespace Rights

def delete : UInt32 := 0x00010000
def readControl : UInt32 := 0x00020000
def writeDac : UInt32 := 0x00040000
def writeOwner : UInt32 := 0x00080000
def genericAll : UInt32 := 0x10000000
def genericExecute : UInt32 := 0x20000000
def genericWrite : UInt32 := 0x40000000
def genericRead : UInt32 := 0x80000000
def fileWriteData : UInt32 := 0x2
def fileAppendData : UInt32 := 0x4
def fileWriteEa : UInt32 := 0x10
def fileDeleteChild : UInt32 := 0x40
def fileWriteAttributes : UInt32 := 0x100

/-- Writing data to a directory is adding a file to it. -/
def fileAddFile : UInt32 := 0x2
def fileAddSubdirectory : UInt32 := 0x4

end Rights

open Rights

def fileDangerousAccess : UInt32 :=
  genericAll ||| genericWrite ||| delete ||| writeDac ||| writeOwner ||| fileWriteData |||
    fileAppendData ||| fileWriteEa ||| fileWriteAttributes

def directoryDangerousAccess : UInt32 :=
  fileDangerousAccess ||| fileAddFile ||| fileAddSubdirectory ||| fileDeleteChild

inductive AclObjectKind where
  | file
  | directory
  | volumeRoot
deriving DecidableEq, Repr

def AclObjectKind.label : AclObjectKind → String
  | .file => "file"
  | .directory => "directory"
  | .volumeRoot => "volume root"

/-- Creating siblings under a volume root cannot replace a protected path; deleting children
or taking over the root can. -/
def dangerousAccessMask : AclObjectKind → UInt32
  | .file => fileDangerousAccess
  | .directory => directoryDangerousAccess
  | .volumeRoot => genericAll ||| writeDac ||| writeOwner ||| fileDeleteChild

inductive AclPrincipal where
  | trusted (name : String)
  | knownUntrusted (name : String)
  | unknown
deriving DecidableEq, Repr

namespace AclPrincipal

def isTrusted : AclPrincipal → Bool
  | trusted _ => true
  | _ => false

def label : AclPrincipal → String
  | trusted name => name
  | knownUntrusted name => name
  | unknown => "an unknown SID"

end AclPrincipal

structure AclAllowedGrant where
  principal : AclPrincipal
  mask : UInt32
  inheritOnly : Bool
deriving DecidableEq, Repr

inductive AclDecisionError where
  | untrustedOwner (principal : AclPrincipal)
  | dangerousGrant (principal : AclPrincipal) (mask dangerousMask : UInt32)
      (objectKind : AclObjectKind)
deriving DecidableEq, Repr

/-- The loop over the grants. -/
def checkGrants (objectKind : AclObjectKind) : List AclAllowedGrant → Except AclDecisionError Unit
  | [] => .ok ()
  | grant :: grants =>
      if grant.inheritOnly || grant.principal.isTrusted then checkGrants objectKind grants
      else
        let dangerousBits := grant.mask &&& dangerousAccessMask objectKind
        if dangerousBits ≠ 0 then
          .error (.dangerousGrant grant.principal grant.mask dangerousBits objectKind)
        else checkGrants objectKind grants

def evaluateAclDecision (owner : AclPrincipal) (grants : List AclAllowedGrant)
    (objectKind : AclObjectKind) : Except AclDecisionError Unit :=
  if owner.isTrusted then checkGrants objectKind grants else .error (.untrustedOwner owner)

/-- The digits of a mask: `{:08x}`. -/
def hexMask (mask : UInt32) : String :=
  let digits := Nat.toDigits 16 mask.toNat
  String.ofList (List.replicate (8 - digits.length) '0' ++ digits)

def describeAclDecisionError : AclDecisionError → String
  | .untrustedOwner principal =>
      principal.label ++ " owns the object and can take over its DACL"
  | .dangerousGrant principal mask dangerousMask objectKind =>
      principal.label ++ " has write/delete/takeover rights on the " ++ objectKind.label ++
        " (ACE mask 0x" ++ hexMask mask ++ ", dangerous bits 0x" ++ hexMask dangerousMask ++ ")"

/-! ## Entries in memory -/

/-- The bytes from an address on. -/
abbrev Memory : Type :=
  ℕ → UInt8

namespace Memory

def drop (memory : Memory) (offset : ℕ) : Memory :=
  fun i => memory (offset + i)

/-- The memory in which these bytes stand. -/
def ofBytes (bytes : List UInt8) : Memory :=
  fun i => bytes.getD i 0

def take (memory : Memory) (n : ℕ) : List UInt8 :=
  (List.range n).map memory

/-- The bytes stand at the address. -/
def Holds (memory : Memory) (bytes : List UInt8) : Prop :=
  memory.take bytes.length = bytes

def readU16 (memory : Memory) : ℕ :=
  (memory 0).toNat + 256 * (memory 1).toNat

def readU32 (memory : Memory) : UInt32 :=
  UInt32.ofNat ((memory 0).toNat + 256 * ((memory 1).toNat + 256 * ((memory 2).toNat +
    256 * (memory 3).toNat)))

end Memory

inductive WellKnownSid where
  | localSystem
  | builtinAdministrators
  | world
  | builtinUsers
  | authenticatedUser
  | interactive
deriving DecidableEq, Repr

/-- The calls of the system about security identifiers.  What they say of a valid one depends
on its bytes only. -/
structure SidApi where
  isValidSid : Memory → Bool
  getLengthSid : Memory → ℕ
  isWellKnownSid : Memory → WellKnownSid → Bool
  equalSid : Memory → Memory → Bool
  convertStringSidToSid : String → Except String Memory
  content : ∀ memory memory' : Memory, isValidSid memory = true →
    memory.take (getLengthSid memory) = memory'.take (getLengthSid memory) →
      isValidSid memory' = true ∧ getLengthSid memory' = getLengthSid memory ∧
        isWellKnownSid memory' = isWellKnownSid memory ∧ equalSid memory' = equalSid memory

section

variable (api : SidApi)

def trustedInstallerSid : String :=
  "S-1-5-80-956008885-3418522649-1831038044-1853292631-2271478464"

def isTrustedInstallerSid (sid : Memory) : Except String Bool :=
  match api.convertStringSidToSid trustedInstallerSid with
  | .error error => .error ("cannot construct TrustedInstaller SID: " ++ error)
  | .ok trustedInstaller => .ok (api.equalSid sid trustedInstaller)

def classifyAclSid (sid : Memory) : Except String AclPrincipal := do
  if !api.isValidSid sid then
    throw "security descriptor contains an invalid SID"
  else if api.isWellKnownSid sid .localSystem then
    return .trusted "SYSTEM"
  else if api.isWellKnownSid sid .builtinAdministrators then
    return .trusted "BUILTIN\\Administrators"
  else if ← isTrustedInstallerSid api sid then
    return .trusted "TrustedInstaller"
  else if api.isWellKnownSid sid .world then
    return .knownUntrusted "Everyone"
  else if api.isWellKnownSid sid .builtinUsers then
    return .knownUntrusted "BUILTIN\\Users"
  else if api.isWellKnownSid sid .authenticatedUser then
    return .knownUntrusted "Authenticated Users"
  else if api.isWellKnownSid sid .interactive then
    return .knownUntrusted "Interactive"
  else
    return .unknown

def aceHeaderSize : ℕ := 4
def guidSize : ℕ := 16

/-- A number that lies within the entry. -/
def readAceU32 (ace : Memory) (aceSize offset : ℕ) : Except String UInt32 :=
  if aceSize < offset + 4 then
    .error ("DACL contains an ACE too small to read a u32 at offset " ++ toString offset)
  else .ok (ace.drop offset).readU32

/-- The types of the entries that the check knows. -/
inductive AceType where
  | allowed
  | allowedCallback
  | allowedObject
  | allowedCallbackObject
  | allowedCompound
  | denied
  | deniedCallback
  | deniedObject
  | deniedCallbackObject
  | other (code : UInt8)
deriving DecidableEq, Repr

def AceType.ofCode (code : UInt8) : AceType :=
  if code = 0 then .allowed
  else if code = 9 then .allowedCallback
  else if code = 5 then .allowedObject
  else if code = 11 then .allowedCallbackObject
  else if code = 4 then .allowedCompound
  else if code = 1 then .denied
  else if code = 10 then .deniedCallback
  else if code = 6 then .deniedObject
  else if code = 12 then .deniedCallbackObject
  else .other code

/-- Where the identifier of an allowing entry begins. -/
def allowedAceSidOffset (ace : Memory) (aceSize : ℕ) (objectAce : Bool) : Except String ℕ :=
  if objectAce then do
    let flagsOffset := aceHeaderSize + 4
    let flags ← readAceU32 ace aceSize flagsOffset
    let sidOffset := flagsOffset + 4
    let sidOffset := if flags &&& 1 ≠ 0 then sidOffset + guidSize else sidOffset
    return if flags &&& 2 ≠ 0 then sidOffset + guidSize else sidOffset
  else
    .ok (aceHeaderSize + 4)

/-- The part of `allowed_grant_from_ace` for an entry that allows. -/
def grantFromAllowedAce (ace : Memory) (aceSize : ℕ) (inheritOnly objectAce : Bool) :
    Except String (Option AclAllowedGrant) := do
  let mask ← readAceU32 ace aceSize aceHeaderSize
  let sidOffset ← allowedAceSidOffset ace aceSize objectAce
  if aceSize ≤ sidOffset then
    throw ("DACL contains an ACE whose SID offset " ++ toString sidOffset ++ " exceeds ACE size " ++
      toString aceSize)
  else
    let sid := ace.drop sidOffset
    if !api.isValidSid sid then
      throw "DACL contains an access-allowed ACE with an invalid SID"
    else
      let sidLen := api.getLengthSid sid
      if sidLen = 0 ∨ aceSize < sidOffset + sidLen then
        throw "DACL contains an access-allowed ACE with a truncated SID"
      else
        let principal ← classifyAclSid api sid
        return some { principal, mask, inheritOnly }

/-- The grant of an entry, if it allows something. -/
def allowedGrantFromAce : Option Memory → Except String (Option AclAllowedGrant)
  | none => .error "DACL contains a null ACE pointer"
  | some ace =>
      let inheritOnly := ace 1 &&& 8 ≠ 0
      let aceSize := (ace.drop 2).readU16
      if aceSize < aceHeaderSize then
        .error ("DACL contains an ACE with invalid size " ++ toString aceSize)
      else
        match AceType.ofCode (ace 0) with
        | .allowed => grantFromAllowedAce api ace aceSize inheritOnly false
        | .allowedCallback => grantFromAllowedAce api ace aceSize inheritOnly false
        | .allowedObject => grantFromAllowedAce api ace aceSize inheritOnly true
        | .allowedCallbackObject => grantFromAllowedAce api ace aceSize inheritOnly true
        | .allowedCompound => .error "DACL contains an unsupported compound allow ACE"
        | .denied | .deniedCallback | .deniedObject | .deniedCallbackObject => .ok none
        | .other code => .error ("DACL contains unsupported ACE type " ++ toString code.toNat)

/-! ## Security descriptors -/

/-- The discretionary list of a descriptor.  Getting an entry may fail, and may give no
address. -/
inductive Dacl where
  | absent
  | null
  | list (valid : Bool) (aces : List (Except String (Option Memory)))

/-- What the system returns of an object: the owner, and the list if it can be inspected. -/
structure SecurityInfo where
  owner : Option Memory
  dacl : Except String Dacl

/-- The loop over the entries, the first of which has the number `index`. -/
def collectGrants (kind : AclObjectKind) (path : String) :
    ℕ → List (Except String (Option Memory)) → Except String (List AclAllowedGrant)
  | _, [] => .ok []
  | index, ace :: aces => do
      let ace ← ace.mapError fun error => "cannot read ACE " ++ toString index ++ " for " ++
        kind.label ++ " '" ++ path ++ "': " ++ error
      let grant ← allowedGrantFromAce api ace
      let grants ← collectGrants kind path (index + 1) aces
      return grant.toList ++ grants

/-- Check one object; `security` gives the descriptor of a path or a Win32 error. -/
def validatePathAcl (security : String → Except UInt32 SecurityInfo) (path : String)
    (kind : AclObjectKind) : Except String Unit := do
  let object := kind.label ++ " '" ++ path ++ "'"
  let info ← (security path).mapError fun status =>
    "cannot read security descriptor for " ++ object ++ ": Win32 error " ++ toString status.toNat
  match info.owner with
  | none => throw ("security descriptor for " ++ object ++ " has no owner")
  | some owner =>
      let ownerPrincipal ← classifyAclSid api owner
      let dacl ← info.dacl.mapError fun error =>
        "cannot inspect DACL for " ++ object ++ ": " ++ error
      match dacl with
      | .absent => throw ("security descriptor for " ++ object ++ " has no DACL")
      | .null => throw ("security descriptor for " ++ object ++ " has a null DACL")
      | .list valid aces =>
          if !valid then
            throw ("security descriptor for " ++ object ++ " has an invalid DACL")
          else
            let grants ← collectGrants api kind path 0 aces
            (evaluateAclDecision ownerPrincipal grants kind).mapError fun error =>
              "unsafe ACL on " ++ object ++ ": " ++ describeAclDecisionError error

end

end Ngsm.Win32
