/-
# What the check of an access control list means

The check compares masks.  What it is for is said by the rule the system grants access by: no
token without a trusted principal gets a right by which the object could be replaced.  The
check implies this for every list, and is no stricter than this for lists that deny nothing.
-/

import Ngsm.Lib.Program
import Ngsm.Win32.AceLayout

namespace Ngsm.Win32

open Ngsm.Lib AccessControl
open Rights

/-! ## Masks -/

section

variable {a b m : UInt32}

theorem and_or_eq_zero : m &&& (a ||| b) = 0 ↔ m &&& a = 0 ∧ m &&& b = 0 := by
  have hsplit : m &&& (a ||| b) = (m &&& a) ||| (m &&& b) :=
    UInt32.toBitVec_inj.mp BitVec.and_or_distrib_left
  rw [hsplit, UInt32.or_eq_zero_iff]

theorem or_and_eq_zero : (a ||| b) &&& m = 0 ↔ a &&& m = 0 ∧ b &&& m = 0 := by
  rw [UInt32.and_comm, and_or_eq_zero, UInt32.and_comm, UInt32.and_comm m b]

theorem ite_and_eq_zero {c : Prop} [Decidable c] :
    (if c then a else 0) &&& m = 0 ↔ (c → a &&& m = 0) := by
  split
  · rename_i hc
    exact ⟨fun h _ => h, fun h => h hc⟩
  · rename_i hc
    exact ⟨fun _ h => absurd h hc, fun _ => UInt32.zero_and⟩

end

def fileGenericRead : UInt32 := 0x00120089
def fileGenericWrite : UInt32 := 0x00120116
def fileGenericExecute : UInt32 := 0x001200A0
def fileAllAccess : UInt32 := 0x001F01FF

/-- The generic rights of files and directories stand for specific ones. -/
def mapGenericMask (mask : UInt32) : UInt32 :=
  mask ||| (if mask &&& genericRead ≠ 0 then fileGenericRead else 0) |||
    (if mask &&& genericExecute ≠ 0 then fileGenericExecute else 0) |||
    (if mask &&& genericWrite ≠ 0 then fileGenericWrite else 0) |||
    (if mask &&& genericAll ≠ 0 then fileAllAccess else 0)

/-- What a mask covers: every mask of specific rights that shares one with it. -/
def rightsOf (mask : UInt32) : Set UInt32 :=
  {right | mapGenericMask mask &&& right ≠ 0}

/-- The rights by which an object on the way to a file can be replaced. -/
def replaceRights : AclObjectKind → UInt32
  | .file => delete ||| writeDac ||| writeOwner ||| fileWriteData ||| fileAppendData |||
      fileWriteEa ||| fileWriteAttributes
  | .directory => delete ||| writeDac ||| writeOwner ||| fileWriteData ||| fileAppendData |||
      fileWriteEa ||| fileWriteAttributes ||| fileDeleteChild
  | .volumeRoot => writeDac ||| writeOwner ||| fileDeleteChild

/-- The mask of the check and the rights by which an object can be replaced meet the same
entries. -/
theorem dangerous_iff (kind : AclObjectKind) (mask : UInt32) :
    mask &&& dangerousAccessMask kind = 0 ↔ replaceRights kind ∉ rightsOf mask := by
  have hread : fileGenericRead &&& replaceRights kind = 0 := by cases kind <;> decide
  have hexecute : fileGenericExecute &&& replaceRights kind = 0 := by cases kind <;> decide
  have hall : fileAllAccess &&& replaceRights kind ≠ 0 := by cases kind <;> decide
  have hmap : replaceRights kind ∉ rightsOf mask ↔ mask &&& replaceRights kind = 0 ∧
      (mask &&& genericWrite ≠ 0 → fileGenericWrite &&& replaceRights kind = 0) ∧
        mask &&& genericAll = 0 := by
    rw [rightsOf, Set.mem_ofPred_eq, not_not, mapGenericMask, or_and_eq_zero, or_and_eq_zero,
      or_and_eq_zero, or_and_eq_zero, ite_and_eq_zero, ite_and_eq_zero, ite_and_eq_zero,
      ite_and_eq_zero, iff_true_intro hread, iff_true_intro hexecute, iff_false_intro hall]
    simp only [imp_true_iff, and_true, imp_false, not_not, and_assoc]
  rw [hmap]
  cases kind with
  | file =>
      have hwrite : fileGenericWrite &&& replaceRights .file ≠ 0 := by decide
      have hparts : dangerousAccessMask .file =
          replaceRights .file ||| (genericWrite ||| genericAll) := by decide
      rw [hparts, and_or_eq_zero, and_or_eq_zero, iff_false_intro hwrite, imp_false, not_not]
  | directory =>
      have hwrite : fileGenericWrite &&& replaceRights .directory ≠ 0 := by decide
      have hparts : dangerousAccessMask .directory =
          replaceRights .directory ||| (genericWrite ||| genericAll) := by decide
      rw [hparts, and_or_eq_zero, and_or_eq_zero, iff_false_intro hwrite, imp_false, not_not]
  | volumeRoot =>
      have hwrite : fileGenericWrite &&& replaceRights .volumeRoot = 0 := by decide
      have hparts : dangerousAccessMask .volumeRoot =
          replaceRights .volumeRoot ||| genericAll := by decide
      rw [hparts, and_or_eq_zero, iff_true_intro hwrite, imp_true_iff, true_and]

/-- A mask that covers some of the rights covers the rest of a larger set too. -/
theorem rightsOf_mono {mask right all : UInt32} (hpart : right &&& all = right)
    (h : right ∈ rightsOf mask) : all ∈ rightsOf mask := by
  intro hall
  refine h ?_
  rw [← hpart, UInt32.and_comm right all, ← UInt32.and_assoc, hall, UInt32.zero_and]

/-! ## Decisions -/

theorem checkGrants_ok_iff {kind : AclObjectKind} {grants : List AclAllowedGrant} :
    checkGrants kind grants = .ok () ↔ ∀ grant ∈ grants, grant.inheritOnly = false →
      grant.principal.isTrusted = false → replaceRights kind ∉ rightsOf grant.mask := by
  induction grants with
  | nil => simp [checkGrants]
  | cons grant grants ih =>
      rw [List.forall_mem_cons, checkGrants]
      cases hinherit : grant.inheritOnly with
      | true => simp [ih]
      | false =>
          cases htrusted : grant.principal.isTrusted with
          | true => simp [ih]
          | false =>
              simp only [← dangerous_iff, Bool.or_self, Bool.false_eq_true, if_false,
                forall_const] at ih ⊢
              by_cases hbits : grant.mask &&& dangerousAccessMask kind = 0
              · simp [hbits, ih]
              · simp [hbits]

theorem evaluateAclDecision_ok_iff {owner : AclPrincipal} {kind : AclObjectKind}
    {grants : List AclAllowedGrant} :
    evaluateAclDecision owner grants kind = .ok () ↔ owner.isTrusted = true ∧
      ∀ grant ∈ grants, grant.inheritOnly = false → grant.principal.isTrusted = false →
        replaceRights kind ∉ rightsOf grant.mask := by
  rw [evaluateAclDecision, ← checkGrants_ok_iff]
  cases owner.isTrusted <;> simp

/-! ## Lists of entries -/

/-- The bytes of a security identifier. -/
abbrev Sid : Type :=
  List UInt8

section

variable (api : SidApi)

/-- The principals that the check trusts. -/
def trustedSids : Set Sid :=
  {sid | ∃ name, classifyAclSid api (Memory.ofBytes sid) = .ok (.trusted name)}

def AceType.denies : AceType → Bool
  | .denied | .deniedCallback | .deniedObject | .deniedCallbackObject => true
  | _ => false

/-- The entry that stands at an address. -/
inductive Denotes (memory : Memory) : Entry Sid UInt32 → Prop where
  | allow (ace : AllowAce api) (hholds : memory.Holds ace.encode) :
      Denotes memory {
        allows := true
        principal := ace.sid
        covers := rightsOf ace.mask
        inheritOnly := ace.inheritOnly }
  | deny (entry : Entry Sid UInt32) (hdenies : entry.allows = false)
      (htype : (AceType.ofCode (memory 0)).denies = true)
      (hsize : aceHeaderSize ≤ (memory.drop 2).readU16) : Denotes memory entry

/-- The object that a security descriptor is about. -/
structure Reading (info : SecurityInfo) (object : Descriptor Sid UInt32) : Prop where
  owner : ∃ memory, info.owner = some memory ∧ IsSid api object.owner ∧
    memory.Holds object.owner
  entries : ∃ aces, info.dacl = .ok (.list true aces) ∧
    List.Forall₂ (fun ace entry => ∃ memory, ace = .ok (some memory) ∧ Denotes api memory entry)
      aces object.entries

/-- The grant that the check makes of an entry. -/
structure Yields (entry : Entry Sid UInt32) (grant : AclAllowedGrant) : Prop where
  allows : entry.allows = true
  principal : classifyAclSid api (Memory.ofBytes entry.principal) = .ok grant.principal
  covers : entry.covers = rightsOf grant.mask
  inheritOnly : entry.inheritOnly = grant.inheritOnly

variable {api}

theorem allowedGrantFromAce_deny {memory : Memory}
    (htype : (AceType.ofCode (memory 0)).denies = true)
    (hsize : aceHeaderSize ≤ (memory.drop 2).readU16) :
    allowedGrantFromAce api (some memory) = .ok none := by
  simp only [allowedGrantFromAce, if_neg (Nat.not_lt.mpr hsize)]
  cases hcode : AceType.ofCode (memory 0) with
  | denied => rfl
  | deniedCallback => rfl
  | deniedObject => rfl
  | deniedCallbackObject => rfl
  | allowed | allowedCallback | allowedObject | allowedCallbackObject | allowedCompound
  | other code =>
      rw [hcode] at htype
      cases htype

/-- An entry that was read is the grant it makes, or denies and makes none. -/
theorem yields_of_read {memory : Memory} {entry : Entry Sid UInt32}
    {grant : Option AclAllowedGrant} (hdenotes : Denotes api memory entry)
    (hread : allowedGrantFromAce api (some memory) = .ok grant) :
    (entry.allows = true → ∃ g ∈ grant, Yields api entry g) ∧ ∀ g ∈ grant, Yields api entry g := by
  cases hdenotes with
  | allow ace hholds =>
      rw [allowedGrantFromAce_encode ace hholds] at hread
      cases hprincipal : classifyAclSid api (Memory.ofBytes ace.sid) with
      | error error =>
          rw [hprincipal] at hread
          cases hread
      | ok principal =>
          rw [hprincipal] at hread
          cases hread
          refine ⟨fun _ => ⟨_, rfl, rfl, hprincipal, rfl, rfl⟩, fun g hg => ?_⟩
          cases hg
          exact ⟨rfl, hprincipal, rfl, rfl⟩
  | deny entry hdenies htype hsize =>
      rw [allowedGrantFromAce_deny htype hsize] at hread
      cases hread
      refine ⟨fun hallows => ?_, fun g hg => by cases hg⟩
      rw [hdenies] at hallows
      cases hallows

/-- The grants of a list are those of its entries. -/
theorem yields_of_collect {kind : AclObjectKind} {path : String}
    {aces : List (Except String (Option Memory))} {entries : List (Entry Sid UInt32)}
    (hread : List.Forall₂
      (fun ace entry => ∃ memory, ace = .ok (some memory) ∧ Denotes api memory entry)
      aces entries) {index : ℕ} {grants : List AclAllowedGrant}
    (hcollect : collectGrants api kind path index aces = .ok grants) :
    (∀ entry ∈ entries, entry.allows = true → ∃ grant ∈ grants, Yields api entry grant) ∧
      ∀ grant ∈ grants, ∃ entry ∈ entries, Yields api entry grant := by
  induction hread generalizing index grants with
  | nil =>
      cases hcollect
      exact ⟨fun _ hmem => absurd hmem List.not_mem_nil, fun _ hmem => absurd hmem List.not_mem_nil⟩
  | @cons ace entry aces entries hfirst hlater ih =>
      obtain ⟨memory, rfl, hdenotes⟩ := hfirst
      rw [collectGrants, Check.bind_eq_ok] at hcollect
      obtain ⟨some_ace, hace, hcollect⟩ := hcollect
      cases hace
      rw [Check.bind_eq_ok] at hcollect
      obtain ⟨grant, hgrant, hcollect⟩ := hcollect
      rw [Check.bind_eq_ok] at hcollect
      obtain ⟨rest, hrest, hcollect⟩ := hcollect
      cases hcollect
      obtain ⟨hhere, hfrom⟩ := yields_of_read hdenotes hgrant
      obtain ⟨hthere, hback⟩ := ih hrest
      constructor
      · intro other hother hallows
        cases hother with
        | head =>
            obtain ⟨g, hg, hyields⟩ := hhere hallows
            exact ⟨g, List.mem_append_left _ (Option.mem_toList.mpr hg), hyields⟩
        | tail _ hother =>
            obtain ⟨g, hg, hyields⟩ := hthere other hother hallows
            exact ⟨g, List.mem_append_right _ hg, hyields⟩
      · intro g hg
        cases List.mem_append.mp hg with
        | inl hg => exact ⟨entry, List.mem_cons_self, hfrom g (Option.mem_toList.mp hg)⟩
        | inr hg =>
            obtain ⟨other, hother, hyields⟩ := hback g hg
            exact ⟨other, List.mem_cons_of_mem _ hother, hyields⟩

theorem Yields.trusted_iff {entry : Entry Sid UInt32} {grant : AclAllowedGrant}
    (h : Yields api entry grant) :
    entry.principal ∈ trustedSids api ↔ grant.principal.isTrusted = true := by
  rw [trustedSids, Set.mem_ofPred_eq, h.principal]
  cases grant.principal with
  | trusted name => simp [AclPrincipal.isTrusted]
  | knownUntrusted name => simp [AclPrincipal.isTrusted]
  | unknown => simp [AclPrincipal.isTrusted]

/-- The system knows the identifier of the installer. -/
def KnowsInstaller (api : SidApi) : Prop :=
  ∃ memory, api.convertStringSidToSid trustedInstallerSid = .ok memory

theorem KnowsInstaller.classify (h : KnowsInstaller api) {sid : List UInt8}
    (hsid : IsSid api sid) : ∃ principal, classifyAclSid api (Memory.ofBytes sid) = .ok principal := by
  obtain ⟨installer, hinstaller⟩ := h
  simp only [classifyAclSid, isTrustedInstallerSid, hsid.valid, hinstaller, bind, Except.bind,
    Bool.not_true, Bool.false_eq_true, if_false]
  repeat' split
  all_goals exact ⟨_, rfl⟩

/-- Every list of documented entries is read. -/
theorem KnowsInstaller.collect (h : KnowsInstaller api) (kind : AclObjectKind) (path : String)
    {aces : List (Except String (Option Memory))} {entries : List (Entry Sid UInt32)}
    (hread : List.Forall₂
      (fun ace entry => ∃ memory, ace = .ok (some memory) ∧ Denotes api memory entry)
      aces entries) (index : ℕ) : ∃ grants, collectGrants api kind path index aces = .ok grants := by
  induction hread generalizing index with
  | nil => exact ⟨[], rfl⟩
  | @cons ace entry aces entries hfirst hlater ih =>
      obtain ⟨memory, rfl, hdenotes⟩ := hfirst
      obtain ⟨rest, hrest⟩ := ih (index + 1)
      have hgrant : ∃ grant, allowedGrantFromAce api (some memory) = .ok grant := by
        cases hdenotes with
        | allow ace hholds =>
            obtain ⟨principal, hprincipal⟩ := h.classify ace.sid_valid
            rw [allowedGrantFromAce_encode ace hholds, hprincipal]
            exact ⟨_, rfl⟩
        | deny entry hdenies htype hsize => exact ⟨none, allowedGrantFromAce_deny htype hsize⟩
      obtain ⟨grant, hgrant⟩ := hgrant
      refine ⟨grant.toList ++ rest, ?_⟩
      simp only [collectGrants, Except.mapError, hgrant, hrest, bind, Except.bind]
      rfl

/-! ## Objects -/

/-- The owner is trusted, and whoever else is allowed something cannot replace the object. -/
structure Safe (api : SidApi) (kind : AclObjectKind) (object : Descriptor Sid UInt32) : Prop where
  owner : object.owner ∈ trustedSids api
  entries : ∀ entry ∈ object.entries, entry.allows = true → entry.inheritOnly = false →
    entry.principal ∉ trustedSids api → replaceRights kind ∉ entry.covers

section

variable {info : SecurityInfo} {object : Descriptor Sid UInt32} {kind : AclObjectKind}
  {security : String → Except UInt32 SecurityInfo} {path : String}

theorem safe_iff_evaluate {owner : AclPrincipal} {grants : List AclAllowedGrant}
    (howner : classifyAclSid api (Memory.ofBytes object.owner) = .ok owner)
    (hgrants : (∀ entry ∈ object.entries, entry.allows = true →
        ∃ grant ∈ grants, Yields api entry grant) ∧
      ∀ grant ∈ grants, ∃ entry ∈ object.entries, Yields api entry grant) :
    evaluateAclDecision owner grants kind = .ok () ↔ Safe api kind object := by
  have htrusted : owner.isTrusted = true ↔ object.owner ∈ trustedSids api := by
    rw [trustedSids, Set.mem_ofPred_eq, howner]
    cases owner <;> simp [AclPrincipal.isTrusted]
  rw [evaluateAclDecision_ok_iff, htrusted]
  constructor
  · rintro ⟨hown, hall⟩
    refine ⟨hown, fun entry hentry hallows hinherit huntrusted => ?_⟩
    obtain ⟨grant, hgrant, hyields⟩ := hgrants.1 entry hentry hallows
    rw [hyields.trusted_iff, Bool.not_eq_true] at huntrusted
    rw [hyields.covers]
    exact hall grant hgrant (hyields.inheritOnly ▸ hinherit) huntrusted
  · intro hsafe
    refine ⟨hsafe.owner, fun grant hgrant hinherit huntrusted => ?_⟩
    obtain ⟨entry, hentry, hyields⟩ := hgrants.2 grant hgrant
    rw [← Bool.not_eq_true, ← hyields.trusted_iff] at huntrusted
    rw [← hyields.covers]
    exact hsafe.entries entry hentry hyields.allows (hyields.inheritOnly.trans hinherit) huntrusted

/-- The check of an object is the check of its owner and its entries. -/
theorem validatePathAcl_eq (kind : AclObjectKind) (hinfo : security path = .ok info)
    (hread : Reading api info object) :
    ∃ aces, info.dacl = .ok (.list true aces) ∧
      validatePathAcl api security path kind = (do
        let owner ← classifyAclSid api (Memory.ofBytes object.owner)
        let grants ← collectGrants api kind path 0 aces
        (evaluateAclDecision owner grants kind).mapError fun error =>
          "unsafe ACL on " ++ (kind.label ++ " '" ++ path ++ "'") ++ ": " ++
            describeAclDecisionError error) := by
  obtain ⟨memory, howner, hsid, hholds⟩ := hread.owner
  obtain ⟨aces, hdacl, -⟩ := hread.entries
  refine ⟨aces, hdacl, ?_⟩
  unfold validatePathAcl
  simp only [hinfo, Except.mapError, bind, Except.bind, howner, hdacl, Bool.not_true,
    Bool.false_eq_true, if_false, classifyAclSid_congr hsid.valid (hsid.take hholds)]

theorem safe_of_validatePathAcl (hinfo : security path = .ok info)
    (hread : Reading api info object) (hok : validatePathAcl api security path kind = .ok ()) :
    Safe api kind object := by
  obtain ⟨aces, hdacl, hcheck⟩ := validatePathAcl_eq kind hinfo hread
  rw [hcheck, Check.bind_eq_ok] at hok
  obtain ⟨owner, howner, hok⟩ := hok
  rw [Check.bind_eq_ok] at hok
  obtain ⟨grants, hgrants, hok⟩ := hok
  obtain ⟨aces', hdacl', hentries⟩ := hread.entries
  rw [hdacl] at hdacl'
  cases hdacl'
  refine (safe_iff_evaluate howner (yields_of_collect hentries hgrants)).mp ?_
  cases hdecision : evaluateAclDecision owner grants kind with
  | ok _ => rfl
  | error error =>
      rw [hdecision] at hok
      cases hok

theorem validatePathAcl_of_safe (hknown : KnowsInstaller api) (hinfo : security path = .ok info)
    (hread : Reading api info object) (hsafe : Safe api kind object) :
    validatePathAcl api security path kind = .ok () := by
  obtain ⟨aces, hdacl, hcheck⟩ := validatePathAcl_eq kind hinfo hread
  obtain ⟨aces', hdacl', hentries⟩ := hread.entries
  rw [hdacl] at hdacl'
  cases hdacl'
  obtain ⟨_, -, hsid, -⟩ := hread.owner
  obtain ⟨owner, howner⟩ := hknown.classify hsid
  obtain ⟨grants, hgrants⟩ := hknown.collect kind path hentries 0
  have hdecision : evaluateAclDecision owner grants kind = .ok () :=
    (safe_iff_evaluate howner (yields_of_collect hentries hgrants)).mpr hsafe
  rw [hcheck, howner]
  simp only [bind, Except.bind, hgrants, hdecision, Except.mapError]

/-! ## What the system grants -/

/-- No token of principals that are not trusted is granted a right by which the object could be
replaced. -/
def Protected (api : SidApi) (applies : Entry Sid UInt32 → Prop) (kind : AclObjectKind)
    (object : Descriptor Sid UInt32) : Prop :=
  ∀ token : Set Sid, (∀ sid ∈ token, sid ∉ trustedSids api) →
    ∀ right, right &&& replaceRights kind = right →
      ¬Grants {readControl, writeDac} applies object token right

theorem covers_eq_rightsOf (hread : Reading api info object) {entry : Entry Sid UInt32}
    (hentry : entry ∈ object.entries) (hallows : entry.allows = true) :
    ∃ mask, entry.covers = rightsOf mask := by
  obtain ⟨aces, -, hentries⟩ := hread.entries
  generalize object.entries = entries at hentries hentry
  induction hentries with
  | nil => cases hentry
  | cons hfirst hlater ih =>
      cases hentry with
      | tail _ hentry => exact ih hentry
      | head =>
          obtain ⟨memory, -, hdenotes⟩ := hfirst
          cases hdenotes with
          | allow ace hholds => exact ⟨_, rfl⟩
          | deny entry hdenies =>
              rw [hdenies] at hallows
              cases hallows

theorem Safe.isProtected (hread : Reading api info object) (hsafe : Safe api kind object)
    (applies : Entry Sid UInt32 → Prop) : Protected api applies kind object := by
  intro token htoken right hright
  refine not_grants hsafe.owner (fun entry hentry hallows hinherit huntrusted => ?_) htoken
  obtain ⟨mask, hcovers⟩ := covers_eq_rightsOf hread hentry hallows
  have hnone := hsafe.entries entry hentry hallows hinherit huntrusted
  rw [hcovers] at hnone ⊢
  exact fun hmem => hnone (rightsOf_mono hright hmem)

theorem Protected.safe (hdenies : ∀ entry ∈ object.entries, entry.allows = true)
    (h : Protected api (fun _ => True) kind object) : Safe api kind object := by
  constructor
  · by_contra huntrusted
    refine h {object.owner} ?_ writeDac (by cases kind <;> decide) (.inl ⟨rfl, .inr rfl⟩)
    intro sid hsid
    rwa [Set.mem_singleton_iff.mp hsid]
  · intro entry hentry hallows hinherit huntrusted hcovers
    refine h {entry.principal} ?_ (replaceRights kind) UInt32.and_self (.inr ?_)
    · intro sid hsid
      rwa [Set.mem_singleton_iff.mp hsid]
    · exact Allowed.of_mem hdenies hentry trivial ⟨hinherit, rfl, hcovers⟩

end

end

end Ngsm.Win32
