/-
# Where a runner may live

The command line that a service starts with names the runner for good.  So the runner has to
live on a local volume, outside the directories of a user, and below directories that only
trusted principals can change, up to the root of the volume.
-/

import Ngsm.Win32.AclDecision
import Ngsm.Win32.RunnerCommand

namespace Ngsm.Win32

open Ngsm.Lib AccessControl Ngsm.Core

/-! ## Paths -/

/-- A part of a path holds no separator and no quote. -/
def IsPathName (name : String) : Prop :=
  name ≠ "" ∧ '\\' ∉ name.toList ∧ '"' ∉ name.toList

/-- A path as the system resolves it: `\\?\`, a volume, and the names below its root. -/
@[ext]
structure AbsolutePath where
  volume : String
  names : List String
  volume_ends : ∃ init last, volume.toList = init ++ [last] ∧ last ≠ '\\'
  volume_noQuote : '"' ∉ volume.toList
  names_valid : ∀ name ∈ names, IsPathName name

namespace AbsolutePath

def verbatim : List Char :=
  ['\\', '\\', '?', '\\']

/-- The names of a path, each behind a separator; the root is a separator alone. -/
def below : List String → List Char
  | [] => ['\\']
  | names => names.flatMap fun name => '\\' :: name.toList

def text (path : AbsolutePath) : String :=
  String.ofList (verbatim ++ path.volume.toList ++ below path.names)

def dropNames (path : AbsolutePath) (n : ℕ) : AbsolutePath :=
  { path with
    names := path.names.take (path.names.length - n)
    names_valid := fun name h => path.names_valid name (List.mem_of_mem_take h) }

def parent (path : AbsolutePath) : Option AbsolutePath :=
  if path.names.isEmpty then none else some (path.dropNames 1)

/-- The path has no name below its root. -/
def isRoot (path : AbsolutePath) : Bool :=
  path.names.isEmpty

theorem length_parent {path dir : AbsolutePath} (h : path.parent = some dir) :
    dir.names.length + 1 = path.names.length := by
  unfold parent at h
  cases hnames : path.names with
  | nil => simp [hnames] at h
  | cons name names =>
      simp only [hnames, List.isEmpty_cons, Bool.false_eq_true, if_false,
        Option.some.injEq] at h
      subst h
      simp [dropNames, hnames]

end AbsolutePath

/-- The loop over the directories above a file. -/
def aclTargetsAbove (dir : AbsolutePath) : List (AbsolutePath × AclObjectKind) :=
  if dir.isRoot then [(dir, .volumeRoot)]
  else
    (dir, .directory) ::
      match _hparent : dir.parent with
      | none => []
      | some above => aclTargetsAbove above
termination_by dir.names.length
decreasing_by
  have := AbsolutePath.length_parent _hparent
  omega

def runnerAclTargets (canonical : AbsolutePath) : List (AbsolutePath × AclObjectKind) :=
  (canonical, .file) ::
    match canonical.parent with
    | none => []
    | some dir => aclTargetsAbove dir

/-- What the system says of a path: it may not be Unicode. -/
inductive Canonical where
  | path (path : AbsolutePath)
  | notUnicode (units : Path)

/-- The answers of the system. -/
structure Surroundings where
  varOs : String → Option Path
  canonicalize : Path → Except String Canonical
  security : String → Except UInt32 SecurityInfo

section

variable (api : SidApi) (sys : Surroundings)

def refusedAcl (message : String) : Error :=
  .other ("refusing to install: the NGSM runner location is not administrator-protected: " ++
    message ++ ". Copy NGSM into a directory writable only by SYSTEM, " ++
    "BUILTIN\\Administrators, or TrustedInstaller.")

def checkAclTargets : List (AbsolutePath × AclObjectKind) → Result Unit
  | [] => .ok ()
  | (path, kind) :: targets => do
      (validatePathAcl api sys.security path.text kind).mapError refusedAcl
      checkAclTargets targets

def validateRunnerAclChain (canonical : AbsolutePath) : Result Unit :=
  checkAclTargets api sys (runnerAclTargets canonical)

def canonicalizeRunnerPath (exe : Path) : Result AbsolutePath :=
  match sys.canonicalize exe with
  | .error error => .error (.other
      ("cannot resolve runner path '" ++ Utf16.decodeLossy exe ++ "': " ++ error))
  | .ok (.notUnicode units) => .error (.other
      ("cannot validate runner location: path contains non-UTF-8 characters: " ++
        Utf16.decodeLossy units))
  | .ok (.path canonical) => .ok canonical

def startsWith (text part : List Char) : Bool :=
  part.isPrefixOf text

def stripVerbatim (text : List Char) : List Char :=
  if startsWith text AbsolutePath.verbatim then text.drop 4 else text

/-- `to_ascii_lowercase` of a path. -/
def lowerPath (path : AbsolutePath) : List Char :=
  path.text.toList.map Text.toAsciiLower

def trimSeparators (text : List Char) : List Char :=
  (text.reverse.dropWhile (· == '\\')).reverse

/-- The variables that name directories of a user. -/
def userVariables : List String :=
  ["USERPROFILE", "TEMP", "TMP", "PUBLIC", "LOCALAPPDATA", "APPDATA"]

/-- The path is under the directory that a variable names. -/
def underUserDirectory (exePath : List Char) (var : String) : Bool :=
  match sys.varOs var with
  | none => false
  | some rawDir =>
      match sys.canonicalize rawDir with
      | .error _ => false
      | .ok (.notUnicode _) => false
      | .ok (.path dir) =>
          let dirPath := stripVerbatim (lowerPath dir)
          if dirPath.isEmpty then false
          else startsWith exePath (trimSeparators dirPath ++ ['\\'])

def validateRunnerLocationHeuristics (canonical : AbsolutePath) : Result Unit :=
  let lower := lowerPath canonical
  let isUnc := startsWith lower (AbsolutePath.verbatim ++ "unc\\".toList) ||
    (startsWith lower ['\\', '\\'] && !startsWith lower AbsolutePath.verbatim)
  if isUnc then
    .error (.other ("refusing to install: the NGSM runner is on a network path ('" ++
      canonical.text ++ "'). Install NGSM under a local, administrator-protected directory " ++
      "and run `install` from there."))
  else if userVariables.any (underUserDirectory sys (stripVerbatim lower)) then
    .error (.other ("refusing to install: the NGSM runner is under a user-writable location ('" ++
      canonical.text ++ "'). Copy NGSM into an administrator-protected directory (e.g. under " ++
      "Program Files) and run `install` from there."))
  else .ok ()

def validateRunnerLocation (exe : Path) : Result AbsolutePath := do
  let canonical ← canonicalizeRunnerPath sys exe
  validateRunnerLocationHeuristics sys canonical
  validateRunnerAclChain api sys canonical
  return canonical

/-- The validation that the command line of a service is built with. -/
def resolveRunner (exe : Path) : Result Path :=
  (validateRunnerLocation api sys exe).map fun canonical => Utf16.encode canonical.text

end

/-! ## The chain of a path -/

namespace AbsolutePath

variable {path : AbsolutePath}

theorem dropNames_zero (path : AbsolutePath) : path.dropNames 0 = path := by
  ext1
  · rfl
  · exact List.take_of_length_le (Nat.sub_zero _).ge

theorem dropNames_dropNames (path : AbsolutePath) (m n : ℕ) :
    (path.dropNames m).dropNames n = path.dropNames (m + n) := by
  ext1
  · rfl
  · simp only [dropNames, List.length_take, List.take_take]
    congr 1
    omega

theorem length_dropNames (path : AbsolutePath) (n : ℕ) :
    (path.dropNames n).names.length = path.names.length - n := by
  simp only [dropNames, List.length_take]
  omega

theorem parent_eq_some (h : path.names ≠ []) : path.parent = some (path.dropNames 1) := by
  rw [parent, if_neg (by simpa using h)]

end AbsolutePath

/-- How an object above a file is checked. -/
def kindAbove (dir : AbsolutePath) : AclObjectKind :=
  if dir.isRoot then .volumeRoot else .directory

theorem aclTargetsAbove_eq (dir : AbsolutePath) :
    aclTargetsAbove dir = (List.range (dir.names.length + 1)).map fun n =>
      (dir.dropNames n, kindAbove (dir.dropNames n)) := by
  generalize hlength : dir.names.length = length
  induction length generalizing dir with
  | zero =>
      have hroot : dir.isRoot = true := by
        rw [AbsolutePath.isRoot, List.length_eq_zero_iff.mp hlength]
        rfl
      rw [aclTargetsAbove, if_pos hroot]
      simp [List.range_succ, dir.dropNames_zero, kindAbove, hroot]
  | succ length ih =>
      have hnames : dir.names ≠ [] := by
        intro h
        rw [h] at hlength
        cases hlength
      have hroot : ¬dir.isRoot = true := by simpa [AbsolutePath.isRoot] using hnames
      have habove := ih (dir.dropNames 1) (by rw [dir.length_dropNames, hlength]; rfl)
      rw [aclTargetsAbove, if_neg hroot]
      split
      · rename_i hparent
        rw [AbsolutePath.parent_eq_some hnames] at hparent
        cases hparent
      · rename_i above hparent
        rw [AbsolutePath.parent_eq_some hnames] at hparent
        cases hparent
        have hrange : List.range (length + 1 + 1) = 0 :: (List.range (length + 1)).map (· + 1) :=
          List.range_succ_eq_map
        rw [habove, hrange, List.map_cons, List.map_map, dir.dropNames_zero, kindAbove,
          if_neg hroot]
        congr 2
        funext n
        simp only [Function.comp_apply, dir.dropNames_dropNames, Nat.add_comm 1 n]

/-- The targets are the file and every directory above it, up to the root. -/
theorem mem_runnerAclTargets {canonical : AbsolutePath} {target : AbsolutePath × AclObjectKind} :
    target ∈ runnerAclTargets canonical ↔ target = (canonical, .file) ∨
      ∃ n, 0 < n ∧ n ≤ canonical.names.length ∧
        target = (canonical.dropNames n, kindAbove (canonical.dropNames n)) := by
  rw [runnerAclTargets, List.mem_cons]
  refine or_congr_right ?_
  by_cases hnames : canonical.names = []
  · rw [AbsolutePath.parent, hnames]
    simp only [List.isEmpty_nil, if_true, List.not_mem_nil, List.length_nil, false_iff]
    rintro ⟨n, hpos, hle, -⟩
    omega
  · have hlength := List.length_pos_iff.mpr hnames
    rw [AbsolutePath.parent_eq_some hnames]
    simp only [aclTargetsAbove_eq, canonical.length_dropNames, canonical.dropNames_dropNames,
      List.mem_map, List.mem_range]
    constructor
    · rintro ⟨n, hn, rfl⟩
      exact ⟨1 + n, by omega, by omega, rfl⟩
    · rintro ⟨n, hpos, hle, rfl⟩
      exact ⟨n - 1, by omega, by rw [Nat.add_sub_cancel' hpos]⟩

section

variable {api : SidApi} {sys : Surroundings}

theorem checkAclTargets_ok_iff {targets : List (AbsolutePath × AclObjectKind)} :
    checkAclTargets api sys targets = .ok () ↔ ∀ target ∈ targets,
      validatePathAcl api sys.security target.1.text target.2 = .ok () := by
  induction targets with
  | nil => simp [checkAclTargets]
  | cons target targets ih =>
      rw [List.forall_mem_cons, checkAclTargets]
      cases hcheck : validatePathAcl api sys.security target.1.text target.2 with
      | error error => simp [Except.mapError, bind, Except.bind]
      | ok _ => simp [Except.mapError, bind, Except.bind, ih]

/-- The descriptors of a file and the directories above it, as the system returns them. -/
structure Survey (api : SidApi) (sys : Surroundings) (canonical : AbsolutePath) where
  object : AbsolutePath → Descriptor Sid UInt32
  reading : ∀ target ∈ runnerAclTargets canonical, ∃ info,
    sys.security target.1.text = .ok info ∧ Reading api info (object target.1)

variable {canonical : AbsolutePath}

/-- An accepted path is protected from the file up to the root of its volume, whatever entries
deny and whichever conditions hold. -/
theorem protected_of_chain (hok : validateRunnerAclChain api sys canonical = .ok ())
    (survey : Survey api sys canonical) {target : AbsolutePath × AclObjectKind}
    (htarget : target ∈ runnerAclTargets canonical) (applies : Entry Sid UInt32 → Prop) :
    Protected api applies target.2 (survey.object target.1) := by
  obtain ⟨info, hinfo, hread⟩ := survey.reading target htarget
  have hcheck := checkAclTargets_ok_iff.mp hok target htarget
  exact (safe_of_validatePathAcl hinfo hread hcheck).isProtected hread applies

/-- The check is sound for every list; where no entry denies anything and every condition holds,
it accepts exactly the protected paths. -/
theorem runner_acl_chain_exact (survey : Survey api sys canonical) :
    (validateRunnerAclChain api sys canonical = .ok () →
      ∀ target ∈ runnerAclTargets canonical, ∀ applies,
        Protected api applies target.2 (survey.object target.1)) ∧
    (KnowsInstaller api →
      (∀ target ∈ runnerAclTargets canonical, ∀ entry ∈ (survey.object target.1).entries,
        entry.allows = true) →
      (validateRunnerAclChain api sys canonical = .ok () ↔
        ∀ target ∈ runnerAclTargets canonical,
          Protected api (fun _ => True) target.2 (survey.object target.1))) := by
  refine ⟨fun hok target htarget applies => protected_of_chain hok survey htarget applies, ?_⟩
  intro hknown hdenies
  refine ⟨fun hok target htarget => protected_of_chain hok survey htarget _, fun h => ?_⟩
  refine checkAclTargets_ok_iff.mpr fun target htarget => ?_
  obtain ⟨info, hinfo, hread⟩ := survey.reading target htarget
  exact validatePathAcl_of_safe hknown hinfo hread
    ((h target htarget).safe (hdenies target htarget))

/-! ## Directories of a user -/

theorem toAsciiLower_eq_separator {c : Char} : Text.toAsciiLower c = '\\' ↔ c = '\\' := by
  unfold Text.toAsciiLower
  split
  · rename_i hupper
    constructor
    · intro h
      have ha : 'A'.toNat = 65 := rfl
      have hz : 'Z'.toNat = 90 := rfl
      have hs : '\\'.toNat = 92 := rfl
      have hnat := congrArg Char.toNat h
      rw [Utf16.toNat_charOfNat (.inl (by omega))] at hnat
      omega
    · rintro rfl
      exact absurd hupper (by decide)
  · rfl

def lowered (text : String) : List Char :=
  text.toList.map Text.toAsciiLower

/-- The path is in a directory, up to the case of letters. -/
def Within (dir path : AbsolutePath) : Prop :=
  lowered path.volume = lowered dir.volume ∧
    ∃ inner ≠ [], path.names.map lowered = dir.names.map lowered ++ inner

theorem lowered_below {names : List String} (hnames : names ≠ []) :
    (AbsolutePath.below names).map Text.toAsciiLower =
      (names.map lowered).flatMap fun name => '\\' :: name := by
  have hbelow : AbsolutePath.below names = names.flatMap fun name => '\\' :: name.toList := by
    cases names with
    | nil => exact absurd rfl hnames
    | cons name names => rfl
  rw [hbelow, List.map_flatMap, List.flatMap_map]
  rfl

theorem lowerPath_eq (path : AbsolutePath) : lowerPath path =
    AbsolutePath.verbatim ++ (lowered path.volume ++
      (AbsolutePath.below path.names).map Text.toAsciiLower) := by
  rw [lowerPath, AbsolutePath.text, String.toList_ofList, List.map_append, List.map_append,
    List.append_assoc]
  rfl

theorem stripVerbatim_lowerPath (path : AbsolutePath) : stripVerbatim (lowerPath path) =
    lowered path.volume ++ (AbsolutePath.below path.names).map Text.toAsciiLower := by
  rw [lowerPath_eq, stripVerbatim, startsWith, if_pos]
  · rfl
  · rw [List.isPrefixOf_iff_prefix]
    exact List.prefix_append _ _

theorem trimSeparators_append {text : List Char} {last : Char} (hlast : last ≠ '\\')
    (n : ℕ) : trimSeparators (text ++ last :: List.replicate n '\\') = text ++ [last] := by
  unfold trimSeparators
  have hreverse : (text ++ last :: List.replicate n '\\').reverse =
      List.replicate n '\\' ++ last :: text.reverse := by
    simp
  rw [hreverse, List.dropWhile_append_of_pos]
  · simp [hlast]
  · intro c hc
    rw [List.eq_of_mem_replicate hc]
    rfl

/-- A name ends in a character that no trimming takes away. -/
theorem IsPathName.lowered_eq {name : String} (h : IsPathName name) :
    ∃ front last, lowered name = front ++ [last] ∧ last ≠ '\\' := by
  obtain ⟨hsome, hseparator, -⟩ := h
  have hlist : name.toList ≠ [] := fun hnil => hsome (String.toList_eq_nil_iff.mp hnil)
  refine ⟨(name.toList.dropLast).map Text.toAsciiLower,
    Text.toAsciiLower (name.toList.getLast hlist), ?_, ?_⟩
  · rw [lowered, ← List.map_singleton, ← List.map_append, List.dropLast_append_getLast]
  · rw [Ne, toAsciiLower_eq_separator]
    intro hlast
    exact hseparator (hlast ▸ List.getLast_mem hlist)

/-- A directory without the separators at its end. -/
theorem trimSeparators_dir (dir : AbsolutePath) : trimSeparators (stripVerbatim (lowerPath dir)) =
    lowered dir.volume ++ (dir.names.map lowered).flatMap fun name => '\\' :: name := by
  rw [stripVerbatim_lowerPath]
  by_cases hnames : dir.names = []
  · obtain ⟨init, last, hvolume, hlast⟩ := dir.volume_ends
    have hlower : lowered dir.volume = init.map Text.toAsciiLower ++ [Text.toAsciiLower last] := by
      rw [lowered, hvolume, List.map_append, List.map_singleton]
    have hroot : (AbsolutePath.below []).map Text.toAsciiLower = List.replicate 1 '\\' := rfl
    rw [hnames, hroot, hlower, List.append_assoc, List.singleton_append,
      trimSeparators_append (fun h => hlast (toAsciiLower_eq_separator.mp h))]
    simp
  · obtain ⟨front, last, hlower, hlast⟩ :=
      (dir.names_valid _ (List.getLast_mem hnames)).lowered_eq
    have hsplit : dir.names.map lowered =
        dir.names.dropLast.map lowered ++ [lowered (dir.names.getLast hnames)] := by
      rw [← List.map_singleton, ← List.map_append, List.dropLast_append_getLast]
    have hends : (dir.names.map lowered).flatMap (fun name => '\\' :: name) =
        (dir.names.dropLast.map lowered).flatMap (fun name => '\\' :: name) ++ '\\' :: front ++
          last :: List.replicate 0 '\\' := by
      rw [hsplit, List.flatMap_append, List.flatMap_singleton, hlower]
      simp
    rw [lowered_below hnames, hends, ← List.append_assoc, trimSeparators_append hlast]
    rfl

theorem underUserDirectory_of_within {var : String} {rawDir : Path} {dir : AbsolutePath}
    (hvar : sys.varOs var = some rawDir) (hdir : sys.canonicalize rawDir = .ok (.path dir))
    (hwithin : Within dir canonical) :
    underUserDirectory sys (stripVerbatim (lowerPath canonical)) var = true := by
  obtain ⟨hvolume, inner, hinner, hnames⟩ := hwithin
  obtain ⟨name, rest, rfl⟩ := List.exists_cons_of_ne_nil hinner
  have hsome : canonical.names ≠ [] := by
    intro h
    rw [h] at hnames
    simp at hnames
  have hfilled : (stripVerbatim (lowerPath dir)).isEmpty = false := by
    obtain ⟨init, last, hends, -⟩ := dir.volume_ends
    rw [stripVerbatim_lowerPath, lowered, hends]
    simp
  unfold underUserDirectory
  simp only [hvar, hdir, hfilled, Bool.false_eq_true, if_false]
  rw [startsWith, List.isPrefixOf_iff_prefix, trimSeparators_dir, stripVerbatim_lowerPath,
    lowered_below hsome, hvolume, hnames, List.flatMap_append, List.flatMap_cons]
  simp only [List.append_assoc, List.cons_append, List.prefix_append_right_inj]
  exact List.cons_prefix_cons.mpr ⟨rfl, List.nil_prefix⟩

/-- An accepted path is not in a directory of a user. -/
theorem not_within_of_heuristics
    (hok : validateRunnerLocationHeuristics sys canonical = .ok ()) {var : String}
    (hmem : var ∈ userVariables) {rawDir : Path} {dir : AbsolutePath}
    (hvar : sys.varOs var = some rawDir) (hdir : sys.canonicalize rawDir = .ok (.path dir)) :
    ¬Within dir canonical := by
  intro hwithin
  have hunder : userVariables.any
      (underUserDirectory sys (stripVerbatim (lowerPath canonical))) = true :=
    List.any_eq_true.mpr ⟨var, hmem, underUserDirectory_of_within hvar hdir hwithin⟩
  simp only [validateRunnerLocationHeuristics, hunder, if_true] at hok
  split at hok <;> cases hok

/-! ## The registered command -/

/-- The text of a path to a file is the path of a file. -/
theorem namesFile_text (hnames : canonical.names ≠ []) : NamesFile canonical.text := by
  have htext : canonical.text.toList = AbsolutePath.verbatim ++ canonical.volume.toList ++
      canonical.names.flatMap fun name => '\\' :: name.toList := by
    rw [AbsolutePath.text, String.toList_ofList]
    cases hcases : canonical.names with
    | nil => exact absurd hcases hnames
    | cons name names => rfl
  constructor
  · rw [htext]
    simp only [List.mem_append, not_or, List.mem_flatMap, not_exists, not_and]
    refine ⟨⟨by decide, canonical.volume_noQuote⟩, fun name hname => ?_⟩
    rw [List.mem_cons, not_or]
    exact ⟨by decide, (canonical.names_valid name hname).2.2⟩
  · obtain ⟨hsome, hseparator, -⟩ := canonical.names_valid _ (List.getLast_mem hnames)
    have hlist : (canonical.names.getLast hnames).toList ≠ [] :=
      fun hnil => hsome (String.toList_eq_nil_iff.mp hnil)
    refine ⟨AbsolutePath.verbatim ++ canonical.volume.toList ++
      (canonical.names.dropLast.flatMap fun name => '\\' :: name.toList) ++
        '\\' :: (canonical.names.getLast hnames).toList.dropLast,
      (canonical.names.getLast hnames).toList.getLast hlist, ?_,
      fun hlast => hseparator (hlast ▸ List.getLast_mem hlist)⟩
    have hflat : (canonical.names.flatMap fun name => '\\' :: name.toList) =
        (canonical.names.dropLast.flatMap fun name => '\\' :: name.toList) ++
          '\\' :: (canonical.names.getLast hnames).toList := by
      conv_lhs => rw [← List.dropLast_append_getLast hnames]
      rw [List.flatMap_append, List.flatMap_singleton]
    have hlast : (canonical.names.getLast hnames).toList =
        (canonical.names.getLast hnames).toList.dropLast ++
          [(canonical.names.getLast hnames).toList.getLast hlist] :=
      (List.dropLast_append_getLast hlist).symm
    rw [htext, hflat]
    conv_lhs => rw [hlast]
    simp only [List.append_assoc, List.cons_append]

theorem resolveRunner_eq_ok {exe resolved : Path} :
    resolveRunner api sys exe = .ok resolved ↔ ∃ canonical,
      sys.canonicalize exe = .ok (.path canonical) ∧
        validateRunnerLocationHeuristics sys canonical = .ok () ∧
        validateRunnerAclChain api sys canonical = .ok () ∧
        resolved = Utf16.encode canonical.text := by
  unfold resolveRunner validateRunnerLocation canonicalizeRunnerPath
  cases hcanonical : sys.canonicalize exe with
  | error error => simp [bind, Except.bind, Except.map]
  | ok found =>
      cases found with
      | notUnicode units => simp [bind, Except.bind, Except.map]
      | path canonical =>
          simp only [bind, Except.bind, Except.ok.injEq, Canonical.path.injEq, exists_eq_left']
          cases validateRunnerLocationHeuristics sys canonical with
          | error error => simp [Except.map]
          | ok _ =>
              cases validateRunnerAclChain api sys canonical with
              | error error => simp [Except.map]
              | ok _ => simp [Except.map, pure, Except.pure, eq_comm]

/-- The command line that is registered for a service names a file outside the directories of a
user which nobody can replace who is not trusted. -/
theorem registered_runner_protected (doubled : ArgumentVector.Quoting) {currentExe : Result Path}
    {name command : String}
    (hcommand : buildRunServiceCommand currentExe (resolveRunner api sys) name = .ok command) :
    ∃ exe canonical, currentExe = .ok exe ∧ sys.canonicalize exe = .ok (.path canonical) ∧
      (canonical.names ≠ [] → argv doubled command = [canonical.text, "run-service", name]) ∧
      (∀ var ∈ userVariables, ∀ rawDir dir, sys.varOs var = some rawDir →
        sys.canonicalize rawDir = .ok (.path dir) → ¬Within dir canonical) ∧
      ∀ survey : Survey api sys canonical, ∀ target ∈ runnerAclTargets canonical, ∀ applies,
        Protected api applies target.2 (survey.object target.1) := by
  rw [buildRunServiceCommand, Check.bind_eq_ok] at hcommand
  obtain ⟨_, -, hcommand⟩ := hcommand
  rw [Check.bind_eq_ok] at hcommand
  obtain ⟨exe, hexe, hcommand⟩ := hcommand
  obtain ⟨resolved, text, hresolved, htext, rfl⟩ := commandForValidatedRunner_eq_ok.mp hcommand
  obtain ⟨canonical, hcanonical, hheuristics, hchain, rfl⟩ := resolveRunner_eq_ok.mp hresolved
  rw [Utf16.decode_encode] at htext
  cases htext
  refine ⟨exe, canonical, hexe, hcanonical, fun hnames => ?_, ?_, ?_⟩
  · exact argv_runServiceCommand name doubled (namesFile_text hnames)
  · intro var hvar rawDir dir hraw hdir
    exact not_within_of_heuristics hheuristics hvar hraw hdir
  · intro survey target htarget applies
    exact protected_of_chain hchain survey htarget applies

end

/-! ## A runner below the program files -/

def le32 (n : ℕ) : List UInt8 :=
  [UInt8.ofNat (n % 256), UInt8.ofNat (n / 256 % 256), UInt8.ofNat (n / 65536 % 256),
    UInt8.ofNat (n / 16777216)]

/-- The layout of a security identifier. -/
def sidBytes (authority : UInt8) (subAuthorities : List ℕ) : Sid :=
  [1, UInt8.ofNat subAuthorities.length, 0, 0, 0, 0, 0, authority] ++ subAuthorities.flatMap le32

def wellKnownBytes : WellKnownSid → Sid
  | .localSystem => sidBytes 5 [18]
  | .builtinAdministrators => sidBytes 5 [32, 544]
  | .world => sidBytes 1 [0]
  | .builtinUsers => sidBytes 5 [32, 545]
  | .authenticatedUser => sidBytes 5 [11]
  | .interactive => sidBytes 5 [4]

def installerBytes : Sid :=
  sidBytes 5 [80, 956008885, 3418522649, 1831038044, 1853292631, 2271478464]

def sidLength (memory : Memory) : ℕ :=
  8 + 4 * (memory 1).toNat

/-- The calls as the layout has them. -/
def documentedSids : SidApi where
  isValidSid memory := memory 0 == 1 && memory 1 ≤ 15
  getLengthSid := sidLength
  isWellKnownSid memory known := memory.take (sidLength memory) == wellKnownBytes known
  equalSid memory other := memory.take (sidLength memory) == other.take (sidLength other)
  convertStringSidToSid text :=
    if text = trustedInstallerSid then .ok (Memory.ofBytes installerBytes)
    else .error "the security identifier is not valid"
  content := by
    intro memory memory' hvalid htake
    have hbyte : ∀ i < 8, memory i = memory' i := by
      intro i hi
      have hlt : i < sidLength memory := by
        unfold sidLength
        omega
      have hget := congrArg (fun bytes => bytes[i]?) htake
      simpa [Memory.take, hlt] using hget
    have hlength : sidLength memory' = sidLength memory := by
      rw [sidLength, sidLength, hbyte 1 (by decide)]
    rw [hbyte 0 (by decide), hbyte 1 (by decide)] at hvalid
    refine ⟨hvalid, hlength, ?_, ?_⟩
    · funext known
      rw [hlength, htake]
    · funext other
      rw [hlength, htake]

theorem isSid_known (known : WellKnownSid) : IsSid documentedSids (wellKnownBytes known) := by
  cases known <;> exact ⟨by decide, by decide, by decide⟩

/-- An entry that allows a well-known principal something. -/
def allowEntry (known : WellKnownSid) (mask : UInt32) : AllowAce documentedSids where
  callback := false
  types := none
  flags := 0
  mask
  sid := wellKnownBytes known
  data := []
  sid_valid := isSid_known known
  fits := by cases known <;> decide

/-- Administrators may do everything, and users may read and execute. -/
def programFilesAces : List (AllowAce documentedSids) :=
  [allowEntry .builtinAdministrators 0x001F01FF, allowEntry .builtinUsers 0x001200A9]

def programFilesInfo : SecurityInfo where
  owner := some (Memory.ofBytes (wellKnownBytes .localSystem))
  dacl := .ok (.list true
    (programFilesAces.map fun ace => .ok (some (Memory.ofBytes ace.encode))))

def programFilesPath : AbsolutePath where
  volume := "C:"
  names := ["Program Files", "NGSM", "ngsm.exe"]
  volume_ends := ⟨['C'], ':', by decide, by decide⟩
  volume_noQuote := by decide
  names_valid := by
    intro name hname
    simp only [List.mem_cons, List.not_mem_nil, or_false] at hname
    rcases hname with rfl | rfl | rfl <;> exact ⟨by decide, by decide, by decide⟩

def programFilesSystem : Surroundings where
  varOs _ := none
  canonicalize _ := .ok (.path programFilesPath)
  security _ := .ok programFilesInfo

/-- The object that the descriptor is about. -/
def programFilesObject : Descriptor Sid UInt32 where
  owner := wellKnownBytes .localSystem
  entries := programFilesAces.map fun ace => {
    allows := true
    principal := ace.sid
    covers := rightsOf ace.mask
    inheritOnly := ace.inheritOnly }

def programFilesSurvey : Survey documentedSids programFilesSystem programFilesPath where
  object _ := programFilesObject
  reading := by
    intro target htarget
    refine ⟨programFilesInfo, rfl, ⟨_, rfl, isSid_known .localSystem, Memory.holds_ofBytes _⟩, _,
      rfl, ?_⟩
    have hace : ∀ ace : AllowAce documentedSids,
        Denotes documentedSids (Memory.ofBytes ace.encode) {
          allows := true
          principal := ace.sid
          covers := rightsOf ace.mask
          inheritOnly := ace.inheritOnly } :=
      fun ace => .allow ace (Memory.holds_ofBytes _)
    exact .cons ⟨_, rfl, hace _⟩ (.cons ⟨_, rfl, hace _⟩ .nil)

theorem validatePathAcl_programFiles (path : String) (kind : AclObjectKind) :
    validatePathAcl documentedSids programFilesSystem.security path kind = .ok () := by
  cases kind <;> rfl

theorem validateRunnerAclChain_programFiles :
    validateRunnerAclChain documentedSids programFilesSystem programFilesPath = .ok () :=
  checkAclTargets_ok_iff.mpr fun _ _ => validatePathAcl_programFiles _ _

theorem programFiles_chain_exact :
    (∀ target ∈ runnerAclTargets programFilesPath, ∀ applies,
      Protected documentedSids applies target.2 programFilesObject) ∧
    (validateRunnerAclChain documentedSids programFilesSystem programFilesPath = .ok () ↔
      ∀ target ∈ runnerAclTargets programFilesPath,
        Protected documentedSids (fun _ => True) target.2 programFilesObject) := by
  obtain ⟨hsound, hexact⟩ := runner_acl_chain_exact programFilesSurvey
  refine ⟨hsound validateRunnerAclChain_programFiles, hexact ⟨_, rfl⟩ ?_⟩
  intro target _ entry hentry
  obtain ⟨ace, -, rfl⟩ := List.mem_map.mp hentry
  rfl

theorem registered_programFiles_protected :
    Protected documentedSids (fun _ => True) .file programFilesObject := by
  have hheuristics : validateRunnerLocationHeuristics programFilesSystem programFilesPath =
      .ok () := by decide
  have hresolved := resolveRunner_eq_ok.mpr
    ⟨programFilesPath, (rfl : programFilesSystem.canonicalize [] = _), hheuristics,
      validateRunnerAclChain_programFiles, rfl⟩
  have hcommand : buildRunServiceCommand (.ok []) (resolveRunner documentedSids
      programFilesSystem) "svc" = .ok (runServiceCommand programFilesPath.text "svc") := by
    rw [buildRunServiceCommand, Check.bind_eq_ok]
    refine ⟨(), by decide, ?_⟩
    exact commandForValidatedRunner_eq_ok.mpr ⟨_, _, hresolved, Utf16.decode_encode _, rfl⟩
  obtain ⟨exe, canonical, hexe, hcanonical, -, -, hprotected⟩ :=
    registered_runner_protected .inside hcommand
  cases hcanonical
  exact hprotected programFilesSurvey (programFilesPath, .file)
    (mem_runnerAclTargets.mpr (.inl rfl)) _

end Ngsm.Win32
