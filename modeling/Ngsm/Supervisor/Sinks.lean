/-
# One sink for each log file

The two output streams of an application may denote one file, by one path, by two
spellings, or by hard links, and the file may not exist before it is opened.  Two sinks
on one file would rotate it under each other, so the supervisor asks for the identity of
a file before it opens it.

Paths denote locations, and a location has a file or none.  Creating directories does not
change what a path denotes.  Every call of the file system may fail.
-/

import Mathlib.Data.List.Nodup
import Mathlib.Logic.Function.Basic
import Ngsm.Supervisor.Launch

namespace Ngsm.Supervisor.Sinks

open Ngsm.Lib
open Ngsm.Core
open Ngsm.Supervisor.Launch (validateOutput validateOpenOptions refuse)

/-! ## The file system -/

/-- What is known of a file by its identity. -/
structure FileInfo where
  links : ℕ
  regular : Bool
  length : ℕ
deriving DecidableEq, Repr

/-- The files of a system.  Identities from `next` on belong to no file. -/
structure Files (κ : Type) where
  locate : String → κ
  entries : κ → Option ℕ
  info : ℕ → FileInfo
  next : ℕ
  known : ∀ location identity, entries location = some identity → identity < next

section

variable {κ : Type}

namespace Files

/-- The file that a path denotes. -/
def denotes (files : Files κ) (path : String) : Option ℕ :=
  files.entries (files.locate path)

/-- Create an empty file, with an identity of its own. -/
def create [DecidableEq κ] (files : Files κ) (path : String) : Files κ where
  locate := files.locate
  entries := Function.update files.entries (files.locate path) (some files.next)
  info := Function.update files.info files.next { links := 1, regular := true, length := 0 }
  next := files.next + 1
  known := by
    intro location identity hentry
    by_cases hlocation : location = files.locate path
    · rw [hlocation, Function.update_self] at hentry
      cases hentry
      exact Nat.lt_succ_self _
    · rw [Function.update_of_ne hlocation] at hentry
      exact Nat.lt_succ_of_lt (files.known location identity hentry)

/-- Empty a file; it keeps its identity. -/
def truncate (files : Files κ) (identity : ℕ) : Files κ :=
  { files with
    info := Function.update files.info identity { files.info identity with length := 0 } }

end Files

/-- The files and the number of calls so far. -/
structure Disk (κ : Type) where
  files : Files κ
  calls : ℕ

abbrev DiskM (κ α : Type) : Type :=
  Prog (Disk κ) SupervisorError α

/-- Which calls fail, and with what. -/
abbrev Faults : Type :=
  ℕ → Option String

/-- A call of the file system, which may fail. -/
def tryCall (faults : Faults) (wrap : String → SupervisorError) : DiskM κ Unit :=
  Prog.step fun disk =>
    let next := { disk with calls := disk.calls + 1 }
    match faults disk.calls with
    | some error => (.error (wrap error), next)
    | none => (.ok (), next)

def currentFiles : DiskM κ (Files κ) :=
  Prog.step fun disk => (.ok disk.files, disk)

def putFiles (files : Files κ) : DiskM κ Unit :=
  modify fun disk => { disk with files }

/-! ## Identities -/

/-- The identity of the file that a path denotes and the number of its links, if there is
such a file. -/
def existingIdentity (faults : Faults) (path : String) : DiskM κ (Option (ℕ × ℕ)) := do
  tryCall faults .io
  let files ← currentFiles
  match files.denotes path with
  | none => pure none
  | some identity =>
      tryCall faults .io
      pure (some (identity, (files.info identity).links))

/-- The canonical path of a file: its location. -/
def canonicalize (faults : Faults) (path : String) : DiskM κ κ := do
  tryCall faults .io
  let files ← currentFiles
  match files.denotes path with
  | none => throw (.io "entity not found")
  | some _ => pure (files.locate path)

/-- The options of a stream as they take effect. -/
def effectiveOptions (stream : IoStream) : UInt32 × UInt32 × UInt32 × Bool :=
  (stream.shareMode.getD 7, stream.creationDisposition.getD 4,
    (stream.flagsAndAttributes.filter (· != 0)).getD 0x80, stream.copyAndTruncate.getD false)

def sameOptions (left right : IoStream) : Bool :=
  effectiveOptions left == effectiveOptions right

/-! ## Opening a log -/

section

variable [DecidableEq κ]

/-- What opening a path does to the file there. -/
inductive Opening where
  | create
  | keep (identity : ℕ)
  | truncate (identity : ℕ)
deriving DecidableEq, Repr

/-- The creation dispositions of the system. -/
def opening (disposition : UInt32) (existing : Option ℕ) : Except String Opening :=
  if disposition = 1 then
    match existing with
    | none => .ok .create
    | some _ => .error "file exists"
  else if disposition = 2 then
    match existing with
    | none => .ok .create
    | some identity => .ok (.truncate identity)
  else if disposition = 3 then
    match existing with
    | none => .error "entity not found"
    | some identity => .ok (.keep identity)
  else if disposition = 4 then
    match existing with
    | none => .ok .create
    | some identity => .ok (.keep identity)
  else if disposition = 5 then
    match existing with
    | none => .error "entity not found"
    | some identity => .ok (.truncate identity)
  else
    .error "invalid stream creation disposition"

/-- Open a path, and give the identity of the file that is open then. -/
def open_ (path : String) : Opening → DiskM κ ℕ
  | .create => do
      let files ← currentFiles
      putFiles (files.create path)
      pure files.next
  | .keep identity => pure identity
  | .truncate identity => do
      let files ← currentFiles
      putFiles (files.truncate identity)
      pure identity

/-- The directories of a file that may be created are created first. -/
def createParents (faults : Faults) (stream : IoStream) (wrap : String → SupervisorError) :
    DiskM κ Unit :=
  let disposition := stream.creationDisposition.getD 4
  if disposition = 1 ∨ disposition = 2 ∨ disposition = 4 then tryCall faults wrap else pure ()

/-- The error of a log that could not be opened. -/
def asOpenLog (path : String) : SupervisorError → SupervisorError
  | .io error => .openLog path error
  | error => error

def openOutput (faults : Faults) (stream : IoStream) : DiskM κ ℕ := do
  let wrap := SupervisorError.openLog stream.path
  liftExcept ((validateOpenOptions stream).mapError (asOpenLog stream.path))
  createParents faults stream wrap
  tryCall faults wrap
  let files ← currentFiles
  let how ← liftExcept ((opening (stream.creationDisposition.getD 4)
    (files.denotes stream.path)).mapError wrap)
  open_ stream.path how

/-- A log that is open.  `arc` tells the allocations apart: a handle shared by two streams is
the same allocation. -/
structure RotationSink (κ : Type) where
  arc : ℕ
  identity : ℕ
  options : IoStream
  canonical : κ
  bytesInCurrent : ℕ
  config : LogRotationConfig

/-- `RotationSink::open_with_io`. -/
def openWithIo (faults : Faults) (arc : ℕ) (stream : IoStream) (config : LogRotationConfig) :
    DiskM κ (RotationSink κ) := do
  liftExcept (validateOutput stream config)
  let identity ← openOutput faults stream
  tryCall faults .io
  let files ← currentFiles
  let info := files.info identity
  liftExcept (refuse (!info.regular)
    (.io "output redirection currently requires a regular file"))
  tryCall faults .io
  liftExcept (refuse (1 < info.links && config.enabled == some true)
    (.io "rotation of hard-linked log files is unsupported"))
  let canonical ← canonicalize faults stream.path
  tryCall faults .io
  pure
    { arc, identity, options := stream, canonical, bytesInCurrent := info.length, config }

/-! ## Sharing -/

def conflictingOptions : SupervisorError :=
  .io "stdout/stderr sharing one file have conflicting open/rotation options"

/-- Take the sink of another stream on the same file. -/
def share (faults : Faults) (existing : RotationSink κ) (stream : IoStream) (links : ℕ) :
    DiskM κ (RotationSink κ) := do
  liftExcept (refuse (!sameOptions existing.options stream) conflictingOptions)
  let canonical ← canonicalize faults stream.path
  liftExcept (refuse (canonical ≠ existing.canonical && 1 < links)
    (.io "distinct hard-link log aliases cannot share a rotation destination"))
  pure existing

/-- The sink of a stream, and the sinks so far. -/
def resolve (faults : Faults) (config : LogRotationConfig) (unique : List (RotationSink κ)) :
    Option IoStream → DiskM κ (Option (RotationSink κ) × List (RotationSink κ))
  | none => pure (none, unique)
  | some stream => do
      liftExcept (validateOutput stream config)
      let known ← existingIdentity faults stream.path
      match known.bind fun key => (unique.find? (·.identity == key.1)).map (·, key.2) with
      | some (existing, links) => do
          let sink ← share faults existing stream links
          pure (some sink, unique)
      | none => do
          let sink ← openWithIo faults unique.length stream config
          pure (some sink, unique ++ [sink])

/-- Two streams on one file that exists have to agree about it. -/
def checkExisting (faults : Faults) (out err : IoStream) : DiskM κ Unit := do
  let outKnown ← existingIdentity faults out.path
  let errKnown ← existingIdentity faults err.path
  match outKnown, errKnown with
  | some (outId, links), some (errId, _) =>
      if outId = errId then do
        liftExcept (refuse (!sameOptions out err) conflictingOptions)
        if 1 < links then do
          let outPath ← canonicalize faults out.path
          let errPath ← canonicalize faults err.path
          liftExcept (refuse (outPath ≠ errPath)
            (.io "distinct hard-link log aliases cannot share a destination"))
        else
          pure ()
      else
        pure ()
  | _, _ => pure ()

/-- What is checked of both streams before one of them is opened. -/
def preflight (faults : Faults) (config : LogRotationConfig) (stdout stderr : Option IoStream) :
    DiskM κ Unit := do
  liftExcept ((stdout.toList ++ stderr.toList).forM fun stream => validateOutput stream config)
  match stdout, stderr with
  | some out, some err => checkExisting faults out err
  | _, _ => pure ()

/-- The sinks of the two streams, and every sink once. -/
def dedupSinks (faults : Faults) (config : LogRotationConfig) (stdout stderr : Option IoStream) :
    DiskM κ (Option (RotationSink κ) × Option (RotationSink κ) × List (RotationSink κ)) := do
  preflight faults config stdout stderr
  let (out, unique) ← resolve faults config [] stdout
  let (err, unique) ← resolve faults config unique stderr
  pure (out, err, unique)

end

/-! ## Calls that change no file -/

section

variable {faults : Faults} {disk : Disk κ} {files : Files κ} {path : String}
  {stream : IoStream} {config : LogRotationConfig} {α : Type}

/-- A disk with the files it had. -/
def SameFiles (files : Files κ) (disk : Disk κ) : Prop :=
  disk.files = files

/-- A program that changes no file, whether or not it fails. -/
def Reads (m : DiskM κ α) (Q : Files κ → α → Prop) : Prop :=
  ∀ disk, Prog.wp m (fun a disk' => SameFiles disk.files disk' ∧ Q disk.files a)
    (fun _ => SameFiles disk.files) disk

theorem Reads.bind {β : Type} {m : DiskM κ α} {f : α → DiskM κ β} {Q : Files κ → α → Prop}
    {Q' : Files κ → β → Prop} (hm : Reads m Q)
    (hf : ∀ a disk, Q disk.files a →
      Prog.wp (f a) (fun b disk' => SameFiles disk.files disk' ∧ Q' disk.files b)
        (fun _ => SameFiles disk.files) disk) : Reads (m >>= f) Q' := by
  intro disk
  rw [Prog.wp_bind]
  refine Prog.wp_mono _ ?_ (fun _ _ hsame => hsame) (hm disk)
  rintro a next ⟨hsame, ha⟩
  have hnext := hf a next (by rw [hsame]; exact ha)
  rw [hsame] at hnext
  exact hnext

theorem reads_tryCall (wrap : String → SupervisorError) :
    Reads (tryCall faults wrap : DiskM κ Unit) fun _ _ => True := by
  intro disk
  unfold tryCall
  rw [Prog.wp_step]
  dsimp only
  cases faults disk.calls with
  | none => exact ⟨rfl, trivial⟩
  | some error => rfl

theorem reads_liftExcept (x : Except SupervisorError α) :
    Reads (liftExcept x : DiskM κ α) fun _ a => x = .ok a := by
  intro disk
  rw [Prog.wp_liftExcept]
  cases x with
  | ok a => exact ⟨rfl, rfl⟩
  | error e => rfl

theorem reads_existingIdentity :
    Reads (existingIdentity faults path : DiskM κ _) fun files known =>
      known = (files.denotes path).map fun identity => (identity, (files.info identity).links) := by
  refine (reads_tryCall _).bind ?_
  intro _ disk _
  rw [Prog.wp_bind]
  change Prog.wp (match disk.files.denotes path with
    | none => pure none
    | some identity => tryCall faults .io >>= fun _ =>
        pure (some (identity, (disk.files.info identity).links))) _ _ disk
  cases disk.files.denotes path with
  | none => exact ⟨rfl, rfl⟩
  | some identity =>
      rw [Prog.wp_bind]
      refine Prog.wp_mono _ ?_ (fun _ _ hsame => hsame) (reads_tryCall _ disk)
      rintro _ next ⟨hsame, -⟩
      exact ⟨hsame, rfl⟩

theorem reads_canonicalize :
    Reads (canonicalize faults path : DiskM κ κ) fun files location =>
      location = files.locate path := by
  refine (reads_tryCall _).bind ?_
  intro _ disk _
  rw [Prog.wp_bind]
  change Prog.wp (match disk.files.denotes path with
    | none => throw (SupervisorError.io "entity not found")
    | some _ => pure (disk.files.locate path)) _ _ disk
  cases disk.files.denotes path with
  | none => exact rfl
  | some identity => exact ⟨rfl, rfl⟩

/-! ## What is checked before a file is opened -/

theorem sameOptions_iff {left right : IoStream} :
    sameOptions left right = true ↔ effectiveOptions left = effectiveOptions right := by
  unfold sameOptions
  exact beq_iff_eq

/-- Two streams on one existing file have the same options, and are no distinct hard links. -/
def ExistingAgree (files : Files κ) (out err : IoStream) : Prop :=
  ∀ identity, files.denotes out.path = some identity → files.denotes err.path = some identity →
    effectiveOptions out = effectiveOptions err ∧
      (1 < (files.info identity).links → files.locate out.path = files.locate err.path)

/-- Both streams are valid, and agree about a file that both of them denote already. -/
structure Agree (config : LogRotationConfig) (files : Files κ)
    (stdout stderr : Option IoStream) : Prop where
  valid : ∀ stream ∈ stdout.toList ++ stderr.toList, validateOutput stream config = .ok ()
  existing : ∀ out ∈ stdout, ∀ err ∈ stderr, ExistingAgree files out err

variable [DecidableEq κ]

theorem reads_checkHardLinks {out err : IoStream} :
    Reads (do
      let outPath ← canonicalize faults out.path
      let errPath ← canonicalize faults err.path
      liftExcept (refuse (outPath ≠ errPath)
        (.io "distinct hard-link log aliases cannot share a destination")) : DiskM κ Unit)
      fun files _ => files.locate out.path = files.locate err.path := by
  refine reads_canonicalize.bind ?_
  rintro _ disk rfl
  rw [Prog.wp_bind]
  refine Prog.wp_mono _ ?_ (fun _ _ hsame => hsame) (reads_canonicalize disk)
  rintro _ next ⟨hsame, rfl⟩
  rw [← hsame]
  refine Prog.wp_mono _ ?_ (fun _ _ hsame => hsame) (reads_liftExcept _ next)
  rintro _ last ⟨hlast, hrefuse⟩
  rw [Launch.refuse_eq_ok] at hrefuse
  exact ⟨hlast, by simpa using hrefuse⟩

theorem reads_checkExisting {out err : IoStream} :
    Reads (checkExisting faults out err : DiskM κ Unit) fun files _ =>
      ExistingAgree files out err := by
  refine reads_existingIdentity.bind ?_
  rintro _ disk rfl
  rw [Prog.wp_bind]
  refine Prog.wp_mono _ ?_ (fun _ _ hsame => hsame) (reads_existingIdentity disk)
  rintro _ next ⟨hsame, rfl⟩
  rw [← hsame]
  cases hout : next.files.denotes out.path with
  | none =>
      refine ⟨rfl, fun identity hidentity => ?_⟩
      rw [hout] at hidentity
      cases hidentity
  | some outId =>
      cases herr : next.files.denotes err.path with
      | none =>
          refine ⟨rfl, fun identity _ hidentity => ?_⟩
          rw [herr] at hidentity
          cases hidentity
      | some errId =>
          simp only [Option.map_some]
          rw [Prog.wp_ite]
          split
          · rename_i hids
            rw [Prog.wp_bind]
            refine Prog.wp_mono _ ?_ (fun _ _ hsame => hsame) (reads_liftExcept _ next)
            rintro _ last ⟨hlast, hrefuse⟩
            rw [Launch.refuse_eq_ok, Bool.not_eq_false', sameOptions_iff] at hrefuse
            rw [← hlast] at hout herr ⊢
            have hagree : ∀ identity, last.files.denotes out.path = some identity →
                identity = outId := by
              intro identity hidentity
              rw [hout] at hidentity
              exact (Option.some.inj hidentity).symm
            rw [Prog.wp_ite]
            split
            · refine Prog.wp_mono _ ?_ (fun _ _ hsame => hsame) (reads_checkHardLinks last)
              rintro _ final ⟨hfinal, hlocate⟩
              exact ⟨hfinal, fun _ _ _ => ⟨hrefuse, fun _ => hlocate⟩⟩
            · rename_i hlinks
              refine ⟨rfl, fun identity hidentity _ => ⟨hrefuse, fun hmany => ?_⟩⟩
              rw [hagree identity hidentity] at hmany
              exact absurd hmany hlinks
          · rename_i hids
            refine ⟨rfl, fun identity houtId herrId => ?_⟩
            rw [hout] at houtId
            rw [herr] at herrId
            cases houtId
            cases herrId
            exact absurd rfl hids

/-- What is checked before a file is opened changes no file, and passes only for streams
that agree. -/
theorem reads_preflight {stdout stderr : Option IoStream} :
    Reads (preflight faults config stdout stderr : DiskM κ Unit) fun files _ =>
      Agree config files stdout stderr := by
  refine (reads_liftExcept _).bind ?_
  intro _ disk hvalid
  rw [Check.forM_eq_ok] at hvalid
  cases stdout with
  | none =>
      exact ⟨rfl, hvalid, by simp⟩
  | some out =>
      cases stderr with
      | none =>
          exact ⟨rfl, hvalid, by simp⟩
      | some err =>
          refine Prog.wp_mono _ ?_ (fun _ _ hsame => hsame) (reads_checkExisting disk)
          rintro _ next ⟨hsame, hagree⟩
          refine ⟨hsame, hvalid, ?_⟩
          intro left hleft right hright
          cases hleft
          cases hright
          exact hagree

end

/-! ## What opening a log does to the files -/

section

variable {faults : Faults} {disk : Disk κ} {files : Files κ} {path : String}
  {stream : IoStream} {config : LogRotationConfig}

/-- Every path that denotes a file still denotes it. -/
structure Extends (before after : Files κ) : Prop where
  locate : after.locate = before.locate
  denotes : ∀ path identity, before.denotes path = some identity →
    after.denotes path = some identity

theorem Extends.refl (files : Files κ) : Extends files files :=
  ⟨rfl, fun _ _ h => h⟩

theorem Extends.trans {first second third : Files κ} (h : Extends first second)
    (h' : Extends second third) : Extends first third :=
  ⟨h'.locate.trans h.locate,
    fun path identity hdenotes => h'.denotes path identity (h.denotes path identity hdenotes)⟩

/-- A path was opened: it denotes the file that is open, the one it denoted before or one
that no path denoted. -/
structure Opened (before : Files κ) (path : String) (identity : ℕ) (after : Files κ) : Prop where
  extends_ : Extends before after
  denoted : after.denotes path = some identity
  kept : ∀ existing, before.denotes path = some existing → identity = existing
  fresh : before.denotes path = none → ∀ other, before.denotes other ≠ some identity

theorem opened_of_denotes {before after : Files κ} {identity : ℕ}
    (hlocate : after.locate = before.locate) (hentries : after.entries = before.entries)
    (hdenotes : before.denotes path = some identity) : Opened before path identity after := by
  have hsame : ∀ other, after.denotes other = before.denotes other := by
    intro other
    unfold Files.denotes
    rw [hlocate, hentries]
  refine ⟨⟨hlocate, fun other existing hother => ?_⟩, ?_, fun existing hexisting => ?_, ?_⟩
  · rw [hsame, hother]
  · rw [hsame, hdenotes]
  · rw [hdenotes] at hexisting
    exact Option.some.inj hexisting
  · intro hnone
    rw [hdenotes] at hnone
    cases hnone

/-- A program that reads the files is followed by one that finds the same files. -/
theorem Reads.wp_bind {α β : Type} {m : DiskM κ α} {f : α → DiskM κ β} {Q : Files κ → α → Prop}
    {Q' : β → Disk κ → Prop} (hm : Reads m Q) (hdisk : disk.files = files)
    (hf : ∀ a next, next.files = files → Q files a →
      Prog.wp (f a) Q' (fun _ _ => True) next) :
    Prog.wp (m >>= f) Q' (fun _ _ => True) disk := by
  rw [Prog.wp_bind]
  refine Prog.wp_mono _ ?_ (fun _ _ _ => trivial) (hm disk)
  rintro a next ⟨hsame, ha⟩
  exact hf a next (hsame.trans hdisk) (hdisk ▸ ha)

theorem reads_currentFiles : Reads (currentFiles : DiskM κ _) fun files a => a = files :=
  fun _ => ⟨rfl, rfl⟩

theorem reads_createParents (wrap : String → SupervisorError) :
    Reads (createParents faults stream wrap : DiskM κ Unit) fun _ _ => True := by
  intro disk
  unfold createParents
  dsimp only
  rw [Prog.wp_ite]
  split
  · exact reads_tryCall wrap disk
  · exact ⟨rfl, trivial⟩

variable [DecidableEq κ]

theorem opened_create (hmissing : files.denotes path = none) :
    Opened files path files.next (files.create path) := by
  refine ⟨⟨rfl, fun other existing hother => ?_⟩, Function.update_self .., ?_, ?_⟩
  · have hne : files.locate other ≠ files.locate path := by
      intro heq
      rw [Files.denotes, heq] at hother
      rw [Files.denotes, hother] at hmissing
      cases hmissing
    exact (Function.update_of_ne hne ..).trans hother
  · intro existing hexisting
    rw [hmissing] at hexisting
    cases hexisting
  · intro _ other hother
    exact Nat.lt_irrefl _ (files.known _ _ hother)

/-- A file is created only where there is none. -/
theorem opening_eq_ok {disposition : UInt32} {existing : Option ℕ} {how : Opening}
    (h : opening disposition existing = .ok how) :
    match how with
    | .create => existing = none
    | .keep identity | .truncate identity => existing = some identity := by
  unfold opening at h
  cases existing with
  | none =>
      split_ifs at h <;> cases h <;> rfl
  | some identity =>
      split_ifs at h <;> cases h <;> rfl

theorem wp_open {how : Opening} {disposition : UInt32}
    (hhow : opening disposition (disk.files.denotes path) = .ok how) :
    Prog.wp (open_ path how)
      (fun identity disk' => Opened disk.files path identity disk'.files)
      (fun _ _ => True) disk := by
  have hfile := opening_eq_ok hhow
  cases how with
  | create => exact opened_create hfile
  | keep identity => exact opened_of_denotes rfl rfl hfile
  | truncate identity => exact opened_of_denotes rfl rfl hfile

theorem wp_openOutput (hdisk : disk.files = files) :
    Prog.wp (openOutput faults stream)
      (fun identity disk' => Opened files stream.path identity disk'.files)
      (fun _ _ => True) disk := by
  refine (reads_liftExcept _).wp_bind hdisk fun _ _ hdisk _ => ?_
  refine (reads_createParents _).wp_bind hdisk fun _ _ hdisk _ => ?_
  refine (reads_tryCall _).wp_bind hdisk fun _ _ hdisk _ => ?_
  refine reads_currentFiles.wp_bind hdisk fun _ _ hdisk hfiles => ?_
  refine (reads_liftExcept _).wp_bind hdisk fun how next hdisk hhow => ?_
  cases hfiles
  cases hdisk
  cases hopening : opening (stream.creationDisposition.getD 4)
      (next.files.denotes stream.path) with
  | error e =>
      rw [hopening] at hhow
      cases hhow
  | ok how' =>
      rw [hopening] at hhow
      cases hhow
      exact wp_open hopening

/-- A sink is open on the file of its stream. -/
theorem wp_openWithIo {arc : ℕ} (hdisk : disk.files = files) :
    Prog.wp (openWithIo faults arc stream config)
      (fun sink disk' => sink.arc = arc ∧ sink.options = stream ∧
        Opened files stream.path sink.identity disk'.files)
      (fun _ _ => True) disk := by
  refine (reads_liftExcept _).wp_bind hdisk fun _ _ hdisk _ => ?_
  rw [Prog.wp_bind]
  refine Prog.wp_mono _ ?_ (fun _ _ _ => trivial) (wp_openOutput hdisk)
  intro identity opened hopened
  refine (reads_tryCall _).wp_bind rfl fun _ _ hdisk _ => ?_
  refine reads_currentFiles.wp_bind hdisk fun _ _ hdisk _ => ?_
  refine (reads_liftExcept _).wp_bind hdisk fun _ _ hdisk _ => ?_
  refine (reads_tryCall _).wp_bind hdisk fun _ _ hdisk _ => ?_
  refine (reads_liftExcept _).wp_bind hdisk fun _ _ hdisk _ => ?_
  refine reads_canonicalize.wp_bind hdisk fun _ _ hdisk _ => ?_
  refine (reads_tryCall _).wp_bind hdisk fun _ _ hdisk _ => ?_
  rw [Prog.wp_pure, hdisk]
  exact ⟨rfl, rfl, hopened⟩

end

/-! ## One sink for each file -/

section

variable {faults : Faults} {disk : Disk κ} {files before after : Files κ}
  {sinks sinks' : List (RotationSink κ)} {sink : RotationSink κ} {stream : IoStream}
  {config : LogRotationConfig}

/-- The sinks so far: each on a file of its own, which its path denotes. -/
structure Tracked (files : Files κ) (sinks : List (RotationSink κ)) : Prop where
  distinct : (sinks.map (·.identity)).Nodup
  arcs : sinks.map (·.arc) = List.range sinks.length
  denoted : ∀ sink ∈ sinks, files.denotes sink.options.path = some sink.identity

/-- The handle of a stream is a sink on the file of the stream, with its options. -/
inductive Handles (files : Files κ) (sinks : List (RotationSink κ)) :
    Option IoStream → Option (RotationSink κ) → Prop
  | none : Handles files sinks none none
  | some (stream : IoStream) (sink : RotationSink κ) (hmem : sink ∈ sinks)
      (hdenotes : files.denotes stream.path = some sink.identity)
      (hoptions : effectiveOptions sink.options = effectiveOptions stream) :
      Handles files sinks (some stream) (some sink)

/-- What the resolution of a stream keeps and adds. -/
structure Resolved (before : Files κ) (sinks : List (RotationSink κ))
    (stream : Option IoStream) (handle : Option (RotationSink κ))
    (sinks' : List (RotationSink κ)) (after : Files κ) : Prop where
  extends_ : Extends before after
  tracked : Tracked after sinks'
  kept : sinks ⊆ sinks'
  handles : Handles after sinks' stream handle

theorem Tracked.extends_ (h : Tracked before sinks) (hextends : Extends before after) :
    Tracked after sinks :=
  ⟨h.distinct, h.arcs, fun sink hsink => hextends.denotes _ _ (h.denoted sink hsink)⟩

theorem Handles.mono {handle : Option (RotationSink κ)} {stream : Option IoStream}
    (h : Handles before sinks stream handle) (hextends : Extends before after)
    (hkept : sinks ⊆ sinks') : Handles after sinks' stream handle := by
  cases h with
  | none => exact .none
  | some stream sink hmem hdenotes hoptions =>
      exact .some stream sink (hkept hmem) (hextends.denotes _ _ hdenotes) hoptions

/-- A sink that was opened joins the others, when none of them is on a file that its path
denoted before. -/
theorem Tracked.concat (h : Tracked files sinks) (harc : sink.arc = sinks.length)
    (hopened : Opened files sink.options.path sink.identity after)
    (hnew : ∀ identity, files.denotes sink.options.path = some identity →
      ∀ other ∈ sinks, other.identity ≠ identity) : Tracked after (sinks ++ [sink]) := by
  refine ⟨?_, ?_, ?_⟩
  · rw [List.map_append, List.nodup_append]
    refine ⟨h.distinct, List.nodup_singleton _, ?_⟩
    intro identity hidentity other hother
    obtain ⟨existing, hexisting, rfl⟩ := List.mem_map.mp hidentity
    rw [List.map_singleton, List.mem_singleton] at hother
    rw [hother]
    intro hsame
    cases hbefore : files.denotes sink.options.path with
    | none =>
        apply hopened.fresh hbefore existing.options.path
        rw [h.denoted existing hexisting, hsame]
    | some known =>
        apply hnew known hbefore existing hexisting
        rw [hsame]
        exact hopened.kept known hbefore
  · rw [List.map_append, h.arcs, List.length_append, List.length_singleton, List.range_succ,
      List.map_singleton, harc]
  · intro other hother
    rcases List.mem_append.mp hother with hother | hother
    · exact hopened.extends_.denotes _ _ (h.denoted other hother)
    · rw [List.mem_singleton] at hother
      rw [hother]
      exact hopened.denoted

theorem find_eq_none {key : ℕ} (h : sinks.find? (·.identity == key) = none) :
    ∀ other ∈ sinks, other.identity ≠ key := by
  intro other hother
  have hfind := List.find?_eq_none.mp h other hother
  simpa using hfind

/-! ## The sinks of both streams -/

/-- The two handles and the sinks: one sink for each file. -/
structure Deduplicated (files : Files κ) (stdout stderr : Option IoStream)
    (out err : Option (RotationSink κ)) (unique : List (RotationSink κ)) : Prop where
  distinct : unique.Pairwise (·.identity ≠ ·.identity)
  outHandle : Handles files unique stdout out
  errHandle : Handles files unique stderr err
  shared : ∀ outStream ∈ stdout, ∀ errStream ∈ stderr, ∀ outSink ∈ out, ∀ errSink ∈ err,
    (outSink.arc = errSink.arc ↔
        files.denotes outStream.path = files.denotes errStream.path) ∧
      (outSink.arc = errSink.arc →
        outSink = errSink ∧ effectiveOptions outStream = effectiveOptions errStream)

/-- Two handles on one list of sinks are the same exactly when their streams denote one
file. -/
theorem Tracked.deduplicated {stdout stderr : Option IoStream}
    {out err : Option (RotationSink κ)} (h : Tracked files sinks)
    (hout : Handles files sinks stdout out) (herr : Handles files sinks stderr err) :
    Deduplicated files stdout stderr out err sinks := by
  refine ⟨List.pairwise_map.mp h.distinct, hout, herr, ?_⟩
  intro outStream houtStream errStream herrStream outSink houtSink errSink herrSink
  cases hout with
  | none => cases houtStream
  | some _ _ houtMem houtDenotes houtOptions =>
      cases herr with
      | none => cases herrStream
      | some _ _ herrMem herrDenotes herrOptions =>
          cases houtStream
          cases herrStream
          cases houtSink
          cases herrSink
          have harcs : (sinks.map (·.arc)).Nodup := by
            rw [h.arcs]
            exact List.nodup_range
          have harc : outSink.arc = errSink.arc → outSink = errSink := fun heq =>
            List.inj_on_of_nodup_map harcs houtMem herrMem heq
          have hidentity : outSink.identity = errSink.identity → outSink = errSink := fun heq =>
            List.inj_on_of_nodup_map h.distinct houtMem herrMem heq
          rw [houtDenotes, herrDenotes, Option.some.injEq]
          refine ⟨⟨fun heq => ?_, fun heq => ?_⟩, fun heq => ⟨harc heq, ?_⟩⟩
          · rw [harc heq]
          · rw [hidentity heq]
          · rw [← houtOptions, ← herrOptions, harc heq]

/-! ## What the sinks are built from -/

variable [DecidableEq κ]

theorem wp_share {links : ℕ} (hdisk : disk.files = files) :
    Prog.wp (share faults sink stream links)
      (fun shared disk' => shared = sink ∧ effectiveOptions sink.options = effectiveOptions stream ∧
        disk'.files = files)
      (fun _ _ => True) disk := by
  refine (reads_liftExcept _).wp_bind hdisk fun _ _ hdisk hrefuse => ?_
  rw [Launch.refuse_eq_ok, Bool.not_eq_false', sameOptions_iff] at hrefuse
  refine reads_canonicalize.wp_bind hdisk fun _ _ hdisk _ => ?_
  refine (reads_liftExcept _).wp_bind hdisk fun _ _ hdisk _ => ?_
  exact ⟨rfl, hrefuse, hdisk⟩

/-- A sink that no stream so far has is opened. -/
theorem wp_openNew (htracked : Tracked files sinks)
    (hnew : ∀ identity, files.denotes stream.path = some identity →
      ∀ other ∈ sinks, other.identity ≠ identity) (hdisk : disk.files = files) :
    Prog.wp (do
        let sink ← openWithIo faults sinks.length stream config
        pure (some sink, sinks ++ [sink]))
      (fun result disk' => Resolved files sinks (some stream) result.1 result.2 disk'.files)
      (fun _ _ => True) disk := by
  rw [Prog.wp_bind]
  refine Prog.wp_mono _ ?_ (fun _ _ _ => trivial) (wp_openWithIo hdisk)
  rintro sink next ⟨harc, hoptions, hopened⟩
  rw [← hoptions] at hopened hnew
  refine ⟨hopened.extends_, htracked.concat harc hopened hnew, List.subset_append_left .., ?_⟩
  rw [← hoptions]
  exact .some _ sink (by simp) hopened.denoted rfl

/-- The resolution of a stream shares the sink that is on its file, and opens a sink where
there is none. -/
theorem wp_resolve {stream : Option IoStream} (htracked : Tracked files sinks)
    (hdisk : disk.files = files) :
    Prog.wp (resolve faults config sinks stream)
      (fun result disk' => Resolved files sinks stream result.1 result.2 disk'.files)
      (fun _ _ => True) disk := by
  cases stream with
  | none =>
      rw [resolve, Prog.wp_pure, hdisk]
      exact ⟨.refl files, htracked, fun _ h => h, .none⟩
  | some stream =>
      refine (reads_liftExcept _).wp_bind hdisk fun _ _ hdisk _ => ?_
      refine reads_existingIdentity.wp_bind hdisk fun known next hdisk hknown => ?_
      cases hdenotes : files.denotes stream.path with
      | none =>
          rw [hdenotes, Option.map_none] at hknown
          cases hknown
          refine wp_openNew htracked (fun identity hidentity => ?_) hdisk
          rw [hdenotes] at hidentity
          cases hidentity
      | some identity =>
          rw [hdenotes, Option.map_some] at hknown
          cases hknown
          rw [Option.bind_some]
          cases hfind : sinks.find? (·.identity == identity) with
          | none =>
              refine wp_openNew htracked (fun known hknown => ?_) hdisk
              rw [hdenotes] at hknown
              cases hknown
              exact find_eq_none hfind
          | some existing =>
              have hidentity : existing.identity = identity := by
                simpa using List.find?_some hfind
              have hmem := List.mem_of_find?_eq_some hfind
              rw [Option.map_some, Prog.wp_bind]
              refine Prog.wp_mono _ ?_ (fun _ _ _ => trivial) (wp_share hdisk)
              rintro shared last ⟨hshared, hoptions, hlast⟩
              rw [Prog.wp_pure, hshared, hlast]
              refine ⟨.refl files, htracked, fun _ h => h, .some stream existing hmem ?_ hoptions⟩
              rw [hdenotes, hidentity]

theorem wp_dedupSinks {stdout stderr : Option IoStream} :
    Prog.wp (dedupSinks faults config stdout stderr)
      (fun result disk' =>
        Deduplicated disk'.files stdout stderr result.1 result.2.1 result.2.2)
      (fun _ _ => True) disk := by
  refine reads_preflight.wp_bind rfl fun _ _ hdisk _ => ?_
  rw [Prog.wp_bind]
  refine Prog.wp_mono _ ?_ (fun _ _ _ => trivial)
    (wp_resolve ⟨List.nodup_nil, rfl, by simp⟩ hdisk)
  rintro ⟨out, unique⟩ middle hout
  rw [Prog.wp_bind]
  refine Prog.wp_mono _ ?_ (fun _ _ _ => trivial) (wp_resolve hout.tracked rfl)
  rintro ⟨err, unique'⟩ last herr
  exact herr.tracked.deduplicated (hout.handles.mono herr.extends_ herr.kept) herr.handles

/-- When the sinks of the streams are built, there is one for each file, and the handles are
the same exactly when the paths denote one file.  Streams that are invalid or disagree about
an existing file are refused before a file is created or truncated. -/
theorem dedupSinks_spec (faults : Faults) (config : LogRotationConfig)
    (stdout stderr : Option IoStream) (disk : Disk κ) :
    (∀ out err unique disk',
      (dedupSinks faults config stdout stderr).exec disk = (.ok (out, err, unique), disk') →
        Deduplicated disk'.files stdout stderr out err unique) ∧
      (¬ Agree config disk.files stdout stderr →
        ∃ error disk', (dedupSinks faults config stdout stderr).exec disk = (.error error, disk') ∧
          disk'.files = disk.files) := by
  constructor
  · intro out err unique disk' hrun
    exact Prog.wp_ok _ wp_dedupSinks hrun
  · intro hdisagree
    have hreads : Reads (preflight faults config stdout stderr : DiskM κ Unit) _ :=
      reads_preflight
    have hcheck := hreads disk
    unfold Prog.wp at hcheck
    unfold dedupSinks
    rw [Prog.exec_bind]
    rcases hrun : (preflight faults config stdout stderr).exec disk with ⟨outcome, disk'⟩
    rw [hrun] at hcheck
    cases outcome with
    | ok _ => exact absurd hcheck.2 hdisagree
    | error error => exact ⟨error, disk', rfl, hcheck⟩

end

end

end Ngsm.Supervisor.Sinks
