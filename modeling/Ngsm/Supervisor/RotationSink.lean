/-
# The sink of a log

A sink owns the file of a log.  Writes go through it, and a rotation puts the file aside under
a name of its own: it renames the file, or it copies it and cuts it short.  Every call of the
file system may fail, and the caller may cancel at every check.  A rotation that stops half-way
leaves the sink without a handle, and the next write opens the file again.

The volume keeps a record of what the claims about it need: which archives there are, which of
them are complete, and which bytes the sink has acknowledged.  The sink keeps the past of the
volume, so that something can be said about every moment of a rotation.
-/

import Mathlib.Algebra.Group.Nat.Defs
import Mathlib.Logic.Function.Basic
import Ngsm.Lib.Program
import Ngsm.Lib.Timeline

namespace Ngsm.Supervisor.RotationSink

open Ngsm.Lib

abbrev Bytes : Type :=
  List UInt8

inductive IoError where
  | interrupted
  | notFound
  | alreadyExists
  | other (message : String)
  deriving DecidableEq, Repr

/-! ## The volume -/

/-- The files in the directory of the log.  A name denotes a file, and a file keeps its
contents under any name.  Files from `next` on do not exist yet. -/
structure Volume where
  entries : String → Option ℕ
  content : ℕ → Bytes
  next : ℕ
  /-- The archives of the sink, in the order in which they were created. -/
  archives : List String
  /-- Those that a rename or a whole copy has completed. -/
  completed : List String
  /-- The bytes of the writes that returned. -/
  acknowledged : Bytes

namespace Volume

/-- What is stored under a name; nothing where there is no file. -/
def stored (v : Volume) (name : String) : Bytes :=
  match v.entries name with
  | some file => v.content file
  | none => []

/-- A new file without contents. -/
def create (v : Volume) (name : String) : Volume :=
  { v with
    entries := Function.update v.entries name (some v.next)
    content := Function.update v.content v.next []
    next := v.next + 1 }

def createArchive (v : Volume) (archive : String) : Volume :=
  { v.create archive with archives := v.archives ++ [archive] }

def append (v : Volume) (file : ℕ) (bytes : Bytes) : Volume :=
  { v with content := Function.update v.content file (v.content file ++ bytes) }

def truncate (v : Volume) (file : ℕ) : Volume :=
  { v with content := Function.update v.content file [] }

/-- A write of the sink that returns. -/
def acknowledge (v : Volume) (file : ℕ) (bytes : Bytes) : Volume :=
  { v.append file bytes with acknowledged := v.acknowledged ++ bytes }

/-- The file becomes an archive. -/
def rename (v : Volume) (path archive : String) (file : ℕ) : Volume :=
  { v with
    entries := Function.update (Function.update v.entries path none) archive (some file)
    archives := v.archives ++ [archive]
    completed := v.completed ++ [archive] }

def complete (v : Volume) (archive : String) : Volume :=
  { v with completed := v.completed ++ [archive] }

def remove (v : Volume) (archive : String) : Volume :=
  { v with
    entries := Function.update v.entries archive none
    archives := v.archives.erase archive }

end Volume

/-! ## The sink -/

/-- What the outside world has for one call. -/
structure Answer where
  cancelled : Bool
  fault : Option String
  /-- How much a read or a write moves. -/
  count : ℕ
  /-- The time of day as text. -/
  stamp : Option String

/-- The state behind the lock of a sink, with what the volume and the outside world are to it. -/
structure Sink where
  path : String
  copyAndTruncate : Option Bool
  file : Option ℕ
  bytesInCurrent : ℕ
  rotationQueued : Bool
  volume : Timeline Volume
  ahead : ℕ → Answer

abbrev SinkM (α : Type) : Type :=
  Prog Sink IoError α

/-- The next answer of the outside world. -/
def ask : SinkM Answer :=
  Prog.step fun s => (.ok (s.ahead 0), { s with ahead := fun n => s.ahead (n + 1) })

def currentSink : SinkM Sink :=
  Prog.step fun s => (.ok s, s)

def currentVolume : SinkM Volume :=
  Prog.step fun s => (.ok s.volume.now, s)

def change (f : Volume → Volume) : SinkM Unit :=
  modify fun s => { s with volume := s.volume.push (f s.volume.now) }

def checkCancelled : SinkM Unit := do
  let answer ← ask
  if answer.cancelled then throw .interrupted else pure ()

/-- A call that may fail before it does anything. -/
def tryCall : SinkM Unit := do
  let answer ← ask
  match answer.fault with
  | some message => throw (.other message)
  | none => pure ()

/-! ## The file system -/

/-- Open the log for appending, and create it where it does not exist. -/
def reopen (path : String) : SinkM ℕ := do
  tryCall
  let volume ← currentVolume
  match volume.entries path with
  | some file => pure file
  | none => do
      change fun v => v.create path
      pure volume.next

def metadataLength (file : ℕ) : SinkM ℕ := do
  tryCall
  let volume ← currentVolume
  pure (volume.content file).length

/-- Some of the bytes are appended, as many as the file has room for at most. -/
def write (file : ℕ) (bytes : Bytes) : SinkM ℕ := do
  let answer ← ask
  match answer.fault with
  | some message => throw (.other message)
  | none => do
      let volume ← currentVolume
      let room := 2 ^ 64 - 1 - (volume.content file).length
      let taken := bytes.take (min answer.count room)
      change fun v => v.acknowledge file taken
      pure taken.length

/-- `MoveFileExW` without a flag to replace. -/
def rename (path archive : String) : SinkM Unit := do
  tryCall
  let volume ← currentVolume
  match volume.entries path with
  | none => throw .notFound
  | some file =>
      match volume.entries archive with
      | some _ => throw .alreadyExists
      | none => change fun v => v.rename path archive file

def openExisting (path : String) : SinkM ℕ := do
  tryCall
  let volume ← currentVolume
  match volume.entries path with
  | some file => pure file
  | none => throw .notFound

def createNew (archive : String) : SinkM ℕ := do
  tryCall
  let volume ← currentVolume
  match volume.entries archive with
  | some _ => throw .alreadyExists
  | none => do
      change fun v => v.createArchive archive
      pure volume.next

/-- The size of the buffer of a copy. -/
def copyChunk : ℕ :=
  64 * 1024

/-- A read from an offset on; it returns nothing at the end of the file only. -/
def readChunk (file offset : ℕ) : SinkM Bytes := do
  let answer ← ask
  match answer.fault with
  | some message => throw (.other message)
  | none => do
      let volume ← currentVolume
      let rest := (volume.content file).drop offset
      pure (rest.take (max 1 (min answer.count copyChunk)))

/-- All bytes are appended, or some of them when the call fails. -/
def writeAll (file : ℕ) (bytes : Bytes) : SinkM Unit := do
  let answer ← ask
  match answer.fault with
  | some message => do
      change fun v => v.append file (bytes.take answer.count)
      throw (.other message)
  | none => change fun v => v.append file bytes

def syncAll : SinkM Unit :=
  tryCall

def removeFile (archive : String) : SinkM Unit := do
  tryCall
  change fun v => v.remove archive

def setLengthZero (file : ℕ) : SinkM Unit := do
  tryCall
  change fun v => v.truncate file

/-! ## Names -/

/-- `Path::exists`: a call that fails counts as absence. -/
def pathExists (name : String) : SinkM Bool := do
  let answer ← ask
  let volume ← currentVolume
  pure (answer.fault.isNone && (volume.entries name).isSome)

/-- The stem and the extension of a file name. -/
def splitExtension (name : String) : String × String :=
  match name.toList.reverse.span (· ≠ '.') with
  | (extension, _ :: stem) =>
      if stem.isEmpty then
        (name, "")
      else
        (String.ofList stem.reverse, String.ofList extension.reverse)
  | (_, []) => (name, "")

def rotatedName (stamp stem extension suffix : String) : String :=
  if extension.isEmpty then
    stem ++ "." ++ stamp ++ suffix
  else
    stem ++ "." ++ stamp ++ suffix ++ "." ++ extension

/-- The first name that is free, or else the given one. -/
def firstFree (otherwise : String) : List String → SinkM String
  | [] => pure otherwise
  | candidate :: candidates => do
      if ← pathExists candidate then firstFree otherwise candidates else pure candidate

def buildRotatedName (path : String) : SinkM String := do
  let answer ← ask
  let stamp := answer.stamp.getD "19700101-000000"
  let (stem, extension) := splitExtension path
  let make := rotatedName stamp stem extension
  firstFree (make "") (make "" :: (List.range' 1 9999).map fun n => make ("-" ++ toString n))

/-! ## Rotation -/

/-- Copy the source from an offset on.  Every round copies something, so `fuel` rounds are
enough for a source that has fewer bytes left. -/
def copyFrom (source destination : ℕ) : ℕ → ℕ → SinkM Unit
  | 0, _ => pure ()
  | fuel + 1, offset => do
      checkCancelled
      let chunk ← readChunk source offset
      if chunk.isEmpty then
        pure ()
      else do
        writeAll destination chunk
        copyFrom source destination fuel (offset + chunk.length)

/-- Copy the log to a new archive.  A copy that fails is removed, if that can be done. -/
def copyArchive (path archive : String) : SinkM Unit := do
  let source ← openExisting path
  let destination ← createNew archive
  let volume ← currentVolume
  let copied ← (do
    copyFrom source destination ((volume.content source).length + 1) 0
    syncAll : SinkM Unit).attempt
  match copied with
  | .error error => do
      let _ ← (removeFile archive).attempt
      throw error
  | .ok () => change fun v => v.complete archive

def copyAndTruncate (path archive : String) : SinkM Unit := do
  copyArchive path archive
  checkCancelled
  let file ← openExisting path
  setLengthZero file

/-- Put the log aside, by the mode of the stream. -/
def moveAside (rotated : String) : SinkM Unit := do
  let sink ← currentSink
  if sink.copyAndTruncate = some true then
    copyAndTruncate sink.path rotated
  else do
    checkCancelled
    rename sink.path rotated

/-- Make what was written durable. -/
def syncFile : SinkM Unit := do
  match (← currentSink).file with
  | some _ => syncAll
  | none => pure ()

/-- Open the log again, and count what is in it. -/
def reopenFile : SinkM ℕ := do
  let file ← reopen (← currentSink).path
  let length ← metadataLength file
  modify fun s => { s with bytesInCurrent := length, file := some file }
  pure file

def rotateState : SinkM (Option String) := do
  let rotated ← buildRotatedName (← currentSink).path
  checkCancelled
  syncFile
  modify fun s => { s with file := none }
  let rotateResult ← (moveAside rotated).attempt
  checkCancelled
  let _ ← reopenFile
  match rotateResult with
  | .ok () => pure (some rotated)
  | .error error => throw error

/-! ## The operations -/

/-- The lock is had at once, unless the caller cancels or the lock is poisoned. -/
def lock : SinkM Unit := do
  checkCancelled
  tryCall

/-- The handle of the log. -/
def openFile : SinkM ℕ := do
  match (← currentSink).file with
  | some file => pure file
  | none => reopenFile

def saturatingAdd (a b : ℕ) : ℕ :=
  min (a + b) (2 ^ 64 - 1)

def writeSome (bytes : Bytes) : SinkM ℕ := do
  lock
  let file ← openFile
  let n ← write file bytes
  modify fun s => { s with bytesInCurrent := saturatingAdd s.bytesInCurrent n }
  pure n

/-- A log without contents is not rotated. -/
def rotate : SinkM (Option String) := do
  lock
  if (← currentSink).bytesInCurrent = 0 then
    pure none
  else do
    let result ← rotateState.attempt
    modify fun s => { s with rotationQueued := false }
    liftExcept result

end Ngsm.Supervisor.RotationSink
