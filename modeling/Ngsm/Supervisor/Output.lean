/-
# Draining an output pipe

`copy_pipe` moves the output of a child from its pipe to a log sink through a
buffer with a moving offset.  A refused write keeps the bytes and is tried again
later; a full buffer stops the reading, so that the child feels the pressure.

A round of the loop is three segments, each with the answers of the outside world
it asks for: the checks at the top, one attempt to write, one attempt to read.  A
schedule is a list of such answers, so it may stop between any two segments.  Two
ghost fields say what has gone through: the bytes that reads delivered and the
bytes the sink acknowledged.
-/

import Ngsm.Lib.Program

namespace Ngsm.Supervisor

open Ngsm.Lib

def bufferLimit : Nat :=
  64 * 1024

/-- The size of the buffer of one read. -/
def readChunk : Nat :=
  8192

inductive Segment where
  | top
  | write
  | refill
deriving DecidableEq, Repr

/-- The variables of `copy_pipe`, with the flag of the sink that a rotation is
queued and the count of rotation requests that were sent. -/
structure Reader where
  segment : Segment := .top
  pending : List UInt8 := []
  offset : Nat := 0
  written : Nat := 0
  dropped : Nat := 0
  eof : Bool := false
  retryAt : Nat := 0
  lastDiagnostic : Option Nat := none
  rotationQueued : Bool := false
  autoRotates : Nat := 0
  diagnostics : List String := []
  received : List UInt8 := []
  acknowledged : List UInt8 := []

/-- How `copy_pipe` ends: with its statistics, by the deadline or a cancellation,
by a failure of the pipe, or by a subtraction below zero. -/
inductive Ending where
  | finished
  | incomplete (message : String)
  | pipeFailed (message : String)
  | underflow
deriving DecidableEq, Repr

namespace Reader

def report (message : String) : Prog Reader Ending Unit :=
  modify fun r => { r with diagnostics := r.diagnostics ++ [message] }

/-- The sink took the first bytes of what it was handed: `offset += n`, and a
buffer that is through is cleared. -/
def acknowledge (r : Reader) (taken : List UInt8) : Reader :=
  let offset := r.offset + taken.length
  { r with
    offset := if offset = r.pending.length then 0 else offset
    pending := if offset = r.pending.length then [] else r.pending
    written := r.written + taken.length
    acknowledged := r.acknowledged ++ taken }

def append (r : Reader) (bytes : List UInt8) : Reader :=
  { r with pending := r.pending ++ bytes, received := r.received ++ bytes }

end Reader

open Reader

/-- Every byte that was read is acknowledged or still in the buffer, in order. -/
structure Conserves (r : Reader) : Prop where
  offset_le : r.offset ≤ r.pending.length
  bytes : r.received = r.acknowledged ++ r.pending.drop r.offset
  written : r.written = r.acknowledged.length
  bounded : r.pending.length ≤ bufferLimit
  dropped : r.dropped = 0

/-- What an ending leaves behind. -/
def Ended : Ending → Reader → Prop
  | .finished, r => Conserves r ∧ r.eof = true ∧ r.acknowledged = r.received
  | .incomplete _, r => r.received.length = r.written + r.dropped ∧
      r.acknowledged = r.received.take r.written
  | .pipeFailed _, r => Conserves r
  | .underflow, _ => False

variable {r : Reader}

/-- The buffer behind the bytes that were taken. -/
theorem drop_taken (bytes : List UInt8) (offset count : Nat) :
    bytes.drop offset = (bytes.drop offset).take count ++
      bytes.drop (offset + ((bytes.drop offset).take count).length) := by
  have hprefix := List.prefix_iff_eq_append.mp (List.take_prefix count (bytes.drop offset))
  rw [List.drop_drop] at hprefix
  exact hprefix.symm

theorem Conserves.acknowledge (h : Conserves r) (count : Nat) :
    Conserves (r.acknowledge ((r.pending.drop r.offset).take count)) := by
  have hsplit := drop_taken r.pending r.offset count
  have hlength : ((r.pending.drop r.offset).take count).length ≤ r.pending.length - r.offset := by
    rw [List.length_take, List.length_drop]
    exact Nat.min_le_right _ _
  have hoffset := h.offset_le
  generalize (r.pending.drop r.offset).take count = taken at hsplit hlength ⊢
  have hreceived : r.received =
      (r.acknowledged ++ taken) ++ r.pending.drop (r.offset + taken.length) := by
    rw [h.bytes, hsplit, List.append_assoc]
  unfold Reader.acknowledge
  by_cases hthrough : r.offset + taken.length = r.pending.length
  · simp only [if_pos hthrough]
    refine ⟨Nat.zero_le _, ?_, ?_, Nat.zero_le _, h.dropped⟩
    · rw [hreceived, hthrough, List.drop_length, List.drop_nil]
    · rw [h.written, List.length_append]
  · simp only [if_neg hthrough]
    refine ⟨?_, hreceived, ?_, h.bounded, h.dropped⟩
    · change r.offset + taken.length ≤ r.pending.length
      omega
    · rw [h.written, List.length_append]

theorem Conserves.append (h : Conserves r) (hoffset : r.offset = 0) {bytes : List UInt8}
    (hfits : r.pending.length + bytes.length ≤ bufferLimit) : Conserves (r.append bytes) := by
  refine ⟨?_, ?_, h.written, ?_, h.dropped⟩
  · simp [Reader.append, hoffset]
  · simp [Reader.append, hoffset, h.bytes]
  · simpa [Reader.append] using hfits

theorem Conserves.segment (h : Conserves r) (segment : Segment) :
    Conserves { r with segment := segment } :=
  ⟨h.offset_le, h.bytes, h.written, h.bounded, h.dropped⟩

theorem Conserves.eof (h : Conserves r) : Conserves { r with eof := true } :=
  ⟨h.offset_le, h.bytes, h.written, h.bounded, h.dropped⟩

/-- An empty buffer at the end of the file means that everything is written. -/
theorem Conserves.finished (h : Conserves r) (hend : (r.eof && r.pending.isEmpty) = true) :
    Ended .finished r := by
  rw [Bool.and_eq_true, List.isEmpty_iff] at hend
  refine ⟨h, hend.1, ?_⟩
  rw [h.bytes, hend.2, List.drop_nil, List.append_nil]

/-- Giving up loses what is buffered, and counts it. -/
theorem Conserves.incomplete (h : Conserves r) (message : String) (diagnostics : List String) :
    Ended (.incomplete message) { r with
      dropped := r.dropped + (r.pending.length - r.offset)
      diagnostics := diagnostics } := by
  constructor
  · simp only [h.bytes, h.written, h.dropped, List.length_append, List.length_drop, Nat.zero_add]
  · simp only [h.bytes, h.written, List.take_left]

/-! ## Each segment -/

end Ngsm.Supervisor
