/-
# Byte streams

A stream of bytes is read in pieces that its other end and the system decide: a read gives the
bytes of a piece, as many as there is room for, or it fails, and behind the last piece it gives
none.  A write takes as many bytes as the system likes.  The standard loops repeat the calls
until a buffer is full or written.

What the loops do depends only on the bytes that come before the first failure and on how the
stream ends, not on how it is cut into pieces.
-/

import Mathlib.Data.List.Basic

namespace Ngsm.Lib

inductive IoErrorKind where
  | unexpectedEof
  | brokenPipe
  | interrupted
  | invalidData
  | writeZero
  | other
  deriving DecidableEq, Repr

structure IoError where
  kind : IoErrorKind
  message : String
  deriving DecidableEq, Repr

/-- A call that was interrupted is repeated. -/
def IoError.isInterrupted (error : IoError) : Bool :=
  error.kind == .interrupted

namespace ByteStream

/-! ## Reading -/

/-- What the system has for a reader: a piece, which is not empty, or a failure. -/
inductive ReadEvent where
  | bytes (first : UInt8) (rest : List UInt8)
  | failed (error : IoError)
  deriving DecidableEq, Repr

/-- What was not read of a piece stays in front. -/
def putBack (bytes : List UInt8) (events : List ReadEvent) : List ReadEvent :=
  match bytes with
  | [] => events
  | first :: rest => .bytes first rest :: events

def eof : IoError where
  kind := .unexpectedEof
  message := "failed to fill whole buffer"

/-- `read_exact`: read until a buffer of `n` bytes is full. -/
def readExact (n : Nat) : List ReadEvent → Except IoError (List UInt8) × List ReadEvent
  | [] => (if n = 0 then .ok [] else .error eof, [])
  | .failed error :: events =>
      if n = 0 then
        (.ok [], .failed error :: events)
      else if error.isInterrupted then
        readExact n events
      else
        (.error error, events)
  | .bytes first rest :: events =>
      let piece := first :: rest
      if n ≤ piece.length then
        (.ok (piece.take n), putBack (piece.drop n) events)
      else
        let read := readExact (n - piece.length) events
        (read.1.map (piece ++ ·), read.2)

/-- The bytes before the first failure. -/
def content : List ReadEvent → List UInt8
  | [] => []
  | .failed error :: events => if error.isInterrupted then content events else []
  | .bytes first rest :: events => first :: rest ++ content events

/-- How a reader learns that there is no more. -/
def ending : List ReadEvent → IoError
  | [] => eof
  | .failed error :: events => if error.isInterrupted then ending events else error
  | .bytes _ _ :: events => ending events

section

variable {n : Nat} {events : List ReadEvent}

theorem content_putBack (bytes : List UInt8) (events : List ReadEvent) :
    content (putBack bytes events) = bytes ++ content events := by
  cases bytes <;> rfl

theorem ending_putBack (bytes : List UInt8) (events : List ReadEvent) :
    ending (putBack bytes events) = ending events := by
  cases bytes <;> rfl

/-- A buffer is filled where the stream has the bytes. -/
theorem readExact_of_le (hn : n ≤ (content events).length) :
    ∃ later, readExact n events = (.ok ((content events).take n), later) ∧
      content later = (content events).drop n ∧ ending later = ending events := by
  induction events generalizing n with
  | nil =>
      have hzero : n = 0 := by simpa [content] using hn
      exact ⟨[], by simp [readExact, hzero, content], by simp [content], rfl⟩
  | cons event events ih =>
      cases event with
      | failed error =>
          rw [readExact]
          by_cases hzero : n = 0
          · subst hzero
            exact ⟨_, by rw [if_pos rfl, List.take_zero], by rw [List.drop_zero], rfl⟩
          · rw [if_neg hzero]
            by_cases hagain : error.isInterrupted = true
            · simp only [content, hagain, if_true] at hn
              simp only [content, ending, hagain, if_true]
              exact ih hn
            · simp only [content, hagain, Bool.false_eq_true, if_false, List.length_nil,
                Nat.le_zero] at hn
              exact absurd hn hzero
      | bytes first rest =>
          rw [readExact]
          dsimp only
          by_cases hpiece : n ≤ (first :: rest).length
          · rw [if_pos hpiece]
            refine ⟨putBack ((first :: rest).drop n) events, ?_, ?_, ?_⟩
            · rw [content, List.take_append_of_le_length hpiece]
            · rw [content_putBack, content, List.drop_append_of_le_length hpiece]
            · rw [ending_putBack, ending]
          · rw [if_neg hpiece]
            rw [content, List.length_append] at hn
            obtain ⟨later, hread, hcontent, hending⟩ := @ih (n - (first :: rest).length) (by omega)
            have hall : (first :: rest).take n = first :: rest :=
              List.take_of_length_le (by omega)
            have hnone : (first :: rest).drop n = [] := List.drop_eq_nil_of_le (by omega)
            refine ⟨later, ?_, ?_, hending⟩
            · rw [hread, content, List.take_append, hall]
              rfl
            · rw [hcontent, content, List.drop_append, hnone, List.nil_append]

/-- A buffer is not filled where the stream ends before. -/
theorem readExact_of_lt (hn : (content events).length < n) :
    ∃ later, readExact n events = (.error (ending events), later) := by
  induction events generalizing n with
  | nil =>
      rw [content, List.length_nil] at hn
      exact ⟨[], by rw [readExact, if_neg (by omega), ending]⟩
  | cons event events ih =>
      cases event with
      | failed error =>
          rw [readExact, if_neg (by omega)]
          by_cases hagain : error.isInterrupted = true
          · simp only [content, hagain, if_true] at hn
            simp only [ending, hagain, if_true]
            exact ih hn
          · exact ⟨events, by simp only [ending, hagain, Bool.false_eq_true, if_false]⟩
      | bytes first rest =>
          rw [content, List.length_append] at hn
          obtain ⟨later, hread⟩ := @ih (n - (first :: rest).length) (by omega)
          refine ⟨later, ?_⟩
          rw [readExact]
          dsimp only
          rw [if_neg (by omega), hread]
          rfl

end

/-- `take(n)` and `read_to_end`: read to the end of the stream, and no more than `n` bytes. -/
def readUpTo (n : Nat) : List ReadEvent → Except IoError (List UInt8) × List ReadEvent
  | [] => (.ok [], [])
  | .failed error :: events =>
      if n = 0 then
        (.ok [], .failed error :: events)
      else if error.isInterrupted then
        readUpTo n events
      else
        (.error error, events)
  | .bytes first rest :: events =>
      let piece := first :: rest
      if n ≤ piece.length then
        (.ok (piece.take n), putBack (piece.drop n) events)
      else
        let read := readUpTo (n - piece.length) events
        (read.1.map (piece ++ ·), read.2)

/-- All bytes of a stream, also those behind a failure. -/
def allBytes : List ReadEvent → List UInt8
  | [] => []
  | .failed _ :: events => allBytes events
  | .bytes first rest :: events => first :: rest ++ allBytes events

/-- A stream gives some bytes, or the first of them before it fails. -/
def Serves (events : List ReadEvent) (bytes : List UInt8) : Prop :=
  content events <+: bytes ∧
    ((∀ error, .failed error ∈ events → error.isInterrupted = true) → content events = bytes)

section

variable {n : Nat} {events later : List ReadEvent} {bytes : List UInt8}

theorem allBytes_putBack (bytes : List UInt8) (events : List ReadEvent) :
    allBytes (putBack bytes events) = bytes ++ allBytes events := by
  cases bytes <;> rfl

/-- The reader takes no more bytes than it may, whether it succeeds or not. -/
theorem readUpTo_takes (n : Nat) (events : List ReadEvent) :
    ∃ taken, taken.length ≤ n ∧ allBytes events = taken ++ allBytes (readUpTo n events).2 := by
  induction events generalizing n with
  | nil => exact ⟨[], by simp, rfl⟩
  | cons event events ih =>
      cases event with
      | failed error =>
          rw [readUpTo]
          by_cases hzero : n = 0
          · rw [if_pos hzero]
            exact ⟨[], by simp, rfl⟩
          · rw [if_neg hzero]
            by_cases hagain : error.isInterrupted = true
            · rw [if_pos hagain]
              exact ih n
            · rw [if_neg hagain]
              exact ⟨[], by simp, rfl⟩
      | bytes first rest =>
          rw [readUpTo]
          dsimp only
          by_cases hpiece : n ≤ (first :: rest).length
          · rw [if_pos hpiece]
            refine ⟨(first :: rest).take n, List.length_take_le _ _, ?_⟩
            rw [allBytes_putBack, ← List.append_assoc, List.take_append_drop]
            rfl
          · rw [if_neg hpiece]
            obtain ⟨taken, hle, htaken⟩ := ih (n - (first :: rest).length)
            refine ⟨first :: rest ++ taken, ?_, ?_⟩
            · rw [List.length_append]
              omega
            · rw [allBytes, htaken, List.append_assoc]

/-- What is read without an error is the beginning of what the stream has. -/
theorem readUpTo_ok (hserves : Serves events bytes) {read : List UInt8}
    (hread : (readUpTo n events).1 = .ok read) : read = bytes.take n := by
  obtain ⟨⟨rest, rfl⟩, hclean⟩ := hserves
  have hok : read = (content events).take n ∧ ((content events).length < n →
      ∀ error, .failed error ∈ events → error.isInterrupted = true) := by
    clear hclean
    induction events generalizing n read with
    | nil =>
        cases hread
        exact ⟨by rw [content, List.take_nil], by simp⟩
    | cons event events ih =>
        cases event with
        | failed error =>
            rw [readUpTo] at hread
            by_cases hzero : n = 0
            · rw [if_pos hzero] at hread
              cases hread
              subst hzero
              exact ⟨rfl, by simp⟩
            · rw [if_neg hzero] at hread
              by_cases hagain : error.isInterrupted = true
              · rw [if_pos hagain] at hread
                obtain ⟨hbytes, hrest⟩ := ih hread
                simp only [content, hagain, if_true]
                refine ⟨hbytes, fun hshort other hother => ?_⟩
                rcases List.mem_cons.mp hother with heq | hother
                · rwa [ReadEvent.failed.inj heq]
                · exact hrest hshort other hother
              · rw [if_neg hagain] at hread
                cases hread
        | bytes first rest =>
            rw [readUpTo] at hread
            dsimp only at hread
            by_cases hpiece : n ≤ (first :: rest).length
            · rw [if_pos hpiece] at hread
              cases hread
              rw [content, List.take_append_of_le_length hpiece]
              refine ⟨rfl, fun hshort => ?_⟩
              rw [List.length_append] at hshort
              omega
            · rw [if_neg hpiece] at hread
              rcases hlater : (readUpTo (n - (first :: rest).length) events).1 with e | more
              · rw [hlater] at hread
                cases hread
              · rw [hlater] at hread
                cases hread
                obtain ⟨rfl, hrest⟩ := ih hlater
                have hall : (first :: rest).take n = first :: rest :=
                  List.take_of_length_le (by omega)
                rw [content, List.take_append, hall]
                refine ⟨rfl, fun hshort other hother => ?_⟩
                rw [List.length_append] at hshort
                rcases List.mem_cons.mp hother with heq | hother
                · cases heq
                · exact hrest (by omega) other hother
  rcases Nat.lt_or_ge (content events).length n with hshort | hlong
  · have hnone := hclean (hok.2 hshort)
    rw [← hnone]
    exact hok.1
  · rw [hok.1, List.take_append_of_le_length hlong]

end

/-! ## Writing -/

/-- What the system does with a write: it takes at most so many bytes, or it fails. -/
inductive WriteEvent where
  | accepts (count : Nat)
  | failed (error : IoError)
  deriving DecidableEq, Repr

/-- The writing end of a stream: what the system will do, and what was written.  Behind the last
event every write is taken whole. -/
structure Sink where
  events : List WriteEvent
  written : List UInt8
  deriving DecidableEq, Repr

def writeZero : IoError where
  kind := .writeZero
  message := "failed to write whole buffer"

/-- `write_all`: write until nothing of the buffer is left. -/
def writeAllTo (written : List UInt8) (buf : List UInt8) :
    List WriteEvent → Except IoError Unit × Sink
  | [] => (.ok (), { events := [], written := written ++ buf })
  | event :: events =>
      if buf = [] then
        (.ok (), { events := event :: events, written })
      else
        match event with
        | .failed error =>
            if error.isInterrupted then
              writeAllTo written buf events
            else
              (.error error, { events, written })
        | .accepts count =>
            if count = 0 then
              (.error writeZero, { events, written })
            else
              writeAllTo (written ++ buf.take count) (buf.drop count) events

def writeAll (buf : List UInt8) (sink : Sink) : Except IoError Unit × Sink :=
  writeAllTo sink.written buf sink.events

/-- A buffer is written whole, or the write fails behind a part of it. -/
theorem writeAll_written (buf : List UInt8) (sink : Sink) :
    ∃ part, part <+: buf ∧ (writeAll buf sink).2.written = sink.written ++ part ∧
      ((writeAll buf sink).1 = .ok () → part = buf) := by
  obtain ⟨events, written⟩ := sink
  change ∃ part, part <+: buf ∧ (writeAllTo written buf events).2.written = written ++ part ∧
    ((writeAllTo written buf events).1 = .ok () → part = buf)
  induction events generalizing written buf with
  | nil => exact ⟨buf, List.prefix_refl buf, rfl, fun _ => rfl⟩
  | cons event events ih =>
      rw [writeAllTo.eq_def]
      dsimp only
      by_cases hempty : buf = []
      · rw [if_pos hempty]
        exact ⟨[], by simp, by simp, fun _ => hempty.symm⟩
      · rw [if_neg hempty]
        cases event with
        | failed error =>
            by_cases hagain : error.isInterrupted = true
            · simp only [hagain, if_true]
              exact ih buf written
            · simp only [hagain, Bool.false_eq_true, if_false]
              exact ⟨[], by simp, by simp, by simp⟩
        | accepts count =>
            by_cases hzero : count = 0
            · simp only [hzero, if_true]
              exact ⟨[], by simp, by simp, by simp⟩
            · simp only [hzero, if_false]
              obtain ⟨part, ⟨rest, hpart⟩, hwritten, hall⟩ :=
                ih (buf.drop count) (written ++ buf.take count)
              refine ⟨buf.take count ++ part, ⟨rest, ?_⟩, ?_, fun hok => ?_⟩
              · rw [List.append_assoc, hpart, List.take_append_drop]
              · rw [hwritten, List.append_assoc]
              · rw [hall hok, List.take_append_drop]

/-- A system that takes some bytes, or interrupts the call. -/
def WriteEvent.Willing : WriteEvent → Prop
  | .accepts count => 0 < count
  | .failed error => error.isInterrupted = true

/-- A willing system gets the whole buffer, in whatever parts. -/
theorem writeAll_of_willing (buf : List UInt8) {sink : Sink}
    (hwilling : ∀ event ∈ sink.events, event.Willing) :
    (writeAll buf sink).1 = .ok () ∧
      ∀ event ∈ (writeAll buf sink).2.events, event.Willing := by
  obtain ⟨events, written⟩ := sink
  change (writeAllTo written buf events).1 = .ok () ∧
    ∀ event ∈ (writeAllTo written buf events).2.events, event.Willing
  induction events generalizing written buf with
  | nil => exact ⟨rfl, hwilling⟩
  | cons event events ih =>
      have hlater := (List.forall_mem_cons.mp hwilling).2
      rw [writeAllTo.eq_def]
      dsimp only
      by_cases hempty : buf = []
      · rw [if_pos hempty]
        exact ⟨rfl, hwilling⟩
      · rw [if_neg hempty]
        cases event with
        | failed error =>
            have hagain : error.isInterrupted = true := (List.forall_mem_cons.mp hwilling).1
            simp only [hagain, if_true]
            exact ih buf written hlater
        | accepts count =>
            have hsome : 0 < count := (List.forall_mem_cons.mp hwilling).1
            simp only [Nat.ne_of_gt hsome, if_false]
            exact ih _ _ hlater

end ByteStream

end Ngsm.Lib
