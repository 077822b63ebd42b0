/-
# The end of a log

The dashboard reads the end of the event log: the length of the file is asked for, and then no
more than a budget of bytes before that length is read.  Supervisors go on writing, so the file
that is read need not be the one whose length is known.  The bytes are cut into lines, the first
piece is skipped where the window starts inside the file, and what does not parse is skipped.

A record that is returned comes from a complete line, or from the beginning of a line that the
known length cuts: where that beginning is a record by itself, the reader does not see that the
line goes on.

The parser of the records and the file system are given from outside.
-/

import Ngsm.Gui.Metrics
import Ngsm.Lib.ByteStream
import Ngsm.Lib.Lines

namespace Ngsm.Gui

open Ngsm.Lib ByteStream Lines

/-- A file at the time when it is read. -/
structure LogFile where
  bytes : List UInt8
  seek : UInt64 → Except IoError (List ReadEvent)
  serves : ∀ start events, seek start = .ok events → Serves events (bytes.drop start.toNat)

structure Tail where
  bytes : List UInt8
  isPartial : Bool
  deriving DecidableEq, Repr

def saturatingSub (a b : UInt64) : UInt64 :=
  if b ≤ a then a - b else 0

/-- Where the window starts; in UTF-16 it starts at a whole unit. -/
def tailStart (snapshotLen budget : UInt64) (utf16 : Bool) : UInt64 :=
  let start := saturatingSub snapshotLen budget
  if utf16 && start % 2 != 0 then start + 1 else start

def tailCount (snapshotLen budget : UInt64) (utf16 : Bool) : UInt64 :=
  min (saturatingSub snapshotLen (tailStart snapshotLen budget utf16)) budget

def readTail (reader : LogFile) (snapshotLen budget : UInt64) (utf16 : Bool) :
    Except IoError Tail := do
  let start := tailStart snapshotLen budget utf16
  let events ← reader.seek start
  let count := tailCount snapshotLen budget utf16
  let bytes ← (readUpTo count.toNat events).1
  return { bytes, isPartial := 0 < start }

def newline : UInt8 :=
  0x0A

/-- White space of JSON. -/
def isJsonSpace (byte : UInt8) : Bool :=
  byte == 0x20 || byte == 0x09 || byte == 0x0A || byte == 0x0D

/-- A parser of records.  A record ends with its closing bracket: behind a text that is one,
white space is ignored and everything else is an error. -/
structure RecordParser where
  parse : List UInt8 → Option EventRecord
  parse_append : ∀ text rest record, parse text = some record →
    parse (text ++ rest) = if rest.all isJsonSpace then some record else none

def readRecords (parser : RecordParser) (reader : LogFile) (len budget : UInt64) :
    Except IoError (List EventRecord) := do
  let tail ← readTail reader len budget false
  return ((tail.bytes.splitOn newline).drop (if tail.isPartial then 1 else 0)).filterMap
    parser.parse

/-! ## Windows -/

section

variable (snapshotLen budget : UInt64) (utf16 : Bool)

theorem toNat_saturatingSub (a b : UInt64) : (saturatingSub a b).toNat = a.toNat - b.toNat := by
  unfold saturatingSub
  split
  · rename_i hle
    exact UInt64.toNat_sub_of_le _ _ hle
  · rename_i hlt
    rw [UInt64.le_iff_toNat_le] at hlt
    have hzero : (0 : UInt64).toNat = 0 := rfl
    omega

theorem toNat_tailStart :
    (tailStart snapshotLen budget false).toNat = snapshotLen.toNat - budget.toNat :=
  toNat_saturatingSub snapshotLen budget

theorem toNat_tailCount : (tailCount snapshotLen budget utf16).toNat =
    min (snapshotLen.toNat - (tailStart snapshotLen budget utf16).toNat) budget.toNat := by
  have hmin : ∀ a b : UInt64, (min a b).toNat = min a.toNat b.toNat := by
    intro a b
    rw [Nat.min_def, show min a b = if a ≤ b then a else b from rfl]
    simp only [UInt64.le_iff_toNat_le]
    split <;> rfl
  rw [tailCount, hmin, toNat_saturatingSub]

theorem tailCount_le : (tailCount snapshotLen budget utf16).toNat ≤
    min snapshotLen.toNat budget.toNat := by
  rw [toNat_tailCount]
  omega

end

/-! ## Lines -/

section

variable {parser : RecordParser} {file : LogFile} {len budget : UInt64}

/-- The window of the file that is read. -/
def window (file : LogFile) (len budget : UInt64) : List UInt8 :=
  (file.bytes.drop (len.toNat - budget.toNat)).take
    (len.toNat - (len.toNat - budget.toNat))

/-- The pieces of the window that are parsed, each with its place in the file. -/
def considered (file : LogFile) (len budget : UInt64) : List (ℕ × List UInt8) :=
  (placed (len.toNat - budget.toNat) ((window file len budget).splitOn newline)).drop
    (if 0 < len.toNat - budget.toNat then 1 else 0)

theorem readRecords_eq {records : List EventRecord}
    (hread : readRecords parser file len budget = .ok records) :
    records = (considered file len budget).filterMap fun line => parser.parse line.2 := by
  unfold readRecords readTail at hread
  dsimp only at hread
  rcases hseek : file.seek (tailStart len budget false) with error | events
  · simp only [bind, Except.bind, hseek] at hread
    cases hread
  · rcases hbytes : (readUpTo (tailCount len budget false).toNat events).1 with error | bytes
    · simp only [bind, Except.bind, hseek, hbytes] at hread
      cases hread
    · simp only [bind, Except.bind, hseek, hbytes] at hread
      cases hread
      have hcount : (tailCount len budget false).toNat =
          len.toNat - (len.toNat - budget.toNat) := by
        rw [toNat_tailCount, toNat_tailStart]
        omega
      have hwindow := readUpTo_ok (file.serves _ _ hseek) hbytes
      rw [toNat_tailStart, hcount] at hwindow
      have hstart : (0 < tailStart len budget false) ↔ 0 < len.toNat - budget.toNat := by
        rw [UInt64.lt_iff_toNat_lt, toNat_tailStart]
        rfl
      have hmap : (considered file len budget).filterMap (fun line => parser.parse line.2) =
          ((considered file len budget).map Prod.snd).filterMap parser.parse := by
        rw [List.filterMap_map]
        rfl
      rw [hmap, considered, List.map_drop, map_placed, window, ← hwindow]
      simp only [hstart, decide_eq_true_eq]

theorem mem_considered {i : ℕ} {piece : List UInt8} :
    (i, piece) ∈ considered file len budget ↔
      (∃ j, i = len.toNat - budget.toNat + j ∧ IsLine newline (window file len budget) j piece) ∧
        (len.toNat - budget.toNat < i ∨ len.toNat - budget.toNat = 0) := by
  unfold considered
  split
  · rename_i hstart
    rw [mem_drop_placed, mem_placed_splitOn]
    constructor
    · rintro ⟨hline, hlt⟩
      exact ⟨hline, .inl hlt⟩
    · rintro ⟨hline, hlt⟩
      exact ⟨hline, hlt.resolve_right (by omega)⟩
  · rename_i hstart
    rw [List.drop_zero, mem_placed_splitOn]
    constructor
    · intro hline
      exact ⟨hline, .inr (by omega)⟩
    · rintro ⟨hline, -⟩
      exact hline

/-- The file around the window. -/
theorem bytes_eq_window (file : LogFile) (len budget : UInt64) :
    file.bytes = file.bytes.take (len.toNat - budget.toNat) ++ window file len budget ++
      (file.bytes.drop (len.toNat - budget.toNat)).drop
        (len.toNat - (len.toNat - budget.toNat)) := by
  rw [window, List.append_assoc, List.take_append_drop, List.take_append_drop]

/-- A complete line in the window is parsed, except perhaps the first one. -/
theorem mem_considered_of_line {i : ℕ} {line : List UInt8}
    (hline : IsLine newline file.bytes i line) (hstop : i + line.length ≤ len.toNat)
    (hstart : len.toNat - budget.toNat < i ∨ len.toNat - budget.toNat = 0) :
    (i, line) ∈ considered file len budget := by
  have hend := hline.end_le
  have hbefore : (file.bytes.take (len.toNat - budget.toNat)).length =
      len.toNat - budget.toNat := by
    rw [List.length_take]
    omega
  have hwindow : (window file len budget).length =
      min (len.toNat - (len.toNat - budget.toNat))
        (file.bytes.length - (len.toNat - budget.toNat)) := by
    rw [window, List.length_take, List.length_drop]
  have hinside := isLine_window (bytes_eq_window file len budget) hline
    (by rw [hbefore]; omega) (by rw [hbefore, hwindow]; omega)
  rw [hbefore] at hinside
  exact mem_considered.mpr ⟨⟨_, by omega, hinside⟩, hstart⟩

/-- A piece that is parsed is a line, or the part of a line before the known length. -/
theorem line_of_mem_considered {i : ℕ} {piece : List UInt8}
    (hpiece : (i, piece) ∈ considered file len budget) :
    ∃ rest, IsLine newline file.bytes i (piece ++ rest) ∧
      (rest ≠ [] → i + piece.length = len.toNat) := by
  obtain ⟨⟨j, rfl, hinside⟩, hstart⟩ := mem_considered.mp hpiece
  have hend := hinside.end_le
  have hwindow : (window file len budget).length =
      min (len.toNat - (len.toNat - budget.toNat))
        (file.bytes.length - (len.toNat - budget.toNat)) := by
    rw [window, List.length_take, List.length_drop]
  have hbefore : (file.bytes.take (len.toNat - budget.toNat)).length =
      len.toNat - budget.toNat := by
    rw [List.length_take]
    omega
  have hfirst : 0 < j ∨ file.bytes.take (len.toNat - budget.toNat) = [] := by
    rcases hstart with hlt | hzero
    · exact .inl (by omega)
    · exact .inr (by rw [hzero, List.take_zero])
  rcases isLine_of_window (bytes_eq_window file len budget) hinside hfirst with
    hline | ⟨hcut, rest, hrest, hline⟩
  · rw [hbefore] at hline
    exact ⟨[], by rwa [List.append_nil], fun hnone => absurd rfl hnone⟩
  · rw [hbefore] at hline
    have hlonger := hline.end_le
    have hpositive := List.length_pos_of_ne_nil hrest
    rw [List.length_append] at hlonger
    exact ⟨rest, hline, fun _ => by omega⟩

end

/-! ## Records -/

/-- A record is the parse of a complete line. -/
def FromLine (parser : RecordParser) (file : LogFile) (record : EventRecord) : Prop :=
  ∃ i line, IsLine newline file.bytes i line ∧ parser.parse line = some record

/-- A record is what a line has before the known length, and the line itself is no record. -/
def FromCutLine (parser : RecordParser) (file : LogFile) (len : UInt64) (record : EventRecord) :
    Prop :=
  ∃ i piece rest, IsLine newline file.bytes i (piece ++ rest) ∧ i + piece.length = len.toNat ∧
    parser.parse piece = some record ∧ parser.parse (piece ++ rest) = none

/-- The lines that are looked at, and the records that are returned. -/
theorem readRecords_exact (parser : RecordParser) (file : LogFile) (len budget : UInt64) :
    (∀ utf16 events, file.seek (tailStart len budget utf16) = .ok events →
      ∃ taken, taken.length ≤ min len.toNat budget.toNat ∧
        allBytes events = taken ++
          allBytes (readUpTo (tailCount len budget utf16).toNat events).2) ∧
    ∀ records, readRecords parser file len budget = .ok records →
      ∃ lines : List (ℕ × List UInt8),
        records = lines.filterMap (fun line => parser.parse line.2) ∧
        lines.Pairwise (fun first later => first.1 < later.1) ∧
        (∀ i piece, (i, piece) ∈ lines → ∃ rest, IsLine newline file.bytes i (piece ++ rest) ∧
          (rest ≠ [] → i + piece.length = len.toNat)) ∧
        (∀ i line, IsLine newline file.bytes i line → i + line.length ≤ len.toNat →
          (len.toNat - budget.toNat < i ∨ len.toNat - budget.toNat = 0) → (i, line) ∈ lines) ∧
        ∀ record ∈ records, FromLine parser file record ∨ FromCutLine parser file len record := by
  constructor
  · intro utf16 events _
    obtain ⟨taken, hle, htaken⟩ :=
      readUpTo_takes (tailCount len budget utf16).toNat events
    exact ⟨taken, Nat.le_trans hle (tailCount_le len budget utf16), htaken⟩
  · intro records hread
    have hrecords := readRecords_eq hread
    refine ⟨considered file len budget, hrecords, ?_, fun i piece => line_of_mem_considered,
      fun i line => mem_considered_of_line, fun record hrecord => ?_⟩
    · exact (pairwise_placed _ _).drop
    · rw [hrecords, List.mem_filterMap] at hrecord
      obtain ⟨⟨i, piece⟩, hpiece, hparse⟩ := hrecord
      obtain ⟨rest, hline, hcut⟩ := line_of_mem_considered hpiece
      have hwhole := parser.parse_append piece rest record hparse
      by_cases hspace : rest.all isJsonSpace = true
      · rw [if_pos hspace] at hwhole
        exact .inl ⟨i, piece ++ rest, hline, hwhole⟩
      · rw [if_neg hspace] at hwhole
        refine .inr ⟨i, piece, rest, hline, hcut ?_, hparse, hwhole⟩
        rintro rfl
        exact hspace rfl

/-! ## A line that goes on -/

/-- A file that is read in one piece. -/
def LogFile.ofBytes (bytes : List UInt8) : LogFile where
  bytes := bytes
  seek start := .ok (putBack (bytes.drop start.toNat) [])
  serves := by
    intro start events hseek
    rw [Except.ok.injEq] at hseek
    subst hseek
    have hcontent : content (putBack (bytes.drop start.toNat) []) = bytes.drop start.toNat := by
      rw [content_putBack, content, List.append_nil]
    refine ⟨?_, fun _ => hcontent⟩
    simp only [hcontent, List.prefix_refl]

/-- The parser of one record, as the real one parses its text. -/
def oneRecord (text : List UInt8) (record : EventRecord) : RecordParser where
  parse input :=
    if text.isPrefixOf input && (input.drop text.length).all isJsonSpace then
      some record
    else
      none
  parse_append := by
    intro input rest found hparse
    split at hparse
    · rename_i htext
      rw [Bool.and_eq_true, List.isPrefixOf_iff_prefix] at htext
      obtain ⟨⟨space, rfl⟩, hspace⟩ := htext
      rw [List.drop_left] at hspace
      have hbegins : text.isPrefixOf (text ++ space ++ rest) = true := by
        rw [List.isPrefixOf_iff_prefix, List.append_assoc]
        exact List.prefix_append _ _
      rw [hbegins, Bool.true_and, List.append_assoc, List.drop_left, List.all_append, hspace,
        Bool.true_and, hparse]
    · cases hparse

/-- A line of the event log. -/
def startedText : List UInt8 :=
  "\x7b\"ts\":\"2026-05-23T12:00:00Z\",\"service\":\"A\",\"event\":\"started\"\x7d".toList.map
    fun c => UInt8.ofNat c.toNat

def startedRecord : EventRecord where
  ts := "2026-05-23T12:00:00Z"
  service := "A"
  event := .started

/-- A line that goes on behind a record is no record, but with the length that the file had
before it went on, the record is returned. -/
theorem readRecords_cutLine :
    ¬ ∀ (parser : RecordParser) (file : LogFile) (len budget : UInt64)
      (records : List EventRecord), readRecords parser file len budget = .ok records →
        ∀ record ∈ records, FromLine parser file record := by
  intro hall
  have hread : readRecords (oneRecord startedText startedRecord)
      (LogFile.ofBytes (startedText ++ [0x78])) 61 65536 = .ok [startedRecord] := by decide +kernel
  obtain ⟨i, line, hline, hparse⟩ := hall _ _ _ _ _ hread startedRecord (by simp)
  have hnone : newline ∉ startedText ++ [0x78] := by decide
  obtain ⟨-, rfl⟩ := (isLine_of_not_mem hnone).mp hline
  revert hparse
  decide

end Ngsm.Gui
