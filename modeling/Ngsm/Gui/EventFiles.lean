/-
# The event log from the writers to the dashboard

The supervisors append their records as lines, and rotate the files; the dashboard opens the
files one after the other, from the oldest backup to the active one, and takes no lock.  What it
reads are the records in the order in which they were written, none of them twice.  A file that
is renamed or removed while the dashboard is at it can be missed; every other is read, and of a
file over 16 MiB the lines that begin in the last 16 MiB.

A write that fails half-way leaves a piece of a line, and the next record goes on in that line.

The text of a record and its parser are given from outside.
-/

import Ngsm.Gui.BoundedLog
import Ngsm.Gui.History
import Ngsm.Supervisor.LogFiles

namespace Ngsm.Gui

open Ngsm.Lib ByteStream Lines
open Ngsm.Supervisor.EventLog (Attempt Directory afterAttempts files kept noLog written)

/-! ## Reading the files -/

/-- `MAX_FILE_BYTES`. -/
def maxFileBytes : UInt64 :=
  16 * 1024 * 1024

/-- What comes of opening a file: there is none, it fails, or the file and the length it has
then. -/
inductive Found where
  | missing
  | failed (error : IoError)
  | file (reader : LogFile) (len : UInt64)

/-- Read the files that are found; the first failure ends it. -/
def collect (parser : RecordParser) : List Found → Except IoError (List EventRecord)
  | [] => .ok []
  | .missing :: rest => collect parser rest
  | .failed error :: _ => .error error
  | .file reader len :: rest => do
      let records ← readRecords parser reader len maxFileBytes
      let more ← collect parser rest
      return records ++ more

/-- The records since some moment, of the files in the order of `iter_log_paths`. -/
def readSince (parser : RecordParser) (parseTs : String → Option ℤ) (iteration : IterationOrder)
    (found : List Found) (since now : ℤ) : Except IoError (List EventRecord) := do
  let records ← collect parser found
  return historyWindow parseTs iteration records since now

/-! ## Lines of records -/

/-- The text of a record, and the parser that reads it. -/
structure RecordCodec where
  encode : EventRecord → List UInt8
  parser : RecordParser
  parse_nil : parser.parse [] = none

/-- What a write leaves in a file: the line of a record, or the beginning of its text. -/
inductive Piece where
  | whole (record : EventRecord)
  | torn (record : EventRecord) (count : ℕ)
  deriving DecidableEq, Repr

def Piece.record : Piece → EventRecord
  | whole record | torn record _ => record

def Piece.isWhole : Piece → Bool
  | whole _ => true
  | torn _ _ => false

section

variable (codec : RecordCodec)

def Piece.bytes : Piece → List UInt8
  | whole record => codec.encode record ++ [newline]
  | torn record count => (codec.encode record).take count

def fileBytes (content : List Piece) : List UInt8 :=
  content.flatMap (Piece.bytes codec)

/-- The lines of a file, after what already stands in the first one. -/
def linesOf : List UInt8 → List Piece → List (List UInt8)
  | junk, [] => [junk]
  | junk, .whole record :: content => (junk ++ codec.encode record) :: linesOf [] content
  | junk, .torn record count :: content =>
      linesOf (junk ++ (codec.encode record).take count) content

/-- What the reader makes of a file. -/
def recordsOf (content : List Piece) : List EventRecord :=
  (linesOf codec [] content).filterMap codec.parser.parse

/-- The records whose lines begin with them; a line is fresh while nothing stands in it. -/
def intact : Bool → List Piece → List EventRecord
  | _, [] => []
  | fresh, .whole record :: content => (if fresh then [record] else []) ++ intact true content
  | fresh, .torn record count :: content =>
      intact (fresh && ((codec.encode record).take count).isEmpty) content

/-- What comes after a cut, from the next line on. -/
def afterCut : ℕ → List Piece → List Piece
  | _, [] => []
  | cut, .whole record :: content =>
      if cut < (Piece.bytes codec (.whole record)).length then content
      else afterCut (cut - (Piece.bytes codec (.whole record)).length) content
  | cut, .torn record count :: content =>
      afterCut (cut - (Piece.bytes codec (.torn record count)).length) content

/-- What is read of a file: all of it, or the lines that begin in its last 16 MiB. -/
def recent (content : List Piece) : List Piece :=
  if (fileBytes codec content).length ≤ maxFileBytes.toNat then content
  else afterCut codec ((fileBytes codec content).length - maxFileBytes.toNat) content

/-- The text of the record is a line, and it can be read. -/
structure Readable (record : EventRecord) : Prop where
  line : newline ∉ codec.encode record
  parse : codec.parser.parse (codec.encode record) = some record

end

/-! ## What is found -/

/-- The files that are found held this when they were opened. -/
inductive Shows (codec : RecordCodec) : List Found → List (List Piece) → Prop where
  | nil : Shows codec [] []
  | missing {found : List Found} {seen : List (List Piece)} (h : Shows codec found seen) :
      Shows codec (.missing :: found) seen
  | failed {found : List Found} {seen : List (List Piece)} (error : IoError)
      (h : Shows codec found seen) : Shows codec (.failed error :: found) seen
  | file {content : List Piece} {found : List Found} {seen : List (List Piece)}
      {reader : LogFile} {len : UInt64}
      (hbytes : fileBytes codec content <+: reader.bytes)
      (hlen : len.toNat = (fileBytes codec content).length) (h : Shows codec found seen) :
      Shows codec (.file reader len :: found) (content :: seen)

/-! ## What is read -/

section

variable {codec : RecordCodec} {content : List Piece} {junk : List UInt8}

theorem splitOn_fileBytes (hline : ∀ piece ∈ content, newline ∉ codec.encode piece.record)
    (hjunk : newline ∉ junk) :
    (junk ++ fileBytes codec content).splitOn newline = linesOf codec junk content := by
  induction content generalizing junk with
  | nil =>
      show (junk ++ []).splitOn newline = [junk]
      rw [List.append_nil, List.splitOn_eq_singleton hjunk]
  | cons piece content ih =>
      have hpiece := hline piece List.mem_cons_self
      have hrest : ∀ other ∈ content, newline ∉ codec.encode other.record := fun other hother =>
        hline other (List.mem_cons_of_mem piece hother)
      cases piece with
      | whole record =>
          have hfirst : newline ∉ junk ++ codec.encode record := by
            rw [List.mem_append, not_or]
            exact ⟨hjunk, hpiece⟩
          have hbytes : junk ++ fileBytes codec (.whole record :: content) =
              (junk ++ codec.encode record) ++ newline :: fileBytes codec content := by
            simp [fileBytes, Piece.bytes]
          rw [hbytes, List.splitOn_append_cons_self_of_not_mem hfirst, linesOf,
            ← ih hrest (List.not_mem_nil), List.nil_append]
      | torn record count =>
          have hbytes : junk ++ fileBytes codec (.torn record count :: content) =
              (junk ++ (codec.encode record).take count) ++ fileBytes codec content := by
            simp [fileBytes, Piece.bytes]
          rw [hbytes, linesOf]
          refine ih hrest fun hmem => ?_
          rcases List.mem_append.mp hmem with hmem | hmem
          · exact hjunk hmem
          · exact hpiece (List.mem_of_mem_take hmem)

/-- What stands before the first separator does not matter for the pieces behind it. -/
theorem drop_one_splitOn {ys : List UInt8} (hjunk : newline ∉ junk) :
    ((junk ++ ys).splitOn newline).drop 1 = (ys.splitOn newline).drop 1 := by
  by_cases hmem : newline ∈ ys
  · obtain ⟨first, rest, rfl, hfirst⟩ := List.eq_append_cons_of_mem hmem
    have hlonger : newline ∉ junk ++ first := by
      rw [List.mem_append, not_or]
      exact ⟨hjunk, hfirst⟩
    rw [← List.append_assoc, List.splitOn_append_cons_self_of_not_mem hlonger,
      List.splitOn_append_cons_self_of_not_mem hfirst]
    rfl
  · have hnone : newline ∉ junk ++ ys := by
      rw [List.mem_append, not_or]
      exact ⟨hjunk, hmem⟩
    rw [List.splitOn_eq_singleton hnone, List.splitOn_eq_singleton hmem]
    rfl

/-- The first piece after a cut is skipped, and with it what the cut has left of a line. -/
theorem afterCut_lines (hline : ∀ piece ∈ content, newline ∉ codec.encode piece.record)
    (cut : ℕ) :
    ((((fileBytes codec content).drop cut).splitOn newline).drop 1).filterMap codec.parser.parse =
      recordsOf codec (afterCut codec cut content) := by
  induction content generalizing cut with
  | nil => simp [fileBytes, afterCut, recordsOf, linesOf, codec.parse_nil]
  | cons piece content ih =>
      have hpiece := hline piece List.mem_cons_self
      have hrest : ∀ other ∈ content, newline ∉ codec.encode other.record := fun other hother =>
        hline other (List.mem_cons_of_mem piece hother)
      have hbytes : fileBytes codec (piece :: content) =
          piece.bytes codec ++ fileBytes codec content := List.flatMap_cons
      cases piece with
      | whole record =>
          rw [afterCut]
          split
          · rename_i hinside
            have hwhole : (Piece.bytes codec (.whole record)).length =
                (codec.encode record).length + 1 := List.length_append
            have hdrop : (fileBytes codec (.whole record :: content)).drop cut =
                (codec.encode record).drop cut ++ newline :: fileBytes codec content := by
              rw [hbytes, Piece.bytes, List.append_assoc,
                List.drop_append_of_le_length (by omega)]
              rfl
            have hleft : newline ∉ (codec.encode record).drop cut := fun hmem =>
              hpiece (List.mem_of_mem_drop hmem)
            rw [hdrop, List.splitOn_append_cons_self_of_not_mem hleft, List.drop_one,
              List.tail_cons, recordsOf, ← splitOn_fileBytes hrest List.not_mem_nil,
              List.nil_append]
          · rename_i hbehind
            rw [hbytes, List.drop_append, List.drop_eq_nil_of_le (Nat.le_of_not_lt hbehind),
              List.nil_append]
            exact ih hrest _
      | torn record count =>
          have hleft : newline ∉ (Piece.bytes codec (.torn record count)).drop cut := fun hmem =>
            hpiece (List.mem_of_mem_take (List.mem_of_mem_drop hmem))
          rw [hbytes, List.drop_append, drop_one_splitOn hleft, afterCut]
          exact ih hrest _

/-- The file has grown since it was opened, or not; what is recent of what it held then is what
is read. -/
theorem readRecords_content {reader : LogFile} {len : UInt64} {records : List EventRecord}
    (hline : ∀ piece ∈ content, newline ∉ codec.encode piece.record)
    (hbytes : fileBytes codec content <+: reader.bytes)
    (hlen : len.toNat = (fileBytes codec content).length)
    (hread : readRecords codec.parser reader len maxFileBytes = .ok records) :
    records = recordsOf codec (recent codec content) := by
  have hwindow : window reader len maxFileBytes =
      (fileBytes codec content).drop (len.toNat - maxFileBytes.toNat) := by
    obtain ⟨rest, hrest⟩ := hbytes
    rw [window, ← hrest, List.drop_append_of_le_length (by omega),
      List.take_left' (by rw [List.length_drop, hlen])]
  have hconsidered : (considered reader len maxFileBytes).map Prod.snd =
      (((fileBytes codec content).drop (len.toNat - maxFileBytes.toNat)).splitOn newline).drop
        (if 0 < len.toNat - maxFileBytes.toNat then 1 else 0) := by
    rw [considered, hwindow, List.map_drop, map_placed]
  have hrecords : records =
      ((considered reader len maxFileBytes).map Prod.snd).filterMap codec.parser.parse := by
    rw [readRecords_eq hread, List.filterMap_map]
    rfl
  rw [hrecords, hconsidered, hlen]
  by_cases hfits : (fileBytes codec content).length ≤ maxFileBytes.toNat
  · have hcut : (fileBytes codec content).length - maxFileBytes.toNat = 0 :=
      Nat.sub_eq_zero_of_le hfits
    rw [recent, if_pos hfits, hcut, if_neg (Nat.lt_irrefl 0), List.drop_zero, List.drop_zero,
      recordsOf, ← splitOn_fileBytes hline List.not_mem_nil, List.nil_append]
  · rw [recent, if_neg hfits, if_pos (Nat.sub_pos_of_lt (Nat.lt_of_not_le hfits))]
    exact afterCut_lines hline _

theorem afterCut_suffix (cut : ℕ) (content : List Piece) :
    afterCut codec cut content <:+ content := by
  induction content generalizing cut with
  | nil => exact List.suffix_refl _
  | cons piece content ih =>
      cases piece with
      | whole record =>
          rw [afterCut]
          split
          · exact List.suffix_cons _ _
          · exact (ih _).trans (List.suffix_cons _ _)
      | torn record count => exact (ih _).trans (List.suffix_cons _ _)

/-- A line begins after these pieces. -/
def LineEnd (before : List Piece) : Prop :=
  ∀ last ∈ before.getLast?, last.isWhole = true

theorem LineEnd.fileBytes_pos {before : List Piece} (hend : LineEnd before)
    (codec : RecordCodec) (hsome : before ≠ []) : 0 < (fileBytes codec before).length := by
  obtain ⟨front, last, rfl⟩ := (List.eq_nil_or_concat before).resolve_left hsome
  have hwhole := hend last (by simp)
  cases last with
  | torn record count => cases hwhole
  | whole record =>
      have hlength : (Piece.bytes codec (.whole record)).length =
          (codec.encode record).length + 1 := List.length_append
      rw [List.concat_eq_append, fileBytes, List.flatMap_append, List.length_append,
        List.flatMap_singleton, hlength]
      omega

/-- A line that begins after the cut is not lost. -/
theorem suffix_afterCut {before after : List Piece} (hend : LineEnd before) {cut : ℕ}
    (hcut : cut < (fileBytes codec before).length) :
    after <:+ afterCut codec cut (before ++ after) := by
  induction before generalizing cut with
  | nil => exact absurd hcut (Nat.not_lt_zero cut)
  | cons piece before ih =>
      have hbytes : (fileBytes codec (piece :: before)).length =
          (piece.bytes codec).length + (fileBytes codec before).length := by
        rw [fileBytes, List.flatMap_cons, List.length_append]
        rfl
      have hlast : before ≠ [] → LineEnd before := by
        intro hsome last hmem
        refine hend last ?_
        rwa [List.getLast?_cons_of_ne_nil hsome]
      cases piece with
      | whole record =>
          rw [List.cons_append, afterCut]
          split
          · exact List.suffix_append before after
          · refine ih (hlast ?_) (by omega)
            rintro rfl
            have hnone : (fileBytes codec []).length = 0 := rfl
            omega
      | torn record count =>
          have hsome : before ≠ [] := by
            rintro rfl
            cases hend (.torn record count) rfl
          rw [List.cons_append, afterCut]
          refine ih (hlast hsome) ?_
          have hpositive := (hlast hsome).fileBytes_pos codec hsome
          omega

/-- What is read of a file: the end of it, from the beginning of a line on. -/
structure ReadsEnd (codec : RecordCodec) (content : List Piece) : Prop where
  suffix : recent codec content <:+ content
  whole : (fileBytes codec content).length ≤ maxFileBytes.toNat → recent codec content = content
  lines : ∀ before after, content = before ++ after → LineEnd before →
    (fileBytes codec after).length < maxFileBytes.toNat → after <:+ recent codec content
  intact : (intact codec true (recent codec content)).Sublist
    (recordsOf codec (recent codec content))

/-- A record is lost only when its write failed or the one before it left something. -/
theorem intact_sublist (hreadable : ∀ piece ∈ content, Readable codec piece.record) :
    (intact codec junk.isEmpty content).Sublist
      ((linesOf codec junk content).filterMap codec.parser.parse) := by
  induction content generalizing junk with
  | nil => exact List.nil_sublist _
  | cons piece content ih =>
      have hrest : ∀ other ∈ content, Readable codec other.record := fun other hother =>
        hreadable other (List.mem_cons_of_mem piece hother)
      cases piece with
      | whole record =>
          have hparse : codec.parser.parse (codec.encode record) = some record :=
            (hreadable _ List.mem_cons_self).parse
          have hlater : (intact codec true content).Sublist
              ((linesOf codec [] content).filterMap codec.parser.parse) := @ih [] hrest
          rw [linesOf, intact]
          cases junk with
          | nil =>
              rw [List.nil_append, List.filterMap_cons_some hparse]
              exact hlater.cons_cons record
          | cons byte junk =>
              refine hlater.trans ?_
              rw [List.filterMap_cons]
              split
              · exact .refl _
              · exact List.sublist_cons_self _ _
      | torn record count =>
          have hempty : (junk ++ (codec.encode record).take count).isEmpty =
              (junk.isEmpty && ((codec.encode record).take count).isEmpty) := by
            cases junk <;> rfl
          rw [linesOf, intact, ← hempty]
          exact ih hrest

theorem intact_recordsOf (hreadable : ∀ piece ∈ content, Readable codec piece.record) :
    (intact codec true content).Sublist (recordsOf codec content) :=
  @intact_sublist codec content [] hreadable

theorem recent_suffix (codec : RecordCodec) (content : List Piece) :
    recent codec content <:+ content := by
  unfold recent
  split
  · exact List.suffix_refl content
  · exact afterCut_suffix _ content

theorem readsEnd (hreadable : ∀ piece ∈ content, Readable codec piece.record) :
    ReadsEnd codec content where
  suffix := recent_suffix codec content
  whole hfits := by rw [recent, if_pos hfits]
  lines before after hcontent hend hshort := by
    unfold recent
    split
    · exact hcontent ▸ List.suffix_append before after
    · rename_i hlong
      have hlength : (fileBytes codec content).length =
          (fileBytes codec before).length + (fileBytes codec after).length := by
        rw [hcontent, fileBytes, List.flatMap_append, List.length_append]
        rfl
      generalize maxFileBytes.toNat = limit at hshort hlong
      subst hcontent
      exact suffix_afterCut hend (by omega)
  intact := intact_recordsOf fun piece hpiece =>
    hreadable piece ((recent_suffix codec content).mem hpiece)

theorem collect_shows {found : List Found} {seen : List (List Piece)}
    (hshows : Shows codec found seen)
    (hline : ∀ piece ∈ seen.flatten, newline ∉ codec.encode piece.record)
    {records : List EventRecord} (hread : collect codec.parser found = .ok records) :
    records = seen.flatMap fun content => recordsOf codec (recent codec content) := by
  induction hshows generalizing records with
  | nil =>
      cases hread
      rfl
  | missing _ ih => exact ih hline hread
  | failed error _ _ => cases hread
  | @file content found seen reader len hbytes hlen _ ih =>
      rw [collect] at hread
      obtain ⟨first, hfirst, hread⟩ := Check.bind_eq_ok.mp hread
      obtain ⟨more, hmore, hread⟩ := Check.bind_eq_ok.mp hread
      cases hread
      have hrecords : first = recordsOf codec (recent codec content) :=
        readRecords_content (fun piece hpiece => hline piece
          (List.mem_flatten.mpr ⟨content, List.mem_cons_self, hpiece⟩)) hbytes hlen hfirst
      rw [List.flatMap_cons, hrecords, ih (fun piece hpiece => hline piece ?_) hmore]
      rw [List.flatten_cons]
      exact List.mem_append_right content hpiece

theorem readSince_shows {found : List Found} {seen : List (List Piece)}
    {parseTs : String → Option ℤ} {iteration : IterationOrder} {since now : ℤ}
    (hshows : Shows codec found seen)
    (hreadable : ∀ piece ∈ seen.flatten, Readable codec piece.record)
    {records : List EventRecord}
    (hread : readSince codec.parser parseTs iteration found since now = .ok records) :
    records = historyWindow parseTs iteration
      (seen.flatMap fun content => recordsOf codec (recent codec content)) since now := by
  obtain ⟨collected, hcollected, hread⟩ := Check.bind_eq_ok.mp hread
  cases hread
  rw [collect_shows hshows (fun piece hpiece => (hreadable piece hpiece).line) hcollected]

/-! ## Reading while nothing is written -/

variable (codec)

/-- How long what is written becomes. -/
def Piece.size (piece : Piece) : ℕ :=
  (piece.bytes codec).length

/-- The directory of the log after these attempts. -/
def logAfter (attempts : List (Attempt Piece)) : Directory Piece :=
  afterAttempts (Piece.size codec) noLog attempts

/-- The files as the reader finds them, the oldest first. -/
def logFiles (attempts : List (Attempt Piece)) : List (List Piece) :=
  (files (logAfter codec attempts)).contents 5

variable {codec} {attempts : List (Attempt Piece)}

theorem flatten_logFiles : (logFiles codec attempts).flatten = kept (logAfter codec attempts) :=
  Bookshelf.flatten_contents ..

variable (codec attempts) in
/-- The files hold what was written, in order. -/
theorem logFiles_written : (logFiles codec attempts).flatten.Sublist (written attempts) := by
  rw [flatten_logFiles]
  exact Supervisor.EventLog.afterAttempts_sublist (Piece.size codec) noLog attempts

/-- What a scan has seen at its end was written in this order, before the scan or during it. -/
theorem seen_ordered {events : List (Bookshelf.Event Piece)} {s : Bookshelf.Scan Piece}
    (hrun : Runs.run Bookshelf.Scan.step
      { shelf := files (logAfter codec attempts), left := 5 } events = some s)
    (hdone : s.left = 0) :
    s.seen.flatten.Sublist (written attempts ++ events.flatMap Bookshelf.Event.puts) := by
  have hheld := Bookshelf.Scan.held_run hrun
  have hkept : (kept (logAfter codec attempts)).Sublist (written attempts) :=
    flatten_logFiles ▸ logFiles_written codec attempts
  rw [Bookshelf.Scan.held, hdone, Bookshelf.below, List.append_nil] at hheld
  exact hheld.trans (hkept.append (.refl _))

/-- While the files are opened one after the other, records are appended and files renamed and
removed.  What is read stays in order and free of duplicates, and a file that is left alone is
read. -/
theorem scan_read_back {events : List (Bookshelf.Event Piece)} {s : Bookshelf.Scan Piece}
    {found : List Found} {parseTs : String → Option ℤ} {iteration : IterationOrder} {since now : ℤ}
    {records : List EventRecord}
    (hrun : Runs.run Bookshelf.Scan.step
      { shelf := files (logAfter codec attempts), left := 5 } events = some s)
    (hdone : s.left = 0)
    (hreadable : ∀ piece ∈ written attempts ++ events.flatMap Bookshelf.Event.puts,
      Readable codec piece.record)
    (hshows : Shows codec found s.seen)
    (hread : readSince codec.parser parseTs iteration found since now = .ok records) :
    s.seen.flatten.Sublist (written attempts ++ events.flatMap Bookshelf.Event.puts) ∧
      (∀ i content, i < 5 → files (logAfter codec attempts) i = some content →
        (∀ event ∈ events, event.Spares i) → ∃ more, content ++ more ∈ s.seen) ∧
      records = historyWindow parseTs iteration
        (s.seen.flatMap fun content => recordsOf codec (recent codec content)) since now ∧
      ∀ content ∈ s.seen, ReadsEnd codec content := by
  have horder := seen_ordered hrun hdone
  have hlegible : ∀ piece ∈ s.seen.flatten, Readable codec piece.record := fun piece hpiece =>
    hreadable piece (horder.subset hpiece)
  refine ⟨horder, fun i content hi hcontent hspares => ?_,
    readSince_shows hshows hlegible hread, fun content hcontent => ?_⟩
  · have hhas : Bookshelf.Scan.Has
        { shelf := files (logAfter codec attempts), left := 5 } i content := by
      refine ⟨fun _ => ⟨[], ?_⟩, fun hle => absurd hi (Nat.not_lt.mpr hle)⟩
      rw [List.append_nil]
      exact hcontent
    exact (Bookshelf.Scan.has_run hhas hspares hrun).2 (by omega)
  · exact readsEnd fun piece hpiece =>
      hlegible piece (List.mem_flatten.mpr ⟨content, hcontent, hpiece⟩)

end

/-! ### A torn write -/

def startedCodec : RecordCodec where
  encode _ := startedText
  parser := oneRecord startedText startedRecord
  parse_nil := by decide

def noFaults : Supervisor.EventLog.Faults Piece where
  prepare := none
  append := none
  metadata := none
  remove := none
  path _ := none
  rename _ := none

/-- The record is written, and nothing fails. -/
def wholeWrite : Attempt Piece where
  record := .whole startedRecord
  faults := noFaults
  unseen _ := false

theorem readable_started : Readable startedCodec startedRecord where
  line := by decide
  parse := by decide

/-- A map that keeps one order. -/
def keptOrder : IterationOrder where
  arrange seeds := seeds
  perm seeds := .refl seeds

/-- Two backups are looked for, the active file becomes the first backup, which is then read, and
a new file is written and read. -/
def rotatedScan : List (Bookshelf.Event Piece) :=
  [.look, .look, .change (.lift 0), .look, .look, .change (.put (.whole startedRecord)), .look]

def scannedFiles : Bookshelf.Scan Piece where
  shelf i := if i ≤ 1 then some [.whole startedRecord] else none
  seen := [[.whole startedRecord], [.whole startedRecord]]
  left := 0

def scannedFound : List Found :=
  [.missing, .missing, .missing, .file (LogFile.ofBytes (startedText ++ [newline])) 62,
    .file (LogFile.ofBytes (startedText ++ [newline])) 62]

theorem run_rotatedScan :
    Runs.run Bookshelf.Scan.step
      { shelf := files (logAfter startedCodec [wholeWrite]), left := 5 } rotatedScan =
        some scannedFiles := by
  have hbackups : ∀ i, files (logAfter startedCodec [wholeWrite]) (i + 1) = none :=
    fun i => rfl
  have hactive : files (logAfter startedCodec [wholeWrite]) 0 = some [.whole startedRecord] := by
    decide +kernel
  generalize files (logAfter startedCodec [wholeWrite]) = shelf at hbackups hactive
  simp [rotatedScan, Runs.run, Bookshelf.Scan.step, hbackups, hactive, Bookshelf.step,
    scannedFiles]
  funext i
  rcases i with _ | _ | i
  · rfl
  · rfl
  · simp [hbackups]

theorem rotated_read_back :
    [Piece.whole startedRecord, .whole startedRecord].Sublist
        (written [wholeWrite] ++ rotatedScan.flatMap Bookshelf.Event.puts) ∧
      historyWindow (fun _ => some 0) keptOrder [startedRecord, startedRecord] 0 0 =
        historyWindow (fun _ => some 0) keptOrder
          (scannedFiles.seen.flatMap fun content =>
            recordsOf startedCodec (recent startedCodec content)) 0 0 := by
  have hreadable : ∀ piece ∈ written [wholeWrite] ++ rotatedScan.flatMap Bookshelf.Event.puts,
      Readable startedCodec piece.record := by
    intro piece hpiece
    have hrecord : piece.record = startedRecord := by
      have hall : (written [wholeWrite] ++ rotatedScan.flatMap Bookshelf.Event.puts).all
          (·.record == startedRecord) = true := by decide
      exact eq_of_beq (List.all_eq_true.mp hall piece hpiece)
    rw [hrecord]
    exact readable_started
  have hshows : Shows startedCodec scannedFound scannedFiles.seen :=
    .missing (.missing (.missing (.file (List.prefix_refl _) (by decide +kernel)
      (.file (List.prefix_refl _) (by decide +kernel) .nil))))
  have hread : readSince startedCodec.parser (fun _ => some 0) keptOrder scannedFound 0 0 =
      .ok (historyWindow (fun _ => some 0) keptOrder [startedRecord, startedRecord] 0 0) := by
    have hcollect : collect startedCodec.parser scannedFound =
        .ok [startedRecord, startedRecord] := by decide +kernel
    rw [readSince, hcollect]
    rfl
  obtain ⟨horder, -, hrecords, -⟩ := scan_read_back run_rotatedScan rfl hreadable hshows hread
  exact ⟨horder, hrecords⟩

/-- The file is renamed when its new place has been looked at: it is there all the time, and is
not seen. -/
example : (Runs.run Bookshelf.Scan.step
    { shelf := files (logAfter startedCodec [wholeWrite]), left := 5 }
    [.look, .look, .look, .look, .change (.lift 0), .look]).map (·.seen) = some [] := by
  decide +kernel

end Ngsm.Gui
