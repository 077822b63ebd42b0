/-
# Frames on the pipe

Requests and responses cross the pipe of the broker as frames, a length of four bytes and then a
body of that length.  The reader meets the bytes of the other process in pieces, and the stream
can break at any byte; it returns whole frames only, and it never starts to read a body that is
too long.
-/

import Mathlib.Algebra.Group.Nat.Defs
import Mathlib.Data.Nat.Basic
import Ngsm.Lib.ByteStream

namespace Ngsm.Broker

open Ngsm.Lib ByteStream

/-- The longest body, in bytes. -/
def maxFrameBytes : Nat :=
  256 * 1024

/-- `u32::to_be_bytes`. -/
def toBeBytes (n : Nat) : List UInt8 :=
  [UInt8.ofNat (n / 2 ^ 24 % 256), UInt8.ofNat (n / 2 ^ 16 % 256), UInt8.ofNat (n / 2 ^ 8 % 256),
    UInt8.ofNat (n % 256)]

/-- `u32::from_be_bytes`. -/
def fromBeBytes (bytes : List UInt8) : Nat :=
  bytes.foldl (fun n byte => 256 * n + byte.toNat) 0

def frameTooLarge (len : Nat) : IoError where
  kind := .invalidData
  message := s!"frame too large: {len} bytes"

def responseTooLarge : IoError where
  kind := .invalidData
  message := "response frame is too large"

/-- The other end has closed the stream. -/
def isEndOfStream (error : IoError) : Bool :=
  error.kind == .unexpectedEof || error.kind == .brokenPipe

def readFrame (io : List ReadEvent) : Except IoError (Option (List UInt8)) × List ReadEvent :=
  match readExact 4 io with
  | (.error error, io) => (if isEndOfStream error then .ok none else .error error, io)
  | (.ok lenBuf, io) =>
      let len := fromBeBytes lenBuf
      if len = 0 then
        (.ok (some []), io)
      else if len > maxFrameBytes then
        (.error (frameTooLarge len), io)
      else
        match readExact len io with
        | (.error error, io) => (.error error, io)
        | (.ok body, io) => (.ok (some body), io)

def writeFrame (body : List UInt8) (io : Sink) : Except IoError Unit × Sink :=
  if 2 ^ 32 ≤ body.length then
    (.error responseTooLarge, io)
  else
    match writeAll (toBeBytes body.length) io with
    | (.error error, io) => (.error error, io)
    | (.ok (), io) => writeAll body io

/-- Write frames one after the other, until one fails. -/
def writeFrames : List (List UInt8) → Sink → Except IoError Unit × Sink
  | [], io => (.ok (), io)
  | body :: bodies, io =>
      match writeFrame body io with
      | (.error error, io) => (.error error, io)
      | (.ok (), io) => writeFrames bodies io

/-- Read frames one after the other: these are returned, and then the end of the stream or an
error. -/
inductive Reads : List ReadEvent → List (List UInt8) → Option IoError → Prop where
  | done {io later : List ReadEvent} (hread : readFrame io = (.ok none, later)) :
      Reads io [] none
  | broken {io later : List ReadEvent} {error : IoError}
      (hread : readFrame io = (.error error, later)) : Reads io [] (some error)
  | frame {io later : List ReadEvent} {body : List UInt8} {bodies : List (List UInt8)}
      {stop : Option IoError} (hread : readFrame io = (.ok (some body), later))
      (hrest : Reads later bodies stop) : Reads io (body :: bodies) stop

/-! ## Lengths -/

theorem length_toBeBytes (n : Nat) : (toBeBytes n).length = 4 :=
  rfl

theorem fromBeBytes_toBeBytes {n : Nat} (hn : n < 2 ^ 32) : fromBeBytes (toBeBytes n) = n := by
  simp only [fromBeBytes, toBeBytes, List.foldl_cons, List.foldl_nil, UInt8.toNat_ofNat']
  omega

theorem toBeBytes_fromBeBytes {bytes : List UInt8} (hlength : bytes.length = 4) :
    toBeBytes (fromBeBytes bytes) = bytes := by
  obtain ⟨a, b, c, d, rfl⟩ := List.length_eq_four.mp hlength
  have hofNat : ∀ (n : Nat) (byte : UInt8), n = byte.toNat → UInt8.ofNat n = byte := by
    rintro _ byte rfl
    exact UInt8.ofNat_toNat
  have ha := a.toNat_lt
  have hb := b.toNat_lt
  have hc := c.toNat_lt
  have hd := d.toNat_lt
  simp only [fromBeBytes, toBeBytes, List.foldl_cons, List.foldl_nil, List.cons.injEq, and_true]
  refine ⟨hofNat _ a ?_, hofNat _ b ?_, hofNat _ c ?_, hofNat _ d ?_⟩
  all_goals omega

/-- The bytes of a frame. -/
def frame (body : List UInt8) : List UInt8 :=
  toBeBytes body.length ++ body

/-- The length that a stream declares for its next frame. -/
def declared (bytes : List UInt8) : Nat :=
  fromBeBytes (bytes.take 4)

theorem length_frame (body : List UInt8) : (frame body).length = 4 + body.length := by
  rw [frame, List.length_append, length_toBeBytes]

theorem frame_injective {body body' : List UInt8} (hframe : frame body = frame body') :
    body = body' :=
  (List.append_inj hframe rfl).2

theorem declared_frame {body : List UInt8} (hbody : body.length < 2 ^ 32) (rest : List UInt8) :
    declared (frame body ++ rest) = body.length := by
  rw [declared, frame, List.append_assoc, List.take_append_of_le_length (by rfl),
    List.take_of_length_le (by rfl), fromBeBytes_toBeBytes hbody]

/-! ## Reading -/

section

variable {io : List ReadEvent}

theorem readFrame_of_short (hshort : (content io).length < 4) :
    ∃ later, readFrame io =
      (if isEndOfStream (ending io) then .ok none else .error (ending io), later) := by
  obtain ⟨later, hread⟩ := readExact_of_lt hshort
  exact ⟨later, by rw [readFrame, hread]⟩

/-- What is done with a body, where the length is there. -/
theorem readFrame_of_header (hheader : 4 ≤ (content io).length) :
    ∃ middle, content middle = (content io).drop 4 ∧ ending middle = ending io ∧
      readFrame io =
        if declared (content io) = 0 then
          (.ok (some []), middle)
        else if maxFrameBytes < declared (content io) then
          (.error (frameTooLarge (declared (content io))), middle)
        else
          match readExact (declared (content io)) middle with
          | (.error error, later) => (.error error, later)
          | (.ok body, later) => (.ok (some body), later) := by
  obtain ⟨middle, hread, hcontent, hending⟩ := readExact_of_le hheader
  refine ⟨middle, hcontent, hending, ?_⟩
  rw [readFrame, hread]
  rfl

/-- A frame that is too long is refused before its body is read. -/
theorem readFrame_of_large (hheader : 4 ≤ (content io).length)
    (hlarge : maxFrameBytes < declared (content io)) :
    ∃ later, readFrame io = (.error (frameTooLarge (declared (content io))), later) ∧
      content later = (content io).drop 4 := by
  obtain ⟨middle, hcontent, -, hread⟩ := readFrame_of_header hheader
  refine ⟨middle, ?_, hcontent⟩
  rw [hread, if_neg (by omega), if_pos hlarge]

/-- A body that is cut is an error. -/
theorem readFrame_of_cut (hheader : 4 ≤ (content io).length)
    (hlen : declared (content io) ≤ maxFrameBytes)
    (hcut : (content io).length < 4 + declared (content io)) :
    ∃ later, readFrame io = (.error (ending io), later) := by
  obtain ⟨middle, hcontent, hending, hread⟩ := readFrame_of_header hheader
  have hrest : (content middle).length < declared (content io) := by
    rw [hcontent, List.length_drop]
    omega
  obtain ⟨later, hbody⟩ := readExact_of_lt hrest
  refine ⟨later, ?_⟩
  rw [hread, if_neg (by omega), if_neg (by omega), hbody, hending]

/-- A frame that is there is returned, and the next one starts behind it. -/
theorem readFrame_of_whole (hlen : declared (content io) ≤ maxFrameBytes)
    (hwhole : 4 + declared (content io) ≤ (content io).length) :
    ∃ later, readFrame io =
        (.ok (some (((content io).drop 4).take (declared (content io)))), later) ∧
      content later = (content io).drop (4 + declared (content io)) ∧
        ending later = ending io := by
  obtain ⟨middle, hcontent, hending, hread⟩ :=
    readFrame_of_header (by omega : 4 ≤ (content io).length)
  rw [hread]
  by_cases hzero : declared (content io) = 0
  · refine ⟨middle, ?_, ?_, hending⟩
    · rw [if_pos hzero, hzero, List.take_zero]
    · rw [hcontent, hzero]
  · have hrest : declared (content io) ≤ (content middle).length := by
      rw [hcontent, List.length_drop]
      omega
    obtain ⟨later, hbody, hcontent', hending'⟩ := readExact_of_le hrest
    refine ⟨later, ?_, ?_, hending'.trans hending⟩
    · rw [if_neg hzero, if_neg (by omega), hbody, hcontent]
    · rw [hcontent', hcontent, List.drop_drop]

/-- Every frame that is returned is whole. -/
theorem whole_of_readFrame {body : List UInt8} {later : List ReadEvent}
    (hread : readFrame io = (.ok (some body), later)) :
    body.length ≤ maxFrameBytes ∧ content io = frame body ++ content later := by
  rcases Nat.lt_or_ge (content io).length 4 with hshort | hheader
  · obtain ⟨_, hnone⟩ := readFrame_of_short hshort
    rw [hnone, Prod.mk.injEq] at hread
    split at hread <;> cases hread.1
  · rcases Nat.lt_or_ge maxFrameBytes (declared (content io)) with hlarge | hlen
    · obtain ⟨_, hnone, -⟩ := readFrame_of_large hheader hlarge
      rw [hnone] at hread
      cases hread
    · rcases Nat.lt_or_ge (content io).length (4 + declared (content io)) with hcut | hwhole
      · obtain ⟨_, hnone⟩ := readFrame_of_cut hheader hlen hcut
        rw [hnone] at hread
        cases hread
      · obtain ⟨later', hframe, hcontent, -⟩ := readFrame_of_whole hlen hwhole
        rw [hframe, Prod.mk.injEq, Except.ok.injEq, Option.some.injEq] at hread
        obtain ⟨rfl, rfl⟩ := hread
        have hlength : (((content io).drop 4).take (declared (content io))).length =
            declared (content io) := by
          rw [List.length_take, List.length_drop]
          omega
        have hfour : ((content io).take 4).length = 4 := by
          rw [List.length_take]
          omega
        refine ⟨by rw [hlength]; exact hlen, ?_⟩
        rw [frame, hlength, declared, toBeBytes_fromBeBytes hfour, ← declared, hcontent,
          List.append_assoc, ← List.drop_drop, List.take_append_drop, List.take_append_drop]

end

/-! ## Writing -/

theorem writeFrame_written (body : List UInt8) (io : Sink) :
    ∃ part, part <+: frame body ∧ (writeFrame body io).2.written = io.written ++ part ∧
      ((writeFrame body io).1 = .ok () → part = frame body) := by
  unfold writeFrame
  split
  · exact ⟨[], by simp, by simp, by simp⟩
  · obtain ⟨head, hhead, hwritten, hall⟩ := writeAll_written (toBeBytes body.length) io
    rcases hlength : writeAll (toBeBytes body.length) io with ⟨error | ⟨⟩, middle⟩
    · rw [hlength] at hwritten
      exact ⟨head, hhead.trans (List.prefix_append _ _), hwritten, by simp⟩
    · rw [hlength] at hwritten hall
      obtain ⟨tail, ⟨rest, htail⟩, hwritten', hall'⟩ := writeAll_written body middle
      refine ⟨toBeBytes body.length ++ tail, ⟨rest, ?_⟩, ?_, fun hok => ?_⟩
      · rw [List.append_assoc, htail, frame]
      · rw [hwritten', hwritten, hall rfl, List.append_assoc]
      · rw [hall' hok, frame]

/-- What is written is a part of the frames, and all of them where no write fails. -/
theorem writeFrames_written (bodies : List (List UInt8)) (io : Sink) :
    ∃ part, part <+: bodies.flatMap frame ∧
      (writeFrames bodies io).2.written = io.written ++ part ∧
        ((writeFrames bodies io).1 = .ok () → part = bodies.flatMap frame) := by
  induction bodies generalizing io with
  | nil => exact ⟨[], by simp, by simp [writeFrames], by simp⟩
  | cons body bodies ih =>
      obtain ⟨head, hhead, hwritten, hall⟩ := writeFrame_written body io
      rw [writeFrames, List.flatMap_cons]
      rcases hfirst : writeFrame body io with ⟨error | ⟨⟩, middle⟩
      · rw [hfirst] at hwritten
        exact ⟨head, hhead.trans (List.prefix_append _ _), hwritten, by simp⟩
      · rw [hfirst] at hwritten hall
        obtain ⟨tail, ⟨rest, htail⟩, hwritten', hall'⟩ := ih middle
        refine ⟨frame body ++ tail, ⟨rest, ?_⟩, ?_, fun hok => ?_⟩
        · rw [List.append_assoc, htail]
        · rw [hwritten', hwritten, hall rfl, List.append_assoc]
        · rw [hall' hok]

theorem writeFrame_of_willing {body : List UInt8} (hbody : body.length < 2 ^ 32) {io : Sink}
    (hwilling : ∀ event ∈ io.events, event.Willing) :
    (writeFrame body io).1 = .ok () ∧
      ∀ event ∈ (writeFrame body io).2.events, event.Willing := by
  obtain ⟨hlength, hmiddle⟩ := writeAll_of_willing (toBeBytes body.length) hwilling
  rw [writeFrame, if_neg (by omega)]
  rcases hwrite : writeAll (toBeBytes body.length) io with ⟨error | ⟨⟩, middle⟩
  · rw [hwrite] at hlength
    cases hlength
  · rw [hwrite] at hmiddle
    exact writeAll_of_willing body hmiddle

theorem writeFrames_of_willing {bodies : List (List UInt8)}
    (hbodies : ∀ body ∈ bodies, body.length ≤ maxFrameBytes) {io : Sink}
    (hwilling : ∀ event ∈ io.events, event.Willing) : (writeFrames bodies io).1 = .ok () := by
  induction bodies generalizing io with
  | nil => rfl
  | cons body bodies ih =>
      rw [List.forall_mem_cons] at hbodies
      have hbody : body.length < 2 ^ 32 := Nat.lt_of_le_of_lt hbodies.1 (by decide)
      obtain ⟨hfirst, hmiddle⟩ := writeFrame_of_willing hbody hwilling
      rw [writeFrames]
      rcases hwrite : writeFrame body io with ⟨error | ⟨⟩, middle⟩
      · rw [hwrite] at hfirst
        cases hfirst
      · rw [hwrite] at hmiddle
        exact ih hbodies.2 hmiddle

/-! ## Streams of frames -/

theorem reads_of_short {io : List ReadEvent} (hshort : (content io).length < 4) :
    ∃ stop, Reads io [] stop ∧ (isEndOfStream (ending io) = true → stop = none) := by
  obtain ⟨later, hread⟩ := readFrame_of_short hshort
  by_cases hclosed : isEndOfStream (ending io) = true
  · rw [if_pos hclosed] at hread
    exact ⟨none, .done hread, fun _ => rfl⟩
  · rw [if_neg hclosed] at hread
    exact ⟨some (ending io), .broken hread, fun htrue => absurd htrue hclosed⟩

/-- The bytes of frames, cut anywhere, read as the first of the frames. -/
theorem reads_of_prefix {bodies : List (List UInt8)}
    (hbodies : ∀ body ∈ bodies, body.length ≤ maxFrameBytes) {io : List ReadEvent}
    (hpart : content io <+: bodies.flatMap frame) :
    ∃ whole stop, Reads io whole stop ∧ whole <+: bodies ∧
      (content io = bodies.flatMap frame → isEndOfStream (ending io) = true →
        whole = bodies ∧ stop = none) := by
  induction bodies generalizing io with
  | nil =>
      have hempty : content io = [] := List.prefix_nil.mp hpart
      obtain ⟨stop, hreads, hstop⟩ := reads_of_short (by simp [hempty] : (content io).length < 4)
      exact ⟨[], stop, hreads, List.nil_prefix, fun _ hclosed => ⟨rfl, hstop hclosed⟩⟩
  | cons body bodies ih =>
      rw [List.forall_mem_cons] at hbodies
      have hbody : body.length < 2 ^ 32 := Nat.lt_of_le_of_lt hbodies.1 (by decide)
      obtain ⟨rest, hrest⟩ := hpart
      rw [List.flatMap_cons] at hrest
      have hall : content io = (body :: bodies).flatMap frame →
          4 + body.length ≤ (content io).length := by
        intro hfull
        rw [hfull, List.flatMap_cons, List.length_append, length_frame]
        omega
      rcases Nat.lt_or_ge (content io).length 4 with hshort | hheader
      · obtain ⟨stop, hreads, hstop⟩ := reads_of_short hshort
        exact ⟨[], stop, hreads, List.nil_prefix, fun hfull => absurd (hall hfull) (by omega)⟩
      · have hdeclared : declared (content io) = body.length := by
          have hsame : declared (content io ++ rest) = declared (content io) := by
            rw [declared, declared, List.take_append_of_le_length hheader]
          rw [← hsame, hrest, declared_frame hbody]
        rcases Nat.lt_or_ge (content io).length (4 + body.length) with hcut | hwhole
        · obtain ⟨later, hread⟩ := readFrame_of_cut hheader (by rw [hdeclared]; exact hbodies.1)
            (by rw [hdeclared]; exact hcut)
          exact ⟨[], _, .broken hread, List.nil_prefix,
            fun hfull => absurd (hall hfull) (by omega)⟩
        · obtain ⟨later, hread, -, hending⟩ := readFrame_of_whole
            (by rw [hdeclared]; exact hbodies.1) (by rw [hdeclared]; exact hwhole)
          obtain ⟨-, hcontent⟩ := whole_of_readFrame hread
          have hlength : (frame (((content io).drop 4).take (declared (content io)))).length =
              (frame body).length := by
            rw [length_frame, length_frame, List.length_take, List.length_drop, hdeclared]
            omega
          have hrest' := hrest
          rw [hcontent, List.append_assoc] at hrest'
          obtain ⟨hframe, hlater⟩ := List.append_inj hrest' hlength
          rw [frame_injective hframe] at hread hcontent
          obtain ⟨whole, stop, hreads, hbegins, hstop⟩ := ih hbodies.2 ⟨rest, hlater⟩
          refine ⟨body :: whole, stop, .frame hread hreads,
            List.cons_prefix_cons.mpr ⟨rfl, hbegins⟩, fun hfull hclosed => ?_⟩
          rw [hcontent, List.flatMap_cons] at hfull
          obtain ⟨rfl, hnone⟩ := hstop (List.append_cancel_left hfull) (hending.symm ▸ hclosed)
          exact ⟨rfl, hnone⟩

/-- Frames survive the pipe, however it cuts them; a stream that breaks gives the first frames; a
length over the limit is refused before the body is read, and a cut body is an error. -/
theorem frame_codec :
    (∀ bodies : List (List UInt8), (∀ body ∈ bodies, body.length ≤ maxFrameBytes) →
      ∀ events, (∀ event ∈ events, event.Willing) →
        (writeFrames bodies { events, written := [] }).1 = .ok () ∧
        ∀ io, content io = (writeFrames bodies { events, written := [] }).2.written →
          isEndOfStream (ending io) = true → Reads io bodies none) ∧
    (∀ io, 4 ≤ (content io).length → maxFrameBytes < declared (content io) →
      ∃ later, readFrame io = (.error (frameTooLarge (declared (content io))), later) ∧
        content later = (content io).drop 4) ∧
    (∀ io, 4 ≤ (content io).length → (content io).length < 4 + declared (content io) →
      ∃ error later, readFrame io = (.error error, later)) ∧
    ∀ io body later, readFrame io = (.ok (some body), later) →
      body.length ≤ maxFrameBytes ∧ content io = frame body ++ content later := by
  refine ⟨?_, fun io => readFrame_of_large, ?_, fun io body later => whole_of_readFrame⟩
  · intro bodies hbodies events hwilling
    have hok := @writeFrames_of_willing bodies hbodies { events, written := [] } hwilling
    obtain ⟨part, -, hwritten, hall⟩ := writeFrames_written bodies { events, written := [] }
    refine ⟨hok, fun io hcontent hclosed => ?_⟩
    rw [hwritten, hall hok, List.nil_append] at hcontent
    have hpart : content io <+: bodies.flatMap frame := hcontent ▸ List.prefix_refl _
    obtain ⟨whole, stop, hreads, -, hstop⟩ := reads_of_prefix hbodies hpart
    obtain ⟨rfl, rfl⟩ := hstop hcontent hclosed
    exact hreads
  · intro io hheader hcut
    rcases Nat.lt_or_ge maxFrameBytes (declared (content io)) with hlarge | hlen
    · obtain ⟨later, hread, -⟩ := readFrame_of_large hheader hlarge
      exact ⟨_, later, hread⟩
    · obtain ⟨later, hread⟩ := readFrame_of_cut hheader hlen hcut
      exact ⟨_, later, hread⟩

end Ngsm.Broker
