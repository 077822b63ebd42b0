/-
# Numbers of the dashboard

The dashboard counts the managed services by state and draws, for each of them, when its
application was up during the last thirty days.  Both come from the recorded events,
grouped by the service they belong to: a record may spell the name of its service in
another case.

Timestamps are parsed and names are compared by code outside the repository, which is
given from outside.  An instant is a number of nanoseconds.
-/

import Std.Data.ExtTreeMap.Lemmas
import Ngsm.Core.ImagePath
import Ngsm.Lib.Chronicle
import Ngsm.Lib.Utf16

namespace Ngsm.Gui

open Ngsm.Lib
open Ngsm.Core

/-! ## Recorded events -/

inductive EventKind where
  | started
  | stopped
  | childExited
  | restarted
  | throttled
  deriving DecidableEq, Repr

inductive StopReason where
  | scmStop
  deriving DecidableEq, Repr

structure EventRecord where
  ts : String
  service : String
  event : EventKind
  pid : Option UInt32 := none
  exitCode : Option Int32 := none
  livedMs : Option UInt64 := none
  delayMs : Option UInt64 := none
  reason : Option StopReason := none
  deriving DecidableEq, Repr

def nanosPerMilli : ℤ := 1000000

def hours (n : ℤ) : ℤ := n * 3600000 * nanosPerMilli

def days (n : ℤ) : ℤ := hours (24 * n)

abbrev TimedEvent : Type :=
  ℤ × EventRecord

/-- The events of one service; there is at least one. -/
structure Group where
  first : TimedEvent
  rest : List TimedEvent := []

namespace Group

def events (group : Group) : List TimedEvent :=
  group.first :: group.rest

def push (group : Group) (event : TimedEvent) : Group :=
  { group with rest := group.rest ++ [event] }

def ofList : List TimedEvent → Option Group
  | [] => none
  | first :: rest => some { first, rest }

end Group

abbrev ServiceEvents : Type :=
  Std.ExtTreeMap String Group

/-! ## Grouping -/

section

variable (ordinalNameEq : List UInt16 → List UInt16 → Bool)

abbrev ServiceName : Type :=
  String × List UInt16

def managedNames (defs : List ServiceDefinition) : List ServiceName :=
  (defs.filter (·.isManaged)).map fun service =>
    (service.native.name, Utf16.encode service.native.name)

/-- The first service whose name is the same up to case. -/
def findName (names : List ServiceName) (service : String) : Option String :=
  let candidate := (Utf16.encode service).take 257
  if candidate.isEmpty || 256 < candidate.length then none
  else (names.find? fun name => ordinalNameEq candidate name.2).map Prod.fst

/-- The spellings that have been looked up, and the groups. -/
structure Grouping where
  aliases : Std.ExtTreeMap String (Option String)
  grouped : ServiceEvents := ∅

/-- The service of a spelling, looked up once. -/
def canonical (names : List ServiceName) (aliases : Std.ExtTreeMap String (Option String))
    (service : String) : Option String :=
  (aliases[service]?).getD (findName ordinalNameEq names service)

def groupEvent (names : List ServiceName) (grouping : Grouping) (event : TimedEvent) : Grouping :=
  let service := event.2.service
  let name := canonical ordinalNameEq names grouping.aliases service
  let aliases := grouping.aliases.insertIfNew service name
  match name with
  | some name =>
      let grouped := grouping.grouped.alter name fun group =>
        some (group.elim { first := event } (·.push event))
      { aliases, grouped }
  | none => { grouping with aliases }

def groupServiceEvents (defs : List ServiceDefinition) (events : List TimedEvent) :
    ServiceEvents :=
  let names := managedNames defs
  if names.isEmpty then ∅
  else
    let aliases : Std.ExtTreeMap String (Option String) :=
      names.foldl (fun aliases name => aliases.insert name.1 (some name.1)) ∅
    (events.foldl (groupEvent ordinalNameEq names) { aliases }).grouped

end

/-! ## Counts -/

structure Counts where
  total : ℕ := 0
  running : ℕ := 0
  stopped : ℕ := 0
  manualStart : ℕ := 0
  failed : ℕ := 0
  autoRecovering : ℕ := 0
  deriving DecidableEq, Repr

section

variable (parseTs : String → Option ℤ)

/-- A stopped service whose application last exited with an error, within a day. -/
def classifyFailed (state : Option ServiceState) (last : Option EventRecord)
    (now : ℤ) : Bool :=
  if state ≠ some .stopped then false
  else
    match last with
    | none => false
    | some record =>
        if record.event ≠ .childExited then false
        else if record.exitCode = none ∨ record.exitCode = some 0 then false
        else
          match parseTs record.ts with
          | none => false
          | some ts => if now < ts then false else decide (now - ts ≤ hours 24)

/-- A service that waits for its next start, for no longer than it announced. -/
def classifyAutoRecovering (state : Option ServiceState) (last : Option EventRecord)
    (now : ℤ) : Bool :=
  if ¬ (state = some .running ∨ state = some .startPending) then false
  else
    match last with
    | none => false
    | some record =>
        match parseTs record.ts with
        | none => false
        | some ts =>
            if now < ts then false
            else
              let waitMs : ℕ := (record.delayMs.map fun ms =>
                min ms.toNat (2 ^ 32 - 1) + 30000).getD (5 * 60 * 1000)
              record.event == .throttled &&
                decide ((now - ts).tdiv nanosPerMilli ≤ waitMs)

def countState (service : ServiceDefinition) (state : Option ServiceState) (c : Counts) :
    Counts :=
  match state with
  | some .running => { c with running := c.running + 1 }
  | some .stopped =>
      { c with
        stopped := c.stopped + 1
        manualStart := c.manualStart + (service.native.startup == .manual).toNat }
  | _ => c

def countService (events : ServiceEvents) (now : ℤ) (c : Counts)
    (service : ServiceDefinition) : Counts :=
  let state := service.runtime.map (·.state)
  let c := countState service state { c with total := c.total + 1 }
  let last := (events[service.native.name]?).bind fun group =>
    group.events.getLast?.map Prod.snd
  { c with
    failed := c.failed + (classifyFailed parseTs state last now).toNat
    autoRecovering := c.autoRecovering +
      (classifyAutoRecovering parseTs state last now).toNat }

def computeCounts (defs : List ServiceDefinition) (events : ServiceEvents)
    (now : ℤ) : Counts :=
  (defs.filter (·.isManaged)).foldl (countService parseTs events now) {}

end

/-! ## Timelines -/

/-- When one service was up, within its window. -/
structure ServiceTimeline where
  windowStart : ℤ
  intervals : List (ℤ × ℤ)
  deriving DecidableEq, Repr

/-- The intervals so far, and since when the application has been up. -/
structure UpState where
  intervals : List (ℤ × ℤ) := []
  upSince : Option ℤ := none

def upStep (start : ℤ) (s : UpState) (event : TimedEvent) : UpState :=
  let ts := max event.1 start
  match event.2.event with
  | .started | .restarted =>
      if s.upSince.isNone then { s with upSince := some (max ts start) } else s
  | .childExited | .stopped | .throttled =>
      match s.upSince with
      | some since =>
          { intervals := if since < ts then s.intervals ++ [(since, ts)] else s.intervals
            upSince := none }
      | none => s

/-- The states in which the application may still be up. -/
def mayBeUp : Option ServiceState → Bool
  | some .running | some .paused | some .pausePending | some .continuePending
  | some .stopPending => true
  | _ => false

def buildUpIntervals (events : List TimedEvent) (start now : ℤ)
    (state : Option ServiceState) : List (ℤ × ℤ) × Bool :=
  let s := events.foldl (upStep start) {}
  match s.upSince with
  | some since =>
      if mayBeUp state then
        (if since < now then s.intervals ++ [(since, now)] else s.intervals, false)
      else
        (s.intervals, true)
  | none => (s.intervals, false)

/-- The timeline of a service, if it has one, and whether its coverage is unknown. -/
def serviceTimeline (events : ServiceEvents) (windowStart now : ℤ)
    (service : ServiceDefinition) : Option ServiceTimeline × Bool :=
  match events[service.native.name]? with
  | none => (none, true)
  | some group =>
      let start := max group.first.1 windowStart
      if now ≤ start then (none, true)
      else
        let state := service.runtime.map (·.state)
        let (intervals, uncertainTail) := buildUpIntervals group.events start now state
        (some { windowStart := start, intervals }, uncertainTail)

def buildServiceTimelines (defs : List ServiceDefinition) (events : ServiceEvents)
    (windowStart now : ℤ) : List ServiceTimeline × Bool :=
  let timelines := (defs.filter (·.isManaged)).map (serviceTimeline events windowStart now)
  (timelines.filterMap Prod.fst, timelines.any Prod.snd)

/-! ## The dashboard -/

/-- What the percentages and the chart are computed from. -/
structure DashboardMetrics where
  counts : Counts
  timelines : List ServiceTimeline
  unknown : Bool
  deriving DecidableEq, Repr

def byTs (a b : TimedEvent) : Bool :=
  Chronicle.byTime Prod.fst a b

/-- The events that can be dated and are not in the future, in the order of their
times. -/
def datedEvents (parseTs : String → Option ℤ) (events : List EventRecord)
    (now : ℤ) : List TimedEvent :=
  ((events.filterMap fun event => (parseTs event.ts).map (·, event)).filter fun event =>
    decide (event.1 ≤ now)).mergeSort byTs

def computeMetrics (parseTs : String → Option ℤ)
    (ordinalNameEq : List UInt16 → List UInt16 → Bool) (defs : List ServiceDefinition)
    (events : List EventRecord) (now : ℤ) : DashboardMetrics :=
  let events := groupServiceEvents ordinalNameEq defs (datedEvents parseTs events now)
  let counts := computeCounts parseTs defs events now
  let windowStart := now - days 30
  let (timelines, unknown) := buildServiceTimelines defs events windowStart now
  { counts, timelines, unknown := unknown || counts.total == 0 }

end Ngsm.Gui
