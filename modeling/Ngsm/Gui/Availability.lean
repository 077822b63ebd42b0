/-
# The dashboard needs no more than the reader keeps

The reader drops most of the records before the window.  What it keeps is enough: before
the window only the last record of a service matters, because everything earlier is
clipped to the same moment, and the last record of a service is the last of its own
spelling.
-/

import Ngsm.Gui.History

namespace Ngsm.Gui

open Ngsm.Lib
open Ngsm.Core

/-! ## Before the window only the last event matters -/

/-- Two histories of one service that agree from a moment on and in the last event
before it. -/
structure SameFrom (start : ℤ) (full kept : List TimedEvent) : Prop where
  parts : ∃ earlier earlier' later, full = earlier ++ later ∧ kept = earlier' ++ later ∧
    (∀ event ∈ earlier, event.1 < start) ∧ (∀ event ∈ earlier', event.1 < start) ∧
    earlier.getLast? = earlier'.getLast?

section

variable {start now : ℤ} {full kept : List TimedEvent}

/-- Whether the application is up after an event. -/
def upAfter (event : TimedEvent) : Bool :=
  event.2.event == .started || event.2.event == .restarted

/-- The state at the start of the window. -/
def upAt (start : ℤ) (up : Bool) : UpState :=
  { upSince := if up then some start else none }

theorem upStep_earlier {event : TimedEvent} (h : event.1 ≤ start) (up : Bool) :
    upStep start (upAt start up) event = upAt start (upAfter event) := by
  have hclip : max event.1 start = start := max_eq_right h
  unfold upStep upAt upAfter
  rw [hclip]
  cases event.2.event <;> cases up <;> simp

/-- Events before the window leave no interval, and whether the application is up at
its start. -/
theorem foldl_upStep_earlier {events : List TimedEvent} (h : ∀ event ∈ events, event.1 ≤ start) :
    events.foldl (upStep start) {} = upAt start (events.getLast?.any upAfter) := by
  induction events using List.reverseRecOn with
  | nil => rfl
  | append_singleton events event ih =>
      have hearlier := ih fun other hother => h other (List.mem_append_left _ hother)
      have hlast := h event (List.mem_append_right _ List.mem_cons_self)
      rw [List.foldl_append, hearlier, List.getLast?_concat]
      exact upStep_earlier hlast _

theorem SameFrom.mono (h : SameFrom start full kept) {start' : ℤ} (hle : start ≤ start') :
    SameFrom start' full kept := by
  obtain ⟨earlier, earlier', later, hfull, hkept, hearlier, hearlier', hlast⟩ := h.parts
  exact ⟨earlier, earlier', later, hfull, hkept,
    fun event hevent => lt_of_lt_of_le (hearlier event hevent) hle,
    fun event hevent => lt_of_lt_of_le (hearlier' event hevent) hle, hlast⟩

theorem SameFrom.buildUpIntervals (h : SameFrom start full kept) (state : Option ServiceState) :
    buildUpIntervals full start now state = buildUpIntervals kept start now state := by
  obtain ⟨earlier, earlier', later, rfl, rfl, hearlier, hearlier', hlast⟩ := h.parts
  unfold Gui.buildUpIntervals
  rw [List.foldl_append, List.foldl_append,
    foldl_upStep_earlier fun event hevent => le_of_lt (hearlier event hevent),
    foldl_upStep_earlier fun event hevent => le_of_lt (hearlier' event hevent), hlast]

theorem SameFrom.getLast? (h : SameFrom start full kept) : full.getLast? = kept.getLast? := by
  obtain ⟨earlier, earlier', later, rfl, rfl, -, -, hlast⟩ := h.parts
  rw [List.getLast?_append, List.getLast?_append, hlast]

/-- Both histories begin at the same moment of the window. -/
theorem SameFrom.first (h : SameFrom start full kept) :
    (Group.ofList full).map (fun group => max group.first.1 start) =
      (Group.ofList kept).map (fun group => max group.first.1 start) := by
  obtain ⟨earlier, earlier', later, rfl, rfl, hearlier, hearlier', hlast⟩ := h.parts
  cases earlier with
  | nil =>
      have hnone : earlier' = [] := List.getLast?_eq_none_iff.mp hlast.symm
      rw [hnone]
  | cons event earlier =>
      cases earlier' with
      | nil => simp at hlast
      | cons event' earlier' =>
          have hfirst := hearlier event List.mem_cons_self
          have hfirst' := hearlier' event' List.mem_cons_self
          simp only [List.cons_append, Group.ofList, Option.map_some]
          rw [max_eq_right hfirst.le, max_eq_right hfirst'.le]

end

/-- Two groupings that give every service the same history from a moment on. -/
def SameGroups (start : ℤ) (full kept : ServiceEvents) : Prop :=
  ∀ name : String, ∃ events events', full[name]? = Group.ofList events ∧
    kept[name]? = Group.ofList events' ∧ SameFrom start events events'

section

variable {start now : ℤ} {full kept : ServiceEvents}

theorem events_of_ofList {events : List TimedEvent} :
    ((Group.ofList events).bind fun group => group.events.getLast?.map Prod.snd) =
      events.getLast?.map Prod.snd := by
  cases events with
  | nil => rfl
  | cons first rest => rfl

theorem SameGroups.countService (h : SameGroups start full kept)
    (parseTs : String → Option ℤ) (c : Counts) (service : ServiceDefinition) :
    countService parseTs full now c service = countService parseTs kept now c service := by
  obtain ⟨events, events', hfull, hkept, hsame⟩ := h service.native.name
  unfold Gui.countService
  rw [hfull, hkept, events_of_ofList, events_of_ofList, hsame.getLast?]

theorem SameGroups.serviceTimeline (h : SameGroups start full kept)
    (service : ServiceDefinition) :
    serviceTimeline full start now service = serviceTimeline kept start now service := by
  obtain ⟨events, events', hfull, hkept, hsame⟩ := h service.native.name
  have hfirst := hsame.first
  unfold Gui.serviceTimeline
  rw [hfull, hkept]
  cases events with
  | nil =>
      cases events' with
      | nil => rfl
      | cons event' rest' => cases hfirst
  | cons event rest =>
      cases events' with
      | nil => cases hfirst
      | cons event' rest' =>
          have hstart : max event.1 start = max event'.1 start := Option.some.inj hfirst
          simp only [Group.ofList, Group.events]
          rw [hstart]
          rw [(hsame.mono (le_max_right event'.1 start)).buildUpIntervals]

theorem SameGroups.buildServiceTimelines (h : SameGroups start full kept)
    (defs : List ServiceDefinition) :
    buildServiceTimelines defs full start now = buildServiceTimelines defs kept start now := by
  have hsame : Gui.serviceTimeline full start now = Gui.serviceTimeline kept start now := by
    funext service
    exact h.serviceTimeline service
  unfold Gui.buildServiceTimelines
  rw [hsame]

theorem SameGroups.computeCounts (h : SameGroups start full kept)
    (parseTs : String → Option ℤ) (defs : List ServiceDefinition) :
    computeCounts parseTs defs full now = computeCounts parseTs defs kept now := by
  have hstep : Gui.countService parseTs full now = Gui.countService parseTs kept now := by
    funext c service
    exact h.countService parseTs c service
  unfold Gui.computeCounts
  rw [hstep]

end

/-! ## Grouping -/

section

variable (ordinalNameEq : List UInt16 → List UInt16 → Bool) (names : List ServiceName)

/-- Add events to a group one after the other. -/
def pushAll (group : Option Group) (events : List TimedEvent) : Option Group :=
  events.foldl (fun group event => some (group.elim { first := event } (·.push event))) group

theorem pushAll_some (group : Group) (events : List TimedEvent) :
    pushAll (some group) events = some { group with rest := group.rest ++ events } := by
  induction events generalizing group with
  | nil => simp [pushAll]
  | cons event events ih =>
      rw [pushAll, List.foldl_cons]
      exact (ih (group.push event)).trans (by simp [Group.push])

theorem pushAll_none (events : List TimedEvent) : pushAll none events = Group.ofList events := by
  cases events with
  | nil => rfl
  | cons event events => exact (pushAll_some { first := event } events).trans (by simp [Group.ofList])

/-- Looking a spelling up does not change what spellings stand for. -/
theorem canonical_insert (aliases : Std.ExtTreeMap String (Option String))
    (service other : String) :
    canonical ordinalNameEq names
        (aliases.insertIfNew service (canonical ordinalNameEq names aliases service)) other =
      canonical ordinalNameEq names aliases other := by
  unfold canonical
  rw [Std.ExtTreeMap.getElem?_insertIfNew]
  split
  · rename_i hnew
    obtain ⟨hsame, habsent⟩ := hnew
    have heq : service = other := by simpa using hsame
    subst heq
    rw [Std.ExtTreeMap.getElem?_eq_none habsent]
    rfl
  · rfl

theorem groupEvent_aliases (grouping : Grouping) (event : TimedEvent) :
    (groupEvent ordinalNameEq names grouping event).aliases =
      grouping.aliases.insertIfNew event.2.service
        (canonical ordinalNameEq names grouping.aliases event.2.service) := by
  unfold groupEvent
  dsimp only
  split <;> rfl

theorem groupEvent_grouped (grouping : Grouping) (event : TimedEvent) (name : String) :
    ((groupEvent ordinalNameEq names grouping event).grouped)[name]? =
      if canonical ordinalNameEq names grouping.aliases event.2.service = some name then
        pushAll (grouping.grouped[name]?) [event]
      else grouping.grouped[name]? := by
  unfold groupEvent
  dsimp only
  split
  · rename_i found hfound
    rw [hfound, Std.ExtTreeMap.getElem?_alter]
    by_cases hname : found = name
    · subst hname
      simp [pushAll]
    · simp [hname]
  · rename_i hnone
    rw [hnone, if_neg (by simp)]

/-- The group of a service holds the events whose spelling stands for it. -/
theorem foldl_groupEvent (events : List TimedEvent) (grouping : Grouping) (name : String) :
    ((events.foldl (groupEvent ordinalNameEq names) grouping).grouped)[name]? =
      pushAll (grouping.grouped[name]?) (events.filter fun event =>
        canonical ordinalNameEq names grouping.aliases event.2.service == some name) := by
  induction events generalizing grouping with
  | nil => rfl
  | cons event events ih =>
      have haliases : ∀ other, canonical ordinalNameEq names
          (groupEvent ordinalNameEq names grouping event).aliases other =
            canonical ordinalNameEq names grouping.aliases other := by
        intro other
        rw [groupEvent_aliases]
        exact canonical_insert ordinalNameEq names grouping.aliases event.2.service other
      rw [List.foldl_cons, ih]
      simp only [haliases, groupEvent_grouped]
      by_cases hname : canonical ordinalNameEq names grouping.aliases event.2.service = some name
      · rw [if_pos hname, List.filter_cons_of_pos (by simpa using hname)]
        rfl
      · rw [if_neg hname, List.filter_cons_of_neg (by simpa using hname)]

/-- Grouping by service looks at the spelling of an event alone. -/
theorem exists_standsFor (defs : List ServiceDefinition) :
    ∃ standsFor : String → Option String, ∀ (events : List TimedEvent) (name : String),
      (groupServiceEvents ordinalNameEq defs events)[name]? =
        Group.ofList (events.filter fun event => standsFor event.2.service == some name) := by
  unfold groupServiceEvents
  by_cases hnames : (managedNames defs).isEmpty = true
  · refine ⟨fun _ => none, ?_⟩
    intro events name
    have hnone : events.filter (fun _ => (none : Option String) == some name) = [] := by simp
    rw [if_pos hnames, hnone]
    exact Std.ExtTreeMap.getElem?_empty
  · refine ⟨canonical ordinalNameEq (managedNames defs) ((managedNames defs).foldl
      (fun aliases name => aliases.insert name.1 (some name.1)) ∅), ?_⟩
    intro events name
    rw [if_neg hnames, foldl_groupEvent]
    exact (congrArg (pushAll · _) Std.ExtTreeMap.getElem?_empty).trans (pushAll_none _)

end

/-! ## The kept history -/

section

variable (parseTs : String → Option ℤ) (since now : ℤ) (records : List EventRecord)

/-- A record with its time. -/
def Timed.event (timed : Timed) : TimedEvent :=
  (timed.ts, timed.record)

/-- The whole history, in the order of its times and places. -/
def sortedHistory : List Timed :=
  (dated parseTs now records).mergeSort (Chronicle.byKey Timed.ts Timed.order)

theorem sortedHistory_sorted : (sortedHistory parseTs now records).Pairwise
    fun a b => Chronicle.byKey Timed.ts Timed.order a b = true :=
  List.pairwise_mergeSort Chronicle.byKey_trans Chronicle.byKey_total _

theorem filterMap_dated (start : ℕ) :
    ((records.filterMap fun record => (parseTs record.ts).map (·, record)).filter fun event =>
        decide (event.1 ≤ now)) =
      ((records.zipIdx start).filterMap (date parseTs now)).map Timed.event := by
  induction records generalizing start with
  | nil => rfl
  | cons record records ih =>
      rw [List.zipIdx_cons]
      cases hparse : parseTs record.ts with
      | none =>
          have hnone : date parseTs now (record, start) = none := by simp [date, hparse]
          rw [List.filterMap_cons_none (by simp [hparse]), List.filterMap_cons_none hnone, ih]
      | some ts =>
          have hdated : (parseTs record.ts).map (·, record) = some (ts, record) := by
            rw [hparse]
            rfl
          by_cases hnow : ts ≤ now
          · have hsome : date parseTs now (record, start) =
                some { ts, order := start, record } := date_eq_some.mpr ⟨hparse, hnow, rfl, rfl⟩
            simp only [List.filterMap_cons, hdated, hsome]
            rw [List.filter_cons_of_pos (by simpa using hnow), List.map_cons, ih (start + 1)]
            rfl
          · have hnone : date parseTs now (record, start) = none := by
              simp [date, hparse, Option.filter, hnow]
            simp only [List.filterMap_cons, hdated, hnone]
            rw [List.filter_cons_of_neg (by simpa using hnow), ih (start + 1)]

theorem datedEvents_eq :
    datedEvents parseTs records now = (sortedHistory parseTs now records).map Timed.event := by
  unfold datedEvents sortedHistory
  rw [filterMap_dated parseTs now records 0, ← (dated_inOrder parseTs now records).sort_eq]
  have hsame : ∀ a ∈ dated parseTs now records, ∀ b ∈ dated parseTs now records,
      Chronicle.byTime Timed.ts a b = byTs a.event b.event := fun _ _ _ _ => rfl
  exact (List.map_mergeSort hsame).symm

/-- Dating and sorting again changes nothing in what the reader returns. -/
theorem datedEvents_historyWindow (iteration : IterationOrder) :
    datedEvents parseTs (historyWindow parseTs iteration records since now) now =
      ((sortedHistory parseTs now records).filter (keeps parseTs since now records)).map
        Timed.event := by
  rw [historyWindow_eq]
  have hmem : ∀ timed ∈ (sortedHistory parseTs now records).filter
      (keeps parseTs since now records), parseTs timed.record.ts = some timed.ts ∧
        timed.ts ≤ now := fun timed htimed =>
    parse_of_mem_dated (List.mem_mergeSort.mp (List.mem_filter.mp htimed).1)
  have hsorted := (sortedHistory_sorted parseTs now records).filter
    (keeps parseTs since now records)
  unfold datedEvents
  change (List.filter _ (List.filterMap _ (((sortedHistory parseTs now records).filter
    (keeps parseTs since now records)).map Timed.record))).mergeSort byTs = _
  generalize (sortedHistory parseTs now records).filter (keeps parseTs since now records) = kept
    at hmem hsorted ⊢
  have hagain : ((kept.map Timed.record).filterMap fun record =>
      (parseTs record.ts).map (·, record)) = kept.map Timed.event := by
    rw [List.filterMap_map, ← List.filterMap_eq_map]
    apply List.filterMap_congr
    intro timed htimed
    simp [Function.comp, (hmem timed htimed).1, Timed.event]
  have hpast : (kept.map Timed.event).filter (fun event => decide (event.1 ≤ now)) =
      kept.map Timed.event := by
    rw [List.filter_eq_self]
    intro event hevent
    obtain ⟨timed, htimed, rfl⟩ := List.mem_map.mp hevent
    exact decide_eq_true (hmem timed htimed).2
  rw [hagain, hpast]
  apply List.mergeSort_of_pairwise
  rw [List.pairwise_map]
  exact hsorted.imp Chronicle.byTime_of_byKey

/-- The last record of a service before the window is one of the seeds: it is the last of
its own spelling. -/
theorem keeps_last {group earlier : List Timed} {last : Timed} (sameService : Timed → Bool)
    (hspelling : ∀ a b, a.record.service = b.record.service → sameService a = sameService b)
    (hgroup : group = (sortedHistory parseTs now records).filter sameService)
    (hearlier : group.filter (before since) = earlier ++ [last]) :
    keeps parseTs since now records last = true := by
  have hmem : ∀ timed ∈ group, timed ∈ dated parseTs now records := fun timed htimed => by
    rw [hgroup] at htimed
    exact List.mem_mergeSort.mp (List.mem_filter.mp htimed).1
  have hlast : last ∈ group.filter (before since) := by simp [hearlier]
  obtain ⟨hlastGroup, hlastBefore⟩ := List.mem_filter.mp hlast
  have hsorted : (group.filter (before since)).Pairwise
      fun a b => Chronicle.byKey Timed.ts Timed.order a b = true := by
    rw [hgroup]
    exact ((sortedHistory_sorted parseTs now records).filter _).filter _
  have hseed : last ∈ seedsOf parseTs since now records := by
    rw [(seeded_seedsOf parseTs since now records).mem_iff]
    refine ⟨List.mem_filter.mpr ⟨hmem last hlastGroup, hlastBefore⟩, ?_⟩
    intro other hother hsame
    obtain ⟨hotherDated, hotherBefore⟩ := List.mem_filter.mp hother
    have hotherGroup : other ∈ group.filter (before since) := by
      rw [hgroup, List.mem_filter, List.mem_filter]
      refine ⟨⟨List.mem_mergeSort.mpr hotherDated, ?_⟩, hotherBefore⟩
      rw [hspelling other last hsame]
      rw [hgroup] at hlastGroup
      exact (List.mem_filter.mp hlastGroup).2
    rw [hearlier] at hotherGroup hsorted
    rcases List.mem_append.mp hotherGroup with hfront | hend
    · exact (List.pairwise_append.mp hsorted).2.2 other hfront last List.mem_cons_self
    · rw [List.mem_singleton.mp hend]
      exact byKey_refl last
  rw [keeps, decide_eq_true hseed, Bool.or_true]

/-- What is kept of one service's history agrees with the whole from the window on. -/
theorem sameFrom_kept (standsFor : String → Option String) (name : String) :
    SameFrom since
      (((sortedHistory parseTs now records).map Timed.event).filter fun event =>
        standsFor event.2.service == some name)
      ((((sortedHistory parseTs now records).filter
        (keeps parseTs since now records)).map Timed.event).filter fun event =>
          standsFor event.2.service == some name) := by
  have hspelling : ∀ a b : Timed, a.record.service = b.record.service →
      (standsFor a.record.service == some name) = (standsFor b.record.service == some name) :=
    fun a b hsame => by rw [hsame]
  rw [List.filter_map, List.filter_map, List.filter_comm]
  change SameFrom since (List.map Timed.event ((sortedHistory parseTs now records).filter
    fun timed => standsFor timed.record.service == some name)) (List.map Timed.event
      (((sortedHistory parseTs now records).filter
        fun timed => standsFor timed.record.service == some name).filter _))
  generalize hgroup : (sortedHistory parseTs now records).filter
    (fun timed => standsFor timed.record.service == some name) = group
  have hsorted : group.Pairwise fun a b => a.ts ≤ b.ts := by
    rw [← hgroup]
    refine List.Pairwise.imp ?_ ((sortedHistory_sorted parseTs now records).filter _)
    intro a b hkey
    exact of_decide_eq_true (Chronicle.byTime_of_byKey hkey)
  have hparts : group = group.filter (before since) ++ group.filter (fun timed =>
      !before since timed) := Chronicle.split_at hsorted
  have hkept : group.filter (keeps parseTs since now records) =
      (group.filter (before since)).filter (keeps parseTs since now records) ++
        group.filter (fun timed => !before since timed) := by
    conv => lhs; rw [hparts]
    rw [List.filter_append]
    congr 1
    rw [List.filter_eq_self]
    intro timed htimed
    rw [keeps, (List.mem_filter.mp htimed).2, Bool.true_or]
  have hbefore : ∀ event ∈ (group.filter (before since)).map Timed.event, event.1 < since := by
    intro event hevent
    obtain ⟨timed, htimed, rfl⟩ := List.mem_map.mp hevent
    exact of_decide_eq_true (List.mem_filter.mp htimed).2
  refine ⟨(group.filter (before since)).map Timed.event,
    ((group.filter (before since)).filter (keeps parseTs since now records)).map Timed.event,
    (group.filter (fun timed => !before since timed)).map Timed.event, ?_, ?_, hbefore, ?_, ?_⟩
  · rw [← List.map_append, ← hparts]
  · rw [← List.map_append, ← hkept]
  · intro event hevent
    obtain ⟨timed, htimed, rfl⟩ := List.mem_map.mp hevent
    exact hbefore _ (List.mem_map_of_mem (List.mem_filter.mp htimed).1)
  · rw [List.getLast?_map, List.getLast?_map]
    congr 1
    rcases List.eq_nil_or_concat (group.filter (before since)) with hnone | ⟨earlier, last, hlast⟩
    · rw [hnone]
      rfl
    · rw [List.concat_eq_append] at hlast
      have hkeeps := keeps_last parseTs since now records _ hspelling hgroup.symm hlast
      rw [hlast, List.filter_append, List.filter_cons_of_pos hkeeps, List.filter_nil,
        List.getLast?_concat, List.getLast?_concat]

variable (ordinalNameEq : List UInt16 → List UInt16 → Bool) (defs : List ServiceDefinition)

/-- The numbers of the dashboard are the same from the kept history as from all the
records. -/
theorem computeMetrics_historyWindow (iteration : IterationOrder) :
    computeMetrics parseTs ordinalNameEq defs
        (historyWindow parseTs iteration records (now - days 30) now) now =
      computeMetrics parseTs ordinalNameEq defs records now := by
  have hgroups : SameGroups (now - days 30)
      (groupServiceEvents ordinalNameEq defs (datedEvents parseTs records now))
      (groupServiceEvents ordinalNameEq defs (datedEvents parseTs
        (historyWindow parseTs iteration records (now - days 30) now) now)) := by
    obtain ⟨standsFor, hstands⟩ := exists_standsFor ordinalNameEq defs
    intro name
    refine ⟨_, _, hstands _ name, hstands _ name, ?_⟩
    rw [datedEvents_eq, datedEvents_historyWindow]
    exact sameFrom_kept parseTs (now - days 30) now records standsFor name
  unfold computeMetrics
  dsimp only
  rw [hgroups.computeCounts, hgroups.buildServiceTimelines]

end

end Ngsm.Gui
