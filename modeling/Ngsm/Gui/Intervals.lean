/-
# The intervals in which a service was up

The events of a service in the order of their times say at every moment whether its
application is up: the last event up to the moment does.  The intervals of a timeline
are computed in one pass over the events.  At every moment of the window between two
events they say the same, except behind a start that nothing closes and that the state
of the service does not confirm.
-/

import Ngsm.Gui.Availability

namespace Ngsm.Gui

open Ngsm.Lib
open Ngsm.Core

/-- The last event at or before a moment. -/
def lastAt (events : List TimedEvent) (t : ℤ) : Option TimedEvent :=
  (events.filter fun event => decide (event.1 ≤ t)).getLast?

/-- A moment inside a window at which nothing happens. -/
structure Between (events : List TimedEvent) (start now t : ℤ) : Prop where
  after_start : start < t
  before_now : t < now
  quiet : ∀ event ∈ events, event.1 ≠ t

/-- Some interval contains a moment; intervals are half-open. -/
def Covered (intervals : List (ℤ × ℤ)) (t : ℤ) : Prop :=
  ∃ interval ∈ intervals, interval.1 ≤ t ∧ t < interval.2

/-- Intervals in order, disjoint, not empty and inside a window. -/
structure Ordered (intervals : List (ℤ × ℤ)) (start now : ℤ) : Prop where
  disjoint : intervals.Pairwise fun earlier later => earlier.2 ≤ later.1
  nonempty : ∀ interval ∈ intervals, interval.1 < interval.2
  inside : ∀ interval ∈ intervals, start ≤ interval.1 ∧ interval.2 ≤ now

/-- The events are in the order of their times. -/
def InTime (events : List TimedEvent) : Prop :=
  events.Pairwise fun earlier later => earlier.1 ≤ later.1

variable {events earlier later : List TimedEvent} {event : TimedEvent} {start now t : ℤ}
  {intervals : List (ℤ × ℤ)} {s : UpState}

/-! ## The last event at a moment -/

theorem lastAt_concat_of_lt (h : t < event.1) : lastAt (events ++ [event]) t = lastAt events t := by
  unfold lastAt
  rw [List.filter_append, List.filter_cons_of_neg (by simpa using h), List.filter_nil,
    List.append_nil]

theorem lastAt_concat_of_le (h : event.1 ≤ t) : lastAt (events ++ [event]) t = some event := by
  unfold lastAt
  rw [List.filter_append, List.filter_cons_of_pos (by simpa using h), List.filter_nil,
    List.getLast?_concat]

theorem lastAt_append_of_lt (h : ∀ event ∈ later, t < event.1) :
    lastAt (events ++ later) t = lastAt events t := by
  unfold lastAt
  rw [List.filter_append, List.filter_eq_nil_iff (l := later) |>.mpr (by simpa using h),
    List.append_nil]

/-! ## Lists of intervals -/

theorem Covered.append_iff {more : List (ℤ × ℤ)} :
    Covered (intervals ++ more) t ↔ Covered intervals t ∨ Covered more t := by
  unfold Covered
  simp only [List.mem_append, or_and_right, exists_or]

theorem covered_singleton {lower upper : ℤ} :
    Covered [(lower, upper)] t ↔ lower ≤ t ∧ t < upper := by
  simp [Covered]

theorem Ordered.mono (h : Ordered intervals start now) {now' : ℤ} (hle : now ≤ now') :
    Ordered intervals start now' :=
  ⟨h.disjoint, h.nonempty, fun interval hinterval =>
    ⟨(h.inside interval hinterval).1, (h.inside interval hinterval).2.trans hle⟩⟩

/-- An interval behind all others is added to them. -/
theorem Ordered.concat {lower upper : ℤ} (h : Ordered intervals start lower)
    (hstart : start ≤ lower) (hlt : lower < upper) :
    Ordered (intervals ++ [(lower, upper)]) start upper := by
  constructor
  · rw [List.pairwise_append]
    refine ⟨h.disjoint, List.pairwise_singleton _ _, ?_⟩
    intro interval hinterval last hlast
    rw [List.mem_singleton.mp hlast]
    exact (h.inside interval hinterval).2
  · intro interval hinterval
    rcases List.mem_append.mp hinterval with hold | hnew
    · exact h.nonempty interval hold
    · rw [List.mem_singleton.mp hnew]
      exact hlt
  · intro interval hinterval
    rcases List.mem_append.mp hinterval with hold | hnew
    · exact (h.mono hlt.le).inside interval hold
    · rw [List.mem_singleton.mp hnew]
      exact ⟨hstart, le_refl upper⟩

/-- The interval is added where it is not empty, and covers the same either way. -/
theorem covered_pushed {lower upper : ℤ} :
    Covered (if lower < upper then intervals ++ [(lower, upper)] else intervals) t ↔
      Covered intervals t ∨ (lower ≤ t ∧ t < upper) := by
  split
  · rw [Covered.append_iff, covered_singleton]
  · rename_i hempty
    constructor
    · exact Or.inl
    · rintro (hcovered | ⟨hlower, hupper⟩)
      · exact hcovered
      · exact absurd (lt_of_le_of_lt hlower hupper) hempty

theorem Ordered.pushed {lower upper : ℤ} (h : Ordered intervals start lower)
    (hstart : start ≤ lower) (hle : lower ≤ upper) :
    Ordered (if lower < upper then intervals ++ [(lower, upper)] else intervals) start upper := by
  split
  · rename_i hlt
    exact h.concat hstart hlt
  · exact h.mono hle

/-! ## The pass over the events -/

/-- What the pass has found in the events so far, the last of which is at `last` or before:
the intervals, and an open up period exactly when the last event is a start.  A moment at
which nothing happens is in an interval or in the open period exactly when the application
is up. -/
structure Reconstructed (start last : ℤ) (events : List TimedEvent) (s : UpState) : Prop where
  opened : s.upSince.isSome = events.getLast?.any upAfter
  since : ∀ since, s.upSince = some since → start ≤ since ∧ since ≤ last
  ordered : Ordered s.intervals start (s.upSince.getD last)
  covered : ∀ t, start < t → (∀ event ∈ events, event.1 ≠ t) →
    (Covered s.intervals t ∨ (∃ since, s.upSince = some since ∧ since ≤ t) ↔
      (lastAt events t).any upAfter = true)

theorem reconstructed_nil : Reconstructed start start [] {} where
  opened := rfl
  since := nofun
  ordered := ⟨List.Pairwise.nil, nofun, nofun⟩
  covered := fun t _ _ => by simp [Covered, lastAt]

theorem upStep_of_up (hup : upAfter event = true) :
    upStep start s event =
      if s.upSince.isNone then { s with upSince := some (max event.1 start) } else s := by
  have hclip : max (max event.1 start) start = max event.1 start := max_eq_left (le_max_right _ _)
  unfold upStep
  unfold upAfter at hup
  dsimp only
  rw [hclip]
  cases hevent : event.2.event with
  | started => rfl
  | restarted => rfl
  | childExited => exact absurd hup (by rw [hevent]; decide)
  | stopped => exact absurd hup (by rw [hevent]; decide)
  | throttled => exact absurd hup (by rw [hevent]; decide)

theorem upStep_of_down (hdown : upAfter event = false) :
    upStep start s event =
      match s.upSince with
      | some since =>
          { intervals :=
              if since < max event.1 start then s.intervals ++ [(since, max event.1 start)]
              else s.intervals
            upSince := none }
      | none => s := by
  unfold upStep
  unfold upAfter at hdown
  cases hevent : event.2.event with
  | started => exact absurd hdown (by rw [hevent]; decide)
  | restarted => exact absurd hdown (by rw [hevent]; decide)
  | childExited => rfl
  | stopped => rfl
  | throttled => rfl

/-- No interval contains a moment behind all of them. -/
theorem Ordered.not_covered (h : Ordered intervals start now) (hle : now ≤ t) :
    ¬ Covered intervals t := by
  rintro ⟨interval, hinterval, -, hupper⟩
  exact absurd (lt_of_lt_of_le hupper ((h.inside interval hinterval).2.trans hle)) (lt_irrefl t)

section

variable {last : ℤ}

/-- A start opens an up period where none is open. -/
theorem Reconstructed.start_event (h : Reconstructed start last events s)
    (hlast : last ≤ max event.1 start) (hup : upAfter event = true) :
    Reconstructed start (max event.1 start) (events ++ [event]) (upStep start s event) := by
  have hstart : start ≤ max event.1 start := le_max_right _ _
  rw [upStep_of_up hup]
  cases hsince : s.upSince with
  | none =>
      rw [if_pos (by rfl)]
      have hordered := h.ordered
      rw [hsince] at hordered
      refine ⟨?_, ?_, hordered.mono hlast, ?_⟩
      · rw [List.getLast?_concat, Option.any_some, hup]
        rfl
      · rintro since ⟨⟩
        exact ⟨hstart, le_refl _⟩
      · intro t ht hquiet
        have hne := hquiet event (List.mem_append_right events List.mem_cons_self)
        have hold := h.covered t ht fun other hother =>
          hquiet other (List.mem_append_left _ hother)
        rw [hsince] at hold
        rcases lt_or_gt_of_ne hne with hafter | hbefore
        · rw [lastAt_concat_of_le hafter.le, Option.any_some, hup]
          exact iff_of_true (.inr ⟨_, rfl, max_le hafter.le ht.le⟩) rfl
        · rw [lastAt_concat_of_lt hbefore, ← hold]
          refine or_congr_right (iff_of_false ?_ nofun)
          rintro ⟨since, ⟨⟩, hle⟩
          exact absurd ((le_max_left _ _).trans hle) (not_le.mpr hbefore)
  | some since =>
      obtain ⟨hsinceStart, hsinceLast⟩ := h.since since hsince
      have hordered := h.ordered
      rw [hsince] at hordered
      rw [if_neg (by simp)]
      refine ⟨?_, ?_, by rw [hsince]; exact hordered, ?_⟩
      · rw [List.getLast?_concat, Option.any_some, hup, hsince]
        rfl
      · rintro other hother
        rw [hsince] at hother
        cases hother
        exact ⟨hsinceStart, hsinceLast.trans hlast⟩
      · intro t ht hquiet
        have hne := hquiet event (List.mem_append_right events List.mem_cons_self)
        have hold := h.covered t ht fun other hother =>
          hquiet other (List.mem_append_left _ hother)
        rcases lt_or_gt_of_ne hne with hafter | hbefore
        · rw [lastAt_concat_of_le hafter.le, Option.any_some, hup]
          exact iff_of_true (.inr ⟨since, hsince,
            (hsinceLast.trans hlast).trans (max_le hafter.le ht.le)⟩) rfl
        · rw [lastAt_concat_of_lt hbefore, hold]

/-- Every other event closes the up period that is open. -/
theorem Reconstructed.close_event (h : Reconstructed start last events s)
    (hlast : last ≤ max event.1 start) (hdown : upAfter event = false) :
    Reconstructed start (max event.1 start) (events ++ [event]) (upStep start s event) := by
  rw [upStep_of_down hdown]
  cases hsince : s.upSince with
  | none =>
      have hordered := h.ordered
      rw [hsince] at hordered
      have hmono := hordered.mono hlast
      dsimp only
      refine ⟨?_, ?_, by rw [hsince]; exact hmono, ?_⟩
      · rw [List.getLast?_concat, Option.any_some, hdown, hsince]
        rfl
      · intro other hother
        rw [hsince] at hother
        cases hother
      · intro t ht hquiet
        have hne := hquiet event (List.mem_append_right events List.mem_cons_self)
        have hold := h.covered t ht fun other hother =>
          hquiet other (List.mem_append_left _ hother)
        rcases lt_or_gt_of_ne hne with hafter | hbefore
        · rw [lastAt_concat_of_le hafter.le, Option.any_some, hdown, hsince]
          refine iff_of_false ?_ Bool.false_ne_true
          rintro (hcovered | ⟨other, hother, -⟩)
          · exact hmono.not_covered (max_le hafter.le ht.le) hcovered
          · cases hother
        · rw [lastAt_concat_of_lt hbefore, hold]
  | some since =>
      obtain ⟨hsinceStart, hsinceLast⟩ := h.since since hsince
      have hordered := h.ordered
      rw [hsince] at hordered
      have hpushed := hordered.pushed hsinceStart (hsinceLast.trans hlast)
      refine ⟨?_, nofun, hpushed, ?_⟩
      · rw [List.getLast?_concat, Option.any_some, hdown]
        rfl
      · intro t ht hquiet
        have hne := hquiet event (List.mem_append_right events List.mem_cons_self)
        have hold := h.covered t ht fun other hother =>
          hquiet other (List.mem_append_left _ hother)
        rw [hsince] at hold
        rcases lt_or_gt_of_ne hne with hafter | hbefore
        · rw [lastAt_concat_of_le hafter.le, Option.any_some, hdown]
          refine iff_of_false ?_ Bool.false_ne_true
          rintro (hcovered | ⟨other, hother, -⟩)
          · exact hpushed.not_covered (max_le hafter.le ht.le) hcovered
          · cases hother
        · rw [lastAt_concat_of_lt hbefore, ← hold, covered_pushed, or_assoc]
          refine or_congr_right ?_
          constructor
          · rintro (⟨hle, -⟩ | ⟨other, hother, -⟩)
            · exact ⟨since, rfl, hle⟩
            · cases hother
          · rintro ⟨other, ⟨⟩, hle⟩
            exact .inl ⟨hle, lt_of_lt_of_le hbefore (le_max_left _ _)⟩

end

/-- The last moment of a history, not before the window. -/
def lastMoment (start : ℤ) (events : List TimedEvent) : ℤ :=
  (events.getLast?.map fun event => max event.1 start).getD start

theorem reconstructed_foldl (start : ℤ) (hsorted : InTime events) :
    Reconstructed start (lastMoment start events) events (events.foldl (upStep start) {}) := by
  induction events using List.reverseRecOn with
  | nil => exact reconstructed_nil
  | append_singleton events event ih =>
      obtain ⟨hbefore, -, hle⟩ := List.pairwise_append.mp hsorted
      have hlast : lastMoment start events ≤ max event.1 start := by
        unfold lastMoment
        cases hevents : events.getLast? with
        | none => exact le_max_right _ _
        | some previous =>
            have hprevious := hle previous (List.mem_of_getLast? hevents) event List.mem_cons_self
            change max previous.1 start ≤ max event.1 start
            omega
      have hmoment : lastMoment start (events ++ [event]) = max event.1 start := by
        rw [lastMoment, List.getLast?_concat]
        rfl
      rw [List.foldl_append, hmoment]
      cases hup : upAfter event with
      | true => exact (ih hbefore).start_event hlast hup
      | false => exact (ih hbefore).close_event hlast hup

/-! ## The intervals of a timeline -/

theorem foldl_upStep_up (hup : ∀ event ∈ later, upAfter event = true) :
    (later.foldl (upStep start) s).intervals = s.intervals := by
  induction later generalizing s with
  | nil => rfl
  | cons event later ih =>
      rw [List.foldl_cons, ih fun other hother => hup other (List.mem_cons_of_mem event hother),
        upStep_of_up (hup event List.mem_cons_self)]
      split <;> rfl

/-- A history whose last event is a start ends in an up period that is left open. -/
theorem exists_left_open (hlast : events.getLast?.any upAfter = true) :
    ∃ earlier first later, events = earlier ++ first :: later ∧
      (∀ event ∈ first :: later, upAfter event = true) ∧
      earlier.getLast?.any upAfter = false := by
  induction events using List.reverseRecOn with
  | nil => cases hlast
  | append_singleton events event ih =>
      rw [List.getLast?_concat, Option.any_some] at hlast
      cases hup : events.getLast?.any upAfter with
      | false => exact ⟨events, event, [], rfl, by simpa using hlast, hup⟩
      | true =>
          obtain ⟨earlier, first, later, rfl, hlater, hearlier⟩ := ih hup
          refine ⟨earlier, first, later ++ [event], by simp, ?_, hearlier⟩
          intro other hother
          rw [← List.cons_append, List.mem_append, List.mem_singleton] at hother
          obtain hother | rfl := hother
          · exact hlater other hother
          · exact hlast

theorem lastMoment_le (hnow : ∀ event ∈ events, event.1 ≤ now) (hstart : start ≤ now) :
    lastMoment start events ≤ now := by
  unfold lastMoment
  cases hevents : events.getLast? with
  | none => exact hstart
  | some last => exact max_le (hnow last (List.mem_of_getLast? hevents)) hstart

theorem Between.append_left (h : Between (earlier ++ later) start now t) :
    Between earlier start now t :=
  ⟨h.after_start, h.before_now, fun event hevent =>
    h.quiet event (List.mem_append_left later hevent)⟩

/-- The uncertain flag says that an up period is left open which the state does not confirm. -/
theorem buildUpIntervals_uncertain (state : Option ServiceState) (hsorted : InTime events) :
    (buildUpIntervals events start now state).2 = true ↔
      events.getLast?.any upAfter = true ∧ mayBeUp state = false := by
  have hopened := (reconstructed_foldl start hsorted).opened
  rw [← hopened]
  unfold buildUpIntervals
  dsimp only
  cases (events.foldl (upStep start) {}).upSince with
  | none => simp
  | some since => cases mayBeUp state <;> simp

theorem buildUpIntervals_ordered (state : Option ServiceState) (hsorted : InTime events)
    (hnow : ∀ event ∈ events, event.1 ≤ now) (hstart : start ≤ now) :
    Ordered (buildUpIntervals events start now state).1 start now := by
  have h := reconstructed_foldl start hsorted
  have hmoment := lastMoment_le hnow hstart
  have hordered := h.ordered
  unfold buildUpIntervals
  dsimp only
  cases hsince : (events.foldl (upStep start) {}).upSince with
  | none =>
      rw [hsince] at hordered
      exact hordered.mono hmoment
  | some since =>
      obtain ⟨hlower, hupper⟩ := h.since since hsince
      rw [hsince] at hordered
      cases mayBeUp state with
      | true => exact hordered.pushed hlower (hupper.trans hmoment)
      | false => exact hordered.mono (hupper.trans hmoment)

/-- Without the flag the intervals tell at every quiet moment whether the application is up. -/
theorem buildUpIntervals_certain {state : Option ServiceState} (hsorted : InTime events)
    (hcertain : (buildUpIntervals events start now state).2 = false)
    (hbetween : Between events start now t) :
    Covered (buildUpIntervals events start now state).1 t ↔
      (lastAt events t).any upAfter = true := by
  have h := reconstructed_foldl start hsorted
  rw [← h.covered t hbetween.after_start hbetween.quiet]
  unfold buildUpIntervals at hcertain ⊢
  dsimp only at hcertain ⊢
  cases hsince : (events.foldl (upStep start) {}).upSince with
  | none => exact ⟨Or.inl, fun hcovered => hcovered.resolve_right (by rintro ⟨since, ⟨⟩, -⟩)⟩
  | some since =>
      rw [hsince] at hcertain
      cases hstate : mayBeUp state with
      | false =>
          rw [hstate] at hcertain
          cases hcertain
      | true =>
          dsimp only
          rw [if_pos rfl, covered_pushed]
          refine or_congr_right ⟨fun hopen => ⟨since, rfl, hopen.1⟩, ?_⟩
          rintro ⟨other, ⟨⟩, hle⟩
          exact ⟨hle, hbetween.before_now⟩

/-- Up to the first start that nothing closes, the intervals tell it whatever the state is. -/
theorem buildUpIntervals_before {state : Option ServiceState} {first : TimedEvent}
    (hsorted : InTime (earlier ++ first :: later))
    (hflag : (buildUpIntervals (earlier ++ first :: later) start now state).2 = true)
    (hlater : ∀ event ∈ first :: later, upAfter event = true)
    (hearlier : earlier.getLast?.any upAfter = false)
    (hbetween : Between (earlier ++ first :: later) start now t) (hle : t ≤ first.1) :
    Covered (buildUpIntervals (earlier ++ first :: later) start now state).1 t ↔
      (lastAt (earlier ++ first :: later) t).any upAfter = true := by
  obtain ⟨hbefore, htail, -⟩ := List.pairwise_append.mp hsorted
  have hfirst : t < first.1 := lt_of_le_of_ne hle
    (hbetween.quiet first (List.mem_append_right earlier List.mem_cons_self)).symm
  have hlt : ∀ event ∈ first :: later, t < event.1 := by
    intro event hevent
    rcases List.mem_cons.mp hevent with rfl | hevent
    · exact hfirst
    · exact lt_of_lt_of_le hfirst ((List.pairwise_cons.mp htail).1 event hevent)
  have h := reconstructed_foldl start hbefore
  have hnone : (earlier.foldl (upStep start) {}).upSince = none := by
    rw [← Option.isNone_iff_eq_none, ← Option.not_isSome, h.opened, hearlier]
    rfl
  have hintervals : (buildUpIntervals (earlier ++ first :: later) start now state).1 =
      (earlier.foldl (upStep start) {}).intervals := by
    have hunconfirmed := ((buildUpIntervals_uncertain state hsorted).mp hflag).2
    unfold buildUpIntervals
    dsimp only
    rw [List.foldl_append, hunconfirmed]
    cases ((first :: later).foldl (upStep start) (earlier.foldl (upStep start) {})).upSince with
    | none => exact foldl_upStep_up hlater
    | some since => exact foldl_upStep_up hlater
  rw [hintervals, lastAt_append_of_lt hlt,
    ← h.covered t hbetween.after_start hbetween.append_left.quiet, hnone]
  exact ⟨Or.inl, fun hcovered => hcovered.resolve_right (by rintro ⟨since, ⟨⟩, -⟩)⟩

/-- The intervals of a timeline are in order, disjoint, not empty and inside the window.
Without the flag they tell at every quiet moment whether the application is up.  With the
flag they tell it up to the start of the up period that is left open.  The flag is set
exactly when such a period is left open and the state does not confirm it. -/
theorem buildUpIntervals_reconstructs (events : List TimedEvent) (start now : ℤ)
    (state : Option ServiceState) (hsorted : InTime events)
    (hnow : ∀ event ∈ events, event.1 ≤ now) (hstart : start ≤ now) :
    Ordered (buildUpIntervals events start now state).1 start now ∧
    ((buildUpIntervals events start now state).2 = false → ∀ t, Between events start now t →
      (Covered (buildUpIntervals events start now state).1 t ↔
        (lastAt events t).any upAfter = true)) ∧
    ((buildUpIntervals events start now state).2 = true →
      ∃ earlier first later, events = earlier ++ first :: later ∧
        (∀ event ∈ first :: later, upAfter event = true) ∧
        earlier.getLast?.any upAfter = false ∧
        ∀ t, Between events start now t → t ≤ first.1 →
          (Covered (buildUpIntervals events start now state).1 t ↔
            (lastAt events t).any upAfter = true)) ∧
    ((buildUpIntervals events start now state).2 = true ↔
      events.getLast?.any upAfter = true ∧ mayBeUp state = false) := by
  refine ⟨buildUpIntervals_ordered state hsorted hnow hstart, ?_, ?_,
    buildUpIntervals_uncertain state hsorted⟩
  · intro hcertain t hbetween
    exact buildUpIntervals_certain hsorted hcertain hbetween
  · intro hflag
    obtain ⟨earlier, first, later, rfl, hlater, hearlier⟩ :=
      exists_left_open ((buildUpIntervals_uncertain state hsorted).mp hflag).1
    refine ⟨earlier, first, later, rfl, hlater, hearlier, ?_⟩
    intro t hbetween hle
    exact buildUpIntervals_before hsorted hflag hlater hearlier hbetween hle

/-! ## A restart that nothing closes -/

/-- A start, and a restart without an exit between the two. -/
def restartedHistory : List TimedEvent :=
  [(10, { ts := "10", service := "web", event := .started }),
    (20, { ts := "20", service := "web", event := .restarted })]

/-- While the service runs, its restart is no gap. -/
theorem buildUpIntervals_reconstructs_restart :
    Covered (buildUpIntervals restartedHistory 0 30 (some .running)).1 15 ↔
      (lastAt restartedHistory 15).any upAfter = true :=
  (buildUpIntervals_reconstructs restartedHistory 0 30 (some .running)
    (by unfold InTime restartedHistory; simp)
    (by unfold restartedHistory; simp) (by decide)).2.1 (by decide) 15
    ⟨by decide, by decide, by unfold restartedHistory; simp⟩

/-- Where the service is stopped, the time between the two starts is left out as well: the
flag speaks of the first of the starts that nothing closes, not of the last. -/
theorem buildUpIntervals_last_start :
    ¬ ∀ (events : List TimedEvent) (start now : ℤ) (state : Option ServiceState),
      InTime events → (∀ event ∈ events, event.1 ≤ now) → start ≤ now →
      (buildUpIntervals events start now state).2 = true →
      ∀ last, events.getLast? = some last → ∀ t, Between events start now t → t ≤ last.1 →
        (Covered (buildUpIntervals events start now state).1 t ↔
          (lastAt events t).any upAfter = true) := by
  intro hclaimed
  have hcovered := (hclaimed restartedHistory 0 30 (some .stopped)
    (by unfold InTime restartedHistory; simp)
    (by unfold restartedHistory; simp) (by decide) (by decide) _ rfl 15
    ⟨by decide, by decide, by unfold restartedHistory; simp⟩ (by decide)).mpr (by decide)
  obtain ⟨interval, hinterval, -⟩ := hcovered
  have hnone : (buildUpIntervals restartedHistory 0 30 (some .stopped)).1 = [] := by decide
  rw [hnone] at hinterval
  exact List.not_mem_nil hinterval

end Ngsm.Gui
