/-
# The history that the dashboard reads

The reader of the event log keeps the records since some moment and, for each spelling
of a service's name, the last record before it, so that the state at that moment is
known.  The last records are collected in a hash map, whose order of iteration is not
known.
-/

import Mathlib.Data.List.Induction
import Ngsm.Gui.Metrics

namespace Ngsm.Gui

open Ngsm.Lib

/-- A record with its time and its place in the log. -/
structure Timed where
  ts : ℤ
  order : ℕ
  record : EventRecord
  deriving DecidableEq, Repr

/-- An order in which a hash map can be iterated. -/
structure IterationOrder where
  arrange : List Timed → List Timed
  perm : ∀ seeds, (arrange seeds).Perm seeds

/-- Keep a record as the last one of its spelling, unless there is a later one. -/
def insertSeed (seeds : List Timed) (seed : Timed) : List Timed :=
  let others := seeds.filter fun other => other.record.service != seed.record.service
  match seeds.find? fun other => other.record.service == seed.record.service with
  | none => seed :: others
  | some previous => if previous.ts ≤ seed.ts then seed :: others else seeds

/-- The records of the window, and the last ones before it. -/
structure Scan where
  parsed : List Timed := []
  seeds : List Timed := []

def scanRecord (parseTs : String → Option ℤ) (since now : ℤ)
    (scan : Scan) (entry : EventRecord × ℕ) : Scan :=
  match parseTs entry.1.ts with
  | none => scan
  | some ts =>
      let timed := { ts, order := entry.2, record := entry.1 }
      if now < ts then scan
      else if since ≤ ts then { scan with parsed := scan.parsed ++ [timed] }
      else { scan with seeds := insertSeed scan.seeds timed }

def historyWindow (parseTs : String → Option ℤ) (iteration : IterationOrder)
    (records : List EventRecord) (since now : ℤ) : List EventRecord :=
  let scan := records.zipIdx.foldl (scanRecord parseTs since now) {}
  ((scan.parsed ++ iteration.arrange scan.seeds).mergeSort
    (Chronicle.byKey Timed.ts Timed.order)).map Timed.record

/-! ## The last record of a spelling -/

section

variable {seeds older : List Timed} {seed other : Timed}

/-- No record of the same spelling comes later. -/
def IsLast (older : List Timed) (seed : Timed) : Prop :=
  seed ∈ older ∧ ∀ other ∈ older, other.record.service = seed.record.service →
    Chronicle.byKey Timed.ts Timed.order other seed = true

/-- The seeds are the last records of their spellings. -/
structure Seeded (older seeds : List Timed) : Prop where
  mem_iff : ∀ seed, seed ∈ seeds ↔ IsLast older seed
  covers : ∀ other ∈ older, ∃ seed ∈ seeds, seed.record.service = other.record.service
  nodup : seeds.Nodup

theorem Seeded.nil : Seeded [] [] := by
  apply Seeded.mk
  · intro seed
    simp [IsLast]
  · intro other hother
    cases hother
  · exact List.nodup_nil

theorem byKey_refl (seed : Timed) : Chronicle.byKey Timed.ts Timed.order seed seed = true := by
  simp [Chronicle.byKey]

/-- A new last record takes the place of the one of its spelling. -/
theorem Seeded.replace (h : Seeded older seeds)
    (hlater : ∀ other ∈ older, other.record.service = seed.record.service →
      Chronicle.byKey Timed.ts Timed.order other seed = true)
    (hplace : ∀ other ∈ older, other.order < seed.order) :
    Seeded (older ++ [seed])
      (seed :: seeds.filter fun other => other.record.service != seed.record.service) := by
  have hnew : seed ∉ older := fun hmem => lt_irrefl _ (hplace seed hmem)
  apply Seeded.mk
  · intro x
    rw [List.mem_cons, List.mem_filter, bne_iff_ne, h.mem_iff, IsLast, IsLast]
    simp only [List.mem_append, List.mem_singleton, or_imp, forall_and, forall_eq]
    constructor
    · rintro (rfl | ⟨⟨hmem, hlast⟩, hspelling⟩)
      · exact ⟨.inr rfl, hlater, fun _ => byKey_refl _⟩
      · exact ⟨.inl hmem, hlast, fun hsame => absurd hsame.symm hspelling⟩
    · rintro ⟨hmem | rfl, hlast, hseed⟩
      · by_cases hspelling : x.record.service = seed.record.service
        · have hle := hseed hspelling.symm
          have hge := hlater x hmem hspelling
          have hless := hplace x hmem
          rw [Chronicle.byKey, decide_eq_true_iff] at hle hge
          omega
        · exact .inr ⟨⟨hmem, hlast⟩, hspelling⟩
      · exact .inl rfl
  · intro other hother
    rcases List.mem_append.mp hother with hold | hlast
    · by_cases hspelling : other.record.service = seed.record.service
      · exact ⟨seed, List.mem_cons_self, hspelling.symm⟩
      · obtain ⟨found, hfound, hsame⟩ := h.covers other hold
        refine ⟨found, List.mem_cons_of_mem _ (List.mem_filter.mpr ⟨hfound, ?_⟩), hsame⟩
        rw [bne_iff_ne, hsame]
        exact hspelling
    · rw [List.mem_singleton.mp hlast]
      exact ⟨seed, List.mem_cons_self, rfl⟩
  · rw [List.nodup_cons]
    refine ⟨?_, h.nodup.filter _⟩
    intro hmem
    have hspelling := (List.mem_filter.mp hmem).2
    simp at hspelling

/-- An earlier record does not become a seed. -/
theorem Seeded.keep (h : Seeded older seeds) (hother : other ∈ seeds)
    (hspelling : other.record.service = seed.record.service) (hts : seed.ts < other.ts) :
    Seeded (older ++ [seed]) seeds := by
  have hlast := ((h.mem_iff other).mp hother)
  apply Seeded.mk
  · intro x
    rw [h.mem_iff, IsLast, IsLast]
    simp only [List.mem_append, List.mem_singleton, or_imp, forall_and, forall_eq]
    constructor
    · rintro ⟨hmem, hx⟩
      refine ⟨.inl hmem, hx, ?_⟩
      intro hsame
      have hle := hx other hlast.1 (hspelling.trans hsame)
      rw [Chronicle.byKey, decide_eq_true_iff] at hle ⊢
      omega
    · rintro ⟨hmem | rfl, hx, -⟩
      · exact ⟨hmem, hx⟩
      · have hle := hx other hlast.1 hspelling
        rw [Chronicle.byKey, decide_eq_true_iff] at hle
        omega
  · intro x hx
    rcases List.mem_append.mp hx with hold | hnew
    · exact h.covers x hold
    · rw [List.mem_singleton.mp hnew]
      exact ⟨other, hother, hspelling⟩
  · exact h.nodup

theorem Seeded.insert (h : Seeded older seeds) (hplace : ∀ other ∈ older, other.order < seed.order) :
    Seeded (older ++ [seed]) (insertSeed seeds seed) := by
  unfold insertSeed
  split
  · rename_i hnone
    rw [List.find?_eq_none] at hnone
    apply h.replace _ hplace
    intro other hother hspelling
    obtain ⟨found, hfound, hsame⟩ := h.covers other hother
    exact absurd (beq_iff_eq.mpr (hsame.trans hspelling)) (hnone found hfound)
  · rename_i previous hprevious
    have hmem := List.mem_of_find?_eq_some hprevious
    have hspelling : previous.record.service = seed.record.service := by
      simpa using List.find?_some hprevious
    split
    · rename_i hts
      apply h.replace _ hplace
      intro other hother hsame
      have hlast := ((h.mem_iff previous).mp hmem).2 other hother (hsame.trans hspelling.symm)
      have hless := hplace other hother
      rw [Chronicle.byKey, decide_eq_true_iff] at hlast ⊢
      omega
    · rename_i hts
      exact h.keep hmem hspelling (not_le.mp hts)

theorem seeded_foldl (h : Chronicle.InOrder Timed.order older) :
    Seeded older (older.foldl insertSeed []) := by
  induction older using List.reverseRecOn with
  | nil => exact Seeded.nil
  | append_singleton older seed ih =>
      obtain ⟨hbefore, -, hplace⟩ := List.pairwise_append.mp h
      rw [List.foldl_append]
      exact (ih hbefore).insert fun other hother => hplace other hother seed List.mem_cons_self

end

/-! ## The records that count -/

section

variable (parseTs : String → Option ℤ) (since now : ℤ)

/-- A record that can be dated and is not in the future. -/
def date (entry : EventRecord × ℕ) : Option Timed :=
  ((parseTs entry.1.ts).filter fun ts => decide (ts ≤ now)).map fun ts =>
    { ts, order := entry.2, record := entry.1 }

def dated (records : List EventRecord) : List Timed :=
  records.zipIdx.filterMap (date parseTs now)

def before (timed : Timed) : Bool :=
  decide (timed.ts < since)

/-- The last records of their spellings before the window. -/
def seedsOf (records : List EventRecord) : List Timed :=
  ((dated parseTs now records).filter (before since)).foldl insertSeed []

/-- What the reader keeps: the window, and the seeds before it. -/
def keeps (records : List EventRecord) (timed : Timed) : Bool :=
  !before since timed || decide (timed ∈ seedsOf parseTs since now records)

variable {parseTs since now} {records : List EventRecord} {timed : Timed}

theorem date_eq_some {entry : EventRecord × ℕ} :
    date parseTs now entry = some timed ↔
      parseTs entry.1.ts = some timed.ts ∧ timed.ts ≤ now ∧ timed.order = entry.2 ∧
        timed.record = entry.1 := by
  obtain ⟨ts, order, record⟩ := timed
  simp only [date, Option.map_eq_some_iff, Option.filter_eq_some_iff, decide_eq_true_eq,
    Timed.mk.injEq]
  constructor
  · rintro ⟨_, ⟨hparse, hnow⟩, rfl, rfl, rfl⟩
    exact ⟨hparse, hnow, rfl, rfl⟩
  · rintro ⟨hparse, hnow, rfl, rfl⟩
    exact ⟨ts, ⟨hparse, hnow⟩, rfl, rfl, rfl⟩

theorem parse_of_mem_dated (h : timed ∈ dated parseTs now records) :
    parseTs timed.record.ts = some timed.ts ∧ timed.ts ≤ now := by
  obtain ⟨entry, -, hentry⟩ := List.mem_filterMap.mp h
  obtain ⟨hparse, hnow, -, hrecord⟩ := date_eq_some.mp hentry
  exact ⟨hrecord ▸ hparse, hnow⟩

variable (parseTs since now records)

theorem dated_inOrder : Chronicle.InOrder Timed.order (dated parseTs now records) := by
  have hindices : (records.zipIdx.map Prod.snd).Pairwise (· < ·) := by
    rw [List.zipIdx_map_snd]
    exact List.pairwise_lt_range'
  rw [List.pairwise_map] at hindices
  unfold Chronicle.InOrder dated
  rw [List.pairwise_filterMap]
  apply hindices.imp
  intro a b hab x hx y hy
  rw [(date_eq_some.mp hx).2.2.1, (date_eq_some.mp hy).2.2.1]
  exact hab

/-- The scan of the reader separates the window from the seeds. -/
theorem foldl_scanRecord (entries : List (EventRecord × ℕ)) (scan : Scan) :
    entries.foldl (scanRecord parseTs since now) scan =
      { parsed := scan.parsed ++
          (entries.filterMap (date parseTs now)).filter fun timed => !before since timed
        seeds := ((entries.filterMap (date parseTs now)).filter (before since)).foldl
          insertSeed scan.seeds } := by
  induction entries generalizing scan with
  | nil => simp
  | cons entry entries ih =>
      rw [List.foldl_cons, ih]
      unfold scanRecord
      cases hparse : parseTs entry.1.ts with
      | none =>
          have hnone : date parseTs now entry = none := by simp [date, hparse]
          rw [List.filterMap_cons_none hnone]
      | some ts =>
          dsimp only
          by_cases hfuture : now < ts
          · have hnone : date parseTs now entry = none := by
              simp [date, hparse, Option.filter, hfuture]
            rw [if_pos hfuture, List.filterMap_cons_none hnone]
          · have hsome : date parseTs now entry =
                some { ts, order := entry.2, record := entry.1 } :=
              date_eq_some.mpr ⟨hparse, not_lt.mp hfuture, rfl, rfl⟩
            rw [if_neg hfuture, List.filterMap_cons_some hsome]
            by_cases hwindow : since ≤ ts
            · have hnot : ¬ ts < since := not_lt.mpr hwindow
              rw [if_pos hwindow]
              simp [before, hnot]
            · have hbefore : ts < since := not_le.mp hwindow
              rw [if_neg hwindow]
              simp [before, hbefore]

theorem seeded_seedsOf : Seeded ((dated parseTs now records).filter (before since))
    (seedsOf parseTs since now records) :=
  seeded_foldl (List.Pairwise.filter _ (dated_inOrder parseTs now records))

/-- What the reader collects is what it keeps of the history. -/
theorem collected_perm (iteration : IterationOrder) :
    ((dated parseTs now records).filter (fun timed => !before since timed) ++
        iteration.arrange (seedsOf parseTs since now records)).Perm
      ((dated parseTs now records).filter (keeps parseTs since now records)) := by
  have horder := dated_inOrder parseTs now records
  have hseeded := seeded_seedsOf parseTs since now records
  have hseed : ∀ timed ∈ seedsOf parseTs since now records,
      timed ∈ dated parseTs now records ∧ before since timed = true := fun timed htimed =>
    List.mem_filter.mp ((hseeded.mem_iff timed).mp htimed).1
  rw [List.perm_ext_iff_of_nodup]
  · intro timed
    rw [List.mem_append, List.mem_filter, List.mem_filter, (iteration.perm _).mem_iff, keeps,
      Bool.or_eq_true, decide_eq_true_iff, and_or_left]
    apply or_congr_right
    constructor
    · intro htimed
      exact ⟨(hseed timed htimed).1, htimed⟩
    · exact And.right
  · rw [List.nodup_append]
    refine ⟨horder.nodup.filter _, (iteration.perm _).nodup_iff.mpr hseeded.nodup, ?_⟩
    rintro a ha b hb rfl
    have hbefore := (hseed a ((iteration.perm _).mem_iff.mp hb)).2
    have hwindow := (List.mem_filter.mp ha).2
    rw [hbefore] at hwindow
    cases hwindow
  · exact horder.nodup.filter _

/-- What the reader returns is part of the sorted history. -/
theorem historyWindow_eq (iteration : IterationOrder) :
    historyWindow parseTs iteration records since now =
      (((dated parseTs now records).mergeSort (Chronicle.byKey Timed.ts Timed.order)).filter
        (keeps parseTs since now records)).map Timed.record := by
  have hsorted : (((dated parseTs now records).filter (fun timed => !before since timed)) ++
        iteration.arrange (seedsOf parseTs since now records)).mergeSort
          (Chronicle.byKey Timed.ts Timed.order) = _ :=
    (dated_inOrder parseTs now records).sort_filter _
      (collected_perm parseTs since now records iteration)
  unfold historyWindow
  rw [foldl_scanRecord]
  exact congrArg (List.map Timed.record) hsorted

end

end Ngsm.Gui
