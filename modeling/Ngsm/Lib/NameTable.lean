/-
# Tables whose names are compared through a key

A table stores entries under names, and two names denote the same entry when
they have the same key; the name of an entry is the one it was first stored
under.  A file system or a registry that compares names without regard to case
is of this kind.  The `distinct` field rules out a table with two entries for
one key, so every lookup law below is unconditional.

Everything observable is stated through `lookup`: an update is characterised by
the lookups of its result, and enumeration by `mem_entries_iff`.
-/

import Mathlib.Data.List.Nodup
import Mathlib.Logic.Basic

namespace Ngsm.Lib

/-- A finite collection of named entries with pairwise different keys. -/
structure Table {ν κ : Type} (key : ν → κ) (α : Type) where
  /-- The entries in the order in which they are enumerated. -/
  entries : List (ν × α)
  distinct : (entries.map fun entry => key entry.1).Nodup

namespace Table

variable {ν κ α : Type} {key : ν → κ}

/-- The table without entries. -/
def empty : Table key α where
  entries := []
  distinct := List.nodup_nil

/-- Keep the entries whose name satisfies `keep`. -/
def filter (t : Table key α) (keep : ν → Bool) : Table key α where
  entries := t.entries.filter fun entry => keep entry.1
  distinct := t.distinct.sublist (List.filter_sublist.map _)

theorem mem_of_mem_filter {t : Table key α} {keep : ν → Bool} {entry : ν × α}
    (hmem : entry ∈ (t.filter keep).entries) : entry ∈ t.entries :=
  List.mem_of_mem_filter hmem

variable [DecidableEq κ]

/-- The entry stored for a key, with the name it was stored under. -/
def lookup (t : Table key α) (k : κ) : Option (ν × α) :=
  t.entries.find? fun entry => key entry.1 = k

/-- The value stored for a name. -/
def find? (t : Table key α) (name : ν) : Option α :=
  (t.lookup (key name)).map Prod.snd

theorem mem_entries_iff (t : Table key α) (name : ν) (a : α) :
    (name, a) ∈ t.entries ↔ t.lookup (key name) = some (name, a) := by
  constructor
  · intro hmem
    obtain ⟨entries, hdistinct⟩ := t
    unfold lookup
    dsimp only at hmem ⊢
    induction entries with
    | nil => cases hmem
    | cons entry rest ih =>
        rw [List.map_cons, List.nodup_cons] at hdistinct
        by_cases hkey : key entry.1 = key name
        · rw [List.find?_cons_of_pos (by simpa using hkey)]
          rcases List.mem_cons.mp hmem with hhead | htail
          · rw [hhead]
          · exact absurd (List.mem_map.mpr ⟨_, htail, hkey.symm⟩) hdistinct.1
        · rw [List.find?_cons_of_neg (by simpa using hkey)]
          rcases List.mem_cons.mp hmem with hhead | htail
          · exact absurd (by rw [← hhead]) hkey
          · exact ih hdistinct.2 htail
  · intro hlookup
    exact List.mem_of_find?_eq_some hlookup

theorem key_of_lookup {t : Table key α} {k : κ} {entry : ν × α}
    (hlookup : t.lookup k = some entry) : key entry.1 = k := by
  simpa using List.find?_some hlookup

theorem lookup_eq_none_iff (t : Table key α) (k : κ) :
    t.lookup k = none ↔ ∀ entry ∈ t.entries, key entry.1 ≠ k := by
  simp [lookup]

@[simp]
theorem lookup_empty (k : κ) : (empty : Table key α).lookup k = none :=
  rfl

/-! ## Updates -/

/-- Store a value.  An entry that exists keeps its name and its place; a new one
goes to the end under the given name. -/
def insert (t : Table key α) (name : ν) (a : α) : Table key α :=
  if hknown : ∃ entry ∈ t.entries, key entry.1 = key name then
    { entries := t.entries.map fun entry =>
        if key entry.1 = key name then (entry.1, a) else entry
      distinct := by
        have hkeys : ((t.entries.map fun entry =>
            if key entry.1 = key name then (entry.1, a) else entry).map
              fun entry => key entry.1) = t.entries.map fun entry => key entry.1 := by
          rw [List.map_map]
          apply List.map_congr_left
          intro entry _
          simp only [Function.comp_apply]
          split <;> rfl
        rw [hkeys]
        exact t.distinct }
  else
    { entries := t.entries ++ [(name, a)]
      distinct := by
        rw [List.map_append, List.nodup_append]
        refine ⟨t.distinct, List.nodup_singleton _, ?_⟩
        intro k hk k' hk' heq
        obtain ⟨entry, hentry, rfl⟩ := List.mem_map.mp hk
        rw [List.map_singleton, List.mem_singleton] at hk'
        exact hknown ⟨entry, hentry, heq.trans hk'⟩ }

/-- Remove the entry of a name. -/
def erase (t : Table key α) (name : ν) : Table key α :=
  t.filter fun stored => key stored ≠ key name

theorem lookup_filter (t : Table key α) (keep : ν → Bool) (k : κ) :
    (t.filter keep).lookup k = (t.lookup k).filter fun entry => keep entry.1 := by
  rcases hlookup : t.lookup k with _ | ⟨name, a⟩
  · rw [lookup_eq_none_iff] at hlookup
    simp only [Option.filter_none, lookup_eq_none_iff]
    intro entry hentry
    exact hlookup entry (List.mem_of_mem_filter hentry)
  · have hkey := key_of_lookup hlookup
    subst hkey
    have hmem := (mem_entries_iff t name a).mpr hlookup
    by_cases hkeep : keep name = true
    · simp only [Option.filter, hkeep, if_true]
      exact (mem_entries_iff _ name a).mp (List.mem_filter.mpr ⟨hmem, hkeep⟩)
    · simp only [Option.filter, hkeep, Bool.false_eq_true, if_false, lookup_eq_none_iff]
      rintro ⟨other, b⟩ hother heq
      obtain ⟨hstored, hkept⟩ := List.mem_filter.mp hother
      rw [mem_entries_iff, heq, hlookup] at hstored
      cases hstored
      exact hkeep hkept

@[simp]
theorem lookup_erase (t : Table key α) (name : ν) (k : κ) :
    (t.erase name).lookup k = if k = key name then none else t.lookup k := by
  rw [erase, lookup_filter]
  rcases hlookup : t.lookup k with _ | entry
  · simp
  · have hkey := key_of_lookup hlookup
    by_cases hk : k = key name
    · simp [hk, hkey]
    · simp [hk, hkey]

/-- Removing a name that is not there changes nothing. -/
theorem erase_of_lookup_none {t : Table key α} {name : ν} (hnone : t.lookup (key name) = none) :
    t.erase name = t := by
  have hentries : (t.erase name).entries = t.entries := by
    apply List.filter_eq_self.mpr
    intro entry hentry
    simpa using (lookup_eq_none_iff t _).mp hnone entry hentry
  obtain ⟨entries, hdistinct⟩ := t
  simp only [erase, filter] at hentries ⊢
  congr

@[simp]
theorem lookup_insert (t : Table key α) (name : ν) (a : α) (k : κ) :
    (t.insert name a).lookup k =
      if k = key name then some (((t.lookup k).map Prod.fst).getD name, a)
      else t.lookup k := by
  unfold insert
  split
  · rename_i hknown
    obtain ⟨⟨stored, b⟩, hmem, hkey⟩ := hknown
    simp only at hkey
    simp only [lookup, List.find?_map]
    have hpred : ((fun entry : ν × α => decide (key entry.1 = k)) ∘ fun entry =>
        if key entry.1 = key name then (entry.1, a) else entry) =
          fun entry => decide (key entry.1 = k) := by
      funext entry
      simp only [Function.comp_apply]
      split <;> rfl
    rw [hpred]
    by_cases hk : k = key name
    · subst hk
      rw [mem_entries_iff, hkey] at hmem
      simp only [lookup] at hmem
      simp [hmem, hkey]
    · rw [if_neg hk]
      rcases hfind : t.entries.find? fun entry => key entry.1 = k with _ | entry
      · rw [hfind]
        rfl
      · have hentry : key entry.1 = k := by simpa using List.find?_some hfind
        rw [hfind, Option.map_some, if_neg (by rwa [hentry])]
  · rename_i hknown
    have hnone : t.lookup (key name) = none := by
      rw [lookup_eq_none_iff]
      intro entry hentry heq
      exact hknown ⟨entry, hentry, heq⟩
    simp only [lookup, List.find?_append]
    by_cases hk : k = key name
    · subst hk
      simp only [lookup] at hnone
      simp [hnone]
    · have hother : ¬ key name = k := fun heq => hk heq.symm
      rw [if_neg hk, List.find?_singleton, if_neg (by simpa using hother), Option.or_none]

/-- Storing the value that is already there changes nothing. -/
theorem insert_of_lookup {t : Table key α} {name stored : ν} {a : α}
    (hlookup : t.lookup (key name) = some (stored, a)) : t.insert name a = t := by
  have hkey : key stored = key name := key_of_lookup hlookup
  have hknown : ∃ entry ∈ t.entries, key entry.1 = key name :=
    ⟨(stored, a), List.mem_of_find?_eq_some hlookup, hkey⟩
  have hentries : (t.entries.map fun entry =>
      if key entry.1 = key name then (entry.1, a) else entry) = t.entries := by
    conv_rhs => rw [← List.map_id t.entries]
    apply List.map_congr_left
    rintro ⟨other, b⟩ hother
    rw [mem_entries_iff] at hother
    simp only [id_eq]
    split
    · rename_i hsame
      rw [hsame, hlookup] at hother
      cases hother
      rfl
    · rfl
  obtain ⟨entries, hdistinct⟩ := t
  rw [insert, dif_pos hknown]
  congr

/-- The entries of an updated table: an old entry, or the new value under the
given name or under the name it had. -/
theorem mem_entries_insert {t : Table key α} {name : ν} {a : α} {entry : ν × α}
    (hmem : entry ∈ (t.insert name a).entries) :
    entry ∈ t.entries ∨
      (entry.2 = a ∧ (entry.1 = name ∨ ∃ b, (entry.1, b) ∈ t.entries)) := by
  rw [mem_entries_iff _ entry.1 entry.2, lookup_insert] at hmem
  split at hmem
  · refine .inr ?_
    have hvalue : entry.2 = a := (congrArg Prod.snd (Option.some.inj hmem)).symm
    have hname := (congrArg Prod.fst (Option.some.inj hmem)).symm
    refine ⟨hvalue, ?_⟩
    rcases hlookup : t.lookup (key entry.1) with _ | ⟨old, c⟩
    · rw [hlookup] at hname
      exact .inl hname
    · rw [hlookup] at hname
      refine .inr ⟨c, List.mem_of_find?_eq_some (p := fun e => key e.1 = key entry.1) ?_⟩
      rw [show entry.1 = old from hname] at hlookup ⊢
      exact hlookup
  · exact .inl ((mem_entries_iff t entry.1 entry.2).mpr hmem)

end Table

end Ngsm.Lib
