/-
# What a sink does to its directory

The changes a sink makes, one call of the file system at a time.  A file that is finished, be it
a complete archive or a file the sink has no business with, stays as it is.  The log loses what
is in it only to a complete archive.  Bytes are acknowledged when they are in the log.
-/

import Mathlib.Data.List.Nodup
import Ngsm.Supervisor.RotationSink

namespace Ngsm.Supervisor.RotationSink

open Ngsm.Lib

/-! ## Contents -/

section

variable {v : Volume} {name other path archive : String} {file : ℕ}

theorem stored_of_entry (hentry : v.entries name = some file) :
    v.stored name = v.content file := by
  rw [Volume.stored, hentry]

theorem stored_of_missing (hmissing : v.entries name = none) : v.stored name = [] := by
  rw [Volume.stored, hmissing]

theorem stored_congr {v' : Volume} (hentry : v'.entries name = v.entries name)
    (hcontent : ∀ file, v.entries name = some file → v'.content file = v.content file) :
    v'.stored name = v.stored name := by
  rw [Volume.stored, Volume.stored, hentry]
  cases hfile : v.entries name with
  | none => rfl
  | some file => exact hcontent file hfile

/-- Files from `next` on do not exist. -/
def Known (v : Volume) : Prop :=
  ∀ name file, v.entries name = some file → file < v.next

theorem stored_create_self : (v.create name).stored name = [] := by
  simp [Volume.stored, Volume.create]

theorem stored_create (hknown : Known v) (hne : other ≠ name) :
    (v.create name).stored other = v.stored other := by
  apply stored_congr (Function.update_of_ne hne _ _)
  intro file hfile
  exact Function.update_of_ne (hknown other file hfile).ne _ _

theorem stored_append_self (bytes : Bytes) (hentry : v.entries name = some file) :
    (v.append file bytes).stored name = v.stored name ++ bytes := by
  rw [stored_of_entry hentry, stored_of_entry (v := v.append file bytes) hentry]
  exact Function.update_self ..

theorem stored_append (bytes : Bytes) (hother : v.entries other ≠ some file) :
    (v.append file bytes).stored other = v.stored other := by
  apply stored_congr
  · rfl
  · intro file' hfile'
    apply Function.update_of_ne
    rintro rfl
    exact hother hfile'

theorem stored_acknowledge (bytes : Bytes) :
    (v.acknowledge file bytes).stored name = (v.append file bytes).stored name :=
  rfl

theorem stored_truncate_self (hentry : v.entries name = some file) :
    (v.truncate file).stored name = [] := by
  rw [stored_of_entry (v := v.truncate file) hentry]
  exact Function.update_self ..

theorem stored_truncate (hother : v.entries other ≠ some file) :
    (v.truncate file).stored other = v.stored other := by
  apply stored_congr
  · rfl
  · intro file' hfile'
    apply Function.update_of_ne
    rintro rfl
    exact hother hfile'

theorem stored_rename_archive : (v.rename path archive file).stored archive = v.content file := by
  simp [Volume.stored, Volume.rename]

theorem stored_rename_path (hne : path ≠ archive) :
    (v.rename path archive file).stored path = [] := by
  simp [Volume.stored, Volume.rename, hne]

theorem stored_rename (hpath : other ≠ path) (harchive : other ≠ archive) :
    (v.rename path archive file).stored other = v.stored other := by
  apply stored_congr
  · exact (Function.update_of_ne harchive _ _).trans (Function.update_of_ne hpath _ _)
  · exact fun _ _ => rfl

theorem stored_remove (hne : other ≠ archive) :
    (v.remove archive).stored other = v.stored other :=
  stored_congr (Function.update_of_ne hne _ _) fun _ _ => rfl

end

/-! ## Changes -/

/-- The archives of a sink are files of their own, and none of them is the log. -/
structure Sound (path : String) (v : Volume) : Prop where
  known : Known v
  present : ∀ archive ∈ v.archives, ∃ file, v.entries archive = some file
  other : path ∉ v.archives
  distinct : ∀ name ∈ path :: v.archives, ∀ name' ∈ path :: v.archives, ∀ file,
    v.entries name = some file → v.entries name' = some file → name = name'
  /-- Nobody else has a name for an archive in the making. -/
  own : ∀ archive ∈ v.archives, archive ∉ v.completed → ∀ name file,
    v.entries archive = some file → v.entries name = some file → name = archive
  listed : ∀ archive ∈ v.completed, archive ∈ v.archives
  nodup : v.archives.Nodup

/-- The changes of a directory. -/
inductive Change (path : String) (v : Volume) : Volume → Prop
  | wrote {file : ℕ} (bytes : Bytes) (hfile : v.entries path = some file) :
      Change path v (v.acknowledge file bytes)
  | opened (hmissing : v.entries path = none) : Change path v (v.create path)
  | renamed {file : ℕ} {archive : String} (hfile : v.entries path = some file)
      (hfree : v.entries archive = none) : Change path v (v.rename path archive file)
  | started {file : ℕ} {archive : String} (hfile : v.entries path = some file)
      (hfree : v.entries archive = none) : Change path v (v.createArchive archive)
  | copied {file : ℕ} {archive : String} (bytes : Bytes) (hlisted : archive ∈ v.archives)
      (hstarted : archive ∉ v.completed) (hfile : v.entries archive = some file) :
      Change path v (v.append file bytes)
  | completed {archive : String} (hlisted : archive ∈ v.archives)
      (hwhole : v.stored archive = v.stored path) : Change path v (v.complete archive)
  | removed {archive : String} (hlisted : archive ∈ v.archives)
      (hstarted : archive ∉ v.completed) : Change path v (v.remove archive)
  | emptied {file : ℕ} {archive : String} (hfile : v.entries path = some file)
      (hcomplete : archive ∈ v.completed) (hwhole : v.stored archive = v.stored path) :
      Change path v (v.truncate file)

section

variable {v v' : Volume} {path : String}

theorem ne_of_entry {name name' : String} {file : ℕ} (hentry : v.entries name = some file)
    (hfree : v.entries name' = none) : name ≠ name' := by
  rintro rfl
  rw [hentry] at hfree
  cases hfree

theorem Sound.create (h : Sound path v) {name : String} (hfree : v.entries name = none) :
    Sound path (v.create name) := by
  have hne : ∀ archive ∈ v.archives, archive ≠ name := by
    intro archive hlisted
    obtain ⟨file, hfile⟩ := h.present archive hlisted
    exact ne_of_entry hfile hfree
  have hentry : ∀ name' file, (v.create name).entries name' = some file →
      name' = name ∧ file = v.next ∨ name' ≠ name ∧ v.entries name' = some file := by
    intro name' file hfile
    by_cases hsame : name' = name
    · subst hsame
      simp only [Volume.create, Function.update_self, Option.some.injEq] at hfile
      exact .inl ⟨rfl, hfile.symm⟩
    · simp only [Volume.create, Function.update_of_ne hsame] at hfile
      exact .inr ⟨hsame, hfile⟩
  exact {
    known := by
      intro name' file hfile
      rcases hentry name' file hfile with ⟨-, rfl⟩ | ⟨-, hold⟩
      · exact Nat.lt_succ_self _
      · exact Nat.lt_succ_of_lt (h.known name' file hold)
    present := by
      intro archive hlisted
      obtain ⟨file, hfile⟩ := h.present archive hlisted
      exact ⟨file, (Function.update_of_ne (hne archive hlisted) _ _).trans hfile⟩
    other := h.other
    distinct := by
      intro a ha b hb file hfirst hsecond
      rcases hentry a file hfirst with ⟨rfl, rfl⟩ | ⟨-, hold⟩
      · rcases hentry b _ hsecond with ⟨rfl, -⟩ | ⟨-, hold⟩
        · rfl
        · exact absurd (h.known b _ hold) (Nat.lt_irrefl _)
      · rcases hentry b file hsecond with ⟨rfl, rfl⟩ | ⟨-, hold'⟩
        · exact absurd (h.known a _ hold) (Nat.lt_irrefl _)
        · exact h.distinct a ha b hb file hold hold'
    own := by
      intro archive hlisted hstarted name' file hfirst hsecond
      rcases hentry archive file hfirst with ⟨hsame, -⟩ | ⟨-, hold⟩
      · exact absurd hsame (hne archive hlisted)
      · rcases hentry name' file hsecond with ⟨-, rfl⟩ | ⟨-, hold'⟩
        · exact absurd (h.known archive _ hold) (Nat.lt_irrefl _)
        · exact h.own archive hlisted hstarted name' file hold hold'
    listed := h.listed
    nodup := h.nodup }

/-- A new name for a file that is no archive yet makes it one. -/
theorem Sound.list (h : Sound path v) {archive : String} {file : ℕ} (hne : archive ≠ path)
    (hnew : archive ∉ v.archives) (hentry : v.entries archive = some file)
    (hown : ∀ name ∈ path :: v.archives, v.entries name ≠ some file) {completed : List String}
    (hgrown : ∀ name ∈ v.completed, name ∈ completed)
    (hcompleted : ∀ name ∈ completed, name ∈ v.completed ∨ name = archive)
    (halone : archive ∉ completed → ∀ name, v.entries name = some file → name = archive) :
    Sound path { v with archives := v.archives ++ [archive], completed } where
  known := h.known
  present := by
    intro name hname
    rcases List.mem_append.mp hname with hold | hlast
    · exact h.present name hold
    · rw [List.mem_singleton] at hlast
      exact ⟨file, hlast ▸ hentry⟩
  other := by
    rw [List.mem_append, List.mem_singleton, not_or]
    exact ⟨h.other, hne.symm⟩
  distinct := by
    have hcases : ∀ name ∈ path :: (v.archives ++ [archive]),
        name ∈ path :: v.archives ∨ name = archive := by
      intro name hname
      simpa [or_assoc] using hname
    intro a ha b hb file' hfirst hsecond
    rcases hcases a ha with ha' | rfl
    · rcases hcases b hb with hb' | rfl
      · exact h.distinct a ha' b hb' file' hfirst hsecond
      · cases hentry.symm.trans hsecond
        exact absurd hfirst (hown a ha')
    · rcases hcases b hb with hb' | rfl
      · cases hentry.symm.trans hfirst
        exact absurd hsecond (hown b hb')
      · rfl
  own := by
    intro name hname hstarted name' file' hfirst hsecond
    rcases List.mem_append.mp hname with hold | hlast
    · exact h.own name hold (fun hold => hstarted (hgrown name hold)) name' file' hfirst hsecond
    · rw [List.mem_singleton] at hlast
      subst hlast
      cases hentry.symm.trans hfirst
      exact halone hstarted name' hsecond
  listed := by
    intro name hname
    rw [List.mem_append, List.mem_singleton]
    exact (hcompleted name hname).imp_left (h.listed name)
  nodup := by
    rw [List.nodup_append]
    refine ⟨h.nodup, List.nodup_singleton _, ?_⟩
    rintro name hname _ hlast rfl
    rw [List.mem_singleton] at hlast
    exact hnew (hlast ▸ hname)

/-- What is in the files makes no difference. -/
theorem Sound.refill (h : Sound path v) (content : ℕ → Bytes) (acknowledged : Bytes) :
    Sound path { v with content, acknowledged } :=
  ⟨h.known, h.present, h.other, h.distinct, h.own, h.listed, h.nodup⟩

theorem Sound.not_listed (h : Sound path v) {name : String} (hfree : v.entries name = none) :
    name ∉ v.archives := by
  intro hlisted
  obtain ⟨file, hfile⟩ := h.present name hlisted
  rw [hfree] at hfile
  cases hfile

theorem Sound.rename (h : Sound path v) {file : ℕ} {archive : String}
    (hfile : v.entries path = some file) (hfree : v.entries archive = none) :
    Sound path (v.rename path archive file) := by
  have hpath := ne_of_entry hfile hfree
  have hnew := h.not_listed hfree
  -- the archives of before are neither the log nor the new archive
  have hkept : ∀ name ∈ v.archives,
      Function.update (Function.update v.entries path none) archive (some file) name =
        v.entries name := by
    intro name hlisted
    rw [Function.update_of_ne (ne_of_mem_of_not_mem hlisted hnew),
      Function.update_of_ne (ne_of_mem_of_not_mem hlisted h.other)]
  have hgone : Function.update (Function.update v.entries path none) archive (some file) path =
      none := by
    rw [Function.update_of_ne hpath, Function.update_self]
  have hmoved : Sound path { v with
      entries := Function.update (Function.update v.entries path none) archive (some file) } := {
    known := by
      intro name file' hentry
      by_cases hsame : name = archive
      · simp only [hsame, Function.update_self, Option.some.injEq] at hentry
        subst hentry
        exact h.known path file hfile
      · simp only [Function.update_of_ne hsame] at hentry
        by_cases hlog : name = path
        · simp [hlog] at hentry
        · rw [Function.update_of_ne hlog] at hentry
          exact h.known name file' hentry
    present := by
      intro name hlisted
      obtain ⟨file', hentry⟩ := h.present name hlisted
      exact ⟨file', (hkept name hlisted).trans hentry⟩
    other := h.other
    distinct := by
      intro a ha b hb file' hfirst hsecond
      rcases List.mem_cons.mp ha with rfl | ha
      · simp only [hgone] at hfirst
        cases hfirst
      · rcases List.mem_cons.mp hb with rfl | hb
        · simp only [hgone] at hsecond
          cases hsecond
        · exact h.distinct a (List.mem_cons_of_mem _ ha) b (List.mem_cons_of_mem _ hb) file'
            ((hkept a ha).symm.trans hfirst) ((hkept b hb).symm.trans hsecond)
    own := by
      intro name hlisted hstarted name' file' hfirst hsecond
      have hfirst' := (hkept name hlisted).symm.trans hfirst
      by_cases hsame : name' = archive
      · simp only [hsame, Function.update_self, Option.some.injEq] at hsecond
        subst hsecond
        exact absurd (h.own name hlisted hstarted path file hfirst' hfile)
          (ne_of_mem_of_not_mem hlisted h.other).symm
      · simp only [Function.update_of_ne hsame] at hsecond
        by_cases hlog : name' = path
        · simp [hlog] at hsecond
        · rw [Function.update_of_ne hlog] at hsecond
          exact h.own name hlisted hstarted name' file' hfirst' hsecond
    listed := h.listed
    nodup := h.nodup }
  apply hmoved.list hpath.symm hnew (Function.update_self ..)
  · intro name hname hentry
    rcases List.mem_cons.mp hname with rfl | hlisted
    · simp only [hgone] at hentry
      cases hentry
    · simp only [hkept name hlisted] at hentry
      have hsame := h.distinct name (List.mem_cons_of_mem _ hlisted) path List.mem_cons_self file
        hentry hfile
      exact h.other (hsame ▸ hlisted)
  · exact fun name hname => List.mem_append_left _ hname
  · intro name hname
    simpa [or_comm] using hname
  · intro hstarted
    simp at hstarted

theorem Sound.createArchive (h : Sound path v) {archive : String}
    (hfree : v.entries archive = none) (hne : archive ≠ path) :
    Sound path (v.createArchive archive) := by
  apply (h.create hfree).list hne (h.not_listed hfree) (Function.update_self ..)
  · intro name hname hentry
    have hother : name ≠ archive := by
      rintro rfl
      rcases List.mem_cons.mp hname with rfl | hlisted
      · exact hne rfl
      · exact h.not_listed hfree hlisted
    have hold : v.entries name = some v.next :=
      (Function.update_of_ne hother _ _).symm.trans hentry
    exact absurd (h.known name _ hold) (Nat.lt_irrefl _)
  · exact fun name hname => hname
  · exact fun name hname => .inl hname
  · intro _ name hentry
    by_contra hother
    have hold : v.entries name = some v.next :=
      (Function.update_of_ne hother _ _).symm.trans hentry
    exact absurd (h.known name _ hold) (Nat.lt_irrefl _)

theorem Sound.remove (h : Sound path v) {archive : String} (hlisted : archive ∈ v.archives)
    (hstarted : archive ∉ v.completed) : Sound path (v.remove archive) := by
  have hkept : ∀ name, name ≠ archive → (v.remove archive).entries name = v.entries name :=
    fun name hne => Function.update_of_ne hne _ _
  have hrest : ∀ name ∈ v.archives.erase archive, name ≠ archive ∧ name ∈ v.archives :=
    fun name hname => h.nodup.mem_erase_iff.mp hname
  exact {
    known := by
      intro name file hentry
      by_cases hsame : name = archive
      · subst hsame
        simp [Volume.remove] at hentry
      · rw [hkept name hsame] at hentry
        exact h.known name file hentry
    present := by
      intro name hname
      obtain ⟨file, hentry⟩ := h.present name (hrest name hname).2
      exact ⟨file, (hkept name (hrest name hname).1).trans hentry⟩
    other := fun hmem => h.other (hrest path hmem).2
    distinct := by
      have hcases : ∀ name ∈ path :: v.archives.erase archive,
          name ≠ archive ∧ name ∈ path :: v.archives := by
        intro name hname
        rcases List.mem_cons.mp hname with rfl | hname
        · exact ⟨fun hsame => h.other (hsame ▸ hlisted), List.mem_cons_self⟩
        · exact ⟨(hrest name hname).1, List.mem_cons_of_mem _ (hrest name hname).2⟩
      intro a ha b hb file hfirst hsecond
      obtain ⟨hne, ha⟩ := hcases a ha
      obtain ⟨hne', hb⟩ := hcases b hb
      rw [hkept a hne] at hfirst
      rw [hkept b hne'] at hsecond
      exact h.distinct a ha b hb file hfirst hsecond
    own := by
      intro name hname hmaking name' file hfirst hsecond
      obtain ⟨hne, hold⟩ := hrest name hname
      rw [hkept name hne] at hfirst
      by_cases hsame : name' = archive
      · subst hsame
        simp [Volume.remove] at hsecond
      · rw [hkept name' hsame] at hsecond
        exact h.own name hold hmaking name' file hfirst hsecond
    listed := by
      intro name hname
      refine h.nodup.mem_erase_iff.mpr ⟨?_, h.listed name hname⟩
      exact ne_of_mem_of_not_mem hname hstarted
    nodup := h.nodup.erase archive }

theorem Sound.complete (h : Sound path v) {archive : String} (hlisted : archive ∈ v.archives) :
    Sound path (v.complete archive) where
  known := h.known
  present := h.present
  other := h.other
  distinct := h.distinct
  own := by
    intro name hname hstarted
    exact h.own name hname fun hold => hstarted (List.mem_append_left _ hold)
  listed := by
    intro name hname
    rcases List.mem_append.mp hname with hold | hlast
    · exact h.listed name hold
    · rw [List.mem_singleton] at hlast
      exact hlast ▸ hlisted
  nodup := h.nodup

/-- Every change leaves the archives files of their own. -/
theorem Change.sound (hchange : Change path v v') (h : Sound path v) : Sound path v' := by
  cases hchange with
  | wrote bytes hfile => exact h.refill _ _
  | opened hmissing => exact h.create hmissing
  | renamed hfile hfree => exact h.rename hfile hfree
  | started hfile hfree => exact h.createArchive hfree (ne_of_entry hfile hfree).symm
  | copied bytes hlisted hstarted hfile => exact h.refill _ _
  | completed hlisted hwhole => exact h.complete hlisted
  | removed hlisted hstarted => exact h.remove hlisted hstarted
  | emptied hfile hcomplete hwhole => exact h.refill _ _

/-! ## What the changes respect -/

/-- A file that is finished: a complete archive, or a file the sink has no business with. -/
def Finished (path : String) (v : Volume) (name : String) : Prop :=
  name ≠ path ∧ (name ∈ v.archives → name ∈ v.completed) ∧
    ∃ file, v.entries name = some file ∧ v.entries path ≠ some file

theorem finished_of_completed (h : Sound path v) {archive : String}
    (hcomplete : archive ∈ v.completed) : Finished path v archive := by
  have hlisted := h.listed archive hcomplete
  have hne : archive ≠ path := ne_of_mem_of_not_mem hlisted h.other
  obtain ⟨file, hfile⟩ := h.present archive hlisted
  refine ⟨hne, fun _ => hcomplete, file, hfile, fun hpath => hne ?_⟩
  exact h.distinct archive (List.mem_cons_of_mem _ hlisted) path List.mem_cons_self file hfile hpath

/-- A finished file stays, with all that is in it. -/
theorem Change.finished (hchange : Change path v v') (h : Sound path v) {name : String}
    (hfinished : Finished path v name) :
    Finished path v' name ∧ v'.stored name = v.stored name := by
  obtain ⟨hne, hcomplete, file, hentry, hother⟩ := hfinished
  cases hchange with
  | wrote bytes hfile =>
      refine ⟨⟨hne, hcomplete, file, hentry, hother⟩, ?_⟩
      rw [stored_acknowledge]
      apply stored_append bytes
      rw [hentry, ← hfile]
      exact fun hsame => hother hsame.symm
  | opened hmissing =>
      refine ⟨⟨hne, hcomplete, file, ?_, ?_⟩, stored_create h.known hne⟩
      · exact (Function.update_of_ne hne _ _).trans hentry
      · simp only [Volume.create, Function.update_self, ne_eq, Option.some.injEq]
        exact (h.known name file hentry).ne'
  | @renamed active archive hfile hfree =>
      have hnew : name ≠ archive := ne_of_entry hentry hfree
      refine ⟨⟨hne, ?_, file, ?_, ?_⟩, stored_rename hne hnew⟩
      · intro hlisted
        rcases List.mem_append.mp hlisted with hold | hlast
        · exact List.mem_append_left _ (hcomplete hold)
        · exact absurd (List.mem_singleton.mp hlast) hnew
      · exact ((Function.update_of_ne hnew _ _).trans (Function.update_of_ne hne _ _)).trans hentry
      · simp [Volume.rename, ne_of_entry hfile hfree]
  | @started active archive hfile hfree =>
      have hnew : name ≠ archive := ne_of_entry hentry hfree
      refine ⟨⟨hne, ?_, file, ?_, ?_⟩, stored_create h.known hnew⟩
      · intro hlisted
        rcases List.mem_append.mp hlisted with hold | hlast
        · exact hcomplete hold
        · exact absurd (List.mem_singleton.mp hlast) hnew
      · exact (Function.update_of_ne hnew _ _).trans hentry
      · intro hpath
        exact hother ((Function.update_of_ne (ne_of_entry hfile hfree) _ _).symm.trans hpath)
  | @copied part archive bytes hlisted hstarted hfile =>
      refine ⟨⟨hne, hcomplete, file, hentry, hother⟩, stored_append bytes fun hsame => ?_⟩
      have := h.own archive hlisted hstarted name part hfile hsame
      subst this
      exact hstarted (hcomplete hlisted)
  | completed hlisted hwhole =>
      refine ⟨⟨hne, fun hlisted => ?_, file, hentry, hother⟩, rfl⟩
      exact List.mem_append_left _ (hcomplete hlisted)
  | @removed archive hlisted hstarted =>
      have hkept : name ≠ archive := by
        rintro rfl
        exact hstarted (hcomplete hlisted)
      refine ⟨⟨hne, ?_, file, ?_, ?_⟩, stored_remove hkept⟩
      · exact fun hname => hcomplete (List.mem_of_mem_erase hname)
      · exact (Function.update_of_ne hkept _ _).trans hentry
      · intro hpath
        have hlog : path ≠ archive := (ne_of_mem_of_not_mem hlisted h.other).symm
        exact hother ((Function.update_of_ne hlog _ _).symm.trans hpath)
  | emptied hfile hdone hwhole =>
      refine ⟨⟨hne, hcomplete, file, hentry, hother⟩, stored_truncate fun hsame => ?_⟩
      rw [hentry] at hsame
      exact hother (hfile.trans hsame.symm)

/-- What is in the log is lost to a complete archive only; a file that stays the log is emptied
when there is one already. -/
theorem Change.lost (hchange : Change path v v') (h : Sound path v)
    (hlost : ¬ v.stored path <+: v'.stored path) :
    ∃ archive ∈ v'.completed, v'.stored archive = v.stored path ∧
      (v'.entries path = v.entries path →
        archive ∈ v.completed ∧ v.stored archive = v.stored path) := by
  have hkept : v'.stored path = v.stored path → ¬ v.stored path <+: v'.stored path → False :=
    fun hsame hnot => hnot (hsame ▸ List.prefix_refl _)
  cases hchange with
  | wrote bytes hfile =>
      have hgrown := stored_append_self bytes hfile
      exact absurd (hgrown ▸ List.prefix_append _ _) hlost
  | opened hmissing =>
      rw [stored_of_missing hmissing] at hlost
      exact absurd (List.nil_prefix) hlost
  | @renamed file archive hfile hfree =>
      refine ⟨archive, by simp [Volume.rename], ?_, fun hentry => ?_⟩
      · rw [stored_rename_archive, stored_of_entry hfile]
      · rw [hfile] at hentry
        simp [Volume.rename, ne_of_entry hfile hfree] at hentry
  | started hfile hfree =>
      exact (hkept (stored_create h.known (ne_of_entry hfile hfree)) hlost).elim
  | @copied file archive bytes hlisted hstarted hfile =>
      refine (hkept (stored_append bytes fun hpath => ?_) hlost).elim
      have hsame := h.own archive hlisted hstarted path file hfile hpath
      exact h.other (hsame ▸ hlisted)
  | completed hlisted hwhole => exact (hkept rfl hlost).elim
  | removed hlisted hstarted =>
      refine (hkept (stored_remove ?_) hlost).elim
      exact (ne_of_mem_of_not_mem hlisted h.other).symm
  | @emptied file archive hfile hcomplete hwhole =>
      refine ⟨archive, hcomplete, ?_, fun _ => ⟨hcomplete, hwhole⟩⟩
      rw [← hwhole]
      apply stored_truncate
      obtain ⟨-, -, file', hentry, hother⟩ := finished_of_completed h hcomplete
      rw [hentry, ← hfile]
      exact fun hsame => hother hsame.symm

/-- Bytes are acknowledged when they are at the end of the log. -/
theorem Change.acknowledged (hchange : Change path v v') :
    ∃ bytes, v'.acknowledged = v.acknowledged ++ bytes ∧ (bytes = [] ∨
      (v.entries path).isSome = true ∧ v'.stored path = v.stored path ++ bytes) := by
  cases hchange with
  | @wrote file bytes hfile =>
      refine ⟨bytes, rfl, .inr ⟨by rw [hfile]; rfl, ?_⟩⟩
      exact stored_append_self bytes hfile
  | opened hmissing => exact ⟨[], (List.append_nil _).symm, .inl rfl⟩
  | renamed hfile hfree => exact ⟨[], (List.append_nil _).symm, .inl rfl⟩
  | started hfile hfree => exact ⟨[], (List.append_nil _).symm, .inl rfl⟩
  | copied bytes hlisted hstarted hfile => exact ⟨[], (List.append_nil _).symm, .inl rfl⟩
  | completed hlisted hwhole => exact ⟨[], (List.append_nil _).symm, .inl rfl⟩
  | removed hlisted hstarted => exact ⟨[], (List.append_nil _).symm, .inl rfl⟩
  | emptied hfile hcomplete hwhole => exact ⟨[], (List.append_nil _).symm, .inl rfl⟩

end

end Ngsm.Supervisor.RotationSink
