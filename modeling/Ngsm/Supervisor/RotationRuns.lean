/-
# A log that loses nothing

The invariant of a sink.  The archives in the order of their creation, followed by the log, are
what was in the log when it was opened and all acknowledged bytes: exactly these in the mode
that renames, and these with repetitions in the mode that copies, where a copy may be left over
whose log was not cut short.  The handle of a sink is always the one of its log, so the count of
its bytes is right and nothing is acknowledged that went elsewhere.

A copy is only made of the whole log, behind all archives that there are, so cutting the log
short moves its bytes to the end of what is archived.
-/

import Mathlib.Data.List.Flatten
import Ngsm.Lib.Keeps
import Ngsm.Supervisor.Archives

namespace Ngsm.Supervisor.RotationSink

open Ngsm.Lib

/-! ## Accounts -/

/-- What the archives hold, in the order of their creation. -/
def archived (v : Volume) (names : List String) : Bytes :=
  names.flatMap v.stored

section

variable (path : String) (copy : Option Bool) (initial : Bytes)

/-- What has left the log is in the archives. -/
def Accounted (v : Volume) : Prop :=
  ∃ saved, initial ++ v.acknowledged = saved ++ v.stored path ∧
    saved.Sublist (archived v v.archives) ∧
      (copy ≠ some true → saved = archived v v.archives)

/-- What has left the log is in some of the archives. -/
def Backed (earlier : List String) (v : Volume) : Prop :=
  ∃ saved, initial ++ v.acknowledged = saved ++ v.stored path ∧
    saved.Sublist (archived v earlier)

end

section

variable {path : String} {copy : Option Bool} {initial : Bytes} {v v' : Volume}
  {earlier : List String}

theorem archived_congr {names : List String}
    (hsame : ∀ name ∈ names, v'.stored name = v.stored name) :
    archived v' names = archived v names :=
  List.flatMap_congr hsame

theorem archived_append (names later : List String) :
    archived v (names ++ later) = archived v names ++ archived v later :=
  List.flatMap_append

theorem archived_singleton (name : String) : archived v [name] = v.stored name := by
  simp [archived]

theorem Accounted.backed (h : Accounted path copy initial v) :
    Backed path initial v.archives v := by
  obtain ⟨saved, hsplit, hsub, -⟩ := h
  exact ⟨saved, hsplit, hsub⟩

/-- In the mode that copies, other archives do no harm. -/
theorem Backed.accounted (h : Backed path initial earlier v) (hcopy : copy = some true)
    (hsub : earlier.Sublist v.archives) : Accounted path copy initial v := by
  obtain ⟨saved, hsplit, hsaved⟩ := h
  exact ⟨saved, hsplit, hsaved.trans (hsub.flatMap _), fun hnot => absurd hcopy hnot⟩

theorem Backed.congr (h : Backed path initial earlier v)
    (hacknowledged : v'.acknowledged = v.acknowledged) (hlog : v'.stored path = v.stored path)
    (hsame : ∀ name ∈ earlier, v'.stored name = v.stored name) :
    Backed path initial earlier v' := by
  obtain ⟨saved, hsplit, hsaved⟩ := h
  refine ⟨saved, ?_, ?_⟩
  · rw [hacknowledged, hlog, hsplit]
  · rwa [archived_congr hsame]

/-- The log may be emptied when its contents are in an archive behind the others. -/
theorem Backed.emptied (h : Backed path initial earlier v) {archive : String}
    (hacknowledged : v'.acknowledged = v.acknowledged) (hlog : v'.stored path = [])
    (hwhole : v'.stored archive = v.stored path)
    (hsame : ∀ name ∈ earlier, v'.stored name = v.stored name) :
    Backed path initial (earlier ++ [archive]) v' := by
  obtain ⟨saved, hsplit, hsaved⟩ := h
  refine ⟨saved ++ v.stored path, ?_, ?_⟩
  · rw [hacknowledged, hlog, hsplit, List.append_nil]
  · rw [archived_append, archived_singleton, hwhole, archived_congr hsame]
    exact hsaved.append (List.Sublist.refl _)

theorem Accounted.wrote (h : Accounted path copy initial v) (hsound : Sound path v) {file : ℕ}
    (hfile : v.entries path = some file) (bytes : Bytes) :
    Accounted path copy initial (v.acknowledge file bytes) := by
  obtain ⟨saved, hsplit, hsub, heq⟩ := h
  have hsame : archived (v.acknowledge file bytes) v.archives = archived v v.archives := by
    apply archived_congr
    intro name hname
    rw [stored_acknowledge]
    apply stored_append bytes
    intro hentry
    have hpath := hsound.distinct name (List.mem_cons_of_mem _ hname) path List.mem_cons_self
      file hentry hfile
    exact hsound.other (hpath ▸ hname)
  refine ⟨saved, ?_, ?_, ?_⟩
  · rw [stored_acknowledge, stored_append_self bytes hfile, ← List.append_assoc, ← hsplit]
    exact (List.append_assoc _ _ _).symm
  · change saved.Sublist (archived (v.acknowledge file bytes) v.archives)
    rwa [hsame]
  · change copy ≠ some true → saved = archived (v.acknowledge file bytes) v.archives
    rwa [hsame]

theorem Accounted.opened (h : Accounted path copy initial v) (hsound : Sound path v)
    (hmissing : v.entries path = none) : Accounted path copy initial (v.create path) := by
  obtain ⟨saved, hsplit, hsub, heq⟩ := h
  have hsame : archived (v.create path) v.archives = archived v v.archives := by
    apply archived_congr
    intro name hname
    exact stored_create hsound.known (ne_of_mem_of_not_mem hname hsound.other)
  refine ⟨saved, ?_, ?_, ?_⟩
  · rw [stored_create_self]
    rwa [stored_of_missing hmissing] at hsplit
  · change saved.Sublist (archived (v.create path) v.archives)
    rwa [hsame]
  · change copy ≠ some true → saved = archived (v.create path) v.archives
    rwa [hsame]

theorem Accounted.renamed (h : Accounted path copy initial v) (hsound : Sound path v) {file : ℕ}
    {archive : String} (hfile : v.entries path = some file) (hfree : v.entries archive = none) :
    Accounted path copy initial (v.rename path archive file) := by
  obtain ⟨saved, hsplit, hsub, heq⟩ := h
  have hsame : archived (v.rename path archive file) (v.archives ++ [archive]) =
      archived v v.archives ++ v.stored path := by
    rw [archived_append, archived_singleton, stored_rename_archive, stored_of_entry hfile]
    congr 1
    apply archived_congr
    intro name hname
    exact stored_rename (ne_of_mem_of_not_mem hname hsound.other)
      (ne_of_mem_of_not_mem hname (hsound.not_listed hfree))
  refine ⟨saved ++ v.stored path, ?_, ?_, ?_⟩
  · rw [stored_rename_path (ne_of_entry hfile hfree), List.append_nil]
    exact hsplit
  · change (saved ++ v.stored path).Sublist
      (archived (v.rename path archive file) (v.archives ++ [archive]))
    rw [hsame]
    exact hsub.append (List.Sublist.refl _)
  · intro hmode
    change _ = archived (v.rename path archive file) (v.archives ++ [archive])
    rw [hsame, heq hmode]

end

/-! ## The invariant -/

section

variable (path : String) (copy : Option Bool) (initial : Bytes)

/-- The invariant of the volume, the handle and the count. -/
structure Kept (volume : Timeline Volume) (file : Option ℕ) (counted : ℕ) : Prop where
  follows : volume.Follows fun v v' => Sound path v ∧ Change path v v'
  sounds : ∀ v ∈ volume.moments, Sound path v
  accounted : ∀ v ∈ volume.moments, Accounted path copy initial v
  fits : (volume.now.stored path).length < 2 ^ 64
  handle : ∀ f, file = some f →
    volume.now.entries path = some f ∧ counted = (volume.now.content f).length

/-- The invariant of a sink that has acknowledged some bytes. -/
structure Holds (acknowledged : Bytes) (s : Sink) : Prop where
  located : s.path = path
  mode : s.copyAndTruncate = copy
  kept : Kept path copy initial s.volume s.file s.bytesInCurrent
  counted : s.volume.now.acknowledged = acknowledged

end

section

variable {path : String} {copy : Option Bool} {initial acknowledged : Bytes}

theorem Kept.sound {volume : Timeline Volume} {file : Option ℕ} {counted : ℕ}
    (h : Kept path copy initial volume file counted) : Sound path volume.now :=
  h.sounds _ List.mem_cons_self

theorem Kept.push {volume : Timeline Volume} {file file' : Option ℕ} {counted counted' : ℕ}
    (h : Kept path copy initial volume file counted) {v : Volume}
    (hchange : Change path volume.now v) (haccounted : Accounted path copy initial v)
    (hfits : (v.stored path).length < 2 ^ 64)
    (hhandle : ∀ f, file' = some f →
      v.entries path = some f ∧ counted' = (v.content f).length) :
    Kept path copy initial (volume.push v) file' counted' where
  follows := h.follows.push ⟨h.sound, hchange⟩
  sounds := by
    rw [Timeline.moments_push, List.forall_mem_cons]
    exact ⟨hchange.sound h.sound, h.sounds⟩
  accounted := by
    rw [Timeline.moments_push, List.forall_mem_cons]
    exact ⟨haccounted, h.accounted⟩
  fits := hfits
  handle := hhandle

theorem Kept.accounted_now {volume : Timeline Volume} {file : Option ℕ} {counted : ℕ}
    (h : Kept path copy initial volume file counted) :
    Accounted path copy initial volume.now :=
  h.accounted _ List.mem_cons_self

theorem Kept.closed {volume : Timeline Volume} {file : Option ℕ} {counted : ℕ}
    (h : Kept path copy initial volume file counted) (counted' : ℕ) :
    Kept path copy initial volume none counted' :=
  ⟨h.follows, h.sounds, h.accounted, h.fits, by simp⟩

/-- The outside world has moved on. -/
def Sink.waiting (s : Sink) (ahead : ℕ → Answer) : Sink :=
  { s with ahead }

/-- The assertion says nothing about the answers that lie ahead. -/
def Blind (I : Sink → Prop) : Prop :=
  ∀ s ahead, I s → I (s.waiting ahead)

theorem Holds.waiting {s : Sink} (h : Holds path copy initial acknowledged s)
    (ahead : ℕ → Answer) : Holds path copy initial acknowledged (s.waiting ahead) :=
  ⟨h.located, h.mode, h.kept, h.counted⟩

/-- A sink without a handle. -/
def Closed (path : String) (copy : Option Bool) (initial acknowledged : Bytes) (s : Sink) : Prop :=
  Holds path copy initial acknowledged s ∧ s.file = none

theorem blind_holds : Blind (Holds path copy initial acknowledged) :=
  fun _ ahead h => h.waiting ahead

theorem blind_closed : Blind (Closed path copy initial acknowledged) :=
  fun _ ahead h => ⟨h.1.waiting ahead, h.2⟩

end

theorem wp_ask {Q : Answer → Sink → Prop} {R : IoError → Sink → Prop} {s : Sink} :
    ask.wp Q R s ↔ Q (s.ahead 0) (s.waiting fun n => s.ahead (n + 1)) :=
  Iff.rfl

/-! ## Calls that change nothing -/

section

variable {I : Sink → Prop} (hI : Blind I)

include hI

theorem keeps_ask : ask.Keeps I fun _ => True :=
  fun _ h => hI _ _ h

theorem keeps_checkCancelled : checkCancelled.Keeps I fun _ => True := by
  apply (keeps_ask hI).bind
  intro answer
  split
  · exact .throw trivial
  · exact .pure _

theorem keeps_tryCall : tryCall.Keeps I fun _ => True := by
  apply (keeps_ask hI).bind
  intro answer
  split
  · exact .throw trivial
  · exact .pure _

omit hI in
theorem keeps_currentVolume : currentVolume.Keeps I fun _ => True :=
  fun _ h => h

omit hI in
theorem keeps_currentSink : currentSink.Keeps I fun _ => True :=
  fun _ h => h

theorem keeps_pathExists (name : String) : (pathExists name).Keeps I fun _ => True := by
  apply (keeps_ask hI).bind
  intro answer
  apply keeps_currentVolume.bind
  intro volume
  exact .pure _

theorem keeps_firstFree (otherwise : String) (candidates : List String) :
    (firstFree otherwise candidates).Keeps I fun _ => True := by
  induction candidates with
  | nil => exact .pure _
  | cons candidate candidates ih =>
      apply (keeps_pathExists hI candidate).bind
      intro taken
      split
      · exact ih
      · exact .pure _

theorem keeps_buildRotatedName (name : String) :
    (buildRotatedName name).Keeps I fun _ => True := by
  apply (keeps_ask hI).bind
  intro answer
  exact keeps_firstFree hI _ _

theorem keeps_syncFile : syncFile.Keeps I fun _ => True := by
  apply keeps_currentSink.bind
  intro sink
  split
  · exact keeps_tryCall hI
  · exact .pure _

theorem keeps_lock : lock.Keeps I fun _ => True := by
  apply (keeps_checkCancelled hI).bind
  intro _
  exact keeps_tryCall hI

end

/-! ## Opening and writing -/

section

variable {path : String} {copy : Option Bool} {initial acknowledged : Bytes} {s : Sink}

theorem Closed.push (h : Closed path copy initial acknowledged s) {v : Volume}
    (hchange : Change path s.volume.now v) (haccounted : Accounted path copy initial v)
    (hfits : (v.stored path).length < 2 ^ 64)
    (hsame : v.acknowledged = s.volume.now.acknowledged) :
    Closed path copy initial acknowledged { s with volume := s.volume.push v } := by
  obtain ⟨⟨hlocated, hmode, hkept, hcounted⟩, hclosed⟩ := h
  refine ⟨⟨hlocated, hmode, ?_, hsame.trans hcounted⟩, hclosed⟩
  apply hkept.push hchange haccounted hfits
  rw [hclosed]
  simp

theorem wp_reopen (h : Closed path copy initial acknowledged s) :
    (reopen path).wp
      (fun file s' => Closed path copy initial acknowledged s' ∧
        s'.volume.now.entries path = some file)
      (fun _ s' => Closed path copy initial acknowledged s') s := by
  unfold reopen
  rw [Prog.wp_bind]
  refine (keeps_tryCall blind_closed).wp h (fun _ s' h' => ?_) fun _ _ _ h' => h'
  rw [Prog.wp_bind, currentVolume, Prog.wp_step]
  rcases hentry : s'.volume.now.entries path with _ | file
  · simp only [hentry, change, Prog.wp_bind, Prog.wp_modify, Prog.wp_pure]
    refine ⟨h'.push (.opened hentry) ?_ ?_ rfl, Function.update_self ..⟩
    · exact h'.1.kept.accounted_now.opened h'.1.kept.sound hentry
    · rw [stored_create_self]
      decide
  · simp only [hentry]
    exact ⟨h', hentry⟩

theorem wp_reopenFile (h : Closed path copy initial acknowledged s) :
    reopenFile.wp
      (fun file s' => Holds path copy initial acknowledged s' ∧ s'.file = some file)
      (fun _ s' => Closed path copy initial acknowledged s') s := by
  unfold reopenFile
  rw [Prog.wp_bind, currentSink, Prog.wp_step]
  simp only
  rw [Prog.wp_bind, h.1.located]
  refine Prog.wp_mono _ ?_ (fun _ _ h' => h') (wp_reopen h)
  rintro file s' ⟨h', hentry⟩
  unfold metadataLength
  rw [Prog.wp_bind, Prog.wp_bind]
  have hblind : Blind fun t => Closed path copy initial acknowledged t ∧
      t.volume.now.entries path = some file :=
    fun t ahead ht => ⟨blind_closed t ahead ht.1, ht.2⟩
  refine (keeps_tryCall hblind).wp ⟨h', hentry⟩ (fun _ t ht => ?_) fun _ _ _ ht => ht.1
  obtain ⟨⟨⟨hlocated, hmode, hkept, hcounted⟩, -⟩, hentry⟩ := ht
  rw [Prog.wp_bind, currentVolume, Prog.wp_step]
  simp only [Prog.wp_bind, Prog.wp_pure, Prog.wp_modify]
  refine ⟨⟨hlocated, hmode, ?_, hcounted⟩, trivial⟩
  refine ⟨hkept.follows, hkept.sounds, hkept.accounted, hkept.fits, ?_⟩
  rintro f ⟨⟩
  exact ⟨hentry, rfl⟩

theorem wp_openFile (h : Holds path copy initial acknowledged s) :
    openFile.wp
      (fun file s' => Holds path copy initial acknowledged s' ∧ s'.file = some file)
      (fun _ s' => Holds path copy initial acknowledged s') s := by
  unfold openFile
  rw [Prog.wp_bind, currentSink, Prog.wp_step]
  rcases hfile : s.file with _ | file
  · simp only [hfile]
    exact Prog.wp_mono _ (fun _ _ h' => h') (fun _ _ h' => h'.1) (wp_reopenFile ⟨h, hfile⟩)
  · simp only [hfile]
    exact ⟨h, hfile⟩

/-- A write that returns has put the first bytes at the end of the log. -/
theorem wp_writeSome (h : Holds path copy initial acknowledged s) (bytes : Bytes) :
    (writeSome bytes).wp
      (fun n s' => Holds path copy initial (acknowledged ++ bytes.take n) s')
      (fun _ s' => Holds path copy initial acknowledged s') s := by
  unfold writeSome
  rw [Prog.wp_bind]
  refine (keeps_lock blind_holds).wp h (fun _ s h => ?_) fun _ _ _ h' => h'
  rw [Prog.wp_bind]
  refine Prog.wp_mono _ ?_ (fun _ _ h' => h') (wp_openFile h)
  rintro file s ⟨h, hfile⟩
  unfold write ask
  rw [Prog.wp_bind, Prog.wp_bind, Prog.wp_step]
  simp only
  cases (s.ahead 0).fault with
  | some message => exact h.waiting _
  | none =>
      simp only [currentVolume, change, Prog.wp_bind, Prog.wp_step, Prog.wp_modify, Prog.wp_pure]
      obtain ⟨hlocated, hmode, hkept, hcounted⟩ := h
      obtain ⟨hentry, hcount⟩ := hkept.handle file hfile
      have hlog := stored_of_entry hentry
      have hroom := hkept.fits
      rw [hlog] at hroom
      generalize htaken : bytes.take (min (s.ahead 0).count
        (2 ^ 64 - 1 - (s.volume.now.content file).length)) = taken
      have hwhole : bytes.take taken.length = taken := by
        rw [← htaken, List.length_take, ← List.take_take, List.take_length]
      have hlength : (s.volume.now.content file).length + taken.length < 2 ^ 64 := by
        rw [← htaken, List.length_take]
        omega
      have hgrown : (s.volume.now.acknowledge file taken).content file =
          s.volume.now.content file ++ taken := Function.update_self ..
      refine ⟨hlocated, hmode, ?_, ?_⟩
      · apply hkept.push (.wrote taken hentry) (hkept.accounted_now.wrote hkept.sound hentry taken)
        · rw [stored_acknowledge, stored_append_self taken hentry, hlog, List.length_append]
          exact hlength
        · intro f hf
          rw [hfile, Option.some.injEq] at hf
          subst hf
          refine ⟨hentry, ?_⟩
          rw [hgrown, List.length_append, saturatingAdd, hcount]
          exact min_eq_left (Nat.le_pred_of_lt hlength)
      · change s.volume.now.acknowledged ++ taken = _
        rw [hcounted, hwhole]

end

/-! ## Copying -/

section

variable {path : String} {initial acknowledged : Bytes} {s : Sink} {earlier : List String}
  {archive : String} {source destination : ℕ}

/-- A copy of the log is in the making, behind the earlier archives. -/
structure Copying (path : String) (initial acknowledged : Bytes) (earlier : List String)
    (archive : String) (source destination : ℕ) (s : Sink) : Prop where
  closed : Closed path (some true) initial acknowledged s
  archives : s.volume.now.archives = earlier ++ [archive]
  making : archive ∉ s.volume.now.completed
  source : s.volume.now.entries path = some source
  destination : s.volume.now.entries archive = some destination
  backed : Backed path initial earlier s.volume.now

theorem blind_copying :
    Blind (Copying path initial acknowledged earlier archive source destination) :=
  fun s ahead h => ⟨blind_closed s ahead h.closed, h.archives, h.making, h.source, h.destination,
    h.backed⟩

theorem Copying.listed
    (h : Copying path initial acknowledged earlier archive source destination s) :
    archive ∈ s.volume.now.archives := by
  rw [h.archives]
  simp

theorem Copying.ne (h : Copying path initial acknowledged earlier archive source destination s) :
    archive ≠ path :=
  ne_of_mem_of_not_mem h.listed h.closed.1.kept.sound.other

theorem Copying.not_earlier
    (h : Copying path initial acknowledged earlier archive source destination s) :
    archive ∉ earlier := by
  have hnodup := h.closed.1.kept.sound.nodup
  rw [h.archives, List.nodup_append] at hnodup
  intro hearlier
  exact hnodup.2.2 archive hearlier archive (by simp) rfl

theorem Copying.not_source
    (h : Copying path initial acknowledged earlier archive source destination s) :
    destination ≠ source := by
  rintro rfl
  exact h.ne (h.closed.1.kept.sound.distinct archive (List.mem_cons_of_mem _ h.listed) path
    List.mem_cons_self _ h.destination h.source)

/-- Appending to the copy changes nothing else. -/
theorem Copying.append
    (h : Copying path initial acknowledged earlier archive source destination s)
    (bytes : Bytes) : Copying path initial acknowledged earlier archive source destination
      { s with volume := s.volume.push (s.volume.now.append destination bytes) } := by
  have hother : ∀ name, name ≠ archive →
      (s.volume.now.append destination bytes).stored name = s.volume.now.stored name := by
    intro name hne
    apply stored_append
    intro hentry
    exact hne (h.closed.1.kept.sound.own archive h.listed h.making name destination h.destination
      hentry)
  have hbacked : Backed path initial earlier (s.volume.now.append destination bytes) := by
    apply h.backed.congr
    · rfl
    · exact hother path h.ne.symm
    · exact fun name hname => hother name (ne_of_mem_of_not_mem hname h.not_earlier)
  refine ⟨h.closed.push (.copied bytes h.listed h.making h.destination) ?_ ?_ rfl, h.archives,
    h.making, h.source, h.destination, hbacked⟩
  · apply hbacked.accounted rfl
    rw [show (s.volume.now.append destination bytes).archives = earlier ++ [archive] from
      h.archives]
    exact List.sublist_append_left _ _
  · rw [hother path h.ne.symm]
    exact h.closed.1.kept.fits

theorem wp_writeAll
    (h : Copying path initial acknowledged earlier archive source destination s)
    (bytes : Bytes) :
    (writeAll destination bytes).wp
      (fun _ s' => Copying path initial acknowledged earlier archive source destination s' ∧
        s'.volume.now.content destination = s.volume.now.content destination ++ bytes ∧
        s'.volume.now.content source = s.volume.now.content source)
      (fun _ s' => Copying path initial acknowledged earlier archive source destination s') s := by
  have hlater := blind_copying s (fun n => s.ahead (n + 1)) h
  unfold writeAll
  rw [Prog.wp_bind, wp_ask]
  rcases (s.ahead 0).fault with _ | message
  · refine ⟨hlater.append bytes, ?_, ?_⟩
    · exact Function.update_self ..
    · exact Function.update_of_ne h.not_source.symm _ _
  · exact hlater.append (bytes.take (s.ahead 0).count)

theorem wp_readChunk {I : Sink → Prop} (hI : Blind I) (h : I s) (file offset : ℕ) :
    (readChunk file offset).wp
      (fun chunk s' => I s' ∧ ∃ count, 0 < count ∧
        chunk = ((s'.volume.now.content file).drop offset).take count)
      (fun _ s' => I s') s := by
  have hlater := hI s (fun n => s.ahead (n + 1)) h
  unfold readChunk
  rw [Prog.wp_bind, wp_ask]
  rcases (s.ahead 0).fault with _ | message
  · refine ⟨hlater, _, ?_, rfl⟩
    exact Nat.lt_of_lt_of_le Nat.one_pos (le_max_left _ _)
  · exact hlater

/-- A copy that returns is a copy of the whole log. -/
theorem wp_copyFrom (fuel : ℕ) :
    ∀ (s : Sink) (offset : ℕ),
      Copying path initial acknowledged earlier archive source destination s →
      s.volume.now.content destination = (s.volume.now.content source).take offset →
      (s.volume.now.content source).length < offset + fuel →
      (copyFrom source destination fuel offset).wp
        (fun _ s' => Copying path initial acknowledged earlier archive source destination s' ∧
          s'.volume.now.content destination = s'.volume.now.content source)
        (fun _ s' => Copying path initial acknowledged earlier archive source destination s') s := by
  induction fuel with
  | zero =>
      intro s offset h hcopied hfuel
      refine ⟨h, ?_⟩
      rw [hcopied, List.take_of_length_le (by omega)]
  | succ fuel ih =>
      intro s offset h hcopied hfuel
      let I : Sink → Prop := fun t =>
        Copying path initial acknowledged earlier archive source destination t ∧
          t.volume.now.content destination = (t.volume.now.content source).take offset ∧
            (t.volume.now.content source).length < offset + (fuel + 1)
      have hI : Blind I := fun t ahead ht => ⟨blind_copying t ahead ht.1, ht.2⟩
      unfold copyFrom
      rw [Prog.wp_bind]
      refine (keeps_checkCancelled hI).wp ⟨h, hcopied, hfuel⟩ (fun _ t ht => ?_)
        fun _ _ _ ht => ht.1
      rw [Prog.wp_bind]
      refine Prog.wp_mono _ ?_ (fun _ _ ht => ht.1) (wp_readChunk hI ht source offset)
      rintro chunk t ⟨⟨ht, hcopied, hfuel⟩, count, hcount, hchunk⟩
      have hlength := congrArg List.length hchunk
      rw [List.length_take, List.length_drop] at hlength
      split
      · rename_i hempty
        rw [List.isEmpty_iff.mp hempty, List.length_nil] at hlength
        refine ⟨ht, ?_⟩
        rw [hcopied, List.take_of_length_le (by omega)]
      · rename_i hnonempty
        have hpositive : chunk.length ≠ 0 := by
          intro hzero
          rw [List.length_eq_zero_iff.mp hzero] at hnonempty
          exact hnonempty rfl
        have hwhole : ((t.volume.now.content source).drop offset).take chunk.length = chunk := by
          rw [hchunk, List.length_take, ← List.take_take, List.take_length]
        rw [Prog.wp_bind]
        refine Prog.wp_mono _ ?_ (fun _ _ h' => h') (wp_writeAll ht chunk)
        rintro ⟨⟩ t' ⟨ht', hgrown, hsource⟩
        apply ih t' _ ht'
        · rw [hgrown, hcopied, hsource, List.take_add, hwhole]
        · rw [hsource]
          omega

/-- The copy is complete, and the log still has what is in it. -/
structure Copied (path : String) (initial acknowledged : Bytes) (earlier : List String)
    (archive : String) (s : Sink) : Prop where
  closed : Closed path (some true) initial acknowledged s
  archives : s.volume.now.archives = earlier ++ [archive]
  complete : archive ∈ s.volume.now.completed
  whole : s.volume.now.stored archive = s.volume.now.stored path
  backed : Backed path initial earlier s.volume.now
  fresh : archive ∉ earlier

theorem blind_copied : Blind (Copied path initial acknowledged earlier archive) :=
  fun s ahead h => ⟨blind_closed s ahead h.closed, h.archives, h.complete, h.whole, h.backed,
    h.fresh⟩

theorem Copying.complete
    (h : Copying path initial acknowledged earlier archive source destination s)
    (hwhole : s.volume.now.content destination = s.volume.now.content source) :
    Copied path initial acknowledged earlier archive
      { s with volume := s.volume.push (s.volume.now.complete archive) } := by
  have hstored : s.volume.now.stored archive = s.volume.now.stored path := by
    rw [stored_of_entry h.destination, stored_of_entry h.source, hwhole]
  have hbacked : Backed path initial earlier (s.volume.now.complete archive) :=
    h.backed.congr rfl rfl fun _ _ => rfl
  refine ⟨h.closed.push (.completed h.listed hstored) ?_ h.closed.1.kept.fits rfl, h.archives,
    List.mem_append_right _ List.mem_cons_self, hstored, hbacked, h.not_earlier⟩
  apply hbacked.accounted rfl
  rw [show (s.volume.now.complete archive).archives = earlier ++ [archive] from h.archives]
  exact List.sublist_append_left _ _

/-- A copy that failed is removed again. -/
theorem wp_removeFile
    (h : Copying path initial acknowledged earlier archive source destination s) :
    (removeFile archive).wp
      (fun _ s' => Closed path (some true) initial acknowledged s')
      (fun _ s' => Closed path (some true) initial acknowledged s') s := by
  unfold removeFile
  rw [Prog.wp_bind]
  refine (keeps_tryCall blind_copying).wp h (fun _ s h => ?_) fun _ _ _ h => h.closed
  have hother : ∀ name, name ≠ archive →
      (s.volume.now.remove archive).stored name = s.volume.now.stored name :=
    fun name hne => stored_remove hne
  refine h.closed.push (.removed h.listed h.making) ?_ ?_ rfl
  · have hbacked : Backed path initial earlier (s.volume.now.remove archive) := by
      apply h.backed.congr
      · rfl
      · exact hother path h.ne.symm
      · exact fun name hname => hother name (ne_of_mem_of_not_mem hname h.not_earlier)
    apply hbacked.accounted rfl
    change earlier.Sublist (s.volume.now.archives.erase archive)
    rw [h.archives, List.erase_append_right _ h.not_earlier]
    exact List.sublist_append_left _ _
  · rw [hother path h.ne.symm]
    exact h.closed.1.kept.fits

theorem wp_openExisting {I : Sink → Prop} (hI : Blind I) (h : I s) (name : String) :
    (openExisting name).wp (fun file s' => I s' ∧ s'.volume.now.entries name = some file)
      (fun _ s' => I s') s := by
  unfold openExisting
  rw [Prog.wp_bind]
  refine (keeps_tryCall hI).wp h (fun _ s h => ?_) fun _ _ _ h => h
  rw [Prog.wp_bind, currentVolume, Prog.wp_step]
  rcases hentry : s.volume.now.entries name with _ | file
  · simp only [hentry]
    exact h
  · simp only [hentry]
    exact ⟨h, hentry⟩

theorem wp_createNew (h : Closed path (some true) initial acknowledged s)
    (hsource : s.volume.now.entries path = some source) :
    (createNew archive).wp
      (fun destination s' => (∃ earlier, Copying path initial acknowledged earlier archive source
        destination s') ∧ s'.volume.now.content destination = [])
      (fun _ s' => Closed path (some true) initial acknowledged s') s := by
  have hblind : Blind fun t => Closed path (some true) initial acknowledged t ∧
      t.volume.now.entries path = some source :=
    fun t ahead ht => ⟨blind_closed t ahead ht.1, ht.2⟩
  unfold createNew
  rw [Prog.wp_bind]
  refine (keeps_tryCall hblind).wp ⟨h, hsource⟩ (fun _ s h => ?_) fun _ _ _ h => h.1
  obtain ⟨h, hsource⟩ := h
  rw [Prog.wp_bind, currentVolume, Prog.wp_step]
  rcases hentry : s.volume.now.entries archive with _ | file
  · simp only [hentry, change, Prog.wp_bind, Prog.wp_modify, Prog.wp_pure]
    have hsound := h.1.kept.sound
    have hne : archive ≠ path := (ne_of_entry hsource hentry).symm
    have hother : ∀ name, name ≠ archive →
        (s.volume.now.createArchive archive).stored name = s.volume.now.stored name :=
      fun name hne => stored_create hsound.known hne
    have hbacked : Backed path initial s.volume.now.archives
        (s.volume.now.createArchive archive) := by
      apply h.1.kept.accounted_now.backed.congr
      · rfl
      · exact hother path hne.symm
      · exact fun name hname =>
          hother name (ne_of_mem_of_not_mem hname (hsound.not_listed hentry))
    refine ⟨⟨s.volume.now.archives, h.push (.started hsource hentry) ?_ ?_ rfl, rfl, ?_, ?_, ?_,
      hbacked⟩, Function.update_self ..⟩
    · exact hbacked.accounted rfl (List.sublist_append_left _ _)
    · rw [hother path hne.symm]
      exact h.1.kept.fits
    · exact fun hcomplete => hsound.not_listed hentry (hsound.listed archive hcomplete)
    · exact (Function.update_of_ne hne.symm _ _).trans hsource
    · exact Function.update_self ..
  · simp only [hentry]
    exact h

theorem wp_copyArchive (h : Closed path (some true) initial acknowledged s) :
    (copyArchive path archive).wp
      (fun _ s' => ∃ earlier, Copied path initial acknowledged earlier archive s')
      (fun _ s' => Closed path (some true) initial acknowledged s') s := by
  unfold copyArchive
  rw [Prog.wp_bind]
  refine Prog.wp_mono _ ?_ (fun _ _ h' => h') (wp_openExisting blind_closed h path)
  rintro source s ⟨h, hsource⟩
  rw [Prog.wp_bind]
  refine Prog.wp_mono _ ?_ (fun _ _ h' => h') (wp_createNew h hsource)
  rintro destination s ⟨⟨earlier, h⟩, hempty⟩
  rw [Prog.wp_bind, currentVolume, Prog.wp_step]
  simp only
  rw [Prog.wp_bind, Prog.wp_attempt, Prog.wp_bind]
  have hfailed : ∀ (error : IoError) (s' : Sink),
      Copying path initial acknowledged earlier archive source destination s' →
      (do
        let _ ← (removeFile archive).attempt
        throw error : SinkM Unit).wp
        (fun _ s' => ∃ earlier, Copied path initial acknowledged earlier archive s')
        (fun _ s' => Closed path (some true) initial acknowledged s') s' := by
    intro error s' h'
    rw [Prog.wp_bind, Prog.wp_attempt]
    exact wp_removeFile h'
  refine Prog.wp_mono _ ?_ hfailed (wp_copyFrom _ s 0 h (by rw [hempty]; rfl) (by omega))
  rintro ⟨⟩ s ⟨h, hwhole⟩
  have hblind : Blind fun t =>
      Copying path initial acknowledged earlier archive source destination t ∧
        t.volume.now.content destination = t.volume.now.content source :=
    fun t ahead ht => ⟨blind_copying t ahead ht.1, ht.2⟩
  refine (keeps_tryCall hblind).wp ⟨h, hwhole⟩ (fun _ s h => ?_) fun e s _ h => hfailed e s h.1
  exact ⟨earlier, h.1.complete h.2⟩

theorem wp_copyAndTruncate (h : Closed path (some true) initial acknowledged s) :
    (copyAndTruncate path archive).wp
      (fun _ s' => Closed path (some true) initial acknowledged s')
      (fun _ s' => Closed path (some true) initial acknowledged s') s := by
  unfold copyAndTruncate
  rw [Prog.wp_bind]
  refine Prog.wp_mono _ ?_ (fun _ _ h' => h') (wp_copyArchive h)
  rintro ⟨⟩ s ⟨earlier, h⟩
  rw [Prog.wp_bind]
  refine (keeps_checkCancelled blind_copied).wp h (fun _ s h => ?_) fun _ _ _ h => h.closed
  rw [Prog.wp_bind]
  refine Prog.wp_mono _ ?_ (fun _ _ h' => h'.closed) (wp_openExisting blind_copied h path)
  rintro file s ⟨h, hentry⟩
  have hblind : Blind fun t => Copied path initial acknowledged earlier archive t ∧
      t.volume.now.entries path = some file :=
    fun t ahead ht => ⟨blind_copied t ahead ht.1, ht.2⟩
  unfold setLengthZero
  rw [Prog.wp_bind]
  refine (keeps_tryCall hblind).wp ⟨h, hentry⟩ (fun _ s h => ?_) fun _ _ _ h => h.1.closed
  obtain ⟨h, hentry⟩ := h
  have hsound := h.closed.1.kept.sound
  have hkept : ∀ name ∈ s.volume.now.archives,
      (s.volume.now.truncate file).stored name = s.volume.now.stored name := by
    intro name hname
    apply stored_truncate
    intro hsame
    have hpath := hsound.distinct name (List.mem_cons_of_mem _ hname) path List.mem_cons_self
      file hsame hentry
    exact hsound.other (hpath ▸ hname)
  have hlog := stored_truncate_self hentry
  refine h.closed.push (.emptied hentry h.complete h.whole) ?_ ?_ rfl
  · have hbacked : Backed path initial (earlier ++ [archive]) (s.volume.now.truncate file) := by
      apply h.backed.emptied
      · rfl
      · exact hlog
      · rw [hkept archive (hsound.listed archive h.complete), h.whole]
      · intro name hname
        apply hkept
        rw [h.archives]
        exact List.mem_append_left _ hname
    apply hbacked.accounted rfl
    rw [show (s.volume.now.truncate file).archives = earlier ++ [archive] from h.archives]
  · rw [hlog]
    decide

end

/-! ## Rotating -/

section

variable {path : String} {copy : Option Bool} {initial acknowledged : Bytes} {s : Sink}

theorem wp_rename (h : Closed path copy initial acknowledged s) (archive : String) :
    (rename path archive).wp
      (fun _ s' => Closed path copy initial acknowledged s')
      (fun _ s' => Closed path copy initial acknowledged s') s := by
  unfold rename
  rw [Prog.wp_bind]
  refine (keeps_tryCall blind_closed).wp h (fun _ s h => ?_) fun _ _ _ h => h
  rw [Prog.wp_bind, currentVolume, Prog.wp_step]
  rcases hentry : s.volume.now.entries path with _ | file
  · simp only [hentry]
    exact h
  · rcases hfree : s.volume.now.entries archive with _ | other
    · simp only [hentry, hfree, change, Prog.wp_modify]
      refine h.push (.renamed hentry hfree) ?_ ?_ rfl
      · exact h.1.kept.accounted_now.renamed h.1.kept.sound hentry hfree
      · rw [stored_rename_path (ne_of_entry hentry hfree)]
        decide
    · simp only [hentry, hfree]
      exact h

theorem wp_moveAside (h : Closed path copy initial acknowledged s) (rotated : String) :
    (moveAside rotated).wp
      (fun _ s' => Closed path copy initial acknowledged s')
      (fun _ s' => Closed path copy initial acknowledged s') s := by
  unfold moveAside
  rw [Prog.wp_bind, currentSink, Prog.wp_step]
  simp only [h.1.located, h.1.mode]
  split
  · rename_i hcopy
    subst hcopy
    exact wp_copyAndTruncate h
  · rw [Prog.wp_bind]
    refine (keeps_checkCancelled blind_closed).wp h (fun _ s h => ?_) fun _ _ _ h => h
    exact wp_rename h rotated

theorem Holds.close (h : Holds path copy initial acknowledged s) :
    Closed path copy initial acknowledged { s with file := none } :=
  ⟨⟨h.located, h.mode, h.kept.closed _, h.counted⟩, rfl⟩

theorem wp_rotateState (h : Holds path copy initial acknowledged s) :
    rotateState.wp
      (fun _ s' => Holds path copy initial acknowledged s')
      (fun _ s' => Holds path copy initial acknowledged s') s := by
  unfold rotateState
  rw [Prog.wp_bind, currentSink, Prog.wp_step]
  simp only
  rw [Prog.wp_bind]
  refine (keeps_buildRotatedName blind_holds _).wp h (fun rotated s h => ?_) fun _ _ _ h => h
  rw [Prog.wp_bind]
  refine (keeps_checkCancelled blind_holds).wp h (fun _ s h => ?_) fun _ _ _ h => h
  rw [Prog.wp_bind]
  refine (keeps_syncFile blind_holds).wp h (fun _ s h => ?_) fun _ _ _ h => h
  rw [Prog.wp_bind, Prog.wp_modify, Prog.wp_bind, Prog.wp_attempt]
  -- from here on there is no handle, and whatever becomes of the log, it is opened again
  have hrest : ∀ (t : Sink) (last : SinkM (Option String)),
      Closed path copy initial acknowledged t →
      (∀ t', Holds path copy initial acknowledged t' →
        last.wp (fun _ s' => Holds path copy initial acknowledged s')
          (fun _ s' => Holds path copy initial acknowledged s') t') →
      (do
        checkCancelled
        let _ ← reopenFile
        last).wp
        (fun _ s' => Holds path copy initial acknowledged s')
        (fun _ s' => Holds path copy initial acknowledged s') t := by
    intro t last ht hlast
    rw [Prog.wp_bind]
    refine (keeps_checkCancelled blind_closed).wp ht (fun _ t ht => ?_) fun _ _ _ ht => ht.1
    rw [Prog.wp_bind]
    refine Prog.wp_mono _ ?_ (fun _ _ h' => h'.1) (wp_reopenFile ht)
    rintro file t ⟨ht, -⟩
    exact hlast t ht
  exact Prog.wp_mono _ (fun _ t ht => hrest t _ ht fun _ ht' => ht')
    (fun _ t ht => hrest t _ ht fun _ ht' => ht') (wp_moveAside h.close rotated)

theorem wp_rotate (h : Holds path copy initial acknowledged s) :
    rotate.wp
      (fun _ s' => Holds path copy initial acknowledged s')
      (fun _ s' => Holds path copy initial acknowledged s') s := by
  unfold rotate
  rw [Prog.wp_bind]
  refine (keeps_lock blind_holds).wp h (fun _ s h => ?_) fun _ _ _ h => h
  rw [Prog.wp_bind, currentSink, Prog.wp_step]
  simp only
  split
  · exact h
  · rw [Prog.wp_bind, Prog.wp_attempt]
    have hrest : ∀ (result : Except IoError (Option String)) (t : Sink),
        Holds path copy initial acknowledged t →
        (do
          modify fun s => { s with rotationQueued := false }
          liftExcept result : SinkM (Option String)).wp
          (fun _ s' => Holds path copy initial acknowledged s')
          (fun _ s' => Holds path copy initial acknowledged s') t := by
      intro result t ht
      rw [Prog.wp_bind, Prog.wp_modify, Prog.wp_liftExcept]
      cases result with
      | ok name => exact ⟨ht.located, ht.mode, ht.kept, ht.counted⟩
      | error e => exact ⟨ht.located, ht.mode, ht.kept, ht.counted⟩
    exact Prog.wp_mono _ (fun name t ht => hrest (.ok name) t ht)
      (fun e t ht => hrest (.error e) t ht) (wp_rotateState h)

end

/-! ## Runs -/

/-- The calls of a sink. -/
inductive Call where
  | writeSome (bytes : Bytes)
  | rotate

/-- Make a call: the bytes it acknowledges, and the sink after it. -/
def perform : Call → Sink → Bytes × Sink
  | .writeSome bytes, s =>
      match (writeSome bytes).exec s with
      | (.ok n, s') => (bytes.take n, s')
      | (.error _, s') => ([], s')
  | .rotate, s => ([], (rotate.exec s).2)

/-- The bytes that some calls acknowledge, and the sink after them. -/
def runCalls : List Call → Sink → Bytes × Sink
  | [], s => ([], s)
  | call :: calls, s =>
      let (first, next) := perform call s
      let (later, last) := runCalls calls next
      (first ++ later, last)

/-- A sink that has just been opened: the directory, the file of the log in it, and the answers
that the outside world will give. -/
structure Opened where
  entries : String → Option ℕ
  content : ℕ → Bytes
  next : ℕ
  known : ∀ name file, entries name = some file → file < next
  path : String
  file : ℕ
  located : entries path = some file
  fits : (content file).length < 2 ^ 64
  copyAndTruncate : Option Bool
  rotationQueued : Bool
  ahead : ℕ → Answer

namespace Opened

def volume (start : Opened) : Volume where
  entries := start.entries
  content := start.content
  next := start.next
  archives := []
  completed := []
  acknowledged := []

def sink (start : Opened) : Sink where
  path := start.path
  copyAndTruncate := start.copyAndTruncate
  file := some start.file
  bytesInCurrent := (start.content start.file).length
  rotationQueued := start.rotationQueued
  volume := .begin start.volume
  ahead := start.ahead

/-- What is in the log when it is opened. -/
def initial (start : Opened) : Bytes :=
  start.content start.file

theorem sound (start : Opened) : Sound start.path start.volume where
  known := start.known
  present := by simp [volume]
  other := by simp [volume]
  distinct := by simp [volume]
  own := by simp [volume]
  listed := by simp [volume]
  nodup := by simp [volume]

theorem holds (start : Opened) :
    Holds start.path start.copyAndTruncate start.initial [] start.sink where
  located := rfl
  mode := rfl
  counted := rfl
  kept := {
    follows := Timeline.follows_begin _
    sounds := by
      intro v hv
      rw [sink, Timeline.moments, Timeline.begin, List.mem_singleton] at hv
      exact hv ▸ start.sound
    accounted := by
      intro v hv
      rw [sink, Timeline.moments, Timeline.begin, List.mem_singleton] at hv
      subst hv
      refine ⟨[], ?_, List.Sublist.refl _, fun _ => rfl⟩
      rw [stored_of_entry (show start.volume.entries start.path = some start.file from
        start.located)]
      exact List.append_nil _
    fits := by
      rw [sink, Timeline.begin, stored_of_entry (show start.volume.entries start.path =
        some start.file from start.located)]
      exact start.fits
    handle := by
      rintro f ⟨⟩
      exact ⟨start.located, rfl⟩ }

end Opened

section

variable {path : String} {copy : Option Bool} {initial acknowledged : Bytes} {s : Sink}

theorem Holds.call (h : Holds path copy initial acknowledged s) (call : Call) :
    Holds path copy initial (acknowledged ++ (perform call s).1) (perform call s).2 := by
  cases call with
  | writeSome bytes =>
      have hwp := wp_writeSome h bytes
      rcases hrun : (writeSome bytes).exec s with ⟨e | n, s'⟩
      · simp only [perform, hrun, List.append_nil]
        exact Prog.wp_error _ hwp hrun
      · simp only [perform, hrun]
        exact Prog.wp_ok _ hwp hrun
  | rotate =>
      have hwp := wp_rotate h
      rcases hrun : rotate.exec s with ⟨e | name, s'⟩
      · simp only [perform, hrun, List.append_nil]
        exact Prog.wp_error _ hwp hrun
      · simp only [perform, hrun, List.append_nil]
        exact Prog.wp_ok _ hwp hrun

theorem Holds.calls (h : Holds path copy initial acknowledged s) (calls : List Call) :
    Holds path copy initial (acknowledged ++ (runCalls calls s).1) (runCalls calls s).2 := by
  induction calls generalizing acknowledged s with
  | nil =>
      simp only [runCalls, List.append_nil]
      exact h
  | cons call calls ih =>
      simp only [runCalls, ← List.append_assoc]
      exact ih (h.call call)

end

/-! ## Nothing is lost -/

/-- What a step of a sink respects. -/
structure Respects (path : String) (v v' : Volume) : Prop where
  /-- Finished files stay, with all that is in them: complete archives, and whatever else there
  is in the directory. -/
  finished : ∀ name, Finished path v name →
    Finished path v' name ∧ v'.stored name = v.stored name
  complete : ∀ archive ∈ v'.completed, Finished path v' archive
  /-- The log loses what is in it to a complete archive only.  A file that stays the log is
  emptied when there is a complete archive already. -/
  lost : ¬ v.stored path <+: v'.stored path →
    ∃ archive ∈ v'.completed, v'.stored archive = v.stored path ∧
      (v'.entries path = v.entries path →
        archive ∈ v.completed ∧ v.stored archive = v.stored path)
  /-- Bytes are acknowledged when they are written to the log. -/
  acknowledged : ∃ bytes, v'.acknowledged = v.acknowledged ++ bytes ∧ (bytes = [] ∨
    (v.entries path).isSome = true ∧ v'.stored path = v.stored path ++ bytes)

/-- What holds of a sink after it has acknowledged some bytes, and held at every moment. -/
structure Lossless (start : Opened) (acknowledged : Bytes) (s : Sink) : Prop where
  counted : s.volume.now.acknowledged = acknowledged
  present : ∀ v ∈ s.volume.moments, ∀ archive ∈ v.archives, (v.entries archive).isSome = true
  /-- The archives and the log have what was there at first and all that was acknowledged. -/
  contained : ∀ v ∈ s.volume.moments,
    (start.initial ++ v.acknowledged).Sublist (archived v v.archives ++ v.stored start.path)
  /-- Without copies they have nothing else, and nothing twice. -/
  exact : start.copyAndTruncate ≠ some true → ∀ v ∈ s.volume.moments,
    start.initial ++ v.acknowledged = archived v v.archives ++ v.stored start.path
  steps : s.volume.Follows (Respects start.path)
  /-- What is finished at some moment is there at all later ones. -/
  kept : ∀ later v earlier, s.volume.moments = later ++ v :: earlier → ∀ name,
    Finished start.path v name → ∀ v' ∈ later, v'.stored name = v.stored name ∧
      (v'.entries name).isSome = true
  /-- An open file is the log, and its bytes are counted. -/
  open_ : ∀ file, s.file = some file → s.volume.now.entries start.path = some file ∧
    s.bytesInCurrent = (s.volume.now.stored start.path).length

theorem Accounted.contained {path : String} {copy : Option Bool} {initial : Bytes} {v : Volume}
    (h : Accounted path copy initial v) :
    (initial ++ v.acknowledged).Sublist (archived v v.archives ++ v.stored path) := by
  obtain ⟨saved, hsplit, hsub, -⟩ := h
  rw [hsplit]
  exact hsub.append (List.Sublist.refl _)

theorem Change.respects {path : String} {v v' : Volume} (hchange : Change path v v')
    (h : Sound path v) : Respects path v v' where
  finished := fun _ hfinished => hchange.finished h hfinished
  complete := fun _ hcomplete => finished_of_completed (hchange.sound h) hcomplete
  lost := fun hlost => hchange.lost h hlost
  acknowledged := hchange.acknowledged

/-- No sequence of writes and rotations loses anything, whatever fails. -/
theorem rotation_lossless (start : Opened) (calls : List Call) :
    Lossless start (runCalls calls start.sink).1 (runCalls calls start.sink).2 := by
  have hholds := start.holds.calls calls
  rw [List.nil_append] at hholds
  have hsteps := hholds.kept.follows.mono fun v v' hstep => hstep.2.respects hstep.1
  refine ⟨hholds.counted, ?_, ?_, ?_, hsteps, ?_, ?_⟩
  · intro v hv archive hlisted
    obtain ⟨file, hfile⟩ := (hholds.kept.sounds v hv).present archive hlisted
    rw [hfile]
    rfl
  · exact fun v hv => (hholds.kept.accounted v hv).contained
  · intro hmode v hv
    obtain ⟨saved, hsplit, -, heq⟩ := hholds.kept.accounted v hv
    rw [hsplit, heq hmode]
  · intro later v earlier hsplit name hfinished v' hv'
    let P : Volume → Prop := fun u => Finished start.path u name ∧ u.stored name = v.stored name
    have hpersists : ∀ u ∈ later, P u := by
      refine hsteps.persists (P := P) ?_ hsplit ⟨hfinished, rfl⟩
      rintro u u' hstep ⟨hu, hsame⟩
      obtain ⟨hu', hsame'⟩ := hstep.finished name hu
      exact ⟨hu', hsame'.trans hsame⟩
    obtain ⟨⟨-, -, file, hentry, -⟩, hsame⟩ := hpersists v' hv'
    exact ⟨hsame, by rw [hentry]; rfl⟩
  · intro file hfile
    obtain ⟨hentry, hcount⟩ := hholds.kept.handle file hfile
    exact ⟨hentry, by rw [stored_of_entry hentry]; exact hcount⟩

end Ngsm.Supervisor.RotationSink
