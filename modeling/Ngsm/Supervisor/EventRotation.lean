/-
# Rotation of the event log

The event log of all supervisors is one file and four backups.  When the file has grown past
the threshold, the oldest backup is removed, the others move up by one, and the file becomes
the first backup.  Every call of the file system may fail.  Then the rotation stops where it
stands, and the next append, which finds the file still past the threshold, starts it again.

A directory remembers what was discarded and which files were rotated.  No operation of the
log reads that.
-/

import Mathlib.Algebra.GroupWithZero.Nat
import Mathlib.Data.List.Induction
import Mathlib.Logic.Function.Basic
import Ngsm.Lib.Program

namespace Ngsm.Supervisor.EventLog

open Ngsm.Lib

variable {ρ : Type}

/-- Rotation threshold for the event log: 8 MiB. -/
def rotationThresholdBytes : ℕ :=
  8 * 1024 * 1024

def backupRetentionCount : ℕ :=
  4

inductive IoError where
  | notFound
  | other (message : String)
deriving DecidableEq, Repr

/-- The directory of the log.  A file is the list of its records. -/
structure Directory (ρ : Type) where
  active : Option (List ρ)
  /-- Backup 1 is the most recent one. -/
  backups : ℕ → Option (List ρ)
  /-- The contents of files that were removed or replaced, the latest first. -/
  discarded : List (List ρ)
  /-- The contents that became the first backup, the latest first. -/
  rotated : List (List ρ)

abbrev LogM (ρ α : Type) : Type :=
  Prog (Directory ρ) IoError α

/-- Which calls of one append fail.  `path` and `rename` count the backups; 0 stands for the
active file, and the path of the oldest backup is `path 4`. -/
structure Faults (ρ : Type) where
  /-- What comes before the append: the directory, the text of the record, the lock. -/
  prepare : Option String
  /-- A write may fail after a piece of the record was written. -/
  append : Option (String × Option ρ)
  metadata : Option String
  remove : Option String
  path : ℕ → Option String
  rename : ℕ → Option String

/-- A call that may fail before it does anything. -/
def failIf (fault : Option String) : LogM ρ Unit :=
  match fault with
  | none => pure ()
  | some message => throw (.other message)

/-- Append to the active file, which is created where there is none. -/
def appendRecord (record : ρ) : LogM ρ Unit :=
  modify fun dir => { dir with active := some (dir.active.getD [] ++ [record]) }

def appendOne (fault : Option (String × Option ρ)) (record : ρ) : LogM ρ Unit :=
  match fault with
  | none => appendRecord record
  | some (message, none) => failIf (some message)
  | some (message, some piece) => do
      appendRecord piece
      failIf (some message)

/-- `std::fs::remove_file` of a backup. -/
def removeFile (fault : Option String) (n : ℕ) : LogM ρ Unit := do
  failIf fault
  Prog.step fun dir =>
    match dir.backups n with
    | none => (.error .notFound, dir)
    | some content =>
        (.ok (), { dir with
          backups := Function.update dir.backups n none
          discarded := content :: dir.discarded })

/-- `std::fs::rename` of a backup to the next one. -/
def renameBackup (fault : Option String) (n : ℕ) : LogM ρ Unit := do
  failIf fault
  Prog.step fun dir =>
    match dir.backups n with
    | none => (.error .notFound, dir)
    | some content =>
        (.ok (), { dir with
          backups := Function.update (Function.update dir.backups (n + 1) (some content)) n none
          discarded := (dir.backups (n + 1)).toList ++ dir.discarded })

/-- `std::fs::rename` of the active file to the first backup. -/
def renameActive (fault : Option String) : LogM ρ Unit := do
  failIf fault
  Prog.step fun dir =>
    match dir.active with
    | none => (.error .notFound, dir)
    | some content =>
        (.ok (), { dir with
          active := none
          backups := Function.update dir.backups 1 (some content)
          discarded := (dir.backups 1).toList ++ dir.discarded
          rotated := content :: dir.rotated })

/-- The oldest backup is removed; that there is none is no failure. -/
def removeOldest (fault : Option String) : LogM ρ Unit := do
  match ← Prog.attempt (removeFile fault backupRetentionCount) with
  | .ok _ => pure ()
  | .error .notFound => pure ()
  | .error error => throw error

section

/- The backups that are there and not seen: `exists` is false of a file whose metadata cannot be
read, as of one that is missing. -/
variable (unseen : ℕ → Bool)

/-- One round of the shift. -/
def shift (faults : Faults ρ) (n : ℕ) : LogM ρ Unit := do
  failIf (faults.path n)
  let dir ← get
  if (dir.backups n).isSome && !unseen n then renameBackup (faults.rename n) n else pure ()

/-- The rounds for `n` down to 1. -/
def shiftFrom (faults : Faults ρ) : ℕ → LogM ρ Unit
  | 0 => pure ()
  | n + 1 => do
      shift unseen faults (n + 1)
      shiftFrom faults n

/-- The rotation of a file that is past the threshold. -/
def rotate (faults : Faults ρ) : LogM ρ Unit := do
  failIf (faults.path backupRetentionCount)
  removeOldest faults.remove
  shiftFrom unseen faults (backupRetentionCount - 1)
  failIf (faults.path 0)
  renameActive (faults.rename 0)

end

/-- Every backup that is there is seen. -/
def allSeen (_ : ℕ) : Bool :=
  false

section

variable (size : ρ → ℕ)

/-- The length of the active file. -/
def length (content : List ρ) : ℕ :=
  (content.map size).sum

def maybeRotate (unseen : ℕ → Bool) (faults : Faults ρ) : LogM ρ Unit := do
  let dir ← get
  match dir.active with
  | none => pure ()
  | some content => do
      failIf faults.metadata
      if length size content < rotationThresholdBytes then pure () else rotate unseen faults

/-- Append a record.  A rotation that fails is reported and does not fail the append. -/
def tryLog (unseen : ℕ → Bool) (faults : Faults ρ) (record : ρ) : LogM ρ Unit := do
  failIf faults.prepare
  appendOne faults.append record
  let _ ← Prog.attempt (maybeRotate size unseen faults)
  pure ()

/-! ## Runs -/

/-- One append: the record, and which calls fail. -/
structure Append (ρ : Type) where
  record : ρ
  faults : Faults ρ

def next (dir : Directory ρ) (append : Append ρ) : Directory ρ :=
  ((tryLog size allSeen append.faults append.record).exec dir).2

/-- The directory after a sequence of appends. -/
def after (dir : Directory ρ) (appends : List (Append ρ)) : Directory ρ :=
  appends.foldl (next size) dir

end

/-- A directory at the beginning of an observation. -/
def Directory.start (active : Option (List ρ)) (backups : ℕ → Option (List ρ)) : Directory ρ :=
  { active, backups, discarded := [], rotated := [] }

/-- The backups that there are, the most recent one first. -/
def surviving (dir : Directory ρ) : List (List ρ) :=
  [1, 2, 3, 4].filterMap dir.backups

/-! ## Where a rotation stops -/

/-- The round of a backup fails. -/
def blocked (faults : Faults ρ) (dir : Directory ρ) (n : ℕ) : Bool :=
  (faults.path n).isSome || ((dir.backups n).isSome && (faults.rename n).isSome)

/-- After the oldest backup is gone, some call of the rotation fails. -/
def interrupted (faults : Faults ρ) (dir : Directory ρ) : Bool :=
  [1, 2, 3].any (blocked faults dir) || (faults.path 0).isSome || (faults.rename 0).isSome

/-- The append starts a rotation, and the rotation gets past the oldest backup. -/
def due (size : ρ → ℕ) (dir : Directory ρ) (append : Append ρ) : Bool :=
  append.faults.prepare.isNone && append.faults.append.isNone &&
    append.faults.metadata.isNone && (append.faults.path 4).isNone &&
    append.faults.remove.isNone &&
    rotationThresholdBytes ≤ length size (dir.active.getD [] ++ [append.record])

/-- The append removes the oldest backup, and its rotation is then cut short. -/
def cutShort (size : ρ → ℕ) (dir : Directory ρ) (append : Append ρ) : Bool :=
  due size dir append && (dir.backups 4).isSome && interrupted append.faults dir

/-- The append completes a rotation that removes no backup. -/
def hadRoom (size : ρ → ℕ) (dir : Directory ρ) (append : Append ρ) : Bool :=
  due size dir append && (dir.backups 4).isNone && !interrupted append.faults dir

/-! ## One rotation -/

section

variable {faults : Faults ρ} {dir dir' : Directory ρ} {n : ℕ}

@[simp]
theorem wp_failIf {fault : Option String} {Q : Unit → Directory ρ → Prop}
    {R : IoError → Directory ρ → Prop} :
    Prog.wp (failIf fault) Q R dir ↔
      match fault with
      | none => Q () dir
      | some message => R (.other message) dir := by
  cases fault <;> rfl

/-- Backups may have moved; the files and what is remembered of them are the same. -/
structure SameLog (dir dir' : Directory ρ) : Prop where
  active : dir'.active = dir.active
  surviving : surviving dir' = surviving dir
  discarded : dir'.discarded = dir.discarded
  rotated : dir'.rotated = dir.rotated

theorem SameLog.refl (dir : Directory ρ) : SameLog dir dir :=
  ⟨rfl, rfl, rfl, rfl⟩

theorem SameLog.trans {dir'' : Directory ρ} (h : SameLog dir dir') (h' : SameLog dir' dir'') :
    SameLog dir dir'' :=
  ⟨h'.active.trans h.active, h'.surviving.trans h.surviving, h'.discarded.trans h.discarded,
    h'.rotated.trans h.rotated⟩

/-- A backup that moves up to a free place keeps its place among the others. -/
theorem surviving_move (hn : 1 ≤ n ∧ n ≤ 3) {content : List ρ}
    (hcontent : dir.backups n = some content) (hfree : dir.backups (n + 1) = none) :
    [1, 2, 3, 4].filterMap
        (Function.update (Function.update dir.backups (n + 1) (some content)) n none) =
      surviving dir := by
  obtain rfl | rfl | rfl : n = 1 ∨ n = 2 ∨ n = 3 := by omega
  · simp [surviving, List.filterMap_cons, hcontent, hfree]
  · simp [surviving, List.filterMap_cons, hcontent, hfree]
  · simp [surviving, List.filterMap_cons, hcontent, hfree]

theorem wp_shift (hn : 1 ≤ n ∧ n ≤ 3) (hfree : dir.backups (n + 1) = none) :
    Prog.wp (shift allSeen faults n)
      (fun _ dir' => blocked faults dir n = false ∧ dir'.backups n = none ∧ SameLog dir dir' ∧
        ∀ i, i < n → dir'.backups i = dir.backups i)
      (fun _ dir' => blocked faults dir n = true ∧ SameLog dir dir') dir := by
  unfold shift blocked
  rw [Prog.wp_bind, wp_failIf]
  cases faults.path n with
  | some message => exact ⟨rfl, .refl dir⟩
  | none =>
      rw [Prog.wp_bind, Prog.wp_get, Prog.wp_ite]
      cases hcontent : dir.backups n with
      | none => exact ⟨rfl, hcontent, .refl dir, fun _ _ => rfl⟩
      | some content =>
          have hseen : ((some content).isSome && !allSeen n) = true := rfl
          rw [if_pos hseen]
          unfold renameBackup
          rw [Prog.wp_bind, wp_failIf]
          cases faults.rename n with
          | some message => exact ⟨rfl, .refl dir⟩
          | none =>
              simp only [Prog.wp_step, hcontent]
              refine ⟨rfl, Function.update_self .., ⟨rfl, ?_, ?_, rfl⟩, fun i hi => ?_⟩
              · exact surviving_move hn hcontent hfree
              · rw [hfree]
                rfl
              · rw [Function.update_of_ne (by omega), Function.update_of_ne (by omega)]

/-- The shift stops at the first round that fails; otherwise it leaves the first place
free. -/
theorem wp_shiftFrom (hn : n ≤ 3) (hfree : dir.backups (n + 1) = none) :
    Prog.wp (shiftFrom allSeen faults n)
      (fun _ dir' => (∀ i, 1 ≤ i → i ≤ n → blocked faults dir i = false) ∧
        dir'.backups 1 = none ∧ SameLog dir dir')
      (fun _ dir' => (∃ i, 1 ≤ i ∧ i ≤ n ∧ blocked faults dir i = true) ∧ SameLog dir dir')
      dir := by
  induction n generalizing dir with
  | zero => exact ⟨fun i hi hi' => absurd hi (by omega), hfree, .refl dir⟩
  | succ n ih =>
      rw [shiftFrom, Prog.wp_bind]
      refine Prog.wp_mono _ ?_ ?_ (wp_shift ⟨by omega, hn⟩ hfree)
      · rintro _ next ⟨hpassed, hnext, hsame, hbelow⟩
        have hblocked : ∀ i, i ≤ n → blocked faults next i = blocked faults dir i := by
          intro i hi
          unfold blocked
          rw [hbelow i (by omega)]
        refine Prog.wp_mono _ ?_ ?_ (ih (by omega) hnext)
        · rintro _ last ⟨hall, hfirst, hlast⟩
          refine ⟨fun i hi hi' => ?_, hfirst, hsame.trans hlast⟩
          by_cases hlt : i ≤ n
          · rw [← hblocked i hlt]
            exact hall i hi hlt
          · obtain rfl : i = n + 1 := by omega
            exact hpassed
        · rintro error last ⟨⟨i, hi, hi', hstopped⟩, hlast⟩
          exact ⟨⟨i, hi, by omega, hblocked i hi' ▸ hstopped⟩, hsame.trans hlast⟩
      · rintro error last ⟨hstopped, hsame⟩
        exact ⟨⟨n + 1, by omega, (Nat.le_refl _), hstopped⟩, hsame⟩

theorem interrupted_of_blocked {i : ℕ} (hi : 1 ≤ i ∧ i ≤ 3) (h : blocked faults dir i = true) :
    interrupted faults dir = true := by
  have hmem : i ∈ [1, 2, 3] := by
    simp only [List.mem_cons, List.not_mem_nil, or_false]
    omega
  unfold interrupted
  rw [List.any_eq_true.mpr ⟨i, hmem, h⟩, Bool.true_or, Bool.true_or]

theorem interrupted_of_passed (h : ∀ i, 1 ≤ i → i ≤ 3 → blocked faults dir i = false) :
    interrupted faults dir = ((faults.path 0).isSome || (faults.rename 0).isSome) := by
  have hnone : [1, 2, 3].any (blocked faults dir) = false := by
    simp [h 1, h 2, h 3]
  unfold interrupted
  rw [hnone, Bool.false_or]

/-- The end of a rotation: from the directory without its oldest backup. -/
theorem wp_shift_rename {content : List ρ} (hactive : dir.active = some content)
    (hfree : dir.backups 4 = none) :
    Prog.wp (do
        shiftFrom allSeen faults (backupRetentionCount - 1)
        failIf (faults.path 0)
        renameActive (faults.rename 0))
      (fun _ dir' => interrupted faults dir = false ∧ dir'.discarded = dir.discarded ∧
        dir'.rotated = content :: dir.rotated ∧ surviving dir' = content :: surviving dir)
      (fun _ dir' => interrupted faults dir = true ∧ SameLog dir dir') dir := by
  rw [Prog.wp_bind]
  refine Prog.wp_mono _ ?_ ?_ (wp_shiftFrom (Nat.le_refl _) hfree)
  · rintro _ next ⟨hpassed, hfirst, hsame⟩
    rw [interrupted_of_passed hpassed, Prog.wp_bind, wp_failIf]
    cases faults.path 0 with
    | some message => exact ⟨rfl, hsame⟩
    | none =>
        unfold renameActive
        rw [Prog.wp_bind, wp_failIf]
        cases faults.rename 0 with
        | some message => exact ⟨rfl, hsame⟩
        | none =>
            simp only [Prog.wp_step, hsame.active.trans hactive]
            refine ⟨rfl, ?_, ?_, ?_⟩
            · rw [hfirst]
              exact hsame.discarded
            · rw [hsame.rotated]
            · rw [← hsame.surviving]
              simp [surviving, List.filterMap_cons, hfirst]
  · rintro error next ⟨⟨i, hi, hi', hblocked⟩, hsame⟩
    exact ⟨interrupted_of_blocked ⟨hi, hi'⟩ hblocked, hsame⟩

/-- The directory without its oldest backup. -/
def withoutOldest (dir : Directory ρ) : Directory ρ :=
  { dir with
    backups := Function.update dir.backups 4 none
    discarded := (dir.backups 4).toList ++ dir.discarded }

theorem surviving_withoutOldest :
    surviving (withoutOldest dir) = [1, 2, 3].filterMap dir.backups := by
  simp [surviving, withoutOldest, List.filterMap_cons]

theorem surviving_eq :
    surviving dir = [1, 2, 3].filterMap dir.backups ++ (dir.backups 4).toList := by
  unfold surviving
  rw [show [1, 2, 3, 4] = [1, 2, 3] ++ [4] from rfl, List.filterMap_append]
  cases holdest : dir.backups 4 <;> simp [holdest]

theorem interrupted_withoutOldest :
    interrupted faults (withoutOldest dir) = interrupted faults dir := by
  simp [interrupted, blocked, withoutOldest]

theorem wp_removeOldest {fault : Option String} :
    Prog.wp (removeOldest fault) (fun _ dir' => fault = none ∧ dir' = withoutOldest dir)
      (fun _ dir' => fault.isSome = true ∧ dir' = dir) dir := by
  unfold removeOldest
  rw [Prog.wp_bind, Prog.wp_attempt]
  unfold removeFile
  rw [Prog.wp_bind, wp_failIf]
  cases fault with
  | some message => exact ⟨rfl, rfl⟩
  | none =>
      rw [Prog.wp_step]
      unfold withoutOldest backupRetentionCount
      cases holdest : dir.backups 4 with
      | none =>
          refine ⟨rfl, ?_⟩
          rw [← holdest, Function.update_eq_self]
          simp [holdest]
      | some content => exact ⟨rfl, rfl⟩

/-- A rotation either completes, or stops before or after the oldest backup is gone. -/
theorem wp_rotate {content : List ρ} (hactive : dir.active = some content) :
    Prog.wp (rotate allSeen faults)
      (fun _ dir' => ((faults.path 4).isNone && faults.remove.isNone) = true ∧
        interrupted faults dir = false ∧ dir'.discarded = (withoutOldest dir).discarded ∧
        dir'.rotated = content :: dir.rotated ∧
        surviving dir' = content :: [1, 2, 3].filterMap dir.backups)
      (fun _ dir' =>
        (((faults.path 4).isNone && faults.remove.isNone) = false ∧ dir' = dir) ∨
        (((faults.path 4).isNone && faults.remove.isNone) = true ∧
          interrupted faults dir = true ∧ SameLog (withoutOldest dir) dir')) dir := by
  unfold rotate
  rw [Prog.wp_bind, wp_failIf]
  change match faults.path 4 with
    | none => _
    | some message => _
  cases faults.path 4 with
  | some message => exact .inl ⟨rfl, rfl⟩
  | none =>
      rw [Prog.wp_bind]
      refine Prog.wp_mono _ ?_ ?_ wp_removeOldest
      · rintro _ _ ⟨hremove, rfl⟩
        have hpast : ((none : Option String).isNone && faults.remove.isNone) = true := by
          rw [hremove]
          rfl
        have hfree : (withoutOldest dir).backups 4 = none := by simp [withoutOldest]
        refine Prog.wp_mono _ ?_ ?_ (wp_shift_rename hactive hfree)
        · rintro _ last ⟨hinterrupted, hdiscarded, hrotated, hsurviving⟩
          rw [interrupted_withoutOldest] at hinterrupted
          rw [surviving_withoutOldest] at hsurviving
          exact ⟨hpast, hinterrupted, hdiscarded, hrotated, hsurviving⟩
        · rintro error last ⟨hinterrupted, hsame⟩
          rw [interrupted_withoutOldest] at hinterrupted
          exact .inr ⟨hpast, hinterrupted, hsame⟩
      · rintro error _ ⟨hremove, rfl⟩
        refine .inl ⟨?_, rfl⟩
        rw [Option.isNone_eq_false_iff.mpr hremove]
        rfl

/-! ## One append -/

variable {size : ρ → ℕ} {append : Append ρ}

/-- What an append does to the backups. -/
inductive Outcome (size : ρ → ℕ) (dir : Directory ρ) (append : Append ρ)
    (dir' : Directory ρ) : Prop
  /-- No rotation starts, or it stops before it has changed anything. -/
  | quiet (hdue : due size dir append = false)
      (hsurviving : surviving dir' = surviving dir) (hdiscarded : dir'.discarded = dir.discarded)
      (hrotated : dir'.rotated = dir.rotated)
  /-- The oldest backup is gone, and the rotation does not complete. -/
  | cut (hdue : due size dir append = true)
      (hinterrupted : interrupted append.faults dir = true)
      (hsurviving : surviving dir' = [1, 2, 3].filterMap dir.backups)
      (hdiscarded : dir'.discarded = (dir.backups 4).toList ++ dir.discarded)
      (hrotated : dir'.rotated = dir.rotated)
  | completed (content : List ρ) (hdue : due size dir append = true)
      (hinterrupted : interrupted append.faults dir = false)
      (hsurviving : surviving dir' = content :: [1, 2, 3].filterMap dir.backups)
      (hdiscarded : dir'.discarded = (dir.backups 4).toList ++ dir.discarded)
      (hrotated : dir'.rotated = content :: dir.rotated)

/-- An append that does not come to a rotation. -/
theorem Outcome.of_appended {records : List ρ} (hdue : due size dir append = false) :
    Outcome size dir append { dir with active := some records } :=
  .quiet hdue rfl rfl rfl

/-- A record that was written may start a rotation. -/
theorem wp_maybeRotate (hprepare : append.faults.prepare = none)
    (happend : append.faults.append = none) :
    Prog.wp (maybeRotate size allSeen append.faults) (fun _ => Outcome size dir append)
      (fun _ => Outcome size dir append)
      { dir with active := some (dir.active.getD [] ++ [append.record]) } := by
  have hdue : due size dir append = (append.faults.metadata.isNone &&
      ((append.faults.path 4).isNone && append.faults.remove.isNone) &&
      decide (rotationThresholdBytes ≤
        length size (dir.active.getD [] ++ [append.record]))) := by
    simp [due, hprepare, happend, Bool.and_assoc]
  unfold maybeRotate
  rw [Prog.wp_bind, Prog.wp_get]
  dsimp only
  rw [Prog.wp_bind, wp_failIf]
  cases hmetadata : append.faults.metadata with
  | some message =>
      rw [hmetadata] at hdue
      exact .of_appended hdue
  | none =>
      rw [hmetadata] at hdue
      dsimp only
      rw [Prog.wp_ite]
      split
      · rename_i hshort
        refine .of_appended (hdue.trans ?_)
        rw [decide_eq_false (Nat.not_le.mpr hshort), Bool.and_false]
      · rename_i hlong
        rw [decide_eq_true (Nat.le_of_not_lt hlong), Bool.and_true, Option.isNone_none,
          Bool.true_and] at hdue
        refine Prog.wp_mono _ ?_ ?_ (wp_rotate rfl)
        · rintro _ dir' ⟨hpast, hinterrupted, hdiscarded, hrotated, hsurviving⟩
          exact .completed _ (hdue.trans hpast) hinterrupted hsurviving hdiscarded hrotated
        · rintro _ dir' (⟨hbefore, rfl⟩ | ⟨hpast, hinterrupted, hsame⟩)
          · exact .of_appended (hdue.trans hbefore)
          · exact .cut (hdue.trans hpast) hinterrupted
              (hsame.surviving.trans surviving_withoutOldest) hsame.discarded hsame.rotated

theorem wp_tryLog :
    Prog.wp (tryLog size allSeen append.faults append.record) (fun _ => Outcome size dir append)
      (fun _ => Outcome size dir append) dir := by
  unfold tryLog
  rw [Prog.wp_bind, wp_failIf]
  cases hprepare : append.faults.prepare with
  | some message => exact .quiet (by simp [due, hprepare]) rfl rfl rfl
  | none =>
      dsimp only
      rw [Prog.wp_bind]
      cases happend : append.faults.append with
      | some failure =>
          have hdue : due size dir append = false := by simp [due, happend]
          obtain ⟨message, piece⟩ := failure
          cases piece with
          | none => exact .quiet hdue rfl rfl rfl
          | some piece => exact .of_appended hdue
      | none =>
          unfold appendOne appendRecord
          dsimp only
          rw [Prog.wp_modify, Prog.wp_bind, Prog.wp_attempt]
          exact wp_maybeRotate hprepare happend

theorem next_outcome (size : ρ → ℕ) (dir : Directory ρ) (append : Append ρ) :
    Outcome size dir append (next size dir append) := by
  have hwp : Prog.wp (tryLog size allSeen append.faults append.record) (fun _ => Outcome size dir append)
      (fun _ => Outcome size dir append) dir := wp_tryLog
  unfold Prog.wp at hwp
  unfold next
  rcases hrun : (tryLog size allSeen append.faults append.record).exec dir with ⟨outcome, dir'⟩
  rw [hrun] at hwp
  cases outcome <;> exact hwp

end

/-! ## Sequences of appends -/

section

variable {size : ρ → ℕ} {dir dir' : Directory ρ} {append : Append ρ}

/-- More is discarded than rotated when an append is cut short, and less when there was
room. -/
theorem Outcome.lengths (h : Outcome size dir append dir') :
    dir'.discarded.length + (hadRoom size dir append).toNat + dir.rotated.length =
      dir'.rotated.length + (cutShort size dir append).toNat + dir.discarded.length := by
  unfold hadRoom cutShort
  cases h with
  | quiet hdue _ hdiscarded hrotated =>
      rw [hdue, hdiscarded, hrotated]
      simp
      omega
  | cut hdue hinterrupted _ hdiscarded hrotated =>
      rw [hdue, hinterrupted, hdiscarded, hrotated]
      cases dir.backups 4 with
      | none =>
          simp
          omega
      | some content =>
          simp
          omega
  | completed content hdue hinterrupted _ hdiscarded hrotated =>
      rw [hdue, hinterrupted, hdiscarded, hrotated]
      cases dir.backups 4 with
      | none =>
          simp
          omega
      | some content =>
          simp
          omega

/-- What survives and what is discarded stay the generations in their order. -/
theorem Outcome.ordered (h : Outcome size dir append dir') {start : List (List ρ)}
    (hbefore : surviving dir ++ dir.discarded = dir.rotated ++ start) :
    surviving dir' ++ dir'.discarded = dir'.rotated ++ start := by
  rw [surviving_eq, List.append_assoc] at hbefore
  cases h with
  | quiet _ hsurviving hdiscarded hrotated =>
      rw [hsurviving, hdiscarded, hrotated, ← hbefore, surviving_eq, List.append_assoc]
  | cut _ _ hsurviving hdiscarded hrotated =>
      rw [hsurviving, hdiscarded, hrotated, hbefore]
  | completed content _ _ hsurviving hdiscarded hrotated =>
      rw [hsurviving, hdiscarded, hrotated, List.cons_append, hbefore, List.cons_append]

/-- An append discards nothing but the oldest backup. -/
theorem Outcome.oldest (h : Outcome size dir append dir') :
    dir'.discarded = dir.discarded ∨
      ∃ others content, surviving dir = others ++ [content] ∧
        dir'.discarded = content :: dir.discarded := by
  have holdest : dir'.discarded = (dir.backups 4).toList ++ dir.discarded →
      dir'.discarded = dir.discarded ∨
        ∃ others content, surviving dir = others ++ [content] ∧
          dir'.discarded = content :: dir.discarded := by
    intro hdiscarded
    rw [surviving_eq, hdiscarded]
    cases dir.backups 4 with
    | none => exact .inl rfl
    | some content => exact .inr ⟨_, content, rfl, rfl⟩
  cases h with
  | quiet _ _ hdiscarded _ => exact .inl hdiscarded
  | cut _ _ _ hdiscarded _ => exact holdest hdiscarded
  | completed _ _ _ _ hdiscarded _ => exact holdest hdiscarded

variable (size)

/-- The appends of a sequence with a property that depends on the directory they find. -/
def count (P : Directory ρ → Append ρ → Bool) (dir : Directory ρ) : List (Append ρ) → ℕ
  | [] => 0
  | append :: appends =>
      (P dir append).toNat + count P (next size dir append) appends

/-- What the log promises of its history: in every state of a sequence of appends at most
one backup more was discarded than rotations completed; the backups that survive and the
discarded ones are successive generations, from the newest to the oldest, each of them once;
and an append discards no backup or the oldest one. -/
structure HistoryKept (dir : Directory ρ) (appends : List (Append ρ)) : Prop where
  bounded : ∀ done, done <+: appends →
    (after size dir done).discarded.length ≤ (after size dir done).rotated.length + 1
  ordered : ∀ done, done <+: appends →
    surviving (after size dir done) ++ (after size dir done).discarded =
      (after size dir done).rotated ++ surviving dir
  oldest : ∀ done append, done ++ [append] <+: appends →
    (after size dir (done ++ [append])).discarded = (after size dir done).discarded ∨
      ∃ others content, surviving (after size dir done) = others ++ [content] ∧
        (after size dir (done ++ [append])).discarded =
          content :: (after size dir done).discarded

/-- At no time were more appends cut short that had removed the oldest backup than rotations
completed that had room for another backup, but one. -/
def FewCutShort (dir : Directory ρ) (appends : List (Append ρ)) : Prop :=
  ∀ done, done <+: appends →
    count size (cutShort size) dir done ≤ count size (hadRoom size) dir done + 1

theorem after_concat (dir : Directory ρ) (appends : List (Append ρ)) (append : Append ρ) :
    after size dir (appends ++ [append]) = next size (after size dir appends) append := by
  unfold after
  rw [List.foldl_append]
  rfl

theorem after_cons (dir : Directory ρ) (appends : List (Append ρ)) (append : Append ρ) :
    after size dir (append :: appends) = after size (next size dir append) appends :=
  rfl

/-- The surplus of discarded backups comes from the appends that were cut short. -/
theorem count_after (dir : Directory ρ) (appends : List (Append ρ)) :
    (after size dir appends).discarded.length + count size (hadRoom size) dir appends +
        dir.rotated.length =
      (after size dir appends).rotated.length + count size (cutShort size) dir appends +
        dir.discarded.length := by
  induction appends generalizing dir with
  | nil =>
      change dir.discarded.length + 0 + _ = dir.rotated.length + 0 + _
      omega
  | cons append appends ih =>
      rw [after_cons, count, count]
      have hrest := ih (next size dir append)
      have hstep := (next_outcome size dir append).lengths
      omega

/-- What holds of every start and is kept by an append holds after every sequence. -/
theorem after_ordered (active : Option (List ρ)) (backups : ℕ → Option (List ρ))
    (appends : List (Append ρ)) :
    surviving (after size (.start active backups) appends) ++
        (after size (.start active backups) appends).discarded =
      (after size (.start active backups) appends).rotated ++
        surviving (Directory.start active backups) := by
  induction appends using List.reverseRecOn with
  | nil => exact List.append_nil _
  | append_singleton appends append ih =>
      rw [after_concat]
      exact (next_outcome size _ append).ordered ih

/-- The log keeps its history exactly when few appends are cut short after they removed the
oldest backup. -/
theorem historyKept_iff (active : Option (List ρ)) (backups : ℕ → Option (List ρ))
    (appends : List (Append ρ)) :
    HistoryKept size (.start active backups) appends ↔
      FewCutShort size (.start active backups) appends := by
  have hcount := count_after size (Directory.start active backups)
  have hstart : (Directory.start active backups).discarded.length = 0 ∧
      (Directory.start active backups).rotated.length = 0 := ⟨rfl, rfl⟩
  constructor
  · intro hkept done hdone
    have hbounded := hkept.bounded done hdone
    have hsurplus := hcount done
    omega
  · intro hfew
    refine ⟨fun done hdone => ?_, fun done _ => after_ordered size active backups done, ?_⟩
    · have hcut := hfew done hdone
      have hsurplus := hcount done
      omega
    · intro done append _
      rw [after_concat]
      exact (next_outcome size _ append).oldest

end

/-- An append whose rotation does everything but rename the active file. -/
def activeInUse (record : ℕ) : Append ℕ where
  record
  faults :=
    { prepare := none
      append := none
      metadata := none
      remove := none
      path := fun _ => none
      rename := fun n => if n = 0 then some "the file is in use" else none }

/-- All four backups exist and the active file is past the threshold; a record stands for its
length. -/
def fullDirectory : Directory ℕ :=
  .start (some [rotationThresholdBytes])
    fun n => if 1 ≤ n ∧ n ≤ 4 then some [rotationThresholdBytes + n] else none

/-- Two appends while the active file is in use discard two backups, and no rotation
completes. -/
theorem history_not_kept :
    ¬ ∀ (active : Option (List ℕ)) (backups : ℕ → Option (List ℕ)) (appends : List (Append ℕ)),
      HistoryKept id (.start active backups) appends := by
  intro hkept
  have hfull : HistoryKept id fullDirectory [activeInUse 100, activeInUse 100] :=
    hkept fullDirectory.active fullDirectory.backups _
  have hbounded := hfull.bounded _ (List.prefix_refl _)
  have hdiscarded : (after id fullDirectory [activeInUse 100, activeInUse 100]).discarded.length =
      2 := by decide
  have hrotated : (after id fullDirectory [activeInUse 100, activeInUse 100]).rotated.length =
      0 := by decide
  rw [hdiscarded, hrotated] at hbounded
  omega

end Ngsm.Supervisor.EventLog
