/-
# The files of the event log

The active file and the backups are a shelf: what is appended comes last, and a rotation moves
each file to the next place.  Whatever fails, the files hold what was written, in order, as far as
it was not thrown away.  While every backup that is there is seen, a file is moved to a free place
only, and what is left is the end of what was written.  Where no renaming fails, a backup is
thrown away only when four full ones are left.
-/

import Ngsm.Lib.Bookshelf
import Ngsm.Supervisor.EventRotation

namespace Ngsm.Supervisor.EventLog

open Ngsm.Lib Bookshelf

variable {ρ : Type}

/-- The active file is at place 0. -/
def files (dir : Directory ρ) : Bookshelf ρ
  | 0 => dir.active
  | n + 1 => dir.backups (n + 1)

/-- What an append writes: the record, a piece of it, or nothing. -/
def Append.written (append : Append ρ) : List ρ :=
  match append.faults.prepare, append.faults.append with
  | some _, _ => []
  | none, none => [append.record]
  | none, some (_, none) => []
  | none, some (_, some piece) => [piece]

/-- An append, and the backups that its rotation does not see. -/
structure Attempt (ρ : Type) extends Append ρ where
  unseen : ℕ → Bool

def Attempt.Sighted (attempt : Attempt ρ) : Prop :=
  ∀ n, attempt.unseen n = false

def written (attempts : List (Attempt ρ)) : List ρ :=
  attempts.flatMap (·.toAppend.written)

section

variable (size : ρ → ℕ)

def attempted (dir : Directory ρ) (attempt : Attempt ρ) : Directory ρ :=
  ((tryLog size attempt.unseen attempt.faults attempt.record).exec dir).2

/-- The directory after a sequence of attempts. -/
def afterAttempts (dir : Directory ρ) (attempts : List (Attempt ρ)) : Directory ρ :=
  attempts.foldl (attempted size) dir

end

/-- With care, only the oldest backup is thrown away. -/
def Watched (careful : Prop) (op : Op ρ) : Prop :=
  careful → op.Tidy 4

/-! ## Calls of the file system -/

section

variable {dir dir' : Directory ρ} {faults : Faults ρ} {content : List ρ} {n : ℕ}
  {unseen : ℕ → Bool} {careful : Prop}

theorem files_update (hn : n ≠ 0) {place : Option (List ρ)} (h : dir'.active = dir.active)
    (h' : dir'.backups = Function.update dir.backups n place) :
    files dir' = Function.update (files dir) n place := by
  funext i
  by_cases hi : i = n
  · subst hi
    obtain ⟨k, rfl⟩ : ∃ k, i = k + 1 := ⟨i - 1, by omega⟩
    rw [Function.update_self, files, h', Function.update_self]
  · rw [Function.update_of_ne hi]
    cases i with
    | zero => exact h
    | succ i => rw [files, files, h', Function.update_of_ne hi]

theorem files_appendRecord (dir : Directory ρ) (record : ρ) :
    Leads (Watched careful) (files dir)
      (files { dir with active := some (dir.active.getD [] ++ [record]) }) [record] := by
  refine .single (.put record) ?_ fun _ => trivial
  refine congrArg some (funext fun i => ?_)
  cases i with
  | zero => rfl
  | succ i => exact Function.update_of_ne (Nat.succ_ne_zero i) _ _

theorem files_withoutOldest (dir : Directory ρ) :
    Leads (Watched careful) (files dir) (files (withoutOldest dir)) [] := by
  have hput : files (withoutOldest dir) = Function.update (files dir) 4 none :=
    files_update (by omega) rfl rfl
  refine .single (.drop 4) ?_ fun _ => rfl
  rw [hput]
  rfl

/-- A file is moved to the next place, which is free when care is taken. -/
theorem files_moved (hn : n < 4) (hcontent : files dir n = some content)
    (hfree : careful → files dir (n + 1) = none) (hmoved : files dir' =
      Function.update (Function.update (files dir) (n + 1) (some content)) n none) :
    Leads (Watched careful) (files dir) (files dir') [] := by
  rw [hmoved]
  refine .move hcontent (fun _ => hn) ?_
  by_cases hcareful : careful
  · exact .inl (hfree hcareful)
  · exact .inr fun h => absurd h hcareful

theorem files_renameBackup (hn : n + 1 < 4) (hcontent : dir.backups (n + 1) = some content)
    (hfree : careful → dir.backups (n + 2) = none) (hactive : dir'.active = dir.active)
    (hbackups : dir'.backups =
      Function.update (Function.update dir.backups (n + 2) (some content)) (n + 1) none) :
    Leads (Watched careful) (files dir) (files dir') [] := by
  refine files_moved hn hcontent hfree ?_
  have hput : files { dir with
      backups := Function.update dir.backups (n + 2) (some content) } =
      Function.update (files dir) (n + 2) (some content) :=
    files_update (by omega) rfl rfl
  rw [← hput]
  exact files_update (Nat.succ_ne_zero n) hactive hbackups

theorem files_renameActive (hactive : dir.active = some content)
    (hfree : careful → dir.backups 1 = none) (hgone : dir'.active = none)
    (hbackups : dir'.backups = Function.update dir.backups 1 (some content)) :
    Leads (Watched careful) (files dir) (files dir') [] := by
  have hzero : 0 < 4 := by omega
  refine @files_moved ρ dir dir' content 0 careful hzero hactive hfree (funext fun i => ?_)
  match i with
  | 0 => exact hgone
  | 1 => exact congrFun hbackups 1
  | i + 2 => simp [files, hbackups]

/-! ## A rotation -/

/-- One round moves a backup, and with care leaves its place free. -/
theorem wp_shift_files (hn : n + 1 < 4) (hsighted : careful → ∀ i, unseen i = false)
    (hfree : careful → dir.backups (n + 2) = none) :
    Prog.wp (shift unseen faults (n + 1))
      (fun _ dir' => Leads (Watched careful) (files dir) (files dir') [] ∧
        dir'.active = dir.active ∧ (careful → dir'.backups (n + 1) = none))
      (fun _ dir' => Leads (Watched careful) (files dir) (files dir') []) dir := by
  unfold shift
  rw [Prog.wp_bind, wp_failIf]
  cases faults.path (n + 1) with
  | some message => exact .refl _ _
  | none =>
      dsimp only
      rw [Prog.wp_bind, Prog.wp_get, Prog.wp_ite]
      split
      · rename_i hthere
        obtain ⟨content, hcontent⟩ := Option.isSome_iff_exists.mp (Bool.and_eq_true_iff.mp hthere).1
        unfold renameBackup
        rw [Prog.wp_bind, wp_failIf]
        cases faults.rename (n + 1) with
        | some message => exact .refl _ _
        | none =>
            simp only [Prog.wp_step, hcontent]
            refine ⟨files_renameBackup hn hcontent hfree rfl rfl, trivial, fun _ => ?_⟩
            exact Function.update_self ..
      · rename_i hmissing
        refine ⟨.refl _ _, rfl, fun hcareful => ?_⟩
        rw [hsighted hcareful, Bool.not_false, Bool.and_true, Bool.not_eq_true] at hmissing
        exact Option.isNone_iff_eq_none.mp (Option.isSome_eq_false_iff.mp hmissing)

theorem wp_shiftFrom_files (hn : n < 4) (hsighted : careful → ∀ i, unseen i = false)
    (hfree : careful → dir.backups (n + 1) = none) :
    Prog.wp (shiftFrom unseen faults n)
      (fun _ dir' => Leads (Watched careful) (files dir) (files dir') [] ∧
        dir'.active = dir.active ∧ (careful → dir'.backups 1 = none))
      (fun _ dir' => Leads (Watched careful) (files dir) (files dir') []) dir := by
  induction n generalizing dir with
  | zero => exact ⟨.refl _ _, rfl, hfree⟩
  | succ n ih =>
      rw [shiftFrom, Prog.wp_bind]
      refine Prog.wp_mono _ ?_ (fun _ _ h => h) (wp_shift_files hn hsighted hfree)
      rintro _ next ⟨hleads, hactive, hnext⟩
      refine Prog.wp_mono _ ?_ ?_ (ih (by omega) hnext)
      · rintro _ last ⟨hrest, hsame, hfirst⟩
        exact ⟨hleads.trans hrest, hsame.trans hactive, hfirst⟩
      · exact fun _ last hrest => hleads.trans hrest

theorem wp_rotate_files (hactive : dir.active = some content)
    (hsighted : careful → ∀ i, unseen i = false) :
    Prog.wp (rotate unseen faults)
      (fun _ dir' => Leads (Watched careful) (files dir) (files dir') [])
      (fun _ dir' => Leads (Watched careful) (files dir) (files dir') []) dir := by
  unfold rotate
  rw [Prog.wp_bind, wp_failIf]
  cases faults.path backupRetentionCount with
  | some message => exact .refl _ _
  | none =>
      rw [Prog.wp_bind]
      refine Prog.wp_mono _ ?_ ?_ wp_removeOldest
      · rintro _ _ ⟨-, rfl⟩
        have hdrop : Leads (Watched careful) (files dir) (files (withoutOldest dir)) [] :=
          files_withoutOldest dir
        have hfree : careful → (withoutOldest dir).backups 4 = none := by
          simp [withoutOldest]
        rw [Prog.wp_bind]
        refine Prog.wp_mono _ ?_ (fun _ _ hrest => hdrop.trans hrest)
          (wp_shiftFrom_files (n := backupRetentionCount - 1) (by decide) hsighted hfree)
        rintro _ next ⟨hleads, hsame, hfirst⟩
        have hnext : next.active = some content := hsame.trans hactive
        rw [Prog.wp_bind, wp_failIf]
        cases faults.path 0 with
        | some message => exact hdrop.trans hleads
        | none =>
            unfold renameActive
            rw [Prog.wp_bind, wp_failIf]
            cases faults.rename 0 with
            | some message => exact hdrop.trans hleads
            | none =>
                simp only [Prog.wp_step, hnext]
                exact (hdrop.trans hleads).trans (files_renameActive hnext hfirst rfl rfl)
      · rintro _ _ ⟨-, rfl⟩
        exact .refl _ _

/-! ## An append -/

variable {size : ρ → ℕ} {append : Append ρ} {attempt : Attempt ρ}

theorem wp_maybeRotate_files (hsighted : careful → ∀ i, unseen i = false) :
    Prog.wp (maybeRotate size unseen faults)
      (fun _ dir' => Leads (Watched careful) (files dir) (files dir') [])
      (fun _ dir' => Leads (Watched careful) (files dir) (files dir') []) dir := by
  unfold maybeRotate
  rw [Prog.wp_bind, Prog.wp_get]
  cases hactive : dir.active with
  | none => exact .refl _ _
  | some content =>
      dsimp only
      rw [Prog.wp_bind, wp_failIf]
      cases faults.metadata with
      | some message => exact .refl _ _
      | none =>
          dsimp only
          rw [Prog.wp_ite]
          split
          · exact .refl _ _
          · exact wp_rotate_files hactive hsighted

theorem wp_tryLog_files (hsighted : careful → attempt.Sighted) :
    Prog.wp (tryLog size attempt.unseen attempt.faults attempt.record)
      (fun _ dir' => Leads (Watched careful) (files dir) (files dir') attempt.toAppend.written)
      (fun _ dir' => Leads (Watched careful) (files dir) (files dir') attempt.toAppend.written)
      dir := by
  unfold tryLog Append.written
  rw [Prog.wp_bind, wp_failIf]
  cases attempt.faults.prepare with
  | some message => exact .refl _ _
  | none =>
      dsimp only
      rw [Prog.wp_bind]
      cases attempt.faults.append with
      | some failure =>
          obtain ⟨message, piece⟩ := failure
          cases piece with
          | none => exact .refl _ _
          | some piece => exact files_appendRecord dir piece
      | none =>
          unfold appendOne appendRecord
          dsimp only
          rw [Prog.wp_modify, Prog.wp_bind, Prog.wp_attempt]
          have happend : Leads (Watched careful) (files dir) _ [attempt.record] :=
            files_appendRecord dir attempt.record
          exact Prog.wp_mono _ (fun _ _ h => happend.trans h) (fun _ _ h => happend.trans h)
            (wp_maybeRotate_files hsighted)

theorem attempted_files (size : ρ → ℕ) (dir : Directory ρ) (hsighted : careful → attempt.Sighted) :
    Leads (Watched careful) (files dir) (files (attempted size dir attempt))
      attempt.toAppend.written :=
  Prog.wp_state (wp_tryLog_files hsighted)

/-- The files after any attempts, whatever fails; with care when every backup is seen. -/
theorem afterAttempts_files (size : ρ → ℕ) (dir : Directory ρ) (attempts : List (Attempt ρ)) :
    Leads (Watched (∀ attempt ∈ attempts, attempt.Sighted)) (files dir)
      (files (afterAttempts size dir attempts)) (written attempts) := by
  suffices h : ∀ careful : Prop, (∀ attempt ∈ attempts, careful → attempt.Sighted) →
      Leads (Watched careful) (files dir) (files (afterAttempts size dir attempts))
        (written attempts) from h _ fun attempt hattempt hall => hall attempt hattempt
  intro careful hsighted
  induction attempts generalizing dir with
  | nil => exact .refl _ _
  | cons attempt attempts ih =>
      have hfirst := attempted_files size dir (hsighted attempt List.mem_cons_self)
      exact hfirst.trans (ih _ fun other hother =>
        hsighted other (List.mem_cons_of_mem attempt hother))

/-! ## Rotations that see every backup -/

/-- The directory after a backup has moved up, or there is none. -/
def lifted (dir : Directory ρ) (n : ℕ) : Directory ρ :=
  { dir with
    backups := Function.update (Function.update dir.backups (n + 1) (dir.backups n)) n none }

theorem lifted_of_none (hcontent : dir.backups n = none) (hfree : dir.backups (n + 1) = none) :
    lifted dir n = dir := by
  have hsame : Function.update (Function.update dir.backups (n + 1) none) n none =
      dir.backups := by
    funext i
    simp only [Function.update_apply]
    split_ifs with hi hi'
    · rw [hi, hcontent]
    · rw [hi', hfree]
    · rfl
  unfold lifted
  rw [hcontent, hsame]

theorem wp_shift_lifted (hfree : dir.backups (n + 1) = none) :
    Prog.wp (shift allSeen faults n)
      (fun _ dir' => dir' = lifted dir n) (fun _ dir' => dir' = dir) dir := by
  unfold shift
  rw [Prog.wp_bind, wp_failIf]
  cases faults.path n with
  | some message => exact rfl
  | none =>
      rw [Prog.wp_bind, Prog.wp_get, Prog.wp_ite]
      cases hcontent : dir.backups n with
      | none => exact (lifted_of_none hcontent hfree).symm
      | some content =>
          have hseen : ((some content).isSome && !allSeen n) = true := rfl
          rw [if_pos hseen]
          unfold renameBackup
          rw [Prog.wp_bind, wp_failIf]
          cases faults.rename n with
          | some message => exact rfl
          | none =>
              simp only [Prog.wp_step, hcontent, hfree]
              unfold lifted
              rw [hcontent]
              rfl

/-- All backups up to this one have moved up. -/
def Shifted (n : ℕ) (dir dir' : Directory ρ) : Prop :=
  dir'.active = dir.active ∧ dir'.backups 1 = none ∧
    ∀ i, 1 ≤ i → i ≤ n → dir'.backups (i + 1) = dir.backups i

theorem wp_shiftFrom_shifted (hn : n ≤ 3) (hfree : dir.backups (n + 1) = none) :
    Prog.wp (shiftFrom allSeen faults n)
      (fun _ dir' => Shifted n dir dir' ∧ ∀ i, n + 1 < i → dir'.backups i = dir.backups i)
      (fun _ _ => True) dir := by
  induction n generalizing dir with
  | zero =>
      refine ⟨⟨rfl, hfree, fun i hi hi' => ?_⟩, fun i _ => rfl⟩
      omega
  | succ n ih =>
      rw [shiftFrom, Prog.wp_bind]
      refine Prog.wp_mono _ ?_ (fun _ _ _ => trivial) (wp_shift_lifted hfree)
      rintro _ _ rfl
      have hbackups : ∀ i, (lifted dir (n + 1)).backups i =
          if i = n + 1 then none else if i = n + 2 then dir.backups (n + 1)
            else dir.backups i := by
        intro i
        simp only [lifted, Function.update_apply]
      refine Prog.wp_mono _ ?_ (fun _ _ _ => trivial)
        (ih (by omega) ((hbackups _).trans (if_pos rfl)))
      rintro _ last ⟨⟨hactive, hfirst, hmoved⟩, habove⟩
      refine ⟨⟨hactive, hfirst, fun i hi hi' => ?_⟩, fun i hi => ?_⟩
      · by_cases hlast : i = n + 1
        · subst hlast
          rw [habove (n + 1 + 1) (by omega), hbackups, if_neg (by omega), if_pos rfl]
        · rw [hmoved i hi (by omega), hbackups, if_neg hlast, if_neg (by omega)]
      · rw [habove i (by omega), hbackups, if_neg (by omega), if_neg (by omega)]

/-- Every backup has moved up, and the active file has become the first one. -/
def Rotated (content : List ρ) (dir dir' : Directory ρ) : Prop :=
  dir'.active = none ∧ dir'.backups 1 = some content ∧
    ∀ i, 1 ≤ i → i ≤ 3 → dir'.backups (i + 1) = dir.backups i

theorem wp_rotate_rotated (hactive : dir.active = some content) :
    Prog.wp (rotate allSeen faults) (fun _ dir' => Rotated content dir dir') (fun _ _ => True)
      dir := by
  unfold rotate
  rw [Prog.wp_bind, wp_failIf]
  cases faults.path backupRetentionCount with
  | some message => exact trivial
  | none =>
      rw [Prog.wp_bind]
      refine Prog.wp_mono _ ?_ (fun _ _ _ => trivial) wp_removeOldest
      rintro _ _ ⟨-, rfl⟩
      have hoff : ∀ i, i ≤ 3 → (withoutOldest dir).backups i = dir.backups i := fun i hi =>
        Function.update_of_ne (by omega) _ _
      have hfree : (withoutOldest dir).backups 4 = none := by
        simp [withoutOldest]
      rw [Prog.wp_bind]
      refine Prog.wp_mono _ ?_ (fun _ _ _ => trivial)
        (wp_shiftFrom_shifted (n := backupRetentionCount - 1) (Nat.le_refl 3) hfree)
      rintro _ next ⟨⟨hsame, hfirst, hmoved⟩, -⟩
      have hnext : next.active = some content := hsame.trans hactive
      rw [Prog.wp_bind, wp_failIf]
      cases faults.path 0 with
      | some message => exact trivial
      | none =>
          unfold renameActive
          rw [Prog.wp_bind, wp_failIf]
          cases faults.rename 0 with
          | some message => exact trivial
          | none =>
              simp only [Prog.wp_step, hnext]
              refine ⟨rfl, ?_, fun i hi hi' => ?_⟩
              · show Function.update next.backups 1 (some content) 1 = some content
                rw [Function.update_self]
              · rw [← hoff i hi', ← hmoved i hi hi']
                show Function.update next.backups 1 (some content) (i + 1) = _
                rw [Function.update_of_ne (by omega)]

/-! ## Rotations that are not broken off -/

/-- Nothing fails once the oldest backup is gone. -/
def Append.Unbroken (append : Append ρ) : Prop :=
  ∀ n, n < 4 → append.faults.path n = none ∧ append.faults.rename n = none

theorem interrupted_of_unbroken (h : append.Unbroken) :
    interrupted append.faults dir = false := by
  have hblocked : ∀ i, i < 4 → blocked append.faults dir i = false := by
    intro i hi
    simp [blocked, h i hi]
  rw [interrupted_of_passed fun i _ hi => hblocked i (by omega), (h 0 (by omega)).1,
    (h 0 (by omega)).2]
  rfl

/-- A rotation that is not broken off is complete, or has not begun. -/
theorem wp_maybeRotate_unbroken (h : append.Unbroken) (hactive : dir.active = some content) :
    Prog.wp (maybeRotate size allSeen append.faults)
      (fun _ dir' => dir' = dir ∨
        rotationThresholdBytes ≤ length size content ∧ Rotated content dir dir')
      (fun _ dir' => dir' = dir) dir := by
  unfold maybeRotate
  rw [Prog.wp_bind, Prog.wp_get, hactive]
  dsimp only
  rw [Prog.wp_bind, wp_failIf]
  cases append.faults.metadata with
  | some message => exact rfl
  | none =>
      dsimp only
      rw [Prog.wp_ite]
      split
      · exact .inl rfl
      · rename_i hlong
        refine Prog.wp_mono _ ?_ ?_
          (Prog.wp_and _ (wp_rotate_rotated hactive) (wp_rotate hactive))
        · rintro _ dir' ⟨hrotated, -⟩
          exact .inr ⟨Nat.le_of_not_lt hlong, hrotated⟩
        · rintro _ dir' ⟨-, ⟨-, hsame⟩ | ⟨-, hinterrupted, -⟩⟩
          · exact hsame
          · rw [interrupted_of_unbroken h] at hinterrupted
            cases hinterrupted

/-- What was written is in the active file, or in the first backup that was full. -/
def Landed (size : ρ → ℕ) (dir dir' : Directory ρ) (written : List ρ) : Prop :=
  (dir'.backups = dir.backups ∧ dir'.rotated = dir.rotated ∧
      dir'.active.getD [] = dir.active.getD [] ++ written) ∨
    rotationThresholdBytes ≤ length size (dir.active.getD [] ++ written) ∧
      Rotated (dir.active.getD [] ++ written) dir dir'

theorem next_landed (h : append.Unbroken) :
    Landed size dir (next size dir append) append.written := by
  have hsame : Landed size dir dir [] := .inl ⟨rfl, rfl, (List.append_nil _).symm⟩
  refine Prog.wp_state (P := fun dir' => Landed size dir dir' append.written) ?_
  unfold tryLog Append.written
  rw [Prog.wp_bind, wp_failIf]
  cases append.faults.prepare with
  | some message => exact hsame
  | none =>
      dsimp only
      rw [Prog.wp_bind]
      cases append.faults.append with
      | some failure =>
          obtain ⟨message, piece⟩ := failure
          cases piece with
          | none => exact hsame
          | some piece => exact .inl ⟨rfl, rfl, rfl⟩
      | none =>
          unfold appendOne appendRecord
          dsimp only
          rw [Prog.wp_modify, Prog.wp_bind, Prog.wp_attempt]
          refine Prog.wp_mono _ ?_ ?_ (wp_maybeRotate_unbroken h rfl)
          · rintro _ dir' (rfl | hrotated)
            · exact .inl ⟨rfl, rfl, rfl⟩
            · exact .inr hrotated
          · rintro _ dir' rfl
            exact .inl ⟨rfl, rfl, rfl⟩

/-! ## What is retained -/

/-- The records of all files, the oldest first. -/
def kept (dir : Directory ρ) : List ρ :=
  below (files dir) 5

/-- The second backup is not seen: it stays while the third one moves up, and the first one
replaces it. -/
example : kept (attempted id fullDirectory { activeInUse 100 with unseen := (· == 2) }) =
    [rotationThresholdBytes + 3, rotationThresholdBytes + 1, rotationThresholdBytes, 100] := by
  decide

theorem kept_eq (dir : Directory ρ) :
    kept dir = (dir.backups 4).getD [] ++ ((dir.backups 3).getD [] ++ ((dir.backups 2).getD [] ++
      ((dir.backups 1).getD [] ++ dir.active.getD []))) := by
  simp [kept, below, files]

/-- Whatever fails, the files hold what was written in order, as far as it is not gone. -/
theorem afterAttempts_sublist (size : ρ → ℕ) (dir : Directory ρ) (attempts : List (Attempt ρ)) :
    (kept (afterAttempts size dir attempts)).Sublist (kept dir ++ written attempts) :=
  (afterAttempts_files size dir attempts).sublist 4

/-- Backups are full, they leave no gaps, and while one is missing nothing has gone. -/
structure Retained (size : ρ → ℕ) (dir : Directory ρ) (past : List ρ) : Prop where
  full : ∀ i content, 1 ≤ i → i ≤ 4 → dir.backups i = some content →
    rotationThresholdBytes ≤ length size content
  gapless : ∀ i, 1 ≤ i → i ≤ 3 → (dir.backups (i + 1)).isSome = true →
    (dir.backups i).isSome = true
  history : ∃ gone, gone ++ kept dir = past ∧ (gone = [] ∨ (dir.backups 4).isSome = true)

theorem Retained.next {past : List ρ} (h : Retained size dir past) (happend : append.Unbroken) :
    Retained size (next size dir append) (past ++ append.written) := by
  obtain ⟨hfull, hgapless, gone, hgone, hmissing⟩ := h
  generalize hdir' : EventLog.next size dir append = dir'
  have hlanded : Landed size dir dir' append.written := hdir' ▸ next_landed happend
  rcases hlanded with ⟨hbackups, -, hactive⟩ | ⟨hlong, hnone, hfirst, hmoved⟩
  · refine ⟨by rw [hbackups]; exact hfull, by rw [hbackups]; exact hgapless, gone, ?_, ?_⟩
    · rw [← hgone, kept_eq, kept_eq, hbackups, hactive]
      simp only [List.append_assoc]
    · rw [hbackups]
      exact hmissing
  · have hsecond := hmoved 1 (by omega) (by omega)
    have hthird := hmoved 2 (by omega) (by omega)
    have hfourth := hmoved 3 (by omega) (by omega)
    refine ⟨fun i content hi hi' hcontent => ?_, fun i hi hi' hsome => ?_,
      gone ++ (dir.backups 4).getD [], ?_, ?_⟩
    · by_cases hone : i = 1
      · subst hone
        rw [hfirst] at hcontent
        exact Option.some.inj hcontent ▸ hlong
      · obtain ⟨j, rfl⟩ : ∃ j, i = j + 1 := ⟨i - 1, by omega⟩
        rw [hmoved j (by omega) (by omega)] at hcontent
        exact hfull j content (by omega) (by omega) hcontent
    · by_cases hone : i = 1
      · subst hone
        rw [hfirst]
        rfl
      · obtain ⟨j, rfl⟩ : ∃ j, i = j + 1 := ⟨i - 1, by omega⟩
        rw [hmoved (j + 1) (by omega) hi'] at hsome
        rw [hmoved j (by omega) (by omega)]
        exact hgapless j (by omega) (by omega) hsome
    · rw [← hgone, kept_eq, kept_eq, hfourth, hthird, hsecond, hfirst, hnone]
      simp only [Option.getD_some, Option.getD_none, List.append_assoc, List.append_nil]
    · rw [hfourth]
      rcases hmissing with rfl | hsome
      · cases hoff : dir.backups 4 with
        | none => exact .inl rfl
        | some content => exact .inr (hgapless 3 (by omega) (by omega) (by rw [hoff]; rfl))
      · exact .inr (hgapless 3 (by omega) (by omega) hsome)

/-- There is no log yet. -/
def noLog : Directory ρ :=
  .start none fun _ => none

theorem length_append (content content' : List ρ) :
    length size (content ++ content') = length size content + length size content' := by
  simp [length]

/-- No rotation fails, and no write fails half-way. -/
structure Append.Healthy (size : ρ → ℕ) (append : Append ρ) : Prop where
  unbroken : append.Unbroken
  metadata : append.faults.metadata = none
  oldest : append.faults.path 4 = none ∧ append.faults.remove = none
  whole : ∀ message piece, append.faults.append ≠ some (message, some piece)
  small : size append.record ≤ rotationThresholdBytes

/-- The active file is below the threshold, and no backup is twice as long. -/
structure Bounded (size : ρ → ℕ) (dir : Directory ρ) : Prop where
  active : length size (dir.active.getD []) < rotationThresholdBytes
  backups : ∀ i content, 1 ≤ i → i ≤ 4 → dir.backups i = some content →
    length size content < 2 * rotationThresholdBytes

theorem Append.Healthy.written_cases (h : append.Healthy size) :
    append.written = [] ∨ append.written = [append.record] ∧
      append.faults.prepare = none ∧ append.faults.append = none := by
  unfold written
  cases append.faults.prepare with
  | some message => exact .inl rfl
  | none =>
      cases happend : append.faults.append with
      | none => exact .inr ⟨rfl, rfl, rfl⟩
      | some failure =>
          obtain ⟨message, piece⟩ := failure
          cases piece with
          | none => exact .inl rfl
          | some piece => exact absurd happend (h.whole message piece)

theorem Bounded.next (h : Bounded size dir) (happend : append.Healthy size) :
    Bounded size (next size dir append) := by
  have hlength : length size (dir.active.getD [] ++ append.written) <
      2 * rotationThresholdBytes := by
    have hactive := h.active
    have hsmall := happend.small
    rw [length_append]
    rcases happend.written_cases with hnone | ⟨hrecord, -⟩
    · rw [hnone]
      simp [length] at hactive ⊢
      omega
    · rw [hrecord]
      simp [length] at hactive ⊢
      omega
  have houtcome := next_outcome size dir append
  have hlanded : Landed size dir (EventLog.next size dir append) append.written :=
    next_landed happend.unbroken
  generalize EventLog.next size dir append = dir' at houtcome hlanded
  rcases hlanded with ⟨hbackups, hrotated, hactive⟩ | ⟨-, hnone, hfirst, hmoved⟩
  · refine ⟨?_, by rw [hbackups]; exact h.backups⟩
    rw [hactive]
    rcases happend.written_cases with hnone | ⟨hrecord, hprepare, hwrite⟩
    · rw [hnone, List.append_nil]
      exact h.active
    · by_contra hlong
      have hdue : due size dir append = true := by
        rw [hrecord] at hlong
        simp [due, hprepare, hwrite, happend.metadata, happend.oldest, Nat.le_of_not_lt hlong]
      cases houtcome with
      | quiet hnot _ _ _ =>
          rw [hdue] at hnot
          cases hnot
      | cut _ hinterrupted _ _ _ =>
          rw [interrupted_of_unbroken happend.unbroken] at hinterrupted
          cases hinterrupted
      | completed content _ _ _ _ hcompleted =>
          rw [hrotated] at hcompleted
          exact absurd (congrArg List.length hcompleted) (by simp)
  · refine ⟨?_, fun i content hi hi' hcontent => ?_⟩
    · rw [hnone]
      show 0 < rotationThresholdBytes
      decide
    · by_cases hone : i = 1
      · subst hone
        rw [hfirst] at hcontent
        exact Option.some.inj hcontent ▸ hlength
      · obtain ⟨j, rfl⟩ : ∃ j, i = j + 1 := ⟨i - 1, by omega⟩
        rw [hmoved j (by omega) (by omega)] at hcontent
        exact h.backups j content (by omega) (by omega) hcontent

variable {attempts : List (Attempt ρ)}

end

end Ngsm.Supervisor.EventLog
