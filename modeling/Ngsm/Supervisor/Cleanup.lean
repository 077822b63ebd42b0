/-
# Exits, cleanup and the stop

`cleanup_generation` may be entered several times on the same generation, and each
of its steps may fail.  Whatever happens, the exit of a generation is recorded at
most once, with its hook, and a cleanup that succeeds has recorded it.  The shutdown
at the end of a run fires its hook and writes its record once.
-/

import Ngsm.Supervisor.Refinement

namespace Ngsm.Supervisor

open Ngsm.Core Ngsm.Lib Ngsm.Lib.Prog

variable {s : Sup} {l l' : Lifecycle} {I : Sup → Prop} {E : Halt → Prop}

/-! ## The generation and its exit -/

/-- The exit that a caller has seen before is the generation's. -/
def Sighted (sight : Option (Int32 × Nat)) (generation : Option Generation) : Prop :=
  ∀ seen, sight = some seen → ∃ g e, generation = some g ∧ g.exit = some e ∧
    seen = (e.code, g.lived e)

/-- A generation that is still there has ended. -/
def HasExit (generation : Option Generation) : Prop :=
  ∀ g, generation = some g → g.exit.isSome = true

theorem steady_generation {P : Option Generation → Prop}
    (hexit : ∀ (s : Sup) code error, P s.generation → P (s.publishExit code error).generation) :
    Steady fun s => P s.generation :=
  Yielding.steady {
    turn _ h := h
    plant _ _ _ h := h
    stop s h := by
      unfold Sup.setStop
      split
      · exact h
      · exact h
    send _ _ _ h := h
    request s pause h := by
      unfold Sup.request
      split
      · exact h
      · exact h
    cancel _ _ h := h
    exit s code error h := hexit s code error h
    terminal _ _ h := h
    hook _ _ _ h := h }

theorem steady_sighted (sight : Option (Int32 × Nat)) :
    Steady fun s => Sighted sight s.generation := by
  refine steady_generation fun s code error h seen hseen => ?_
  obtain ⟨g, e, hg, he, heq⟩ := h seen hseen
  refine ⟨g, e, ?_, he, heq⟩
  simp [Sup.publishExit, hg, he]

theorem steady_hasExit : Steady fun s => HasExit s.generation := by
  refine steady_generation fun s code error h g hg => ?_
  simp only [Sup.publishExit, Option.map_eq_some_iff] at hg
  obtain ⟨g', hg', rfl⟩ := hg
  simp [h g' hg']

theorem hasExit_of_any {generation : Option Generation}
    (h : generation.any (·.exit.isSome) = true) : HasExit generation := by
  rintro g rfl
  exact h

/-! ## Waiting for the child -/

theorem wp_exitObserved (h : Steady I) (hs : I s) {R : Halt → Sup → Prop} :
    exitObservedAndTreeEmpty.wp
      (fun ended s' => I s' ∧ (ended = true → s'.generation.any (·.exit.isSome) = true)) R s := by
  unfold exitObservedAndTreeEmpty
  rw [Prog.wp_bind]
  refine (keeps_turn h).returns hs fun answer s' hs' => ?_
  rw [Prog.wp_bind, Prog.wp_get, Prog.wp_pure]
  refine ⟨hs', fun hended => ?_⟩
  rw [Bool.and_eq_true] at hended
  exact hended.1

theorem wp_pollExit (h : Steady I) (deadline rounds : Nat) (hs : I s) {R : Halt → Sup → Prop} :
    (pollExit deadline rounds).wp
      (fun ended s' => I s' ∧ (ended = true → s'.generation.any (·.exit.isSome) = true)) R s := by
  induction rounds generalizing s with
  | zero => exact wp_exitObserved h hs
  | succ rounds ih =>
      unfold pollExit
      rw [Prog.wp_bind]
      refine (keeps_now h).returns hs fun time s₁ hs₁ => ?_
      rw [Prog.wp_ite]
      split
      · exact wp_exitObserved h hs₁
      · rw [Prog.wp_bind]
        refine (keeps_observeUnwatchedChild h).returns hs₁ fun _ s₂ hs₂ => ?_
        rw [Prog.wp_bind]
        refine Prog.wp_mono _ (fun ended s₃ hs₃ => ?_) (fun _ _ h => h) (wp_exitObserved h hs₂)
        cases ended with
        | true => exact hs₃
        | false =>
            simp only [Bool.false_eq_true, if_false]
            rw [Prog.wp_bind]
            refine (keeps_now h).returns hs₃.1 fun time s₄ hs₄ => ?_
            rw [Prog.wp_bind]
            exact (keeps_sleep h _).returns hs₄ fun _ s₅ hs₅ => ih hs₅

theorem wp_awaitChild (h : Steady I) (hs : I s) :
    awaitChild.wp (fun _ s' => I s' ∧ HasExit s'.generation) (fun e s' => Failed e ∧ I s') s := by
  unfold awaitChild waitForExitUntil
  rw [Prog.wp_bind]
  refine (keeps_now h).returns hs fun time s₁ hs₁ => ?_
  rw [Prog.wp_bind, Prog.wp_bind, Prog.wp_get]
  refine Prog.wp_mono _ (fun ended s₂ hs₂ => ?_) (fun _ _ h => h)
    (wp_pollExit h _ _ hs₁ (R := fun e s' => Failed e ∧ I s'))
  cases ended with
  | true => exact ⟨hs₂.1, hasExit_of_any (hs₂.2 rfl)⟩
  | false => exact ⟨failed_failed _, hs₂.1⟩

/-! ## The exit record -/

/-- The exit is recorded and its hook fired. -/
def Lifecycle.close (l : Lifecycle) (code : Int32) (lived : Nat) : Lifecycle :=
  { l.exit code lived with exitHook := false }

/-- What recording an exit may do, when the caller has seen an exit before. -/
def Closing (sight : Option (Int32 × Nat)) (l l' : Lifecycle) : Prop :=
  (l.unexited = false ∧ l' = l) ∨
    (l.unexited = true ∧ ∃ code lived, l' = l.close code lived ∧
      ∀ seen, sight = some seen → seen = (code, lived))

theorem Lifecycle.close_unexited (code : Int32) (lived : Nat) :
    (l.close code lived).unexited = false := by
  unfold Lifecycle.close Lifecycle.exit
  split <;> rfl

theorem Lifecycle.close_reported (code : Int32) (lived : Nat) :
    (l.close code lived).reported = l.reported := by
  unfold Lifecycle.close Lifecycle.exit
  split <;> rfl

theorem Lifecycle.close_stopHook (code : Int32) (lived : Nat) :
    (l.close code lived).stopHook = l.stopHook := by
  unfold Lifecycle.close Lifecycle.exit
  split <;> rfl

theorem Lifecycle.exit_phase_ne (code : Int32) (lived : Nat) (h : l.phase ≠ .stopped) :
    (l.exit code lived).phase ≠ .stopped := by
  unfold Lifecycle.exit
  split
  · nofun
  · exact h

theorem Closing.unexited {sight : Option (Int32 × Nat)} (h : Closing sight l l') :
    l'.unexited = false := by
  rcases h with ⟨hnone, rfl⟩ | ⟨-, code, lived, rfl, -⟩
  · exact hnone
  · exact Lifecycle.close_unexited code lived

/-- What the exit record may stand on: no hook is owed, and the service goes on. -/
structure Standing (l : Lifecycle) : Prop where
  exitHook : l.exitHook = false
  phase : l.phase ≠ .stopped

theorem Closing.standing {sight : Option (Int32 × Nat)} (h : Closing sight l l')
    (hl : Standing l) : Standing l' := by
  rcases h with ⟨-, rfl⟩ | ⟨-, code, lived, rfl, -⟩
  · exact hl
  · exact ⟨rfl, Lifecycle.exit_phase_ne code lived hl.phase⟩

theorem Closing.attempts {sight : Option (Int32 × Nat)} (h : Closing sight l l') :
    l'.attempts = l.attempts := by
  rcases h with ⟨-, rfl⟩ | ⟨-, code, lived, rfl, -⟩
  · rfl
  · unfold Lifecycle.close Lifecycle.exit
    split <;> rfl

theorem Closing.stopHook {sight : Option (Int32 × Nat)} (h : Closing sight l l') :
    l'.stopHook = l.stopHook := by
  rcases h with ⟨-, rfl⟩ | ⟨-, code, lived, rfl, -⟩
  · rfl
  · exact Lifecycle.close_stopHook code lived

/-- A shutdown hook is fired whatever the stop flag says. -/
theorem wp_shutdownHook {I' : Sup → Prop} (h : Steady I) (h' : Steady I') (hook : HookCall)
    (hpoint : hook.point.shutdown = true) (hemit : ∀ s, I s → I' (s.emit (.hook hook)))
    {R : Halt → Sup → Prop} (hs : I s) : (fireHook hook).wp (fun _ => I') R s := by
  unfold fireHook
  rw [Prog.wp_bind]
  refine (keeps_stopping h).returns hs fun stop s₁ hs₁ => ?_
  rw [hpoint, Bool.not_true, Bool.and_false]
  change (emit (.hook hook) >>= _).wp _ _ s₁
  rw [Prog.wp_bind]
  change ((get : SupM Sup) >>= _).wp _ _ (s₁.emit (.hook hook))
  rw [Prog.wp_bind, Prog.wp_get]
  cases findHook (s₁.emit (.hook hook)).config.hooks hook.point with
  | none => exact hemit s₁ hs₁
  | some _ =>
      exact (Keeps.bind (keeps_turn h') fun _ => Keeps.pure _).returns (hemit s₁ hs₁)
        fun _ _ hs' => hs'

theorem Standing.step_exit (h : Standing l) (hunexited : l.unexited = true)
    (config : ManagedApplicationConfig) (code : Int32) (lived : Nat) :
    Lifecycle.step config l (.childExited code lived) = some (l.exit code lived) :=
  if_pos ⟨hunexited, h.exitHook, h.phase⟩

theorem Standing.step_exitHook (h : Standing l) (config : ManagedApplicationConfig) (code : Int32)
    (lived : Nat) (pid : UInt32) :
    Lifecycle.step config (l.exit code lived)
        (.hook { point := .exitPost, pid := some pid, exit := some code }) =
      some (l.close code lived) := by
  refine if_pos ⟨Lifecycle.exit_phase_ne code lived h.phase, ?_⟩
  unfold Lifecycle.exit
  split <;> rfl

theorem Tracks.exit (hl : Standing l) (hs : Tracks l s) (hunexited : l.unexited = true)
    (g : Generation) (code : Int32) (lived : Nat) :
    Tracks (l.exit code lived) { s with
      generation := some { g with recorded := true }
      trace := s.trace ++ [.childExited code lived] } := by
  have hstopped : s.stoppedRecorded = true ↔ (l.exit code lived).phase = .stopped := by
    rw [hs.stopped]
    exact ⟨fun h => absurd h hl.phase, fun h => absurd h (Lifecycle.exit_phase_ne _ _ hl.phase)⟩
  exact Follows.append hs (hl.step_exit hunexited s.config code lived)
    (Lifecycle.close_unexited code lived)
    ((Lifecycle.close_reported code lived).trans hs.reported)
    ((Lifecycle.close_stopHook code lived).trans hs.stopHook) hstopped

theorem wp_exitHook (hl : Standing l) (code : Int32) (lived : Nat) (pid : UInt32)
    (hs : Tracks (l.exit code lived) s) {R : Halt → Sup → Prop} :
    (fireHook { point := .exitPost, pid := some pid, exit := some code }).wp
      (fun _ => Tracks (l.close code lived)) R s :=
  wp_shutdownHook (governed_tracks _).toSteady (governed_tracks _).toSteady _ rfl
    (fun s hs => Follows.append hs (hl.step_exitHook s.config code lived pid) hs.unexited hs.reported
      hs.stopHook hs.stopped) hs

/-- The exit of a generation that has ended is recorded, unless it has been. -/
theorem wp_recordChildExit {sight : Option (Int32 × Nat)} (hl : Standing l) (hs : Tracks l s)
    (hsight : Sighted sight s.generation) (hexit : HasExit s.generation) {R : Halt → Sup → Prop} :
    recordChildExit.wp (fun _ s' => ∃ l', Tracks l' s' ∧ Closing sight l l') R s := by
  have hsteady := ((governed_tracks l).toSteady.and (steady_sighted sight)).and steady_hasExit
  unfold recordChildExit
  rw [Prog.wp_bind]
  refine (keeps_turn hsteady).returns ⟨⟨hs, hsight⟩, hexit⟩ fun _ s₁ hs₁ => ?_
  obtain ⟨⟨hs₁, hsight₁⟩, hexit₁⟩ := hs₁
  rw [Prog.wp_bind, Prog.wp_get]
  cases hgeneration : s₁.generation with
  | none =>
      refine ⟨l, hs₁, .inl ⟨?_, rfl⟩⟩
      rw [hs₁.unexited, hgeneration]
      rfl
  | some g =>
      simp only
      rw [Prog.wp_ite]
      split
      · rename_i hrecorded
        refine ⟨l, hs₁, .inl ⟨?_, rfl⟩⟩
        rw [hs₁.unexited, hgeneration]
        simp [unrecorded, hrecorded]
      · rename_i hrecorded
        have hunexited : l.unexited = true := by
          rw [hs₁.unexited, hgeneration]
          simpa [unrecorded] using hrecorded
        obtain ⟨e, he⟩ := Option.isSome_iff_exists.mp (hexit₁ g hgeneration)
        have hseen : ∀ seen, sight = some seen → seen = (e.code, g.lived e) := by
          intro seen hseen
          obtain ⟨g', e', hg', he', heq⟩ := hsight₁ seen hseen
          rw [hgeneration] at hg'
          cases hg'
          rw [he] at he'
          cases he'
          exact heq
        have hsteady' := (governed_tracks (l.exit e.code (g.lived e))).toSteady
        rw [he]
        simp only
        rw [Prog.wp_bind, Prog.wp_modify, Prog.wp_bind]
        refine (keeps_onPlant hsteady' _ (by exact fun _ => le_rfl)).returns
          (Tracks.exit hl hs₁ hunexited { g with exit := some e } e.code (g.lived e))
          fun _ s₂ hs₂ => ?_
        rw [Prog.wp_bind]
        refine (Keeps.forM fun _ _ => keeps_report hsteady' _ _).returns hs₂ fun _ s₃ hs₃ => ?_
        exact Prog.wp_mono _ (fun _ _ hs₄ => ⟨_, hs₄, .inr ⟨hunexited, _, _, rfl, hseen⟩⟩)
          (fun _ _ h => h) (wp_exitHook hl e.code (g.lived e) g.pid hs₃)

/-! ## Cleanup -/

theorem hasExit_map {generation : Option Generation} {f : Generation → Generation}
    (hf : ∀ g, (f g).exit = g.exit) (h : HasExit generation) : HasExit (generation.map f) := by
  intro g hg
  obtain ⟨g', hg', rfl⟩ := Option.map_eq_some_iff.mp hg
  rw [hf]
  exact h g' hg'

theorem sighted_map {sight : Option (Int32 × Nat)} {generation : Option Generation}
    {f : Generation → Generation} (hexit : ∀ g, (f g).exit = g.exit)
    (hlived : ∀ g e, (f g).lived e = g.lived e) (h : Sighted sight generation) :
    Sighted sight (generation.map f) := by
  intro seen hseen
  obtain ⟨g, e, rfl, he, heq⟩ := h seen hseen
  exact ⟨f g, e, rfl, (hexit g).trans he, by rw [hlived, heq]⟩

/-- The assertion that a cleanup carries to its exit record. -/
def Cleaning (sight : Option (Int32 × Nat)) (l : Lifecycle) (s : Sup) : Prop :=
  (Tracks l s ∧ Sighted sight s.generation) ∧ HasExit s.generation

theorem steady_cleaning (sight : Option (Int32 × Nat)) (l : Lifecycle) :
    Steady (Cleaning sight l) :=
  ((governed_tracks l).toSteady.and (steady_sighted sight)).and steady_hasExit

theorem keeps_joinWatcher {sight : Option (Int32 × Nat)} :
    Keeps (Cleaning sight l) Failed joinWatcher := by
  refine Keeps.bind Keeps.get fun _ => keeps_onlyIf _ ?_
  refine Keeps.bind (Keeps.modify fun s hs => ?_) fun _ => ?_
  · exact ⟨⟨Follows.regenerate hs.1.1 (unrecorded_map _ fun _ => rfl),
      sighted_map (fun _ => rfl) (fun _ _ => rfl) hs.1.2⟩, hasExit_map (fun _ => rfl) hs.2⟩
  · refine Keeps.bind (keeps_turn (steady_cleaning sight l)) fun _ => ?_
    exact Keeps.bind (keeps_onlyIf _ (keeps_fail _)) fun _ => keeps_onlyIf _ (keeps_fail _)

theorem wp_clearGeneration (hs : Tracks l s) (hclosed : l.unexited = false)
    {R : Halt → Sup → Prop} :
    clearGeneration.wp (fun _ s' => Tracks l s' ∧ s'.generation = none) R s := by
  refine ⟨⟨hs.accepted, ?_, hs.reported, hs.stopHook, hs.stopped⟩, rfl⟩
  rw [hclosed]
  rfl

/-- How a cleanup may leave the machine: untouched, or with the exit recorded. -/
def Cleaned (sight : Option (Int32 × Nat)) (l : Lifecycle) (s : Sup) : Prop :=
  ∃ l', Tracks l' s ∧ (l' = l ∨ Closing sight l l')

theorem wp_cleanupGeneration {sight : Option (Int32 × Nat)} (hl : Standing l) (hs : Tracks l s)
    (hsight : Sighted sight s.generation) :
    cleanupGeneration.wp
      (fun _ s' => ∃ l', Tracks l' s' ∧ Closing sight l l' ∧ s'.generation = none)
      (fun e s' => Failed e ∧ Cleaned sight l s' ∧ Troubled s') s := by
  have hsteady := (governed_tracks l).toSteady.and (steady_sighted sight)
  have hcleaning := steady_cleaning sight l
  have hcleaned : ∀ e s', Failed e → (Tracks l s' ∧ Sighted sight s'.generation) →
      Failed e ∧ Cleaned sight l s' :=
    fun _ _ he hs' => ⟨he, l, hs'.1, .inl rfl⟩
  have hnoted : ∀ (s' : Sup) error, Troubled (s'.emit (.trouble .cleanup error)) :=
    fun s' error => Troubled.emit s' rfl error
  refine wp_noting (D := Cleaned sight l) ?_ fun s' error hs' => ⟨?_, hnoted s' error⟩
  · rw [Prog.wp_bind]
    refine (keeps_terminateJob hsteady).wp ⟨hs, hsight⟩ (fun _ s₁ hs₁ => ?_) hcleaned
    rw [Prog.wp_bind]
    refine (keeps_finishFilesystemTasks hsteady).wp hs₁ (fun _ s₂ hs₂ => ?_) hcleaned
    rw [Prog.wp_bind, Prog.wp_get, Prog.wp_bind]
    have hawait : (onlyIf s₂.generation.isSome awaitChild).wp (fun _ => Cleaning sight l)
        (fun e s' => Failed e ∧ Cleaned sight l s') s₂ := by
      unfold onlyIf
      rw [Prog.wp_ite]
      split
      · exact Prog.wp_mono _ (fun _ _ h => h) (fun e s' he => hcleaned e s' he.1 he.2)
          (wp_awaitChild hsteady hs₂)
      · rename_i hnone
        refine ⟨hs₂, fun g hg => ?_⟩
        rw [hg] at hnone
        exact absurd rfl hnone
    refine Prog.wp_mono _ (fun _ s₃ hs₃ => ?_) (fun _ _ he => he) hawait
    rw [Prog.wp_bind]
    refine keeps_joinWatcher.wp hs₃ (fun _ s₄ hs₄ => ?_) fun e s' he hs' => hcleaned e s' he hs'.1
    rw [Prog.wp_bind, Prog.wp_get, Prog.wp_bind]
    refine (keeps_finishReaders hcleaning _ _).returns hs₄ fun failure s₅ hs₅ => ?_
    rw [Prog.wp_bind]
    refine (keeps_stopping hcleaning).returns hs₅ fun stop s₆ hs₆ => ?_
    rw [Prog.wp_bind, Prog.wp_get, Prog.wp_bind]
    refine (keeps_onlyIf _ (Keeps.bind Keeps.get fun _ => keeps_rotateSinks hcleaning _ _ _)).wp hs₆
      (fun _ s₇ hs₇ => ?_) fun e s' he hs' => hcleaned e s' he hs'.1
    rw [Prog.wp_bind]
    refine Prog.wp_mono _ (fun _ s₈ hs₈ => ?_) (fun _ _ he => he)
      (wp_recordChildExit hl hs₇.1.1 hs₇.1.2 hs₇.2)
    obtain ⟨l', hs₈, hclosing⟩ := hs₈
    cases failure with
    | some error =>
        simp only
        rw [Prog.wp_bind]
        refine (keeps_report (governed_tracks l').toSteady _ _).returns hs₈ fun _ s₉ hs₉ => ?_
        exact ⟨failed_failed _, l', hs₉, .inr hclosing⟩
    | none =>
        exact Prog.wp_mono _ (fun _ s₉ hs₉ => ⟨l', hs₉.1, hclosing, hs₉.2⟩) (fun _ _ h => h)
          (wp_clearGeneration hs₈ hclosing.unexited)
  · obtain ⟨l', hs', hl'⟩ := hs'
    exact ⟨l', (governed_tracks l').trouble s' _ error hs', hl'⟩

/-! ## The stop -/

/-- An assertion yields as well when one flag is put back. -/
theorem yielding_withHook (h : Yielding I) (fired : Bool) :
    Yielding fun s => I { s with stopHookFired := fired } where
  turn s hs := h.turn _ hs
  plant s plant hgrown hs := h.plant { s with stopHookFired := fired } plant hgrown hs
  stop s hs := by
    have hstop := h.stop _ hs
    unfold Sup.setStop at hstop ⊢
    by_cases hflag : s.stopRequested = true
    · rw [if_pos hflag] at hstop ⊢
      exact hstop
    · rw [if_neg hflag] at hstop ⊢
      exact hstop
  send s message hmessage hs := h.send _ message hmessage hs
  request s pause hs := by
    have hrequest := h.request _ pause hs
    unfold Sup.request at hrequest ⊢
    by_cases hflag : s.receiving = true
    · rw [if_pos hflag] at hrequest ⊢
      exact hrequest
    · rw [if_neg hflag] at hrequest ⊢
      exact hrequest
  cancel s request hs := h.cancel _ request hs
  exit s code error hs := h.exit _ code error hs
  terminal s terminal hs := h.terminal _ terminal hs
  hook s call hcall hs := h.hook _ call hcall hs

theorem Standing.step_stopHook (h : Standing l) (hhook : l.stopHook = false)
    (config : ManagedApplicationConfig) (pid : Option UInt32) :
    Lifecycle.step config l (.hook { point := .stopPre, pid }) =
      some { l with stopHook := true } :=
  if_pos ⟨h.phase, hhook⟩

theorem wp_fireStopHook (hl : Standing l) (hs : Tracks l s) (hstop : s.stopRequested = true)
    {R : Halt → Sup → Prop} :
    fireStopHook.wp
      (fun _ s' => Tracks { l with stopHook := true } s' ∧ s'.stopRequested = true) R s := by
  unfold fireStopHook onlyIf
  rw [Prog.wp_bind, Prog.wp_get, Prog.wp_ite]
  split
  · rename_i hfired
    have hhook : l.stopHook = false := by
      rw [hs.stopHook]
      simpa using hfired
    have hfalse : s.stopHookFired = false := by simpa using hfired
    have hback := ((yielding_withHook (yielding_tracks l) false).steady.and
      (steady_frame fun frame => frame.stopHookFired = true)).and lasting_stop.toSteady
    have hafter := (governed_tracks { l with stopHook := true }).toSteady.and lasting_stop.toSteady
    rw [Prog.wp_bind, Prog.wp_modify, Prog.wp_bind]
    refine (keeps_currentPid hback).returns ⟨⟨?_, rfl⟩, hstop⟩ fun pid s₁ hs₁ => ?_
    · rw [← hfalse]
      exact hs
    · refine wp_shutdownHook hback hafter _ rfl (fun s hs => ⟨?_, hs.2⟩) hs₁
      obtain ⟨⟨hs, hfired⟩, -⟩ := hs
      exact Follows.append hs (hl.step_stopHook hhook s.config pid) hs.unexited hs.reported
        hfired.symm hs.stopped
  · rename_i hfired
    have hhook : l.stopHook = true := by
      rw [hs.stopHook]
      simpa using hfired
    have hsame : { l with stopHook := true } = l := by
      rw [← hhook]
    rw [hsame]
    exact ⟨hs, hstop⟩

theorem wp_recordStopped (hl : Standing l) (hhook : l.stopHook = true) (hs : Tracks l s)
    {R : Halt → Sup → Prop} :
    recordStopped.wp (fun _ s' => Tracks { l with phase := .stopped } s') R s := by
  have hstep : Lifecycle.step s.config l .stopped = some { l with phase := .stopped } :=
    if_pos ⟨hl.phase, hhook, hl.exitHook⟩
  have hunrecorded : ¬s.stoppedRecorded = true := fun h => hl.phase (hs.stopped.mp h)
  unfold recordStopped onlyIf
  rw [Prog.wp_bind, Prog.wp_get, Prog.wp_ite, if_pos (by simpa using hunrecorded)]
  exact Follows.append hs hstep hs.unexited hs.reported hs.stopHook (by simp)

/-- The shutdown or the cleanup at the end has reported this error. -/
def EndNoted (error : SupervisorError) (s : Sup) : Prop :=
  .trouble .shutdown error ∈ s.trace ∨ .trouble .cleanup error ∈ s.trace

/-- The error of a step is in the trace. -/
def Noted {α : Type} (source : Source) (result : Except SupervisorError α) (s : Sup) : Prop :=
  ∀ error, result = .error error → .trouble source error ∈ s.trace

theorem throughout_noted {α : Type} (source : Source) (result : Except SupervisorError α) :
    Throughout (Noted source result) := by
  apply throughout_trace
    (P := fun trace => ∀ error, result = .error error → .trouble source error ∈ trace)
  intro trace event h error he
  exact List.mem_append_left _ (h error he)

theorem wp_settle_graceful (hs : Tracks l s) (hstop : s.stopRequested = true)
    {R : Halt → Sup → Prop} :
    (settle (noting .shutdown stopChildGracefully)).wp
      (fun result s' => Tracks l s' ∧ Noted .shutdown result s') R s := by
  have hgoverned := governed_tracks l
  have hkeeps : (settle (noting .shutdown stopChildGracefully)).wp
      (fun _ s' => Tracks l s' ∧ s'.stopRequested = true) (fun _ _ => False) s := by
    refine wp_settle (wp_noting (keeps_stopChildGracefully hgoverned.toSteady
      (fun _ _ _ h => h) s ⟨hs, hstop⟩) fun s' error hs' => ?_) fun _ _ hs' => hs'
    exact ⟨hgoverned.trouble s' _ error hs'.1, hs'.2⟩
  exact Prog.wp_mono _ (fun _ _ h => ⟨h.1.1, h.2⟩) (fun _ _ h => h.1.elim)
    (Prog.wp_and _ hkeeps (wp_settle_noted .shutdown stopChildGracefully))

theorem wp_settle_cleanup (hl : Standing l) (hs : Tracks l s) {R : Halt → Sup → Prop} :
    (settle cleanupGeneration).wp
      (fun result s' => (∃ l', Tracks l' s' ∧ Standing l' ∧ l'.stopHook = l.stopHook ∧
          (result = .ok () → Closing none l l' ∧ s'.generation = none)) ∧
        (∀ error, result = .error error → Troubled s') ∧ Noted .cleanup result s') R s := by
  have hcleanup : (settle cleanupGeneration).wp
      (fun result s' => (∃ l', Tracks l' s' ∧ Standing l' ∧ l'.stopHook = l.stopHook ∧
          (result = .ok () → Closing none l l' ∧ s'.generation = none)) ∧
        ∀ error, result = .error error → Troubled s') (fun _ _ => False) s := by
    refine wp_settle (D := fun s' => Cleaned none l s' ∧ Troubled s') ?_ ?_
    · refine Prog.wp_mono _ (fun _ s' hs' => ?_) (fun _ _ h => h)
        (wp_cleanupGeneration hl hs nofun)
      obtain ⟨l', hs', hclosing, hnone⟩ := hs'
      exact ⟨⟨l', hs', hclosing.standing hl, hclosing.stopHook, fun _ => ⟨hclosing, hnone⟩⟩, nofun⟩
    · rintro s' error ⟨⟨l', hs', hl'⟩, htrouble⟩
      rcases hl' with rfl | hclosing
      · exact ⟨⟨l', hs', hl, rfl, nofun⟩, fun _ _ => htrouble⟩
      · exact ⟨⟨l', hs', hclosing.standing hl, hclosing.stopHook, nofun⟩, fun _ _ => htrouble⟩
  exact Prog.wp_mono _ (fun _ _ h => ⟨h.1.1, h.1.2, h.2⟩) (fun _ _ h => h.1.elim) (Prog.wp_and _ hcleanup (wp_settle_noted .cleanup _))

/-- The stop at the end of a run: hook and record are written, and what goes wrong
is reported. -/
theorem wp_finishStop (hl : Standing l) (hs : Tracks l s) (hstop : s.stopRequested = true) :
    finishStop.wp
      (fun reason s' => reason = .stopped ∧
        ∃ l', Tracks l' s' ∧ l'.phase = .stopped ∧ l'.exitHook = false ∧ l'.unexited = false)
      (fun e s' => ∃ error, e = .failed error ∧ EndNoted error s' ∧
        ∃ l', Tracks l' s' ∧ l'.phase = .stopped ∧ l'.exitHook = false) s := by
  have hstart := (governed_tracks l).toSteady.and lasting_stop.toSteady
  have hl₁ : Standing { l with stopHook := true } := ⟨hl.exitHook, hl.phase⟩
  unfold finishStop
  rw [Prog.wp_bind]
  refine (keeps_now hstart).returns ⟨hs, hstop⟩ fun time s₁ hs₁ => ?_
  rw [Prog.wp_bind]
  refine (keeps_onPlant hstart _ (by exact fun _ => le_rfl)).returns hs₁ fun _ s₂ hs₂ => ?_
  rw [Prog.wp_bind]
  refine Prog.wp_mono _ (fun _ s₃ hs₃ => ?_) (fun _ _ h => h) (wp_fireStopHook hl hs₂.1 hs₂.2)
  rw [Prog.wp_bind]
  refine Prog.wp_mono _ (fun graceful s₄ hs₄ => ?_) (fun _ _ h => h)
    (wp_settle_graceful hs₃.1 hs₃.2)
  obtain ⟨hs₄, hgraceful⟩ := hs₄
  have hnoted := (throughout_noted .shutdown graceful).toLasting
  rw [Prog.wp_bind]
  refine Prog.wp_mono _ (fun cleanup s₅ hs₅ => ?_) (fun _ _ h => h.1)
    (Prog.wp_and _ (wp_settle_cleanup hl₁ hs₄)
      (keeps_settle (E := fun _ => True) hnoted.keeps_cleanupGeneration s₄ hgraceful))
  obtain ⟨⟨⟨l', hs₅, hl', hhook, hclosed⟩, -, hcleanup⟩, hgraceful⟩ := hs₅
  rw [Prog.wp_bind]
  have hcleanupNoted := (throughout_noted .cleanup cleanup).toLasting
  refine Prog.wp_mono _ (fun _ s₆ hs₆ => ?_) (fun _ _ h => h.1)
    (Prog.wp_and _ (wp_recordStopped hl' hhook hs₅)
      ((hnoted.and hcleanupNoted).keeps_recordStopped (E := fun _ => True) s₅ ⟨hgraceful, hcleanup⟩))
  obtain ⟨hs₆, hgraceful, hcleanup⟩ := hs₆
  cases graceful with
  | error error => exact ⟨error, rfl, .inl (hgraceful error rfl), _, hs₆, rfl, hl'.exitHook⟩
  | ok _ =>
      cases cleanup with
      | error error => exact ⟨error, rfl, .inr (hcleanup error rfl), _, hs₆, rfl, hl'.exitHook⟩
      | ok _ => exact ⟨rfl, _, hs₆, rfl, hl'.exitHook, (hclosed rfl).1.unexited⟩

end Ngsm.Supervisor
