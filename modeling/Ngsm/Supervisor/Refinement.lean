/-
# Every run is the life of a service

`Tracks l s` relates the supervisor to the machine of `Lifecycle`: the trace so far
leads to `l`, and the bookkeeping fields agree with it.  Code that writes no record
keeps this for the same `l`; each of the few functions that do write takes one or two
steps of the machine, and says which.
-/

import Ngsm.Supervisor.Lasting
import Ngsm.Supervisor.Lifecycle

namespace Ngsm.Supervisor

open Ngsm.Core Ngsm.Lib Ngsm.Lib.Prog

/-! ## The relation -/

/-- The generation's exit is still to be recorded. -/
def unrecorded (generation : Option Generation) : Bool :=
  generation.any fun generation => !generation.recorded

structure Follows (config : ManagedApplicationConfig) (trace : List Event)
    (generation : Option Generation) (startupReported stopHookFired stoppedRecorded : Bool)
    (l : Lifecycle) : Prop where
  accepted : Lifecycle.after config trace = some l
  unexited : l.unexited = unrecorded generation
  reported : l.reported = startupReported
  stopHook : l.stopHook = stopHookFired
  stopped : stoppedRecorded = true ↔ l.phase = .stopped

def Tracks (l : Lifecycle) (s : Sup) : Prop :=
  Follows s.config s.trace s.generation s.startupReported s.stopHookFired s.stoppedRecorded l

section Relation

variable {config : ManagedApplicationConfig} {trace : List Event} {generation : Option Generation}
  {startupReported stopHookFired stoppedRecorded : Bool} {l l' : Lifecycle} {event : Event}

/-- The trace goes on by one step of the machine. -/
theorem Follows.append {generation' : Option Generation}
    {startupReported' stopHookFired' stoppedRecorded' : Bool}
    (h : Follows config trace generation startupReported stopHookFired stoppedRecorded l)
    (hstep : Lifecycle.step config l event = some l')
    (hunexited : l'.unexited = unrecorded generation') (hreported : l'.reported = startupReported')
    (hhook : l'.stopHook = stopHookFired')
    (hstopped : stoppedRecorded' = true ↔ l'.phase = .stopped) :
    Follows config (trace ++ [event]) generation' startupReported' stopHookFired' stoppedRecorded'
      l' where
  accepted := Lifecycle.after_append_eq_some.mpr ⟨l, h.accepted, hstep⟩
  unexited := hunexited
  reported := hreported
  stopHook := hhook
  stopped := hstopped

theorem Follows.append_silent
    (h : Follows config trace generation startupReported stopHookFired stoppedRecorded l)
    (hevent : event.silent = true) :
    Follows config (trace ++ [event]) generation startupReported stopHookFired stoppedRecorded l :=
  h.append (Lifecycle.step_silent hevent) h.unexited h.reported h.stopHook h.stopped

theorem Follows.regenerate {generation' : Option Generation}
    (h : Follows config trace generation startupReported stopHookFired stoppedRecorded l)
    (hsame : unrecorded generation' = unrecorded generation) :
    Follows config trace generation' startupReported stopHookFired stoppedRecorded l :=
  ⟨h.accepted, h.unexited.trans hsame.symm, h.reported, h.stopHook, h.stopped⟩

end Relation

theorem unrecorded_map (generation : Option Generation) {f : Generation → Generation}
    (hf : ∀ generation, (f generation).recorded = generation.recorded) :
    unrecorded (generation.map f) = unrecorded generation := by
  cases generation with
  | none => rfl
  | some generation => simp [unrecorded, hf]

theorem unrecorded_publishExit (s : Sup) (code : Int32) (error : Option String) :
    unrecorded (s.publishExit code error).generation = unrecorded s.generation := by
  refine unrecorded_map s.generation fun generation => ?_
  split <;> rfl

theorem yielding_tracks (l : Lifecycle) : Yielding (Tracks l) where
  turn _ h := h
  plant _ _ _ h := h
  stop s h := by
    unfold Sup.setStop
    split
    · exact h
    · exact Follows.append_silent h rfl
  send _ _ _ h := h
  request s pause h := by
    unfold Sup.request
    split
    · exact Follows.append_silent h rfl
    · exact h
  cancel _ _ h := h
  exit s code error h := Follows.regenerate h (unrecorded_publishExit s code error)
  terminal _ _ h := h
  hook s call hcall h := Follows.append_silent h (by simp [Event.silent, hcall])

theorem governed_tracks (l : Lifecycle) : Governed (Tracks l) where
  toSteady := (yielding_tracks l).steady
  phase _ _ _ h := h
  kept _ _ _ h := h
  applied _ _ h := Follows.append_silent h rfl
  trouble _ _ _ h := Follows.append_silent h rfl

theorem settling_tracks (l : Lifecycle) : Settling (Tracks l) where
  toGoverned := governed_tracks l
  queue _ _ h := h
  draining _ _ h := h
  drained _ _ h := Follows.append_silent h rfl
  receiving _ _ h := h

/-! ## Errors leave a note -/

/-- The errors that end the loop over the generations: those of a pause, a rotation,
a reader or a cleanup. -/
def Source.ends : Source → Bool
  | .pause | .rotation | .reader | .cleanup => true
  | .control | .shutdown => false

def Event.Troubling (event : Event) : Prop :=
  ∃ source error, event = .trouble source error ∧ source.ends = true

def Troubled (s : Sup) : Prop :=
  ∃ event ∈ s.trace, event.Troubling

theorem Troubled.emit (s : Sup) {source : Source} (hsource : source.ends = true)
    (error : SupervisorError) : Troubled (s.emit (.trouble source error)) :=
  ⟨_, List.mem_append_right _ (List.mem_singleton_self _), source, error, rfl, hsource⟩

/-- From the final drain on, the trace grows by other events than a check. -/
theorem settling_trace {P : List Event → Prop}
    (happend : ∀ trace event, event ≠ .check → P trace → P (trace ++ [event])) :
    Settling fun s => P s.trace where
  toSteady := Yielding.steady {
    turn _ h := h
    plant _ _ _ h := h
    stop s h := by
      unfold Sup.setStop
      split
      · exact h
      · exact happend _ _ nofun h
    send _ _ _ h := h
    request s pause h := by
      unfold Sup.request
      split
      · exact happend _ _ nofun h
      · exact h
    cancel _ _ h := h
    exit _ _ _ h := h
    terminal _ _ h := h
    hook _ _ _ h := happend _ _ nofun h }
  phase _ _ _ h := h
  kept _ _ _ h := h
  applied _ _ h := happend _ _ nofun h
  trouble _ _ _ h := happend _ _ nofun h
  queue _ _ h := h
  draining _ _ h := h
  drained _ _ h := happend _ _ nofun h
  receiving _ _ h := h

/-- The trace only grows. -/
theorem throughout_trace {P : List Event → Prop}
    (happend : ∀ trace event, P trace → P (trace ++ [event])) : Throughout fun s => P s.trace where
  toSettling := settling_trace fun trace event _ h => happend trace event h
  own _ _ _ _ _ _ h := h
  record _ _ _ h := happend _ _ h
  released _ _ _ h := h

theorem serves_tracks (l : Lifecycle) : Serves (Tracks l) fun s => Tracks l s ∧ Troubled s := by
  intro s message rest hs _
  have hgoverned := governed_tracks l
  have htaken := hgoverned.taken (s := { s with queue := rest }) hs
  rw [wp_handleControl]
  by_cases hsource : message.source = .control
  · refine wp_noting (D := fun _ => False) ?_ fun _ _ h => h.elim
    exact (keeps_dispatch_control (E := fun _ => False) hgoverned hsource).wp htaken
      (fun _ _ hs' => hs') fun _ _ he _ => he.elim
  · refine wp_noting (keeps_dispatch hgoverned message _ htaken) fun s' error hs' => ?_
    refine ⟨hgoverned.trouble s' _ error hs', Troubled.emit s' ?_ error⟩
    cases message <;> first | rfl | exact absurd rfl hsource

/-! ## Starting -/

/-- A generation that is up, reported or not. -/
def Up (l l' : Lifecycle) : Prop :=
  l' = l.begin ∨ l' = { l.begin with reported := true }

/-- The values that the start record depends on are the machine's. -/
structure Starting (first : Bool) (lastDelay : Nat) (l : Lifecycle) : Prop where
  phase : l.phase = .starting
  unexited : l.unexited = false
  first : l.first = first
  lastDelay : l.lastDelay = lastDelay

section Start

variable {s : Sup} {l : Lifecycle} {first : Bool} {lastDelay : Nat}

theorem Starting.step (h : Starting first lastDelay l) (config : ManagedApplicationConfig)
    (pid : UInt32) :
    Lifecycle.step config l (if first then .started pid else .restarted pid lastDelay) =
      some l.begin := by
  cases hfirst : first with
  | true => simp [Lifecycle.step, h.phase, h.unexited, h.first, hfirst]
  | false => simp [Lifecycle.step, h.phase, h.unexited, h.first, h.lastDelay, hfirst]

theorem wp_recordStart (h : Starting first lastDelay l) (pid : UInt32) (started : Nat)
    (hs : Tracks l s) :
    (recordStart first lastDelay pid started).wp (fun _ => Tracks l.begin)
      (fun e s' => Failed e ∧ Tracks l.begin s') s := by
  unfold recordStart
  rw [Prog.wp_bind]
  refine (keeps_turn (governed_tracks l).toSteady).returns hs fun watcher s₁ hs₁ => ?_
  rw [Prog.wp_bind, Prog.wp_modify]
  have hstopped : s₁.stoppedRecorded = true ↔ l.begin.phase = .stopped := by
    rw [hs₁.stopped, h.phase]
    simp [Lifecycle.begin]
  have hbegun : Tracks l.begin { s₁ with
      generation := some
        { id := s₁.nextGeneration, pid, started, watched := watcher.fault.isNone }
      trace := s₁.trace ++ [if first then .started pid else .restarted pid lastDelay] } :=
    Follows.append hs₁ (h.step s₁.config pid) rfl hs₁.reported hs₁.stopHook hstopped
  revert hbegun
  cases watcher.fault with
  | some message => exact fun hbegun => ⟨failed_failed _, hbegun⟩
  | none => exact fun hbegun => Follows.regenerate hbegun rfl

theorem wp_confirmStartup {status : StartupStatus} {l' : Lifecycle} (hs : Tracks l s)
    (hstep : l.reported = false →
      Lifecycle.step s.config l (.startup status s.plant.childUp) =
        some { l with reported := true })
    {Q : Unit → Sup → Prop} {R : Halt → Sup → Prop} (hl' : l' = { l with reported := true })
    (hsame : ∀ s', Tracks l s' → Q () s') (hreported : ∀ s', Tracks l' s' → Q () s') :
    (confirmStartup status).wp Q R s := by
  unfold confirmStartup
  rw [Prog.wp_bind, Prog.wp_get, Prog.wp_bind]
  have hsteady := (governed_tracks l).toSteady.and
    (steady_frame fun frame => frame.config = s.config)
  obtain ⟨hs₁, hconfig⟩ := hsteady.next ⟨hs, rfl⟩
  rw [wp_stopping_eq]
  generalize hs₁' : s.next.2 = s₁ at hs₁ hconfig
  have hup : s₁.plant.childUp = s.plant.childUp := by rw [← hs₁', Sup.next_childUp]
  unfold onlyIf
  rw [Prog.wp_ite]
  split
  · rename_i hconfirm
    subst hl'
    refine hreported _ (Follows.append hs₁ ?_ hs₁.unexited rfl hs₁.stopHook hs₁.stopped)
    have hunreported : l.reported = false := by
      simp only [Bool.and_eq_true, Bool.not_eq_true'] at hconfirm
      rw [hs.reported]
      exact hconfirm.1
    change Lifecycle.step s₁.frame.config l (.startup status s₁.plant.childUp) = _
    rw [hconfig, hup]
    exact hstep hunreported
  · exact hsame s₁ hs₁

theorem Lifecycle.step_running (config : ManagedApplicationConfig)
    (hreported : l.begin.reported = false) :
    Lifecycle.step config l.begin (.startup .running true) =
      some { l.begin with reported := true } :=
  if_pos ⟨rfl, hreported, rfl⟩

/-- A look at the child, which is noted. -/
theorem wp_alive {I : Sup → Prop} (h : Steady I) (hs : I s) {Q : Bool → Sup → Prop}
    {R : Halt → Sup → Prop} (hok : ∀ s', I s' → Q s'.plant.childUp s') : alive.wp Q R s := by
  unfold alive
  rw [Prog.wp_bind]
  refine (keeps_turn h).returns hs fun answer s₁ hs₁ => ?_
  rw [Prog.wp_bind, Prog.wp_get]
  have hlooked : ∀ up, I { s₁ with plant := { s₁.plant with childUp := up } } := fun _ =>
    h.plant s₁ _ (le_refl s₁.plant.progress) hs₁
  exact hok _ (hlooked _)

theorem wp_beginGeneration (h : Starting first lastDelay l) (pid : UInt32) (started : Nat)
    (hs : Tracks l s) :
    (beginGeneration first lastDelay pid started).wp
      (fun _ s' => ∃ l', Tracks l' s' ∧ Up l l')
      (fun e s' => Failed e ∧ ∃ l', Tracks l' s' ∧ Up l l') s := by
  have hsteady := (governed_tracks l.begin).toSteady
  have hup : ∀ s', Tracks l.begin s' → ∃ l', Tracks l' s' ∧ Up l l' :=
    fun s' hs' => ⟨l.begin, hs', .inl rfl⟩
  unfold beginGeneration
  rw [Prog.wp_bind]
  refine Prog.wp_mono _ (fun _ s₁ hs₁ => ?_) (fun _ s' he => ⟨he.1, hup s' he.2⟩)
    (wp_recordStart h pid started hs)
  rw [Prog.wp_bind]
  refine (keeps_stopping hsteady).returns hs₁ fun stop s₂ hs₂ => ?_
  rw [Prog.wp_ite]
  split
  · exact hup s₂ hs₂
  rw [Prog.wp_bind]
  refine (keeps_fireHook hsteady _ rfl).returns hs₂ fun _ s₃ hs₃ => ?_
  rw [Prog.wp_bind]
  refine (keeps_stopping hsteady).returns hs₃ fun stop s₄ hs₄ => ?_
  rw [Prog.wp_ite]
  split
  · exact hup s₄ hs₄
  rw [Prog.wp_bind]
  refine wp_alive hsteady hs₄ fun s₅ hs₅ => ?_
  rw [Prog.wp_bind]
  unfold onlyIf
  rw [Prog.wp_ite]
  split
  · rename_i halive
    refine wp_confirmStartup hs₅ (fun hreported => ?_) rfl (fun s' hs' => hup s' hs')
      fun s' hs' => ⟨_, hs', .inr rfl⟩
    rw [halive]
    exact Lifecycle.step_running s₅.config hreported
  · exact hup s₅ hs₅

/-- A start leaves the machine where it was or brings a generation up. -/
theorem wp_startGeneration (h : Starting first lastDelay l) (hs : Tracks l s) :
    (startGeneration first lastDelay).wp
      (fun up s' => ∃ l', Tracks l' s' ∧ (Up l l' ∨ (up = false ∧ l' = l)))
      (fun e s' => Failed e ∧ ∃ l', Tracks l' s' ∧ (Up l l' ∨ l' = l)) s := by
  have hsteady := (governed_tracks l).toSteady
  unfold startGeneration
  rw [Prog.wp_bind]
  refine (keeps_prepareGeneration hsteady).wp hs (fun go s₁ hs₁ => ?_)
    fun _ s' he hs' => ⟨he, l, hs', .inr rfl⟩
  rw [Prog.wp_ite]
  split
  · rw [Prog.wp_bind]
    refine (keeps_launchChild hsteady fun s hs => ?_).wp hs₁ (fun child s₂ hs₂ => ?_)
      fun _ s' he hs' => ⟨he, l, hs', .inr rfl⟩
    · exact Follows.append_silent hs rfl
    · cases child with
      | none => exact ⟨l, hs₂, .inr ⟨rfl, rfl⟩⟩
      | some child =>
          refine Prog.wp_mono _ (fun _ s' hs' => ?_) (fun _ s' he => ⟨he.1, ?_⟩)
            (wp_beginGeneration h child.1 child.2 hs₂)
          · exact hs'.imp fun _ h => ⟨h.1, .inl h.2⟩
          · exact he.2.imp fun _ h => ⟨h.1, .inl h.2⟩
  · exact ⟨l, hs₁, .inr ⟨rfl, rfl⟩⟩

end Start

/-! ## A start that is called off has seen a stop -/

section CalledOff

variable {α β : Type} {s : Sup}

/-- Code that gives up without an error has seen the stop flag. -/
def SeenStop (go : Bool) (s : Sup) : Prop :=
  go = false → s.stopRequested = true

theorem wp_skip {m : SupM α} {f : α → SupM β} {Q : β → Sup → Prop}
    (hf : ∀ a s, (f a).wp Q (fun _ _ => True) s) : (m >>= f).wp Q (fun _ _ => True) s := by
  rw [Prog.wp_bind]
  exact Prog.wp_of_forall _ hf fun _ _ => trivial

theorem wp_unlessStopping {m m' : SupM α} {Q : α → Sup → Prop}
    (hstop : ∀ s : Sup, s.stopRequested = true → m'.wp Q (fun _ _ => True) s)
    (hm : ∀ s, m.wp Q (fun _ _ => True) s) :
    (stopping >>= fun stop => if stop then m' else m).wp Q (fun _ _ => True) s := by
  rw [Prog.wp_bind]
  refine wp_stopping (steady_pause fun _ => True) trivial (Nat.zero_le s.turns) fun s' _ _ => ?_
  rw [Prog.wp_ite]
  split
  · rename_i hflag
    exact hstop s' hflag
  · exact hm s'

theorem wp_prepareGeneration_stop : prepareGeneration.wp SeenStop (fun _ _ => True) s := by
  have hreturn : ∀ s : Sup, s.stopRequested = true →
      (pure false : SupM Bool).wp SeenStop (fun _ _ => True) s :=
    fun _ hstop _ => hstop
  refine wp_unlessStopping hreturn fun _ => wp_skip fun _ _ => wp_skip fun _ _ => ?_
  refine wp_unlessStopping hreturn fun _ => wp_skip fun _ _ => wp_skip fun _ _ => ?_
  refine wp_skip fun _ _ => wp_skip fun _ _ => wp_skip fun _ _ => ?_
  refine wp_unlessStopping hreturn fun _ => wp_skip fun _ s => ?_
  rw [Prog.wp_bind]
  refine wp_stopping (steady_pause fun _ => True) trivial (Nat.zero_le s.turns) fun s' _ _ => ?_
  intro hgo
  simpa using hgo

theorem wp_launchChild_stop :
    launchChild.wp (fun child => SeenStop child.isSome) (fun _ _ => True) s := by
  refine wp_skip fun _ _ => wp_skip fun _ _ => wp_skip fun _ _ => wp_skip fun contained s => ?_
  cases contained.fault with
  | some message => exact wp_skip fun _ _ => trivial
  | none =>
      refine wp_unlessStopping (fun s hstop => ?_) fun _ => wp_skip fun _ _ => wp_skip fun resumed s => ?_
      · refine (keeps_killOwnedChild (E := fun _ => True) lasting_stop.toSteady).wp hstop
          (fun _ _ hstop _ => hstop) fun _ _ _ _ => trivial
      · cases resumed.fault with
        | some message => exact wp_skip fun _ _ => trivial
        | none =>
            simp only
            rw [Prog.wp_ite]
            split
            · exact nofun
            · exact wp_skip fun _ _ => trivial

theorem wp_beginGeneration_stop (first : Bool) (lastDelay : Nat) (pid : UInt32) (started : Nat) :
    (beginGeneration first lastDelay pid started).wp SeenStop (fun _ _ => True) s := by
  refine wp_skip fun _ _ => wp_unlessStopping (fun _ hstop _ => hstop) fun _ => ?_
  refine wp_skip fun _ _ => wp_unlessStopping (fun _ hstop _ => hstop) fun _ => ?_
  exact wp_skip fun _ _ => wp_skip fun _ _ => nofun

theorem wp_startGeneration_stop (first : Bool) (lastDelay : Nat) :
    (startGeneration first lastDelay).wp SeenStop (fun _ _ => True) s := by
  unfold startGeneration
  rw [Prog.wp_bind]
  refine Prog.wp_mono _ (fun go s₁ hs₁ => ?_) (fun _ _ h => h) wp_prepareGeneration_stop
  cases go with
  | false => exact hs₁
  | true =>
      simp only [if_true]
      rw [Prog.wp_bind]
      refine Prog.wp_mono _ (fun child s₂ hs₂ => ?_) (fun _ _ h => h) wp_launchChild_stop
      cases child with
      | none => exact hs₂
      | some child => exact wp_beginGeneration_stop first lastDelay _ _

end CalledOff

end Ngsm.Supervisor
