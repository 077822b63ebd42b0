/-
# Suspending and resuming the members of a job

`PauseState` carries out a pause or a continue on whatever processes the job has.
Membership moves while this goes on, so a pause takes pass after pass until one
finds nobody new, and a continue that fails part of the way suspends again what it
had resumed.  The processes, the clock and the cancellation are behind an interface;
the same code is run below against a ledger of suspend counts, against a job whose
members spawn and exit, and inside the supervisor.
-/

import Ngsm.Lib.Keeps
import Ngsm.Supervisor.Transition

namespace Ngsm.Supervisor

open Ngsm.Lib

/-- What the code asks of the outside world: the members of the job, the controls
of one member, the cancellation and the clock. -/
structure Control (σ : Type) where
  members : Prog σ String (List Nat)
  running : Nat → Prog σ String Bool
  suspend : Nat → Prog σ String Bool
  resume : Nat → Prog σ String Bool
  cancelled : σ → Bool × σ
  now : σ → Nat × σ

def transitionBudget : Nat :=
  3000

def maxMemberPasses : Nat :=
  16

structure PauseState where
  paused : Bool := false
  owned : List Nat := []
deriving DecidableEq, Repr

/-- The world, the state, and the members this call has changed so far. -/
structure Pausing (σ : Type) where
  world : σ
  state : PauseState
  changed : List Nat := []

abbrev PauseM (σ : Type) : Type → Type :=
  Prog (Pausing σ) String

variable {σ : Type} (C : Control σ)

namespace PauseState

/-- An operation on the world. -/
def onWorld {α : Type} (m : Prog σ String α) : PauseM σ α :=
  Prog.focus (·.world) (fun world p => { p with world }) m

def cancelled : PauseM σ Bool :=
  Prog.step fun p =>
    let (answer, world) := C.cancelled p.world
    (.ok answer, { p with world })

def now : PauseM σ Nat :=
  Prog.step fun p =>
    let (time, world) := C.now p.world
    (.ok time, { p with world })

def checkCancelled : PauseM σ Unit := do
  if ← cancelled C then
    throw "control cancelled"

def checkTime (deadline : Nat) (message : String) : PauseM σ Unit := do
  if deadline ≤ (← now C) then
    throw message

/-! ## Pausing -/

/-- Suspend one member of a snapshot, unless this call already has. -/
def suspendNew (deadline : Nat) (added : Bool) (process : Nat) : PauseM σ Bool := do
  checkCancelled C
  checkTime C deadline "process membership exceeded the transition deadline"
  if (← get).changed.contains process then
    return added
  if ← onWorld (C.suspend process) then
    modify fun p => { p with changed := p.changed ++ [process] }
    return true
  return added

/-- Pass after pass, until one adds nobody. -/
def suspendPasses (deadline : Nat) : Nat → PauseM σ Unit
  | 0 => throw "process membership exceeded the bounded stable-member passes"
  | passes + 1 => do
      checkCancelled C
      checkTime C deadline "process membership did not stabilize before the deadline"
      let snapshot ← onWorld C.members
      checkTime C deadline "process membership exceeded the transition deadline"
      let added ← snapshot.foldlM (suspendNew C deadline) false
      if added then
        suspendPasses deadline passes
      else
        checkCancelled C

/-- Undo the changes, the last one first, and collect what goes wrong. -/
def rollbackLoop (suspend : Bool) (deadline : Nat) :
    List Nat → List String → PauseM σ (List String)
  | [], errors => pure errors
  | process :: rest, errors => do
      if deadline ≤ (← now C) then
        return errors ++ ["suspension rollback exceeded its deadline"]
      match ← (onWorld (C.running process)).attempt with
      | .ok false => rollbackLoop suspend deadline rest errors
      | _ =>
          let control := if suspend then C.suspend process else C.resume process
          match ← (onWorld control).attempt with
          | .error error => rollbackLoop suspend deadline rest (errors ++ [error])
          | .ok _ => rollbackLoop suspend deadline rest errors

def rollbackUntil (processes : List Nat) (suspend : Bool) (deadline : Nat) : PauseM σ Unit := do
  let errors ← rollbackLoop C suspend deadline processes.reverse []
  if !errors.isEmpty then
    throw (String.intercalate "; " errors)

def rollback (processes : List Nat) (suspend : Bool) : PauseM σ Unit := do
  let start ← now C
  rollbackUntil C processes suspend (start + transitionBudget)

def failure (error : String) (rollback : Except String Unit) (cancelled : Bool) :
    TransitionOutcome :=
  match rollback with
  | .error rollback => .degraded (error ++ "; rollback failed: " ++ rollback)
  | .ok () => if cancelled then .cancelled else .rejected error

def pauseMembers : PauseM σ TransitionOutcome := do
  modify fun p => { p with changed := [] }
  let start ← now C
  match ← (suspendPasses C (start + transitionBudget) maxMemberPasses).attempt with
  | .error error =>
      let undone ← (rollback C (← get).changed false).attempt
      return failure error undone (← cancelled C)
  | .ok () =>
      modify fun p => { p with state := { paused := true, owned := p.changed } }
      return .applied

/-! ## Continuing -/

/-- Resume one owned member. -/
def resumeMember (deadline : Nat) (process : Nat) : PauseM σ Unit := do
  checkCancelled C
  checkTime C deadline "resume exceeded the transition deadline"
  if ← onWorld (C.resume process) then
    modify fun p => { p with changed := p.changed ++ [process] }

def resumeMembers (deadline : Nat) : PauseM σ Unit := do
  (← get).state.owned.reverse.forM (resumeMember C deadline)
  checkCancelled C
  checkTime C deadline "resume exceeded the transition deadline"

/-- Suspend one member of a snapshot, unless it is owned. -/
def restoreMember (deadline : Nat) (added : Bool) (process : Nat) : PauseM σ Bool := do
  checkTime C deadline "paused membership recovery exceeded its deadline"
  if (← get).state.owned.contains process then
    return added
  if ← onWorld (C.suspend process) then
    modify fun p => { p with state := { p.state with owned := p.state.owned ++ [process] } }
    return true
  return added

/-- Pass after pass, until two in a row add nobody. -/
def restorePausedMembers (deadline : Nat) (stablePasses : Nat) : Nat → PauseM σ Unit
  | 0 => throw "paused membership did not stabilize within the bounded recovery passes"
  | passes + 1 => do
      checkTime C deadline "paused membership recovery exceeded its deadline"
      let snapshot ← onWorld C.members
      checkTime C deadline "paused membership recovery exceeded its deadline"
      let added ← snapshot.foldlM (restoreMember C deadline) false
      let stablePasses := if added then 0 else stablePasses + 1
      if stablePasses = 2 then
        pure ()
      else
        restorePausedMembers deadline stablePasses passes

/-- Cancellation cannot skip this: resumed processes may already have produced
children. -/
def restore : PauseM σ Unit := do
  let start ← now C
  rollbackUntil C (← get).changed true (start + transitionBudget)
  restorePausedMembers C (start + transitionBudget) 0 maxMemberPasses

def resumeOwned : PauseM σ TransitionOutcome := do
  modify fun p => { p with changed := [] }
  let start ← now C
  match ← (resumeMembers C (start + transitionBudget)).attempt with
  | .error error =>
      let restored ← (restore C).attempt
      return failure error restored (← cancelled C)
  | .ok () =>
      modify fun p => { p with state := { paused := false, owned := [] } }
      return .applied

/-! ## The two entry points -/

def change (pause : Bool) : PauseM σ TransitionOutcome := do
  if ← cancelled C then
    return .cancelled
  if (← get).state.paused = pause then
    return .applied
  if pause then pauseMembers C else resumeOwned C

/-- Intent survives a child exit; only the suspended members are forgotten. -/
def clearGeneration (state : PauseState) : PauseState :=
  { state with owned := [] }

/-! ## Rules

An assertion about the call survives the questions about the clock and the
cancellation; what it needs besides is said once for the control of a member and
once for a snapshot.  A pass works through the rest of its snapshot. -/

theorem wp_onWorld {α : Type} (m : Prog σ String α) {Q : α → Pausing σ → Prop}
    {R : String → Pausing σ → Prop} {p : Pausing σ} :
    (onWorld m).wp Q R p ↔
      m.wp (fun a world => Q a { p with world }) (fun e world => R e { p with world }) p.world :=
  Prog.wp_focus _ _ m

/-- An assertion that does not depend on when it is asked. -/
structure Stable (I : Pausing σ → Prop) : Prop where
  cancelled : ∀ p, I p → I { p with world := (C.cancelled p.world).2 }
  now : ∀ p, I p → I { p with world := (C.now p.world).2 }

variable {C} {I : Pausing σ → Prop} {p : Pausing σ}

theorem wp_cancelled (hstable : Stable C I) {R : String → Pausing σ → Prop} (h : I p) :
    (cancelled C).wp (fun _ => I) R p :=
  hstable.cancelled p h

theorem wp_now (hstable : Stable C I) {R : String → Pausing σ → Prop} (h : I p) :
    (now C).wp (fun _ => I) R p :=
  hstable.now p h

theorem wp_checkCancelled (hstable : Stable C I) (h : I p) :
    (checkCancelled C).wp (fun _ => I) (fun _ => I) p := by
  unfold checkCancelled
  rw [Prog.wp_bind]
  refine Prog.wp_mono _ (fun answer p' h' => ?_) (fun _ _ h' => h') (wp_cancelled hstable h)
  cases answer <;> exact h'

theorem wp_checkTime (hstable : Stable C I) (deadline : Nat) (message : String) (h : I p) :
    (checkTime C deadline message).wp (fun _ => I) (fun _ => I) p := by
  unfold checkTime
  rw [Prog.wp_bind]
  refine Prog.wp_mono _ (fun time p' h' => ?_) (fun _ _ h' => h') (wp_now hstable h)
  rw [Prog.wp_ite]
  split <;> exact h'

/-- The rule for the passes of a pause.  `K added rest` holds while `rest` is what is
left of the snapshot; the pass has added somebody or not.  The last pass has not. -/
theorem wp_suspendPasses {K : Bool → List Nat → Pausing σ → Prop} (hI : Stable C I)
    (hK : ∀ added rest, Stable C (K added rest)) (hweaken : ∀ added rest p, K added rest p → I p)
    (hmembers : ∀ p, I p → (onWorld C.members).wp (K false) (fun _ => I) p)
    (hskip : ∀ added process rest p, K added (process :: rest) p → process ∈ p.changed →
      K added rest p)
    (hsuspend : ∀ added process rest p, K added (process :: rest) p → process ∉ p.changed →
      (onWorld (C.suspend process)).wp
        (fun applied p' =>
          if applied then K true rest { p' with changed := p'.changed ++ [process] }
          else K added rest p')
        (fun _ => I) p)
    (deadline passes : Nat) (h : I p) :
    (suspendPasses C deadline passes).wp (fun _ => K false []) (fun _ => I) p := by
  have hround : ∀ rest added p, K added rest p →
      (rest.foldlM (suspendNew C deadline) added).wp (fun added => K added []) (fun _ => I)
        p := by
    intro rest
    induction rest with
    | nil => exact fun added p h => h
    | cons process rest ih =>
        intro added p h
        rw [List.foldlM_cons, Prog.wp_bind]
        refine Prog.wp_mono (Q := fun added => K added rest) _
          (fun added' p' h' => ih added' p' h') (fun _ _ h' => h') ?_
        unfold suspendNew
        rw [Prog.wp_bind]
        refine Prog.wp_mono _ (fun _ p₁ h₁ => ?_) (fun _ _ h' => hweaken _ _ _ h')
          (wp_checkCancelled (hK _ _) h)
        rw [Prog.wp_bind]
        refine Prog.wp_mono _ (fun _ p₂ h₂ => ?_) (fun _ _ h' => hweaken _ _ _ h')
          (wp_checkTime (hK _ _) deadline _ h₁)
        rw [Prog.wp_bind, Prog.wp_get, Prog.wp_ite]
        split
        · rename_i hin
          exact hskip added process rest p₂ h₂ (by simpa using hin)
        · rename_i hout
          rw [Prog.wp_bind]
          refine Prog.wp_mono _ (fun applied p₃ h₃ => ?_) (fun _ _ h' => h')
            (hsuspend added process rest p₂ h₂ (by simpa using hout))
          cases applied <;> exact h₃
  induction passes generalizing p with
  | zero => exact h
  | succ passes ih =>
      unfold suspendPasses
      rw [Prog.wp_bind]
      refine Prog.wp_mono _ (fun _ p₁ h₁ => ?_) (fun _ _ h' => h') (wp_checkCancelled hI h)
      rw [Prog.wp_bind]
      refine Prog.wp_mono _ (fun _ p₂ h₂ => ?_) (fun _ _ h' => h') (wp_checkTime hI deadline _ h₁)
      rw [Prog.wp_bind]
      refine Prog.wp_mono _ (fun snapshot p₃ h₃ => ?_) (fun _ _ h' => h') (hmembers p₂ h₂)
      rw [Prog.wp_bind]
      refine Prog.wp_mono _ (fun _ p₄ h₄ => ?_) (fun _ _ h' => hweaken _ _ _ h')
        (wp_checkTime (hK _ _) deadline _ h₃)
      rw [Prog.wp_bind]
      refine Prog.wp_mono _ (fun added p₅ h₅ => ?_) (fun _ _ h' => h') (hround snapshot false p₄ h₄)
      cases added with
      | true => exact ih (hweaken _ _ _ h₅)
      | false =>
          exact Prog.wp_mono _ (fun _ _ h' => h') (fun _ _ h' => hweaken _ _ _ h')
            (wp_checkCancelled (hK _ _) h₅)

/-- The rule for a rollback.  `K rest` holds while `rest` is still to be undone;
once something has gone wrong only `I` is known. -/
theorem wp_rollbackUntil {K : List Nat → Pausing σ → Prop} {suspend : Bool} (hI : Stable C I)
    (hK : ∀ rest, Stable C (K rest)) (hweaken : ∀ rest p, K rest p → I p)
    (hrunning : ∀ process rest p, K (process :: rest) p →
      (onWorld (C.running process)).wp
        (fun answer p' => if answer then K (process :: rest) p' else K rest p')
        (fun _ => K (process :: rest)) p)
    (hcontrol : ∀ process rest p, K (process :: rest) p →
      (onWorld (if suspend then C.suspend process else C.resume process)).wp
        (fun _ => K rest) (fun _ => I) p)
    (hanswer : ∀ process p, I p → (onWorld (C.running process)).wp (fun _ => I) (fun _ => I) p)
    (hdegraded : ∀ process p, I p →
      (onWorld (if suspend then C.suspend process else C.resume process)).wp
        (fun _ => I) (fun _ => I) p)
    (processes : List Nat) (deadline : Nat) (h : K processes.reverse p) :
    (rollbackUntil C processes suspend deadline).wp (fun _ => K []) (fun _ => I) p := by
  have hloop : ∀ rest errors p, (if errors = [] then K rest p else I p) →
      (rollbackLoop C suspend deadline rest errors).wp
        (fun errors p' => if errors = [] then K [] p' else I p') (fun _ _ => False) p := by
    intro rest
    induction rest with
    | nil => exact fun errors p h => h
    | cons process rest ih =>
        intro errors p h
        have hstable : Stable C fun p => if errors = [] then K (process :: rest) p else I p := by
          by_cases hnone : errors = []
          · simpa [hnone] using hK (process :: rest)
          · simpa [hnone] using hI
        have hgeneral : ∀ p, (if errors = [] then K (process :: rest) p else I p) → I p := by
          intro p h
          split at h
          · exact hweaken _ _ h
          · exact h
        unfold rollbackLoop
        rw [Prog.wp_bind]
        refine Prog.wp_mono _ (fun time p₁ h₁ => ?_) (fun _ _ h' => h') (wp_now hstable h)
        rw [Prog.wp_ite]
        split
        · simpa using hgeneral p₁ h₁
        have hgo : ∀ p, (if errors = [] then K (process :: rest) p else I p) →
            (do
              match ←
                (onWorld (if suspend then C.suspend process else C.resume process)).attempt with
              | .error error => rollbackLoop C suspend deadline rest (errors ++ [error])
              | .ok _ => rollbackLoop C suspend deadline rest errors : PauseM σ (List String)).wp
              (fun errors p' => if errors = [] then K [] p' else I p') (fun _ _ => False) p := by
          intro p h
          rw [Prog.wp_bind, Prog.wp_attempt]
          by_cases hnone : errors = []
          · rw [if_pos hnone] at h
            refine Prog.wp_mono _ (fun _ p' h' => ih errors p' ?_) (fun error p' h' => ih _ p' ?_)
              (hcontrol process rest p h)
            · simpa [hnone] using h'
            · simpa using h'
          · rw [if_neg hnone] at h
            refine Prog.wp_mono _ (fun _ p' h' => ih errors p' ?_) (fun error p' h' => ih _ p' ?_)
              (hdegraded process p h)
            · simpa [hnone] using h'
            · simpa using h'
        rw [Prog.wp_bind, Prog.wp_attempt]
        by_cases hnone : errors = []
        · rw [if_pos hnone] at h₁
          refine Prog.wp_mono _ (fun answer p₂ h₂ => ?_) (fun error p₂ h₂ => ?_)
            (hrunning process rest p₁ h₁)
          · cases answer with
            | true => exact hgo p₂ (by simpa [hnone] using h₂)
            | false => exact ih errors p₂ (by simpa [hnone] using h₂)
          · exact hgo p₂ (by simpa [hnone] using h₂)
        · rw [if_neg hnone] at h₁
          refine Prog.wp_mono _ (fun answer p₂ h₂ => ?_) (fun error p₂ h₂ => ?_)
            (hanswer process p₁ h₁)
          · cases answer with
            | true => exact hgo p₂ (by simpa [hnone] using h₂)
            | false => exact ih errors p₂ (by simpa [hnone] using h₂)
          · exact hgo p₂ (by simpa [hnone] using h₂)
  unfold rollbackUntil
  rw [Prog.wp_bind]
  refine Prog.wp_mono _ (fun errors p' h' => ?_) (fun _ _ h' => h'.elim)
    (hloop processes.reverse [] p (by simpa using h))
  cases errors with
  | nil => simpa using h'
  | cons error errors => simpa using h'

/-- The rule for resuming what is owned. -/
theorem wp_resumeMembers {K : List Nat → Pausing σ → Prop} (hK : ∀ rest, Stable C (K rest))
    (hweaken : ∀ rest p, K rest p → I p)
    (hresume : ∀ process rest p, K (process :: rest) p →
      (onWorld (C.resume process)).wp
        (fun applied p' => K rest
          (if applied then { p' with changed := p'.changed ++ [process] } else p'))
        (fun _ => I) p)
    (deadline : Nat) (h : K p.state.owned.reverse p) :
    (resumeMembers C deadline).wp (fun _ => K []) (fun _ => I) p := by
  have hround : ∀ rest p, K rest p →
      (rest.forM (resumeMember C deadline)).wp (fun _ => K []) (fun _ => I) p := by
    intro rest
    induction rest with
    | nil => exact fun p h => h
    | cons process rest ih =>
        intro p h
        change ((resumeMember C deadline process) >>= fun _ =>
          rest.forM (resumeMember C deadline)).wp _ _ p
        rw [Prog.wp_bind]
        refine Prog.wp_mono (Q := fun _ => K rest) _ (fun _ p' h' => ih p' h') (fun _ _ h' => h') ?_
        unfold resumeMember
        rw [Prog.wp_bind]
        refine Prog.wp_mono _ (fun _ p₁ h₁ => ?_) (fun _ _ h' => hweaken _ _ h')
          (wp_checkCancelled (hK _) h)
        rw [Prog.wp_bind]
        refine Prog.wp_mono _ (fun _ p₂ h₂ => ?_) (fun _ _ h' => hweaken _ _ h')
          (wp_checkTime (hK _) deadline _ h₁)
        rw [Prog.wp_bind]
        refine Prog.wp_mono _ (fun applied p₃ h₃ => ?_) (fun _ _ h' => h')
          (hresume process rest p₂ h₂)
        cases applied <;> exact h₃
  unfold resumeMembers
  rw [Prog.wp_bind, Prog.wp_get, Prog.wp_bind]
  refine Prog.wp_mono _ (fun _ p₁ h₁ => ?_) (fun _ _ h' => h') (hround _ p h)
  rw [Prog.wp_bind]
  refine Prog.wp_mono _ (fun _ p₂ h₂ => ?_) (fun _ _ h' => hweaken _ _ h')
    (wp_checkCancelled (hK _) h₁)
  exact Prog.wp_mono _ (fun _ _ h' => h') (fun _ _ h' => hweaken _ _ h')
    (wp_checkTime (hK _) deadline _ h₂)

/-- The rule for the passes of a recovery, of which the last has added nobody. -/
theorem wp_restorePausedMembers {K : Bool → List Nat → Pausing σ → Prop} (hI : Stable C I)
    (hK : ∀ added rest, Stable C (K added rest)) (hweaken : ∀ added rest p, K added rest p → I p)
    (hmembers : ∀ p, I p → (onWorld C.members).wp (K false) (fun _ => I) p)
    (hskip : ∀ added process rest p, K added (process :: rest) p → process ∈ p.state.owned →
      K added rest p)
    (hsuspend : ∀ added process rest p, K added (process :: rest) p → process ∉ p.state.owned →
      (onWorld (C.suspend process)).wp
        (fun applied p' =>
          if applied then
            K true rest { p' with state := { p'.state with owned := p'.state.owned ++ [process] } }
          else K added rest p')
        (fun _ => I) p)
    (deadline stablePasses passes : Nat) (h : I p) :
    (restorePausedMembers C deadline stablePasses passes).wp (fun _ => K false []) (fun _ => I)
      p := by
  have hround : ∀ rest added p, K added rest p →
      (rest.foldlM (restoreMember C deadline) added).wp (fun added => K added []) (fun _ => I)
        p := by
    intro rest
    induction rest with
    | nil => exact fun added p h => h
    | cons process rest ih =>
        intro added p h
        rw [List.foldlM_cons, Prog.wp_bind]
        refine Prog.wp_mono (Q := fun added => K added rest) _
          (fun added' p' h' => ih added' p' h') (fun _ _ h' => h') ?_
        unfold restoreMember
        rw [Prog.wp_bind]
        refine Prog.wp_mono _ (fun _ p₁ h₁ => ?_) (fun _ _ h' => hweaken _ _ _ h')
          (wp_checkTime (hK _ _) deadline _ h)
        rw [Prog.wp_bind, Prog.wp_get, Prog.wp_ite]
        split
        · rename_i hin
          exact hskip added process rest p₁ h₁ (by simpa using hin)
        · rename_i hout
          rw [Prog.wp_bind]
          refine Prog.wp_mono _ (fun applied p₂ h₂ => ?_) (fun _ _ h' => h')
            (hsuspend added process rest p₁ h₁ (by simpa using hout))
          cases applied <;> exact h₂
  induction passes generalizing p stablePasses with
  | zero => exact h
  | succ passes ih =>
      unfold restorePausedMembers
      rw [Prog.wp_bind]
      refine Prog.wp_mono _ (fun _ p₁ h₁ => ?_) (fun _ _ h' => h') (wp_checkTime hI deadline _ h)
      rw [Prog.wp_bind]
      refine Prog.wp_mono _ (fun snapshot p₂ h₂ => ?_) (fun _ _ h' => h') (hmembers p₁ h₁)
      rw [Prog.wp_bind]
      refine Prog.wp_mono _ (fun _ p₃ h₃ => ?_) (fun _ _ h' => hweaken _ _ _ h')
        (wp_checkTime (hK _ _) deadline _ h₂)
      rw [Prog.wp_bind]
      refine Prog.wp_mono _ (fun added p₄ h₄ => ?_) (fun _ _ h' => h') (hround snapshot false p₃ h₃)
      simp only
      by_cases hstable : (if added then 0 else stablePasses + 1) = 2
      · rw [if_pos hstable]
        cases added with
        | true => cases hstable
        | false => exact h₄
      · rw [if_neg hstable]
        exact ih _ (hweaken _ _ _ h₄)

/-- What a call that did not go through may answer. -/
def Undone (outcome : TransitionOutcome) : Prop :=
  outcome = .cancelled ∨ ∃ error, outcome = .rejected error

/-- The answer after a rollback or a recovery. -/
theorem wp_failure {U D : Pausing σ → Prop} {Post : TransitionOutcome → Pausing σ → Prop}
    (hU : Stable C U) (hD : Stable C D) (undo : PauseM σ Unit) (error : String)
    (hundo : undo.wp (fun _ => U) (fun _ => D) p)
    (hundone : ∀ outcome p, U p → Undone outcome → Post outcome p)
    (hdegraded : ∀ message p, D p → Post (.degraded message) p) :
    (do let undone ← undo.attempt
        return failure error undone (← cancelled C) : PauseM σ TransitionOutcome).wp Post
      (fun _ _ => False) p := by
  rw [Prog.wp_bind, Prog.wp_attempt]
  refine Prog.wp_mono _ (fun _ p₁ h₁ => ?_) (fun message p₁ h₁ => ?_) hundo
  · rw [Prog.wp_bind]
    refine Prog.wp_mono _ (fun answer p₂ h₂ => ?_) (fun _ _ h' => h') (wp_cancelled hU h₁)
    refine hundone _ p₂ h₂ ?_
    cases answer
    · exact .inr ⟨error, rfl⟩
    · exact .inl rfl
  · rw [Prog.wp_bind]
    exact Prog.wp_mono _ (fun answer p₂ h₂ => hdegraded _ p₂ h₂) (fun _ _ h' => h')
      (wp_cancelled hD h₁)

/-- The rule for a pause: `I` while members are suspended, `J` when the passes are
through, `U` when everything is undone and `D` when that failed. -/
theorem wp_pauseMembers {J U D : Pausing σ → Prop}
    {Post : TransitionOutcome → Pausing σ → Prop} (hI : Stable C I) (hU : Stable C U)
    (hD : Stable C D) (hstart : I { p with changed := [] })
    (hpasses : ∀ deadline passes p, I p →
      (suspendPasses C deadline passes).wp (fun _ => J) (fun _ => I) p)
    (hrollback : ∀ deadline p, I p →
      (rollbackUntil C p.changed false deadline).wp (fun _ => U) (fun _ => D) p)
    (happlied : ∀ p, J p → Post .applied { p with state := { paused := true, owned := p.changed } })
    (hundone : ∀ outcome p, U p → Undone outcome → Post outcome p)
    (hdegraded : ∀ message p, D p → Post (.degraded message) p) :
    (pauseMembers C).wp Post (fun _ _ => False) p := by
  unfold pauseMembers
  rw [Prog.wp_bind, Prog.wp_modify, Prog.wp_bind]
  refine Prog.wp_mono _ (fun start p₁ h₁ => ?_) (fun _ _ h' => h') (wp_now hI hstart)
  rw [Prog.wp_bind, Prog.wp_attempt]
  refine Prog.wp_mono _ (fun _ p₂ h₂ => ?_) (fun error p₂ h₂ => ?_) (hpasses _ _ p₁ h₁)
  · exact happlied p₂ h₂
  · rw [Prog.wp_bind, Prog.wp_get]
    refine wp_failure hU hD _ error ?_ hundone hdegraded
    unfold rollback
    rw [Prog.wp_bind]
    have hsame : Stable C fun p => I p ∧ p.changed = p₂.changed :=
      ⟨fun p h => ⟨hI.cancelled p h.1, h.2⟩, fun p h => ⟨hI.now p h.1, h.2⟩⟩
    refine Prog.wp_mono _ (fun start' p₃ h₃ => ?_) (fun _ _ h' => h')
      (wp_now (R := fun _ => D) hsame ⟨h₂, rfl⟩)
    rw [← h₃.2]
    exact hrollback _ p₃ h₃.1

/-- The rule for a continue: `I` while members are resumed, `J` when all are, `M`
when what was resumed is suspended again, `U` when the membership is covered and
`D` when the recovery failed. -/
theorem wp_resumeOwned {J M U D : Pausing σ → Prop}
    {Post : TransitionOutcome → Pausing σ → Prop} (hI : Stable C I) (hU : Stable C U)
    (hD : Stable C D) (hstart : I { p with changed := [] })
    (hresume : ∀ deadline p, I p → p.changed = [] →
      (resumeMembers C deadline).wp (fun _ => J) (fun _ => I) p)
    (hrollback : ∀ deadline p, I p →
      (rollbackUntil C p.changed true deadline).wp (fun _ => M) (fun _ => D) p)
    (hrestore : ∀ deadline p, M p →
      (restorePausedMembers C deadline 0 maxMemberPasses).wp (fun _ => U) (fun _ => D) p)
    (happlied : ∀ p, J p → Post .applied { p with state := { paused := false, owned := [] } })
    (hundone : ∀ outcome p, U p → Undone outcome → Post outcome p)
    (hdegraded : ∀ message p, D p → Post (.degraded message) p) :
    (resumeOwned C).wp Post (fun _ _ => False) p := by
  unfold resumeOwned
  rw [Prog.wp_bind, Prog.wp_modify, Prog.wp_bind]
  have hempty : Stable C fun p => I p ∧ p.changed = [] :=
    ⟨fun p h => ⟨hI.cancelled p h.1, h.2⟩, fun p h => ⟨hI.now p h.1, h.2⟩⟩
  refine Prog.wp_mono _ (fun start p₁ h₁ => ?_) (fun _ _ h' => h') (wp_now hempty ⟨hstart, rfl⟩)
  rw [Prog.wp_bind, Prog.wp_attempt]
  refine Prog.wp_mono _ (fun _ p₂ h₂ => ?_) (fun error p₂ h₂ => ?_) (hresume _ p₁ h₁.1 h₁.2)
  · exact happlied p₂ h₂
  · refine wp_failure hU hD _ error ?_ hundone hdegraded
    unfold restore
    rw [Prog.wp_bind]
    refine Prog.wp_mono _ (fun start' p₃ h₃ => ?_) (fun _ _ h' => h')
      (wp_now (R := fun _ => D) hI h₂)
    rw [Prog.wp_bind, Prog.wp_get, Prog.wp_bind]
    exact Prog.wp_mono _ (fun _ p₄ h₄ => hrestore _ p₄ h₄) (fun _ _ h' => h')
      (hrollback _ p₃ h₃)

/-- The rule for a change: `I` at the start, then one of the three ways. -/
theorem wp_change {Post : TransitionOutcome → Pausing σ → Prop} (hI : Stable C I) (pause : Bool)
    (h : I p) (hcancelled : ∀ p, I p → Post .cancelled p)
    (hsame : ∀ p, I p → p.state.paused = pause → Post .applied p)
    (hpause : pause = true → ∀ p, I p → p.state.paused = false →
      (pauseMembers C).wp Post (fun _ _ => False) p)
    (hresume : pause = false → ∀ p, I p → p.state.paused = true →
      (resumeOwned C).wp Post (fun _ _ => False) p) :
    (change C pause).wp Post (fun _ _ => False) p := by
  unfold change
  rw [Prog.wp_bind]
  refine Prog.wp_mono _ (fun answer p₁ h₁ => ?_) (fun _ _ h' => h') (wp_cancelled hI h)
  cases answer with
  | true => exact hcancelled p₁ h₁
  | false =>
      simp only [Bool.false_eq_true, if_false, Prog.wp_bind, Prog.wp_get]
      by_cases hpaused : p₁.state.paused = pause
      · rw [if_pos hpaused]
        exact hsame p₁ h₁ hpaused
      · rw [if_neg hpaused]
        cases pause with
        | true => exact hpause rfl p₁ h₁ (by simpa using hpaused)
        | false => exact hresume rfl p₁ h₁ (by simpa using hpaused)

/-! ## What holds of the world throughout

A change only acts on the world through the interface, so it breaks nothing that no
question and no control breaks. -/

open Prog (Keeps)

/-- No operation of the world breaks the assertion. -/
structure Preserved (C : Control σ) (I : σ → Prop) : Prop where
  members : Keeps I (fun _ => True) C.members
  running : ∀ process, Keeps I (fun _ => True) (C.running process)
  suspend : ∀ process, Keeps I (fun _ => True) (C.suspend process)
  resume : ∀ process, Keeps I (fun _ => True) (C.resume process)
  cancelled : ∀ w, I w → I (C.cancelled w).2
  now : ∀ w, I w → I (C.now w).2

namespace Preserved

variable {I : σ → Prop} {α : Type}

/-- The programs of this file and the assertion on their world. -/
abbrev Kept (I : σ → Prop) (m : PauseM σ α) : Prop :=
  Keeps (fun p : Pausing σ => I p.world) (fun _ => True) m

theorem onWorld {m : Prog σ String α} (hm : Keeps I (fun _ => True) m) :
    Kept I (PauseState.onWorld m) := by
  intro p h
  rw [wp_onWorld]
  exact hm p.world h

theorem keeps_cancelled (h : Preserved C I) : Kept I (PauseState.cancelled C) :=
  Keeps.step fun p hp => h.cancelled p.world hp

theorem keeps_now (h : Preserved C I) : Kept I (PauseState.now C) :=
  Keeps.step fun p hp => h.now p.world hp

theorem checkCancelled (h : Preserved C I) : Kept I (PauseState.checkCancelled C) :=
  Keeps.bind h.keeps_cancelled fun _ => Keeps.ite (Keeps.throw trivial) (Keeps.pure _)

theorem checkTime (h : Preserved C I) (deadline : Nat) (message : String) :
    Kept I (PauseState.checkTime C deadline message) :=
  Keeps.bind h.keeps_now fun _ => Keeps.ite (Keeps.throw trivial) (Keeps.pure _)

theorem suspendNew (h : Preserved C I) (deadline : Nat) (added : Bool) (process : Nat) :
    Kept I (PauseState.suspendNew C deadline added process) := by
  unfold PauseState.suspendNew
  refine Keeps.bind h.checkCancelled fun _ => Keeps.bind (h.checkTime _ _) fun _ =>
    Keeps.bind Keeps.get fun _ => Keeps.ite (Keeps.pure _) ?_
  refine Keeps.bind (onWorld (h.suspend process)) fun _ => Keeps.ite ?_ (Keeps.pure _)
  exact Keeps.bind (Keeps.modify fun _ hp => hp) fun _ => Keeps.pure _

theorem suspendPasses (h : Preserved C I) (deadline passes : Nat) :
    Kept I (PauseState.suspendPasses C deadline passes) := by
  induction passes with
  | zero => exact Keeps.throw trivial
  | succ passes ih =>
      unfold PauseState.suspendPasses
      refine Keeps.bind h.checkCancelled fun _ => Keeps.bind (h.checkTime _ _) fun _ => ?_
      refine Keeps.bind (onWorld h.members) fun _ => Keeps.bind (h.checkTime _ _) fun _ => ?_
      exact Keeps.bind (Keeps.foldlM (h.suspendNew deadline)) fun _ =>
        Keeps.ite ih h.checkCancelled

theorem rollbackLoop (h : Preserved C I) (suspend : Bool) (deadline : Nat) (processes : List Nat)
    (errors : List String) :
    Kept I (PauseState.rollbackLoop C suspend deadline processes errors) := by
  induction processes generalizing errors with
  | nil => exact Keeps.pure _
  | cons process rest ih =>
      have hcontrol : Kept I (PauseState.onWorld
          (if suspend then C.suspend process else C.resume process)) := by
        cases suspend with
        | true => exact onWorld (h.suspend process)
        | false => exact onWorld (h.resume process)
      have hundo : Kept I (do
          match ← (PauseState.onWorld
            (if suspend then C.suspend process else C.resume process)).attempt with
          | .error error => PauseState.rollbackLoop C suspend deadline rest (errors ++ [error])
          | .ok _ => PauseState.rollbackLoop C suspend deadline rest errors) := by
        refine Keeps.bind (Keeps.attempt hcontrol) fun answer => ?_
        cases answer <;> exact ih _
      unfold PauseState.rollbackLoop
      refine Keeps.bind h.keeps_now fun _ => Keeps.ite (Keeps.pure _) ?_
      refine Keeps.bind (Keeps.attempt (onWorld (h.running process))) fun answer => ?_
      cases answer with
      | error _ => exact hundo
      | ok running =>
          cases running with
          | true => exact hundo
          | false => exact ih _

theorem rollbackUntil (h : Preserved C I) (processes : List Nat) (suspend : Bool)
    (deadline : Nat) : Kept I (PauseState.rollbackUntil C processes suspend deadline) :=
  Keeps.bind (h.rollbackLoop _ _ _ _) fun _ => Keeps.ite (Keeps.throw trivial) (Keeps.pure _)

theorem pauseMembers (h : Preserved C I) : Kept I (PauseState.pauseMembers C) := by
  unfold PauseState.pauseMembers
  refine Keeps.bind (Keeps.modify fun _ hp => hp) fun _ => Keeps.bind h.keeps_now fun _ => ?_
  refine Keeps.bind (Keeps.attempt (h.suspendPasses _ _)) fun answer => ?_
  cases answer with
  | ok _ => exact Keeps.bind (Keeps.modify fun _ hp => hp) fun _ => Keeps.pure _
  | error _ =>
      refine Keeps.bind Keeps.get fun p => ?_
      have hrollback : Kept I (PauseState.rollback C p.changed false) :=
        Keeps.bind h.keeps_now fun _ => h.rollbackUntil _ _ _
      refine Keeps.bind (Keeps.attempt hrollback) fun _ => ?_
      exact Keeps.bind h.keeps_cancelled fun _ => Keeps.pure _

theorem resumeMember (h : Preserved C I) (deadline process : Nat) :
    Kept I (PauseState.resumeMember C deadline process) := by
  unfold PauseState.resumeMember
  refine Keeps.bind h.checkCancelled fun _ => Keeps.bind (h.checkTime _ _) fun _ => ?_
  refine Keeps.bind (onWorld (h.resume process)) fun _ => Keeps.ite ?_ (Keeps.pure _)
  exact Keeps.modify fun _ hp => hp

theorem restoreMember (h : Preserved C I) (deadline : Nat) (added : Bool) (process : Nat) :
    Kept I (PauseState.restoreMember C deadline added process) := by
  unfold PauseState.restoreMember
  refine Keeps.bind (h.checkTime _ _) fun _ => Keeps.bind Keeps.get fun _ =>
    Keeps.ite (Keeps.pure _) ?_
  refine Keeps.bind (onWorld (h.suspend process)) fun _ => Keeps.ite ?_ (Keeps.pure _)
  exact Keeps.bind (Keeps.modify fun _ hp => hp) fun _ => Keeps.pure _

theorem restorePausedMembers (h : Preserved C I) (deadline stablePasses passes : Nat) :
    Kept I (PauseState.restorePausedMembers C deadline stablePasses passes) := by
  induction passes generalizing stablePasses with
  | zero => exact Keeps.throw trivial
  | succ passes ih =>
      unfold PauseState.restorePausedMembers
      refine Keeps.bind (h.checkTime _ _) fun _ => Keeps.bind (onWorld h.members) fun _ => ?_
      refine Keeps.bind (h.checkTime _ _) fun _ => ?_
      exact Keeps.bind (Keeps.foldlM (h.restoreMember deadline)) fun _ =>
        Keeps.ite (Keeps.pure _) (ih _)

theorem resumeOwned (h : Preserved C I) : Kept I (PauseState.resumeOwned C) := by
  have hresume : ∀ deadline, Kept I (PauseState.resumeMembers C deadline) := by
    intro deadline
    refine Keeps.bind Keeps.get fun p => ?_
    refine Keeps.bind (Keeps.forM fun process _ => h.resumeMember deadline process) fun _ => ?_
    exact Keeps.bind h.checkCancelled fun _ => h.checkTime _ _
  unfold PauseState.resumeOwned
  refine Keeps.bind (Keeps.modify fun _ hp => hp) fun _ => Keeps.bind h.keeps_now fun _ => ?_
  refine Keeps.bind (Keeps.attempt (hresume _)) fun answer => ?_
  cases answer with
  | ok _ => exact Keeps.bind (Keeps.modify fun _ hp => hp) fun _ => Keeps.pure _
  | error _ =>
      have hrestore : Kept I (PauseState.restore C) := by
        refine Keeps.bind h.keeps_now fun _ => Keeps.bind Keeps.get fun _ => ?_
        exact Keeps.bind (h.rollbackUntil _ _ _) fun _ => h.restorePausedMembers _ _ _
      refine Keeps.bind (Keeps.attempt hrestore) fun _ => ?_
      exact Keeps.bind h.keeps_cancelled fun _ => Keeps.pure _

theorem change (h : Preserved C I) (pause : Bool) : Kept I (PauseState.change C pause) := by
  unfold PauseState.change
  refine Keeps.bind h.keeps_cancelled fun _ => Keeps.ite (Keeps.pure _) ?_
  exact Keeps.bind Keeps.get fun _ => Keeps.ite (Keeps.pure _)
    (Keeps.ite h.pauseMembers h.resumeOwned)

end Preserved

end PauseState

end Ngsm.Supervisor
