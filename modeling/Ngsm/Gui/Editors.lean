/-
# The editors of the window

The modal dialogs, the log view and the recovery editor keep one request each.  They
differ in what makes a request obsolete: another dialog, another log, leaving the
recovery editor or opening it again.
-/

import Ngsm.Gui.Requests

namespace Ngsm.Gui

open Ngsm.Lib
open Ngsm.Core
open Ngsm.Ops

inductive SubmitError where
  | busy
  | inactive
  | send (message : String)
  deriving DecidableEq, Repr

/-- Give a request of an editor to the queue. -/
def submitPending {T : Type} (target : T) (answer : Except String Unit) (pending : Pending T) :
    Option (Except SubmitError (Request T) × Pending T) :=
  (pending.submit target answer).map fun (result, pending) => (result.mapError .send, pending)

section

variable {T : Type} {pending pending' : Pending T} {target : T} {answer : Except String Unit}

/-- A pending request after a submission is the submitted one. -/
theorem Pending.Sound.submitted {result : Except String (Request T)} (h : pending.Sound)
    (hsubmit : pending.submit target answer = some (result, pending')) :
    pending'.Sound ∧ ∀ request, pending'.current = some request → request.target = target := by
  refine ⟨h.submit hsubmit, ?_⟩
  intro request hcurrent
  rcases Pending.submit_cases hsubmit with ⟨-, -, rfl⟩ | ⟨e, -, -, rfl⟩
  · rw [← Option.some.inj hcurrent]
  · cases hcurrent

theorem Pending.Sound.submitPending {result : Except SubmitError (Request T)} (h : pending.Sound)
    (hsubmit : submitPending target answer pending = some (result, pending')) :
    pending'.Sound ∧ ∀ request, pending'.current = some request → request.target = target := by
  unfold Gui.submitPending at hsubmit
  rw [Option.map_eq_some_iff] at hsubmit
  obtain ⟨⟨inner, pending''⟩, hinner, heq⟩ := hsubmit
  cases heq
  exact h.submitted hinner

/-- What is left of a pending request after an answer was there before. -/
theorem Pending.current_of_finish [DecidableEq T] {request other : Request T}
    (h : (pending.finish request).2.current = some other) : pending.current = some other := by
  unfold Pending.finish at h
  split at h
  · exact h
  · cases h

end

/-! ## Dialogs -/

inductive ModalKind where
  | closed
  | install
  | edit
  | remove
  | processes
  | warnings
  deriving DecidableEq, Repr

structure ModalTarget where
  kind : ModalKind
  service : String
  deriving DecidableEq, Repr

structure ModalState where
  kind : ModalKind := .closed
  generation : ℕ := 0
  pending : Pending ModalTarget := {}

namespace ModalState

def busy (state : ModalState) : Bool :=
  state.pending.busy

/-- The dialogs that change a service. -/
def mutating (kind : ModalKind) : Bool :=
  kind == .install || kind == .edit

/-- Show another dialog, unless an accepted change is still under way. -/
def replace (kind : ModalKind) (state : ModalState) : Option (Bool × ModalState) :=
  if state.busy && mutating state.kind then
    some (false, state)
  else do
    let generation ← checkedSucc state.generation
    some (true, { kind, generation, pending := state.pending.invalidate })

def submit (service : String) (answer : Except String Unit) (state : ModalState) :
    Option (Except SubmitError (Request ModalTarget) × ModalState) :=
  if state.busy then
    some (.error .busy, state)
  else if !(mutating state.kind || state.kind == .processes) then
    some (.error .inactive, state)
  else do
    let (result, pending) ← submitPending { kind := state.kind, service } answer state.pending
    some (result, { state with pending })

def finish (request : Request ModalTarget) (state : ModalState) : Bool × ModalState :=
  let (taken, pending) := state.pending.finish request
  (taken, { state with pending })

inductive Event where
  | replace (kind : ModalKind)
  | submit (service : String) (answer : Except String Unit)
  | finish (request : Request ModalTarget)

def step (state : ModalState) : Event → Option ModalState
  | .replace kind => (state.replace kind).map Prod.snd
  | .submit service answer => (state.submit service answer).map Prod.snd
  | .finish request => some (state.finish request).2

/-- A pending request belongs to the dialog that is shown. -/
structure Sound (state : ModalState) : Prop where
  pending : state.pending.Sound
  shown : ∀ request, state.pending.current = some request → request.target.kind = state.kind

theorem Sound.empty : Sound {} := by
  apply Sound.mk
  · exact Pending.Sound.empty
  · intro request h
    cases h

section

variable {state next : ModalState} {request : Request ModalTarget}

/-- Neither submitting nor answering changes the dialog. -/
theorem Sound.submit (h : Sound state) {service : String} {answer : Except String Unit}
    {result : Except SubmitError (Request ModalTarget)}
    (hsubmit : state.submit service answer = some (result, next)) :
    Sound next ∧ next.kind = state.kind := by
  unfold ModalState.submit at hsubmit
  split at hsubmit
  · cases hsubmit
    exact ⟨h, rfl⟩
  · split at hsubmit
    · cases hsubmit
      exact ⟨h, rfl⟩
    · rw [Option.bind_eq_bind, Option.bind_eq_some_iff] at hsubmit
      obtain ⟨⟨inner, pending⟩, hpending, heq⟩ := hsubmit
      cases heq
      obtain ⟨hsound, htarget⟩ := h.pending.submitPending hpending
      refine ⟨⟨hsound, ?_⟩, rfl⟩
      intro request hcurrent
      exact congrArg ModalTarget.kind (htarget request hcurrent)

theorem Sound.finish (h : Sound state) (request : Request ModalTarget) :
    Sound (state.finish request).2 := by
  apply Sound.mk
  · exact h.pending.finish request
  · intro other hcurrent
    exact h.shown other (Pending.current_of_finish hcurrent)

theorem Sound.step (h : Sound state) {e : Event} (hstep : state.step e = some next) :
    Sound next := by
  cases e with
  | replace kind =>
      rw [ModalState.step, Option.map_eq_some_iff] at hstep
      obtain ⟨⟨shown, _⟩, hreplace, rfl⟩ := hstep
      unfold ModalState.replace at hreplace
      split at hreplace
      · cases hreplace
        exact h
      · rw [Option.bind_eq_bind, Option.bind_eq_some_iff] at hreplace
        obtain ⟨generation, -, heq⟩ := hreplace
        cases heq
        apply Sound.mk
        · exact h.pending.invalidate
        · intro request hcurrent
          cases hcurrent
  | submit service answer =>
      rw [ModalState.step, Option.map_eq_some_iff] at hstep
      obtain ⟨⟨result, _⟩, hsubmit, rfl⟩ := hstep
      exact (h.submit hsubmit).1
  | finish request =>
      cases hstep
      exact h.finish request

theorem Sound.finish_iff (h : Sound state) (request : Request ModalTarget) :
    (state.finish request).2 ≠ state ↔ Awaited state.pending.notes request := by
  rw [← (h.pending.finish_iff request).2, not_iff_not]
  constructor
  · intro hsame
    exact congrArg ModalState.pending hsame
  · intro hsame
    exact congrArg (fun pending => { state with pending }) hsame

end

end ModalState

/-! ## The log view -/

structure LogTarget where
  service : String
  stderr : Bool
  deriving DecidableEq, Repr

/-- `source` is not part of the program: the log that the shown lines were read from. -/
structure LogViewState where
  pending : Pending LogTarget := {}
  target : Option LogTarget := none
  status : String := ""
  lines : List String := []
  source : Option LogTarget := none

namespace LogViewState

def leave (state : LogViewState) : LogViewState :=
  { state with pending := state.pending.invalidate }

/-- Show another log, or none. -/
def request (target : Option LogTarget) (answer : Except String Unit) (state : LogViewState) :
    Option LogViewState :=
  let pending := state.pending.invalidate
  match target with
  | none =>
      some { state with
        pending, lines := [], source := none, target := none
        status := "Select a service in the Services view to view its log." }
  | some target => do
      let (result, pending) ← pending.submit target answer
      let status :=
        match result with
        | .ok _ => "Loading…"
        | .error e => "Log request not queued: " ++ e ++ ". Please retry."
      some { pending, lines := [], source := none, target := some target, status }

def received (request : Request LogTarget) (status : String) (lines : List String)
    (state : LogViewState) : Bool × LogViewState :=
  let (taken, pending) := state.pending.finish request
  if !taken then
    (false, { state with pending })
  else
    (true, { state with pending, status, lines, source := some request.target })

inductive Event where
  | leave
  | request (target : Option LogTarget) (answer : Except String Unit)
  | received (request : Request LogTarget) (status : String) (lines : List String)

def step (state : LogViewState) : Event → Option LogViewState
  | .leave => some state.leave
  | .request target answer => state.request target answer
  | .received request status lines => some (state.received request status lines).2

/-- A pending request is for the displayed log, and so are the shown lines. -/
structure Sound (state : LogViewState) : Prop where
  pending : state.pending.Sound
  shown : ∀ request, state.pending.current = some request → state.target = some request.target
  source : state.lines ≠ [] → state.source = state.target ∧ state.target.isSome = true

theorem Sound.empty : Sound {} := by
  apply Sound.mk
  · exact Pending.Sound.empty
  · intro request h
    cases h
  · intro h
    exact absurd rfl h

section

variable {state next : LogViewState}

theorem Sound.leave (h : Sound state) : Sound state.leave := by
  apply Sound.mk
  · exact h.pending.invalidate
  · intro request hcurrent
    cases hcurrent
  · exact h.source

theorem Sound.request (h : Sound state) {target : Option LogTarget}
    {answer : Except String Unit} (hrequest : state.request target answer = some next) :
    Sound next := by
  cases target with
  | none =>
      cases hrequest
      apply Sound.mk
      · exact h.pending.invalidate
      · intro request hcurrent
        cases hcurrent
      · intro hlines
        exact absurd rfl hlines
  | some target =>
      rw [LogViewState.request, Option.bind_eq_bind, Option.bind_eq_some_iff] at hrequest
      obtain ⟨⟨result, pending⟩, hsubmit, heq⟩ := hrequest
      cases heq
      obtain ⟨hsound, htarget⟩ := h.pending.invalidate.submitted hsubmit
      apply Sound.mk
      · exact hsound
      · intro request hcurrent
        rw [htarget request hcurrent]
      · intro hlines
        exact absurd rfl hlines

/-- What an answer for the log does. -/
theorem received_cases (request : Request LogTarget) (status : String) (lines : List String) :
    (state.pending.current ≠ some request ∧
      state.received request status lines = (false, state)) ∨
    (state.pending.current = some request ∧
      state.received request status lines = (true, { state with
        pending := (state.pending.finish request).2
        status, lines, source := some request.target })) := by
  unfold received Pending.finish
  by_cases hcurrent : state.pending.current = some request
  · rw [if_neg (not_not.mpr hcurrent)]
    exact .inr ⟨hcurrent, rfl⟩
  · rw [if_pos hcurrent]
    exact .inl ⟨hcurrent, rfl⟩

theorem Sound.received (h : Sound state) (request : Request LogTarget) (status : String)
    (lines : List String) : Sound (state.received request status lines).2 := by
  rcases received_cases request status lines with ⟨-, heq⟩ | ⟨hcurrent, heq⟩
  · rw [heq]
    exact h
  · rw [heq]
    have hshown := h.shown request hcurrent
    apply Sound.mk
    · exact h.pending.finish request
    · intro other hother
      exact h.shown other (Pending.current_of_finish hother)
    · intro _
      exact ⟨hshown.symm, by simp [hshown]⟩

theorem Sound.step (h : Sound state) {e : Event} (hstep : state.step e = some next) :
    Sound next := by
  cases e with
  | leave =>
      cases hstep
      exact h.leave
  | request target answer => exact h.request hstep
  | received request status lines =>
      cases hstep
      exact h.received request status lines

end

end LogViewState

/-! ## The recovery editor -/

inductive RecoveryWork where
  | read
  | save
  deriving DecidableEq, Repr

structure RecoveryTarget where
  service : String
  generation : ℕ
  work : RecoveryWork
  deriving DecidableEq, Repr

/-- The position of an action in the picker. -/
def exitActionToInt : ExitAction → Int32
  | .restart => 0
  | .ignore => 1
  | .exit => 2
  | .suicide => 3

structure RecoveryExitRow where
  exitCode : String
  action : Int32
  deriving DecidableEq, Repr

/-- A recovery policy as the user types it. -/
structure RecoveryForm where
  service : String
  restartDelay : String
  throttle : String
  defaultAction : Int32
  rows : List RecoveryExitRow
  deriving DecidableEq, Repr

def RecoveryForm.fromSpec (spec : RecoverySpec) : RecoveryForm where
  service := spec.name
  restartDelay := (spec.restartDelayMs.map toString).getD ""
  throttle := (spec.throttleDelayMs.map toString).getD ""
  defaultAction := exitActionToInt spec.defaultAction
  rows := spec.exitActions.toList.map fun (exitCode, action) =>
    { exitCode, action := exitActionToInt action }

/-- What the user can change in a form: everything but the service. -/
structure FormEdit where
  change : RecoveryForm → RecoveryForm
  service_eq : ∀ form, (change form).service = form.service

structure RecoveryEditor where
  draft : Option RecoveryForm := none
  service : Option String := none
  generation : ℕ := 0
  pending : Pending RecoveryTarget := {}

namespace RecoveryEditor

def busy (editor : RecoveryEditor) : Bool :=
  editor.pending.busy

def active (editor : RecoveryEditor) : Bool :=
  editor.service.isSome

def editableDraft (editor : RecoveryEditor) : Option RecoveryForm :=
  if !editor.active || editor.busy then none else editor.draft

def leave (editor : RecoveryEditor) : RecoveryEditor :=
  { editor with pending := editor.pending.invalidate, service := none }

def activate (service : String) (editor : RecoveryEditor) : Option RecoveryEditor := do
  let editor := editor.leave
  let generation ← checkedSucc editor.generation
  let draft := editor.draft.filter fun form => form.service == service
  some { editor with generation, draft, service := some service }

def submit (work : RecoveryWork) (answer : Except String Unit) (editor : RecoveryEditor) :
    Option (Except SubmitError (Request RecoveryTarget) × RecoveryEditor) :=
  if editor.busy then
    some (.error .busy, editor)
  else
    match editor.service with
    | none => some (.error .inactive, editor)
    | some service => do
        let target := { service, generation := editor.generation, work }
        let (result, pending) ← submitPending target answer editor.pending
        some (result, { editor with pending })

def finish (request : Request RecoveryTarget) (editor : RecoveryEditor) :
    Bool × RecoveryEditor :=
  let (taken, pending) := editor.pending.finish request
  (taken, { editor with pending })

def loaded (request : Request RecoveryTarget) (result : Result RecoverySpec)
    (editor : RecoveryEditor) : Option (Except String Unit) × RecoveryEditor :=
  let (taken, editor) := editor.finish request
  if !taken then
    (none, editor)
  else
    match result with
    | .ok spec =>
        if spec.name = request.target.service then
          (some (.ok ()), { editor with draft := some (.fromSpec spec) })
        else
          (some (.error "Recovery response did not match the requested service."), editor)
    | .error e => (some (.error e.text), editor)

/-- The user changes the draft, where it can be changed. -/
def edit (change : FormEdit) (editor : RecoveryEditor) : RecoveryEditor :=
  match editor.editableDraft with
  | some form => { editor with draft := some (change.change form) }
  | none => editor

inductive Event where
  | leave
  | activate (service : String)
  | submit (work : RecoveryWork) (answer : Except String Unit)
  | finish (request : Request RecoveryTarget)
  | loaded (request : Request RecoveryTarget) (result : Result RecoverySpec)
  | edit (change : FormEdit)

def step (editor : RecoveryEditor) : Event → Option RecoveryEditor
  | .leave => some editor.leave
  | .activate service => editor.activate service
  | .submit work answer => (editor.submit work answer).map Prod.snd
  | .finish request => some (editor.finish request).2
  | .loaded request result => some (editor.loaded request result).2
  | .edit change => some (editor.edit change)

/-- A pending request and the draft belong to the service that is edited. -/
structure Sound (editor : RecoveryEditor) : Prop where
  pending : editor.pending.Sound
  shown : ∀ request, editor.pending.current = some request →
    editor.service = some request.target.service
  draft : ∀ service form, editor.service = some service → editor.draft = some form →
    form.service = service

theorem Sound.empty : Sound {} := by
  apply Sound.mk
  · exact Pending.Sound.empty
  · intro request h
    cases h
  · intro service form h
    cases h

section

variable {editor next : RecoveryEditor}

theorem Sound.leave (h : Sound editor) : Sound editor.leave := by
  apply Sound.mk
  · exact h.pending.invalidate
  · intro request hcurrent
    cases hcurrent
  · intro service form hservice
    cases hservice

theorem Sound.activate (h : Sound editor) {service : String}
    (hactivate : editor.activate service = some next) : Sound next := by
  rw [RecoveryEditor.activate, Option.bind_eq_bind, Option.bind_eq_some_iff] at hactivate
  obtain ⟨generation, -, heq⟩ := hactivate
  cases heq
  apply Sound.mk
  · exact h.pending.invalidate
  · intro request hcurrent
    cases hcurrent
  · intro other form hother hform
    cases hother
    rw [Option.filter_eq_some_iff] at hform
    exact eq_of_beq hform.2

theorem Sound.submit (h : Sound editor) {work : RecoveryWork} {answer : Except String Unit}
    {result : Except SubmitError (Request RecoveryTarget)}
    (hsubmit : editor.submit work answer = some (result, next)) : Sound next := by
  unfold RecoveryEditor.submit at hsubmit
  split at hsubmit
  · cases hsubmit
    exact h
  · split at hsubmit
    · cases hsubmit
      exact h
    · rename_i service hservice
      rw [Option.bind_eq_bind, Option.bind_eq_some_iff] at hsubmit
      obtain ⟨⟨inner, pending⟩, hpending, heq⟩ := hsubmit
      cases heq
      obtain ⟨hsound, htarget⟩ := h.pending.submitPending hpending
      apply Sound.mk
      · exact hsound
      · intro request hcurrent
        rw [htarget request hcurrent]
        exact hservice
      · exact h.draft

theorem Sound.finish (h : Sound editor) (request : Request RecoveryTarget) :
    Sound (editor.finish request).2 := by
  apply Sound.mk
  · exact h.pending.finish request
  · intro other hcurrent
    exact h.shown other (Pending.current_of_finish hcurrent)
  · exact h.draft

/-- What an answer with a policy does. -/
theorem loaded_cases (request : Request RecoveryTarget) (result : Result RecoverySpec) :
    (editor.pending.current ≠ some request ∧
      (editor.loaded request result).2 = editor) ∨
    (editor.pending.current = some request ∧
      (((∀ spec, result = .ok spec → spec.name ≠ request.target.service) ∧
          (editor.loaded request result).2 = (editor.finish request).2) ∨
        ∃ spec, result = .ok spec ∧ spec.name = request.target.service ∧
          (editor.loaded request result).2 =
            { (editor.finish request).2 with draft := some (.fromSpec spec) })) := by
  unfold loaded RecoveryEditor.finish Pending.finish
  by_cases hcurrent : editor.pending.current = some request
  · rw [if_neg (not_not.mpr hcurrent)]
    refine .inr ⟨hcurrent, ?_⟩
    cases result with
    | error e =>
        refine .inl ⟨?_, rfl⟩
        intro spec hok
        cases hok
    | ok spec =>
        by_cases hname : spec.name = request.target.service
        · refine .inr ⟨spec, rfl, hname, ?_⟩
          simp [hname]
        · refine .inl ⟨?_, ?_⟩
          · intro other hother
            cases hother
            exact hname
          · simp [hname]
  · rw [if_pos hcurrent]
    exact .inl ⟨hcurrent, rfl⟩

theorem Sound.loaded (h : Sound editor) (request : Request RecoveryTarget)
    (result : Result RecoverySpec) : Sound (editor.loaded request result).2 := by
  have hfinish := h.finish request
  rcases loaded_cases request result with
    ⟨-, heq⟩ | ⟨hcurrent, ⟨-, heq⟩ | ⟨spec, -, hname, heq⟩⟩
  · rw [heq]
    exact h
  · rw [heq]
    exact hfinish
  · rw [heq]
    apply Sound.mk
    · exact hfinish.pending
    · exact hfinish.shown
    · intro service form hservice hform
      have hshown := h.shown request hcurrent
      cases hform
      exact hname.trans (Option.some.inj (hshown.symm.trans hservice))

theorem Sound.edit (h : Sound editor) (change : FormEdit) : Sound (editor.edit change) := by
  unfold RecoveryEditor.edit
  split
  · rename_i form hform
    apply Sound.mk
    · exact h.pending
    · exact h.shown
    · intro service changed hservice hchanged
      cases hchanged
      rw [change.service_eq]
      unfold editableDraft at hform
      split at hform
      · cases hform
      · exact h.draft service form hservice hform
  · exact h

theorem Sound.step (h : Sound editor) {e : Event} (hstep : editor.step e = some next) :
    Sound next := by
  cases e with
  | leave =>
      cases hstep
      exact h.leave
  | activate service => exact h.activate hstep
  | submit work answer =>
      rw [RecoveryEditor.step, Option.map_eq_some_iff] at hstep
      obtain ⟨⟨result, _⟩, hsubmit, rfl⟩ := hstep
      exact h.submit hsubmit
  | finish request =>
      cases hstep
      exact h.finish request
  | loaded request result =>
      cases hstep
      exact h.loaded request result
  | edit change =>
      cases hstep
      exact h.edit change

theorem Sound.finish_iff (h : Sound editor) (request : Request RecoveryTarget) :
    (editor.finish request).2 ≠ editor ↔ Awaited editor.pending.notes request := by
  rw [← (h.pending.finish_iff request).2, not_iff_not]
  constructor
  · intro hsame
    exact congrArg RecoveryEditor.pending hsame
  · intro hsame
    exact congrArg (fun pending => { editor with pending }) hsame

end

end RecoveryEditor

/-! ## Whole histories -/

section

variable {T : Type} [DecidableEq T] {calls : List (Pending.Event T)} {pending : Pending T}
  {modalEvents : List ModalState.Event} {modal : ModalState}
  {logEvents : List LogViewState.Event} {logs : LogViewState}
  {recoveryEvents : List RecoveryEditor.Event} {recovery : RecoveryEditor}

end

end Ngsm.Gui
