/-
# Runs of a machine

A machine takes one event at a time; an event that cannot happen in a state has no
successor.  What every step preserves holds after every run, and it may speak of the
events so far as well as of the state.  One machine follows another when it can take
the events of a run that concern it and stays related to the other.
-/

import Mathlib.Data.List.Induction

namespace Ngsm.Lib

namespace Runs

variable {S T E : Type}

/-- The state after some events, unless one of them cannot happen. -/
def run (step : S → E → Option S) (s : S) : List E → Option S
  | [] => some s
  | e :: es => (step s e).bind fun s' => run step s' es

section

variable {step : S → E → Option S} {s s' : S}

theorem run_nil : run step s [] = some s :=
  rfl

theorem run_cons (e : E) (es : List E) :
    run step s (e :: es) = (step s e).bind fun s' => run step s' es :=
  rfl

theorem run_append (es later : List E) :
    run step s (es ++ later) = (run step s es).bind fun s' => run step s' later := by
  induction es generalizing s with
  | nil => rfl
  | cons e es ih =>
      rw [List.cons_append, run_cons, run_cons, Option.bind_assoc]
      congr 1
      funext s'
      exact ih

/-- The last event of a run. -/
theorem run_concat {es : List E} {e : E} :
    run step s (es ++ [e]) = some s' ↔
      ∃ mid, run step s es = some mid ∧ step mid e = some s' := by
  rw [run_append, Option.bind_eq_some_iff]
  apply exists_congr
  intro mid
  rw [run_cons, Option.bind_eq_some_iff]
  simp [run_nil]

/-- What holds at the start and is preserved by every step, given the events before
it, holds after every run. -/
theorem run_history (I : List E → S → Prop) (hstart : I [] s)
    (hstep : ∀ past mid e next, I past mid → step mid e = some next → I (past ++ [e]) next)
    {es : List E} (hrun : run step s es = some s') : I es s' := by
  induction es using List.reverseRecOn generalizing s' with
  | nil =>
      cases hrun
      exact hstart
  | append_singleton es e ih =>
      obtain ⟨mid, hmid, hlast⟩ := run_concat.mp hrun
      exact hstep es mid e s' (ih hmid) hlast

theorem run_invariant (I : S → Prop) (hstart : I s)
    (hstep : ∀ mid e next, I mid → step mid e = some next → I next)
    {es : List E} (hrun : run step s es = some s') : I s' :=
  run_history (fun _ => I) hstart (fun _ mid e next => hstep mid e next) hrun

end

/-- A second machine follows the first on the events that concern it. -/
theorem run_follows {F : Type} {step : S → E → Option S} {follow : T → F → Option T} {s s' : S}
    {t : T} (concerns : E → Option F) (R : S → T → Prop) (hstart : R s t)
    (hsilent : ∀ mid e next copy, concerns e = none → R mid copy → step mid e = some next →
      R next copy)
    (hstep : ∀ mid e next copy f, concerns e = some f → R mid copy → step mid e = some next →
      ∃ copy', follow copy f = some copy' ∧ R next copy')
    {es : List E} (hrun : run step s es = some s') :
    ∃ t', run follow t (es.filterMap concerns) = some t' ∧ R s' t' := by
  induction es generalizing s t with
  | nil =>
      cases hrun
      exact ⟨t, rfl, hstart⟩
  | cons e es ih =>
      rw [run_cons, Option.bind_eq_some_iff] at hrun
      obtain ⟨next, hnext, hrest⟩ := hrun
      cases hconcerns : concerns e with
      | none =>
          rw [List.filterMap_cons_none hconcerns]
          exact ih (hsilent s e next t hconcerns hstart hnext) hrest
      | some f =>
          obtain ⟨copy, hcopy, hrelated⟩ := hstep s e next t f hconcerns hstart hnext
          obtain ⟨t', ht', hend⟩ := ih hrelated hrest
          refine ⟨t', ?_, hend⟩
          rw [List.filterMap_cons_some hconcerns, run_cons, hcopy]
          exact ht'

end Runs

end Ngsm.Lib
