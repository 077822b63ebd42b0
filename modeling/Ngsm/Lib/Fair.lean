/-
# Fair runs of concurrent processes

A run is infinite: in each moment some process takes a step, or nothing happens.  A process
is treated fairly when it does not stay able to act forever without acting.

What a fair process brings about is shown by two rules.  A process that stays able to act
until it does acts at some time.  And when each of its steps brings a goal nearer, and no
step of another process takes it further away, it reaches the goal.
-/

import Mathlib.Data.Nat.Find

namespace Ngsm.Lib

variable {σ α : Type}

/-- An infinite run of a system with the transition function `step`. -/
structure Behaviour (step : σ → α → Option σ) where
  state : ℕ → σ
  act : ℕ → Option α
  next_none : ∀ n, act n = none → state (n + 1) = state n
  next_some : ∀ n a, act n = some a → step (state n) a = some (state (n + 1))

/-- One of the actions of a process is possible. -/
def Enabled (step : σ → α → Option σ) (mine : α → Prop) (s : σ) : Prop :=
  ∃ a, mine a ∧ (step s a).isSome

namespace Behaviour

variable {step : σ → α → Option σ} {run : Behaviour step} {mine : α → Prop}

/-- The process with the actions `mine` acts in a moment. -/
def ActsAt (run : Behaviour step) (mine : α → Prop) (n : ℕ) : Prop :=
  ∃ a, mine a ∧ run.act n = some a

/-- A process that is able to act from some moment on acts then or later. -/
def WeaklyFair (run : Behaviour step) (mine : α → Prop) : Prop :=
  ∀ n, (∀ m, n ≤ m → Enabled step mine (run.state m)) → ∃ m, n ≤ m ∧ run.ActsAt mine m

/-- What holds initially and is kept by each step holds at all times. -/
theorem invariant (run : Behaviour step) (I : σ → Prop) (hinit : I (run.state 0))
    (hstep : ∀ s a s', I s → step s a = some s' → I s') : ∀ n, I (run.state n) := by
  intro n
  induction n with
  | zero => exact hinit
  | succ n ih =>
      cases hact : run.act n with
      | none =>
          rw [run.next_none n hact]
          exact ih
      | some a => exact hstep _ a _ ih (run.next_some n a hact)

/-- A process that is able to act, and stays so until it acts, acts; what made it able to act
holds until then. -/
theorem acts_of_enabled (hfair : run.WeaklyFair mine) (P : σ → Prop)
    (henabled : ∀ s, P s → Enabled step mine s)
    (hother : ∀ m, P (run.state m) → ¬ run.ActsAt mine m → P (run.state (m + 1)))
    {n : ℕ} (hn : P (run.state n)) :
    ∃ m, n ≤ m ∧ run.ActsAt mine m ∧ ∀ k, n ≤ k → k ≤ m → P (run.state k) := by
  classical
  have hacts : ∃ m, n ≤ m ∧ run.ActsAt mine m := by
    by_contra hnever
    have hforever : ∀ m, n ≤ m → P (run.state m) := by
      intro m hm
      induction m, hm using Nat.le_induction with
      | base => exact hn
      | succ m hm ih => exact hother m ih fun hact => hnever ⟨m, hm, hact⟩
    exact hnever (hfair n fun m hm => henabled _ (hforever m hm))
  refine ⟨Nat.find hacts, (Nat.find_spec hacts).1, (Nat.find_spec hacts).2, ?_⟩
  intro k hk
  induction k, hk using Nat.le_induction with
  | base => exact fun _ => hn
  | succ k hk ih =>
      intro hle
      exact hother k (ih (Nat.le_of_succ_le hle)) fun hact => Nat.find_min hacts hle ⟨hk, hact⟩

/-- A process reaches a goal when each of its steps brings it nearer and the others do not
take it further away. -/
theorem reaches (hfair : run.WeaklyFair mine) (P : σ → Prop) (goal : σ → α → Prop)
    (distance : σ → ℕ) (henabled : ∀ s, P s → Enabled step mine s)
    (hother : ∀ m, P (run.state m) → ¬ run.ActsAt mine m →
      P (run.state (m + 1)) ∧ distance (run.state (m + 1)) = distance (run.state m))
    (hmine : ∀ m a, P (run.state m) → mine a → run.act m = some a →
      goal (run.state m) a ∨
        (P (run.state (m + 1)) ∧ distance (run.state (m + 1)) < distance (run.state m)))
    {n : ℕ} (hn : P (run.state n)) :
    ∃ m a, n ≤ m ∧ run.act m = some a ∧ goal (run.state m) a := by
  suffices hall : ∀ d n, P (run.state n) → distance (run.state n) = d →
      ∃ m a, n ≤ m ∧ run.act m = some a ∧ goal (run.state m) a from hall _ n hn rfl
  intro d
  induction d using Nat.strong_induction_on with
  | _ d ih =>
      intro n hn hd
      obtain ⟨m, hm, ⟨a, ha, hact⟩, huntil⟩ := acts_of_enabled hfair
        (fun s => P s ∧ distance s = d) (fun s hs => henabled s hs.1)
        (fun k hk hno => ⟨(hother k hk.1 hno).1, (hother k hk.1 hno).2.trans hk.2⟩) ⟨hn, hd⟩
      obtain ⟨hP, hdistance⟩ := huntil m hm le_rfl
      rcases hmine m a hP ha hact with hgoal | ⟨hP', hless⟩
      · exact ⟨m, a, hm, hact, hgoal⟩
      · obtain ⟨m', a', hm', hact', hgoal⟩ := ih _ (hdistance ▸ hless) (m + 1) hP' rfl
        exact ⟨m', a', by omega, hact', hgoal⟩

/-! ## Runs from a script -/

/-- The state after a list of actions; one that is not possible is passed over. -/
def after (step : σ → α → Option σ) (s : σ) (script : List α) : σ :=
  script.foldl (fun s a => (step s a).getD s) s

/-- Every action of a script is possible in its turn. -/
def Playable (step : σ → α → Option σ) (s : σ) (script : List α) : Prop :=
  (script.foldlM step s).isSome

instance (step : σ → α → Option σ) (s : σ) (script : List α) :
    Decidable (Playable step s script) :=
  inferInstanceAs (Decidable (_ = true))

theorem Playable.step_eq {s : σ} {done rest : List α} {a : α}
    (h : Playable step s (done ++ a :: rest)) :
    step (after step s done) a = some (after step s (done ++ [a])) := by
  induction done generalizing s with
  | nil =>
      unfold Playable at h
      rw [List.nil_append, List.foldlM_cons] at h
      change step s a = some ((step s a).getD s)
      cases hstep : step s a with
      | none =>
          rw [hstep] at h
          cases h
      | some s' => rfl
  | cons b done ih =>
      unfold Playable at h
      rw [List.cons_append, List.foldlM_cons] at h
      cases hstep : step s b with
      | none =>
          rw [hstep] at h
          cases h
      | some s' =>
          rw [hstep] at h
          have hafter : ∀ script, after step s (b :: script) = after step s' script := by
            intro script
            change after step ((step s b).getD s) script = _
            rw [hstep, Option.getD_some]
          rw [List.cons_append, hafter, hafter]
          exact ih h

/-- Play a script; nothing happens after its end. -/
def play (step : σ → α → Option σ) (s : σ) (script : List α) (h : Playable step s script) :
    Behaviour step where
  state n := after step s (script.take n)
  act n := script[n]?
  next_none := by
    intro n hnone
    have hlength : script.length ≤ n := List.getElem?_eq_none_iff.mp hnone
    rw [List.take_of_length_le hlength, List.take_of_length_le (by omega)]
  next_some := by
    intro n a hsome
    obtain ⟨hn, rfl⟩ := List.getElem?_eq_some_iff.mp hsome
    have hsplit : script.take n ++ script[n] :: script.drop (n + 1) = script := by
      rw [List.getElem_cons_drop, List.take_append_drop]
    rw [List.take_add_one, hsome]
    exact (hsplit ▸ h : Playable step s (script.take n ++ script[n] :: _)).step_eq

/-- A process that is not able to act after the script is treated fairly. -/
theorem play_fair {s : σ} {script : List α} {h : Playable step s script}
    (hquiet : ¬ Enabled step mine (after step s script)) :
    (play step s script h).WeaklyFair mine := by
  intro n henabled
  refine absurd (henabled (max n script.length) (Nat.le_max_left ..)) ?_
  change ¬ Enabled step mine (after step s (script.take (max n script.length)))
  rw [List.take_of_length_le (Nat.le_max_right ..)]
  exact hquiet

end Behaviour

end Ngsm.Lib
