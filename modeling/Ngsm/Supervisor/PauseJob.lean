/-
# Does an applied pause cover the job?

Here the members are real: between any two questions the running ones may spawn
further members or exit, and a suspended one does neither spawn nor run.  A listing
reads the members of the job at one instant and then pins them one by one, so a
member may be gone before it is pinned, and a member that spawned a child after the
listing may be gone before it is suspended.  Nobody then looks for the child: a pass
that only met exited members adds nobody and counts as quiet.

Where the spawner stays the stopping rule is right: it is suspended in the same pass,
which therefore is not quiet, and the next listing has the child.
-/

import Ngsm.Supervisor.PauseState

namespace Ngsm.Supervisor

open Ngsm.Lib

inductive JobMove where
  | spawn (parent : Nat)
  | exit (member : Nat)

/-- What happens before one question, and its answers. -/
structure JobTurn where
  moves : List JobMove := []
  fault : Option String := none
  cancelled : Bool := false
  now : Nat := 0

/-- What the members did, and when they were listed. -/
inductive JobEvent where
  | listed
  | spawned (parent child : Nat)
  | exited (member : Nat)
deriving DecidableEq

/-- The job.  A new member gets the next identity; the ghost field `history` is what
has happened since the call began, the newest first. -/
structure Job where
  turns : List JobTurn := []
  live : List Nat := []
  held : Nat → Bool := fun _ => false
  next : Nat := 0
  history : List JobEvent := []

namespace Job

def spawned (j : Job) (parent : Nat) : Job :=
  { j with
    live := j.live ++ [j.next]
    next := j.next + 1
    history := .spawned parent j.next :: j.history }

def exited (j : Job) (member : Nat) : Job :=
  { j with live := j.live.filter (· ≠ member), history := .exited member :: j.history }

/-- A running member spawns, a live one exits. -/
def move (j : Job) : JobMove → Job
  | .spawn parent =>
      if parent ∈ j.live ∧ j.held parent = false then j.spawned parent else j
  | .exit member => if member ∈ j.live then j.exited member else j

def advance (j : Job) : JobTurn × Job :=
  match j.turns with
  | [] => ({}, j)
  | turn :: rest => (turn, turn.moves.foldl move { j with turns := rest })

/-- A call on the job: it fails, or does `body`. -/
def call {α : Type} (body : Job → α × Job) : Prog Job String α :=
  Prog.step fun j =>
    let (turn, j) := j.advance
    match turn.fault with
    | some error => (.error error, j)
    | none =>
        let (answer, j) := body j
        (.ok answer, j)

/-- `QueryInformationJobObject`: the members at this instant. -/
def processIds : Prog Job String (List Nat) :=
  call fun j => (j.live, { j with history := .listed :: j.history })

/-- `pin_member`: a member that has exited is left out. -/
def pinMembers : List Nat → Prog Job String (List Nat)
  | [] => pure []
  | id :: ids => do
      let pinned ← call fun j => (decide (id ∈ j.live), j)
      let rest ← pinMembers ids
      return if pinned then id :: rest else rest

def members : Prog Job String (List Nat) := do
  pinMembers (← processIds)

/-- `change_suspension`: nothing is applied to a member that has exited. -/
def changeSuspension (suspended : Bool) (process : Nat) : Prog Job String Bool :=
  call fun j =>
    if process ∈ j.live then
      (true, { j with held := Function.update j.held process suspended })
    else
      (false, j)

def isRunning (process : Nat) : Prog Job String Bool :=
  call fun j => (decide (process ∈ j.live), j)

def interface : Control Job where
  members := members
  running := isRunning
  suspend := changeSuspension true
  resume := changeSuspension false
  cancelled j := (j.advance.1.cancelled, j.advance.2)
  now j := (j.advance.1.now, j.advance.2)

/-! ## What time does to an assertion -/

/-- An assertion that survives the moves of the job and does not look at the
schedule. -/
structure Lasting (P : Job → Prop) : Prop where
  move : ∀ j move, P j → P (Job.move j move)
  turns : ∀ j turns, P j → P { j with turns }

variable {P : Job → Prop} {j : Job}

theorem Lasting.advance (hP : Lasting P) (h : P j) : P j.advance.2 := by
  unfold Job.advance
  split
  · exact h
  · rename_i turn rest _
    exact List.foldlRecOn turn.moves Job.move (hP.turns j rest h)
      fun j h move _ => hP.move j move h

theorem wp_call {α : Type} {body : Job → α × Job} {Q : α → Job → Prop} {R : String → Job → Prop}
    (hP : Lasting P) (h : P j) (hbody : ∀ j, P j → Q (body j).1 (body j).2)
    (hfail : ∀ error j, P j → R error j) : (call body).wp Q R j := by
  unfold call
  rw [Prog.wp_step]
  have hlater := hP.advance h
  cases hturn : j.advance with
  | mk turn j' =>
      rw [hturn] at hlater
      simp only
      cases turn.fault with
      | some error => exact hfail error j' hlater
      | none => exact hbody j' hlater

open PauseState
open Prog (Keeps)

theorem Lasting.stable {f : Pausing Job → Job → Prop} (hf : ∀ p, Lasting (f p))
    (hsame : ∀ p w, f { p with world := w } = f p) : Stable interface fun p => f p p.world := by
  constructor
  · intro p h
    simp only [hsame]
    exact (hf p).advance h
  · intro p h
    simp only [hsame]
    exact (hf p).advance h

/-! ## The moves of a pass -/

/-- What the members did since they were last listed, the newest first. -/
def lastPass (history : List JobEvent) : List JobEvent :=
  history.takeWhile (· ≠ .listed)

@[simp] theorem lastPass_listed (history : List JobEvent) :
    lastPass (.listed :: history) = [] := by
  simp [lastPass]

@[simp] theorem lastPass_spawned (parent child : Nat) (history : List JobEvent) :
    lastPass (.spawned parent child :: history) = .spawned parent child :: lastPass history := by
  simp [lastPass]

@[simp] theorem lastPass_exited (member : Nat) (history : List JobEvent) :
    lastPass (.exited member :: history) = .exited member :: lastPass history := by
  simp [lastPass]

/-- Born since the last listing. -/
def Late (j : Job) (m : Nat) : Prop :=
  ∃ parent, .spawned parent m ∈ lastPass j.history

/-- Gone since the last listing. -/
def Gone (j : Job) (m : Nat) : Prop :=
  .exited m ∈ lastPass j.history

/-- A member that spawned in this pass and exited has left no child behind. -/
def NoOrphan (pass : List JobEvent) : Prop :=
  ∀ parent child, .spawned parent child ∈ pass → .exited parent ∈ pass → .exited child ∈ pass

/-- Time changes an assertion by one member that spawns or exits. -/
theorem lasting_of_moves
    (hspawned : ∀ j parent, P j → parent ∈ j.live → j.held parent = false → P (j.spawned parent))
    (hexited : ∀ j member, P j → member ∈ j.live → P (j.exited member))
    (hturns : ∀ j turns, P j → P { j with turns }) : Lasting P := by
  refine ⟨fun j move h => ?_, hturns⟩
  cases move with
  | spawn parent =>
      by_cases hspawns : parent ∈ j.live ∧ j.held parent = false
      · simpa only [Job.move, if_pos hspawns] using hspawned j parent h hspawns.1 hspawns.2
      · simpa only [Job.move, if_neg hspawns] using h
  | exit member =>
      by_cases hlive : member ∈ j.live
      · simpa only [Job.move, if_pos hlive] using hexited j member h hlive
      · simpa only [Job.move, if_neg hlive] using h

theorem mem_live_spawned {parent m : Nat} :
    m ∈ (j.spawned parent).live ↔ m ∈ j.live ∨ m = j.next := by
  simp [spawned]

theorem mem_live_exited {member m : Nat} :
    m ∈ (j.exited member).live ↔ m ∈ j.live ∧ m ≠ member := by
  simp [exited]

theorem late_spawned {parent m : Nat} : Late (j.spawned parent) m ↔ m = j.next ∨ Late j m := by
  simp [Late, spawned, exists_or]

theorem late_exited {member m : Nat} : Late (j.exited member) m ↔ Late j m := by
  simp [Late, exited]

theorem gone_spawned {parent m : Nat} : Gone (j.spawned parent) m ↔ Gone j m := by
  simp [Gone, spawned]

theorem gone_exited {member m : Nat} : Gone (j.exited member) m ↔ m = member ∨ Gone j m := by
  simp [Gone, exited]

/-! ## Covered members -/

/-- The members of `claimed` are old enough, and the live ones among them are
suspended, but for those that remain to be. -/
structure Holding (claimed remaining : List Nat) (j : Job) : Prop where
  known : ∀ m ∈ j.live, m < j.next
  older : ∀ m ∈ claimed, m < j.next ∧ ¬ Late j m
  held : ∀ m ∈ claimed, m ∈ j.live → j.held m = true ∨ m ∈ remaining

/-- Moreover every live member is claimed, in the rest of the snapshot, or born
after it. -/
structure Covers (claimed rest : List Nat) (j : Job) : Prop where
  holding : Holding claimed [] j
  older : ∀ m ∈ rest, m < j.next ∧ ¬ Late j m
  cover : ∀ m ∈ j.live, m ∈ claimed ∨ m ∈ rest ∨ Late j m

/-- Who had a part in the pass is there still, or gone in it; nobody claimed has
spawned. -/
structure Lineage (claimed : List Nat) (j : Job) : Prop where
  gone : ∀ m, Gone j m → m < j.next ∧ m ∉ j.live
  born : ∀ parent child, .spawned parent child ∈ lastPass j.history →
    parent ∉ claimed ∧ parent < child ∧ (parent ∈ j.live ∨ Gone j parent) ∧
      (child ∈ j.live ∨ Gone j child)

/-- Where a pass stands: as long as it has added nobody, the members that are claimed
have been suspended since its listing. -/
structure Passing (claimed : List Nat) (added : Bool) (rest : List Nat) (j : Job) : Prop where
  covers : Covers claimed rest j
  lineage : added = false → Lineage claimed j

variable {claimed remaining rest : List Nat} {added : Bool}

/-- The number of a new member is nobody's. -/
theorem older_of_spawned {parent m : Nat} (h : m < j.next ∧ ¬ Late j m) :
    m < j.next + 1 ∧ ¬ Late (j.spawned parent) m := by
  refine ⟨by omega, fun hlate => ?_⟩
  rcases late_spawned.mp hlate with hnew | hlate
  · omega
  · exact h.2 hlate

theorem older_of_exited {member m : Nat} (h : m < j.next ∧ ¬ Late j m) :
    m < j.next ∧ ¬ Late (j.exited member) m :=
  ⟨h.1, fun hlate => h.2 (late_exited.mp hlate)⟩

theorem lasting_holding (claimed remaining : List Nat) : Lasting (Holding claimed remaining) := by
  apply lasting_of_moves
  · intro j parent h _ _
    refine ⟨fun m hm => ?_, fun m hm => older_of_spawned (h.older m hm), fun m hm hlive => ?_⟩
    · rcases mem_live_spawned.mp hm with hm | rfl
      · exact Nat.lt_succ_of_lt (h.known m hm)
      · exact Nat.lt_succ_self _
    · rcases mem_live_spawned.mp hlive with hlive | rfl
      · exact h.held m hm hlive
      · exact absurd (h.older _ hm).1 (Nat.lt_irrefl _)
  · intro j member h _
    refine ⟨fun m hm => h.known m (mem_live_exited.mp hm).1, fun m hm => ?_, fun m hm hlive => ?_⟩
    · exact older_of_exited (h.older m hm)
    · exact h.held m hm (mem_live_exited.mp hlive).1
  · exact fun j turns h => ⟨h.known, h.older, h.held⟩

theorem lasting_covers (claimed rest : List Nat) : Lasting (Covers claimed rest) := by
  apply lasting_of_moves
  · intro j parent h hlive hheld
    have hholding := (lasting_holding claimed []).move j (.spawn parent) h.holding
    simp only [Job.move, if_pos (And.intro hlive hheld)] at hholding
    refine ⟨hholding, fun m hm => older_of_spawned (h.older m hm), fun m hm => ?_⟩
    rw [late_spawned]
    rcases mem_live_spawned.mp hm with hm | hnew
    · exact (h.cover m hm).imp_right (.imp_right .inr)
    · exact .inr (.inr (.inl hnew))
  · intro j member h hlive
    have hholding := (lasting_holding claimed []).move j (.exit member) h.holding
    simp only [Job.move, if_pos hlive] at hholding
    refine ⟨hholding, fun m hm => older_of_exited (h.older m hm), fun m hm => ?_⟩
    rw [late_exited]
    exact h.cover m (mem_live_exited.mp hm).1
  · exact fun j turns h => ⟨⟨h.holding.known, h.holding.older, h.holding.held⟩, h.older, h.cover⟩

/-- A member that spawns is not claimed, since those are suspended. -/
theorem Lineage.spawned {parent : Nat} (h : Lineage claimed j) (hholding : Holding claimed [] j)
    (hlive : parent ∈ j.live) (hheld : j.held parent = false) :
    Lineage claimed (j.spawned parent) := by
  constructor
  · intro m hgone
    have hold := h.gone m (gone_spawned.mp hgone)
    refine ⟨Nat.lt_succ_of_lt hold.1, fun hin => ?_⟩
    rcases mem_live_spawned.mp hin with hin | rfl
    · exact hold.2 hin
    · exact absurd hold.1 (Nat.lt_irrefl _)
  · intro parent' child hborn
    simp only [mem_live_spawned, gone_spawned]
    simp only [Job.spawned, lastPass_spawned, List.mem_cons, JobEvent.spawned.injEq] at hborn
    rcases hborn with ⟨rfl, rfl⟩ | hborn
    · refine ⟨fun hclaimed => ?_, hholding.known _ hlive, .inl (.inl hlive), .inl (.inr rfl)⟩
      rcases hholding.held _ hclaimed hlive with hsuspended | hnone
      · rw [hheld] at hsuspended
        cases hsuspended
      · cases hnone
    · obtain ⟨hfree, hlt, hparent, hchild⟩ := h.born parent' child hborn
      exact ⟨hfree, hlt, hparent.imp_left .inl, hchild.imp_left .inl⟩

/-- A member that exits is gone in this pass. -/
theorem Lineage.exited {member : Nat} (h : Lineage claimed j) (hholding : Holding claimed [] j)
    (hlive : member ∈ j.live) : Lineage claimed (j.exited member) := by
  have hstays : ∀ m, m ∈ j.live ∨ Gone j m →
      m ∈ (j.exited member).live ∨ Gone (j.exited member) m := by
    intro m hm
    rw [mem_live_exited, gone_exited]
    by_cases heq : m = member
    · exact .inr (.inl heq)
    · exact hm.imp (fun hin => ⟨hin, heq⟩) .inr
  constructor
  · intro m hgone
    rw [mem_live_exited]
    rcases gone_exited.mp hgone with rfl | hgone
    · exact ⟨hholding.known m hlive, fun hin => hin.2 rfl⟩
    · exact ⟨(h.gone m hgone).1, fun hin => (h.gone m hgone).2 hin.1⟩
  · intro parent child hborn
    simp only [Job.exited, lastPass_exited, List.mem_cons, reduceCtorEq, false_or] at hborn
    obtain ⟨hfree, hlt, hparent, hchild⟩ := h.born parent child hborn
    exact ⟨hfree, hlt, hstays parent hparent, hstays child hchild⟩

theorem lasting_passing (claimed : List Nat) (added : Bool) (rest : List Nat) :
    Lasting (Passing claimed added rest) := by
  apply lasting_of_moves
  · intro j parent h hlive hheld
    have hcovers := (lasting_covers claimed rest).move j (.spawn parent) h.covers
    simp only [Job.move, if_pos (And.intro hlive hheld)] at hcovers
    exact ⟨hcovers, fun hnone => (h.lineage hnone).spawned h.covers.holding hlive hheld⟩
  · intro j member h hlive
    have hcovers := (lasting_covers claimed rest).move j (.exit member) h.covers
    simp only [Job.move, if_pos hlive] at hcovers
    exact ⟨hcovers, fun hnone => (h.lineage hnone).exited h.covers.holding hlive⟩
  · intro j turns h
    refine ⟨(lasting_covers claimed rest).turns j turns h.covers, fun hnone => ?_⟩
    exact ⟨(h.lineage hnone).gone, (h.lineage hnone).born⟩

/-- In a pass that added nobody and is through, whoever spawned is gone or was itself
born in this pass. -/
theorem Passing.parent_late (h : Passing claimed false [] j) {parent child : Nat}
    (hborn : .spawned parent child ∈ lastPass j.history) : Gone j parent ∨ Late j parent := by
  obtain ⟨hfree, -, hlive | hgone, -⟩ := (h.lineage rfl).born parent child hborn
  · rcases h.covers.cover parent hlive with hclaimed | hnone | hlate
    · exact absurd hclaimed hfree
    · cases hnone
    · exact .inr hlate
  · exact .inl hgone

/-- A quiet pass covers the job exactly when nobody who spawned in it and exited has
left a child behind. -/
theorem Passing.all_iff (h : Passing claimed false [] j) :
    (∀ m ∈ j.live, m ∈ claimed ∧ j.held m = true) ↔ NoOrphan (lastPass j.history) := by
  constructor
  · intro hall parent child hborn _
    obtain ⟨-, -, -, hlive | hgone⟩ := (h.lineage rfl).born parent child hborn
    · exact absurd ⟨parent, hborn⟩ (h.covers.holding.older child (hall child hlive).1).2
    · exact hgone
  · intro hnone
    -- by induction on the identities, since a parent is older than its children
    have hlate : ∀ m, Late j m → m ∉ j.live := by
      intro m
      induction m using Nat.strongRecOn with
      | ind m ih =>
          rintro ⟨parent, hborn⟩
          obtain ⟨-, hlt, hparent, -⟩ := (h.lineage rfl).born parent m hborn
          have hgone : Gone j parent := by
            rcases h.parent_late hborn with hgone | hlate
            · exact hgone
            · exact hparent.resolve_left (ih parent hlt hlate)
          exact ((h.lineage rfl).gone m (hnone parent m hborn hgone)).2
    intro m hlive
    rcases h.covers.cover m hlive with hin | hin | hin
    · exact ⟨hin, (h.covers.holding.held m hin hlive).resolve_right List.not_mem_nil⟩
    · exact absurd hin List.not_mem_nil
    · exact absurd hlive (hlate m hin)

/-! ## The calls -/

/-- A snapshot begins a pass. -/
theorem Holding.listed (h : Holding claimed [] j) :
    Passing claimed false j.live { j with history := .listed :: j.history } := by
  have hnew : ∀ m, ¬ Late { j with history := .listed :: j.history } m := by
    simp [Late]
  refine ⟨⟨⟨h.known, fun m hm => ⟨(h.older m hm).1, hnew m⟩, h.held⟩,
    fun m hm => ⟨h.known m hm, hnew m⟩, fun m hm => .inr (.inl hm)⟩, fun _ => ⟨?_, ?_⟩⟩
  · simp [Gone]
  · simp

/-- Who is not there any more need not be looked for. -/
theorem Covers.skip {process : Nat} {ids : List Nat} (pinned : List Nat)
    (h : Covers claimed (pinned ++ process :: ids) j)
    (hdone : process ∈ claimed ∨ process ∉ j.live) : Covers claimed (pinned ++ ids) j := by
  refine ⟨h.holding, fun m hm => h.older m ?_, fun m hm => ?_⟩
  · rcases List.mem_append.mp hm with hm | hm
    · exact List.mem_append_left _ hm
    · exact List.mem_append_right _ (List.mem_cons_of_mem _ hm)
  · rcases h.cover m hm with hin | hin | hin
    · exact .inl hin
    · rcases List.mem_append.mp hin with hin | hin
      · exact .inr (.inl (List.mem_append_left _ hin))
      · rcases List.mem_cons.mp hin with rfl | hin
        · exact .inl (hdone.resolve_right fun hgone => hgone hm)
        · exact .inr (.inl (List.mem_append_right _ hin))
    · exact .inr (.inr hin)

theorem wp_pinMembers {R : String → Job → Prop} (pinned ids : List Nat)
    (h : Passing claimed false (pinned ++ ids) j)
    (hfail : ∀ error j, Holding claimed [] j → R error j) :
    (pinMembers ids).wp (fun found => Passing claimed false (pinned ++ found)) R j := by
  induction ids generalizing pinned j with
  | nil => exact h
  | cons id ids ih =>
      unfold pinMembers
      rw [Prog.wp_bind]
      refine wp_call (lasting_passing claimed false (pinned ++ id :: ids)) h (fun j' h' => ?_)
        fun error j' h' => hfail error j' h'.covers.holding
      rw [Prog.wp_bind]
      by_cases hlive : id ∈ j'.live
      · simp only [hlive, decide_true, if_true]
        refine Prog.wp_mono _ (fun found j'' h'' => ?_) (fun _ _ hR => hR)
          (ih (pinned ++ [id]) (by simpa using h'))
        simpa using h''
      · simp only [hlive, decide_false, Bool.false_eq_true, if_false]
        exact ih pinned ⟨h'.covers.skip pinned (.inr hlive), h'.lineage⟩

/-- A snapshot covers the job again, whatever has happened before. -/
theorem wp_members {R : String → Job → Prop} (h : Holding claimed [] j)
    (hfail : ∀ error j, Holding claimed [] j → R error j) :
    members.wp (Passing claimed false) R j := by
  unfold members processIds
  rw [Prog.wp_bind]
  refine wp_call (lasting_holding claimed []) h (fun j' h' => ?_) hfail
  exact wp_pinMembers [] j'.live h'.listed hfail

/-- A member that was suspended is claimed. -/
theorem Covers.claim {process : Nat} (h : Covers claimed (process :: rest) j) :
    Covers (claimed ++ [process]) rest
      { j with held := Function.update j.held process true } := by
  refine ⟨⟨h.holding.known, fun m hm => ?_, fun m hm hlive => .inl ?_⟩,
    fun m hm => h.older m (List.mem_cons_of_mem _ hm), fun m hm => ?_⟩
  · rcases List.mem_append.mp hm with hm | hm
    · exact h.holding.older m hm
    · exact h.older m (by simp [List.mem_singleton.mp hm])
  · by_cases heq : m = process
    · subst heq
      simp
    · rcases List.mem_append.mp hm with hm | hm
      · simpa [Function.update_of_ne heq] using h.holding.held m hm hlive
      · exact absurd (List.mem_singleton.mp hm) heq
  · rcases h.cover m hm with hin | hin | hin
    · exact .inl (List.mem_append_left _ hin)
    · rcases List.mem_cons.mp hin with rfl | hin
      · exact .inl (by simp)
      · exact .inr (.inl hin)
    · exact .inr (.inr hin)

/-- One member of the snapshot: it is suspended and the pass has added somebody, or it
has exited. -/
theorem wp_suspend {process : Nat} {Q : Bool → Job → Prop} {R : String → Job → Prop}
    (h : Passing claimed added (process :: rest) j)
    (happlied : ∀ j, Passing (claimed ++ [process]) true rest j → Q true j)
    (hexited : ∀ j, Passing claimed added rest j → Q false j)
    (hfail : ∀ error j, Holding claimed [] j → R error j) :
    (changeSuspension true process).wp Q R j := by
  refine wp_call (lasting_passing claimed added (process :: rest)) h (fun j' h' => ?_)
    fun error j' h' => hfail error j' h'.covers.holding
  by_cases hlive : process ∈ j'.live
  · simp only [if_pos hlive]
    exact happlied _ ⟨h'.covers.claim, nofun⟩
  · simp only [if_neg hlive]
    exact hexited _ ⟨h'.covers.skip [] (.inr hlive), h'.lineage⟩

theorem Holding.drop {process : Nat} (h : Holding claimed (process :: remaining) j)
    (hdone : process ∉ j.live ∨ j.held process = true) : Holding claimed remaining j := by
  refine ⟨h.known, h.older, fun m hm hlive => ?_⟩
  rcases h.held m hm hlive with hheld | hin
  · exact .inl hheld
  · rcases List.mem_cons.mp hin with rfl | hin
    · exact .inl (hdone.resolve_left fun hgone => hgone hlive)
    · exact .inr hin

/-- Suspending again what is open. -/
theorem wp_resuspend {process : Nat} {R : String → Job → Prop}
    (h : Holding claimed (process :: remaining) j) (hfail : ∀ error j, R error j) :
    (changeSuspension true process).wp (fun _ => Holding claimed remaining) R j := by
  refine wp_call (lasting_holding claimed (process :: remaining)) h (fun j' h' => ?_)
    fun error j' _ => hfail error j'
  by_cases hlive : process ∈ j'.live
  · simp only [if_pos hlive]
    refine ⟨h'.known, h'.older, fun m hm hm' => ?_⟩
    by_cases heq : m = process
    · subst heq
      exact .inl (by simp)
    · rcases h'.held m hm hm' with hheld | hin
      · exact .inl (by simpa [Function.update_of_ne heq] using hheld)
      · exact .inr ((List.mem_cons.mp hin).resolve_left heq)
  · simp only [if_neg hlive]
    exact h'.drop (.inl hlive)

/-- A resumed member is open. -/
theorem wp_release {process : Nat} {Q : Bool → Job → Prop} {R : String → Job → Prop}
    (h : Holding claimed remaining j)
    (happlied : ∀ j, Holding claimed (remaining ++ [process]) j → Q true j)
    (hexited : ∀ j, Holding claimed remaining j → Q false j)
    (hfail : ∀ error j, Holding claimed remaining j → R error j) :
    (changeSuspension false process).wp Q R j := by
  refine wp_call (lasting_holding claimed remaining) h (fun j' h' => ?_) hfail
  by_cases hlive : process ∈ j'.live
  · simp only [if_pos hlive]
    refine happlied _ ⟨h'.known, h'.older, fun m hm hm' => ?_⟩
    by_cases heq : m = process
    · exact .inr (by simp [heq])
    · rcases h'.held m hm hm' with hheld | hin
      · exact .inl (by simpa [Function.update_of_ne heq] using hheld)
      · exact .inr (List.mem_append_left _ hin)
  · simp only [if_neg hlive]
    exact hexited _ h'

/-! ## A pause and a continue -/

theorem stable_holding (claimed remaining : Pausing Job → List Nat)
    (hclaimed : ∀ p w, claimed { p with world := w } = claimed p)
    (hremaining : ∀ p w, remaining { p with world := w } = remaining p) :
    Stable interface fun p => Holding (claimed p) (remaining p) p.world :=
  Lasting.stable (f := fun p => Holding (claimed p) (remaining p))
    (fun p => lasting_holding _ _) fun p w => by rw [hclaimed, hremaining]

theorem stable_passing (claimed : Pausing Job → List Nat)
    (hclaimed : ∀ p w, claimed { p with world := w } = claimed p) (added : Bool)
    (rest : List Nat) : Stable interface fun p => Passing (claimed p) added rest p.world :=
  Lasting.stable (f := fun p => Passing (claimed p) added rest)
    (fun p => lasting_passing _ _ _) fun p w => by rw [hclaimed]

theorem stable_true : Stable interface fun _ : Pausing Job => True :=
  ⟨fun _ _ => trivial, fun _ _ => trivial⟩

/-- A pause that is applied ends with a quiet pass. -/
theorem wp_pauseSettles {p : Pausing Job} (hknown : ∀ m ∈ p.world.live, m < p.world.next) :
    (pauseMembers interface).wp
      (fun outcome p => outcome = .applied → Passing p.state.owned false [] p.world)
      (fun _ _ => False) p := by
  refine wp_pauseMembers (I := fun p => Holding p.changed [] p.world)
    (J := fun p => Passing p.changed false [] p.world) (U := fun _ => True) (D := fun _ => True)
    (stable_holding (·.changed) (fun _ => []) (fun _ _ => rfl) fun _ _ => rfl) stable_true
    stable_true ?_ ?_ ?_ (fun p hp _ => hp) ?_ ?_
  · exact ⟨hknown, nofun, nofun⟩
  · intro deadline passes p hp
    refine wp_suspendPasses (K := fun added rest p => Passing p.changed added rest p.world)
      (stable_holding (·.changed) (fun _ => []) (fun _ _ => rfl) fun _ _ => rfl)
      (stable_passing (·.changed) fun _ _ => rfl) (fun _ _ _ h => h.covers.holding) ?_ ?_ ?_
      deadline passes hp
    · intro p hp
      rw [wp_onWorld]
      exact wp_members hp fun _ _ h => h
    · intro added process rest p hp hin
      exact ⟨hp.covers.skip [] (.inl hin), hp.lineage⟩
    · intro added process rest p hp _
      rw [wp_onWorld]
      exact wp_suspend hp (fun _ h => h) (fun _ h => h) fun _ _ h => h
  · exact fun deadline p _ => Prog.wp_of_forall _ (fun _ _ => trivial) fun _ _ => trivial
  · rintro outcome p - hundone rfl
    rcases hundone with hundone | ⟨error, hundone⟩ <;> cases hundone
  · rintro message p - ⟨⟩

/-- A continue that was undone ends with a quiet pass as well. -/
theorem wp_resumeSettles {p : Pausing Job} (h : Holding p.state.owned [] p.world) :
    (resumeOwned interface).wp
      (fun outcome p => Undone outcome → Passing p.state.owned false [] p.world)
      (fun _ _ => False) p := by
  have hheld : Stable interface fun p : Pausing Job => Holding p.state.owned [] p.world :=
    stable_holding (·.state.owned) (fun _ => []) (fun _ _ => rfl) fun _ _ => rfl
  have hpassing : ∀ added rest, Stable interface fun p : Pausing Job =>
      Passing p.state.owned added rest p.world :=
    stable_passing (·.state.owned) fun _ _ => rfl
  have hopen : Stable interface fun p : Pausing Job =>
      Holding p.state.owned p.changed p.world :=
    stable_holding (·.state.owned) (·.changed) (fun _ _ => rfl) fun _ _ => rfl
  refine wp_resumeOwned (I := fun p => Holding p.state.owned p.changed p.world)
    (J := fun _ => True) (M := fun p => Holding p.state.owned [] p.world)
    (U := fun p => Passing p.state.owned false [] p.world) (D := fun _ => True) hopen
    (hpassing false []) stable_true h ?_ ?_ ?_ ?_ (fun _ p hp _ _ => hp) ?_
  · intro deadline p hp _
    refine Prog.wp_mono _ (fun _ _ _ => trivial) (fun _ _ h' => h')
      (wp_resumeMembers (K := fun _ p => Holding p.state.owned p.changed p.world)
        (fun _ => hopen) (fun _ _ h => h) ?_ deadline hp)
    intro process rest p hp
    rw [wp_onWorld]
    exact wp_release hp (fun _ h => h) (fun _ h => h) fun _ _ h => h
  · intro deadline p hp
    refine wp_rollbackUntil (I := fun _ => True)
      (K := fun rest p => Holding p.state.owned rest p.world) stable_true
      (fun rest => stable_holding (·.state.owned) (fun _ => rest) (fun _ _ => rfl) fun _ _ => rfl)
      (fun _ _ _ => trivial) ?_ ?_ ?_ ?_ p.changed deadline ?_
    · intro process rest p hp
      rw [wp_onWorld]
      change (isRunning process).wp _ _ _
      refine wp_call (lasting_holding p.state.owned (process :: rest)) hp (fun j' h' => ?_)
        fun _ _ h' => h'
      by_cases hlive : process ∈ j'.live
      · simpa [hlive] using h'
      · simpa [hlive] using h'.drop (.inl hlive)
    · intro process rest p hp
      rw [wp_onWorld]
      exact wp_resuspend hp fun _ _ => trivial
    · exact fun process p _ => Prog.wp_of_forall _ (fun _ _ => trivial) fun _ _ => trivial
    · exact fun process p _ => Prog.wp_of_forall _ (fun _ _ => trivial) fun _ _ => trivial
    · exact ⟨hp.known, hp.older, fun m hm hlive => (hp.held m hm hlive).imp_right (by simp)⟩
  · intro deadline p hp
    refine Prog.wp_mono _ (fun _ _ h' => h') (fun _ _ _ => trivial)
      (wp_restorePausedMembers (I := fun p => Holding p.state.owned [] p.world)
        (K := fun added rest p => Passing p.state.owned added rest p.world) hheld hpassing
        (fun _ _ _ h => h.covers.holding) ?_ ?_ ?_ deadline 0 maxMemberPasses hp)
    · intro p hp
      rw [wp_onWorld]
      exact wp_members hp fun _ _ h => h
    · intro added process rest p hp hin
      exact ⟨hp.covers.skip [] (.inl hin), hp.lineage⟩
    · intro added process rest p hp _
      rw [wp_onWorld]
      exact wp_suspend hp (fun _ h => h) (fun _ h => h) fun _ _ h => h
  · rintro p - hundone
    rcases hundone with hundone | ⟨error, hundone⟩ <;> cases hundone
  · rintro message p - hundone
    rcases hundone with hundone | ⟨error, hundone⟩ <;> cases hundone

/-! ## The guarantee -/

/-- Every live member is suspended by this state. -/
def AllSuspended (p : Pausing Job) : Prop :=
  ∀ m ∈ p.world.live, m ∈ p.state.owned ∧ p.world.held m = true

/-- The identities in use have been given out, and nothing has happened yet. -/
structure Identified (p : Pausing Job) : Prop where
  live : ∀ m ∈ p.world.live, m < p.world.next
  owned : ∀ m ∈ p.state.owned, m < p.world.next
  started : p.world.history = []

/-- A call that pauses, or that answers for a pause it leaves in place. -/
structure Claims (pause : Bool) (p : Pausing Job) (outcome : TransitionOutcome) : Prop where
  pauses : pause = true → p.state.paused = false ∧ outcome = .applied
  continues : pause = false → p.state.paused = true ∧ AllSuspended p ∧ Undone outcome

/-- Both end in a pass that has added nobody. -/
theorem change_settles {p p' : Pausing Job} {pause : Bool} {outcome : TransitionOutcome}
    (hp : Identified p) (hexec : (change interface pause).exec p = (.ok outcome, p'))
    (hclaims : Claims pause p outcome) : Passing p'.state.owned false [] p'.world := by
  cases pause with
  | true =>
      obtain ⟨hpaused, hdone⟩ := hclaims.pauses rfl
      refine Prog.wp_ok (Q := fun outcome p' => outcome = .applied →
        Passing p'.state.owned false [] p'.world) (R := fun _ _ => False) _ ?_ hexec hdone
      have hstart : Stable interface fun p : Pausing Job =>
          Holding [] [] p.world ∧ p.state.paused = false := by
        have hholding := stable_holding (fun _ => []) (fun _ => []) (fun _ _ => rfl) fun _ _ => rfl
        exact ⟨fun p h => ⟨hholding.cancelled p h.1, h.2⟩, fun p h => ⟨hholding.now p h.1, h.2⟩⟩
      refine wp_change hstart true ⟨⟨hp.live, nofun, nofun⟩, hpaused⟩ ?_ ?_ ?_ ?_
      · rintro p - ⟨⟩
      · rintro p ⟨-, hnot⟩ hsame
        rw [hnot] at hsame
        cases hsame
      · rintro - p ⟨hholding, -⟩ -
        exact wp_pauseSettles hholding.known
      · rintro ⟨⟩
  | false =>
      obtain ⟨hpaused, hall, hundone⟩ := hclaims.continues rfl
      refine Prog.wp_ok (Q := fun outcome p' => Undone outcome →
        Passing p'.state.owned false [] p'.world) (R := fun _ _ => False) _ ?_ hexec hundone
      have hcovers : Covers p.state.owned [] p.world := by
        refine ⟨⟨hp.live, fun m hm => ⟨hp.owned m hm, by simp [Late, hp.started, lastPass]⟩,
          fun m _ hlive => .inl (hall m hlive).2⟩, nofun, fun m hlive => .inl (hall m hlive).1⟩
      have hlineage : Lineage p.state.owned p.world :=
        ⟨by simp [Gone, hp.started, lastPass], by simp [hp.started, lastPass]⟩
      have hstart : Stable interface fun p : Pausing Job =>
          Passing p.state.owned false [] p.world :=
        stable_passing (·.state.owned) (fun _ _ => rfl) false []
      refine wp_change hstart false ⟨hcovers, fun _ => hlineage⟩ ?_ ?_ ?_ ?_
      · exact fun p h _ => h
      · rintro p - - hundone
        rcases hundone with hundone | ⟨error, hundone⟩ <;> cases hundone
      · rintro ⟨⟩
      · exact fun _ p h _ => wp_resumeSettles h.covers.holding

/-! ## Members that stay -/

/-- Every event is a move of the schedule. -/
structure Scheduled (schedule : List JobTurn) (j : Job) : Prop where
  turns : j.turns ⊆ schedule
  spawned : ∀ parent child, .spawned parent child ∈ j.history →
    ∃ turn ∈ schedule, .spawn parent ∈ turn.moves
  exited : ∀ member, .exited member ∈ j.history → ∃ turn ∈ schedule, .exit member ∈ turn.moves

variable {schedule : List JobTurn}

theorem Scheduled.move (h : Scheduled schedule j) {turn : JobTurn} (hturn : turn ∈ schedule)
    {move : JobMove} (hmove : move ∈ turn.moves) : Scheduled schedule (j.move move) := by
  cases move with
  | spawn parent =>
      simp only [Job.move]
      split
      · refine ⟨h.turns, fun parent' child hin => ?_, fun member hin => ?_⟩
        · simp only [Job.spawned, List.mem_cons, JobEvent.spawned.injEq] at hin
          rcases hin with ⟨rfl, -⟩ | hin
          · exact ⟨turn, hturn, hmove⟩
          · exact h.spawned parent' child hin
        · simp only [Job.spawned, List.mem_cons, reduceCtorEq, false_or] at hin
          exact h.exited member hin
      · exact h
  | exit member =>
      simp only [Job.move]
      split
      · refine ⟨h.turns, fun parent child hin => ?_, fun member' hin => ?_⟩
        · simp only [Job.exited, List.mem_cons, reduceCtorEq, false_or] at hin
          exact h.spawned parent child hin
        · simp only [Job.exited, List.mem_cons, JobEvent.exited.injEq] at hin
          rcases hin with rfl | hin
          · exact ⟨turn, hturn, hmove⟩
          · exact h.exited member' hin
      · exact h

theorem Scheduled.advance (h : Scheduled schedule j) : Scheduled schedule j.advance.2 := by
  unfold Job.advance
  split
  · exact h
  · rename_i turn rest hturns
    have hin : turn ∈ schedule := h.turns (by simp [hturns])
    have hrest : Scheduled schedule { j with turns := rest } :=
      ⟨fun later hlater => h.turns (by simp [hturns, hlater]), h.spawned, h.exited⟩
    exact List.foldlRecOn turn.moves Job.move hrest fun j h move hmove => h.move hin hmove

theorem keeps_call_scheduled {α : Type} {body : Job → α × Job}
    (hbody : ∀ j, Scheduled schedule j → Scheduled schedule (body j).2) :
    Keeps (Scheduled schedule) (fun _ => True) (call body) := by
  refine Keeps.step fun j h => ?_
  have hlater := h.advance
  cases hturn : j.advance with
  | mk turn j' =>
      rw [hturn] at hlater
      simp only
      cases turn.fault with
      | some error => exact hlater
      | none => exact hbody j' hlater

theorem keeps_changeSuspension_scheduled (suspended : Bool) (process : Nat) :
    Keeps (Scheduled schedule) (fun _ => True) (changeSuspension suspended process) := by
  refine keeps_call_scheduled fun j h => ?_
  split
  · exact ⟨h.turns, h.spawned, h.exited⟩
  · exact h

theorem preserved_scheduled (schedule : List JobTurn) :
    Preserved interface (Scheduled schedule) where
  members := by
    have hpin : ∀ ids, Keeps (Scheduled schedule) (fun _ => True) (pinMembers ids) := by
      intro ids
      induction ids with
      | nil => exact Keeps.pure _
      | cons id ids ih =>
          exact Keeps.bind (keeps_call_scheduled fun j h => h) fun _ =>
            Keeps.bind ih fun _ => Keeps.pure _
    have hlist : Keeps (Scheduled schedule) (fun _ => True) processIds :=
      keeps_call_scheduled fun j h => ⟨h.turns, by simpa using h.spawned, by simpa using h.exited⟩
    exact Keeps.bind hlist hpin
  running process := by
    have hrunning : Keeps (Scheduled schedule) (fun _ => True) (isRunning process) :=
      keeps_call_scheduled fun j h => h
    exact hrunning
  suspend process := keeps_changeSuspension_scheduled true process
  resume process := keeps_changeSuspension_scheduled false process
  cancelled _ h := h.advance
  now _ h := h.advance

/-- No member that ever spawns exits. -/
def SpawnersStay (schedule : List JobTurn) : Prop :=
  ∀ turn ∈ schedule, ∀ parent, .spawn parent ∈ turn.moves →
    ∀ later ∈ schedule, .exit parent ∉ later.moves

/-- A pass of such a job leaves no orphan, so the one quiet pass is enough for it. -/
theorem suspends_of_spawnersStay {p p' : Pausing Job} {pause : Bool}
    {outcome : TransitionOutcome} (hp : Identified p)
    (hexec : (change interface pause).exec p = (.ok outcome, p')) (hclaims : Claims pause p outcome)
    (hstay : SpawnersStay p.world.turns) : AllSuspended p' := by
  have hstart : Scheduled p.world.turns p.world :=
    ⟨List.Subset.refl _, by simp [hp.started], by simp [hp.started]⟩
  have hend : Scheduled p.world.turns p'.world :=
    Prog.wp_ok _ ((preserved_scheduled p.world.turns).change pause p hstart) hexec
  have hpass : ∀ event ∈ lastPass p'.world.history, event ∈ p'.world.history :=
    fun event h => List.takeWhile_subset _ h
  refine (change_settles hp hexec hclaims).all_iff.mpr fun parent child hborn hgone => ?_
  obtain ⟨turn, hturn, hspawn⟩ := hend.spawned parent child (hpass _ hborn)
  obtain ⟨later, hlater, hexit⟩ := hend.exited parent (hpass _ hgone)
  exact absurd hexit (hstay turn hturn parent hspawn later hlater)

/-! ## The condition -/

/-- For every job, every behaviour of its members and every answer of the controls:
a pause that is applied, and a continue that is undone, leave the whole job
suspended exactly when, in the pass they end with, no member that spawned has exited
and left a child behind.  They always do where the schedule of the job lets no member
that spawns exit. -/
theorem change_suspends_all_iff {p p' : Pausing Job} {pause : Bool} {outcome : TransitionOutcome}
    (hp : Identified p) (hexec : (change interface pause).exec p = (.ok outcome, p')) :
    (pause = true → p.state.paused = false → outcome = .applied →
      (AllSuspended p' ↔ NoOrphan (lastPass p'.world.history))) ∧
    (pause = false → p.state.paused = true → AllSuspended p → Undone outcome →
      (AllSuspended p' ↔ NoOrphan (lastPass p'.world.history))) ∧
    (Claims pause p outcome → SpawnersStay p.world.turns → AllSuspended p') := by
  refine ⟨?_, ?_, fun hclaims hstay => suspends_of_spawnersStay hp hexec hclaims hstay⟩
  · rintro rfl hpaused hdone
    exact (change_settles hp hexec ⟨fun _ => ⟨hpaused, hdone⟩, nofun⟩).all_iff
  · rintro rfl hpaused hall hundone
    exact (change_settles hp hexec ⟨nofun, fun _ => ⟨hpaused, hall, hundone⟩⟩).all_iff

/-- A job with one member, whatever happens to it. -/
def oneMember (turns : List JobTurn) : Pausing Job :=
  { world := { turns, live := [0], next := 1 }, state := {} }

theorem identified_oneMember (turns : List JobTurn) : Identified (oneMember turns) :=
  ⟨by simp [oneMember], by simp [oneMember], rfl⟩

/-- The answer to a pause of that job and what it leaves behind. -/
def pauseOne (turns : List JobTurn) : Except String TransitionOutcome × Pausing Job :=
  (change interface true).exec (oneMember turns)

/-- The member spawns a child right before it is suspended.  The second pass finds the
child, and the third, in which the member exits, finds nobody new. -/
def spawnsInTime : List JobTurn :=
  List.replicate 9 ({} : JobTurn) ++ { moves := [.spawn 0] } :: List.replicate 14 ({} : JobTurn) ++
    [{ moves := [.exit 0] }]

/-- The job is covered although a child was born during the call and a spawner exited. -/
theorem pause_oneMember_suspends :
    (pauseOne spawnsInTime).1 = .ok .applied ∧ (pauseOne spawnsInTime).2.world.live = [1] ∧
      AllSuspended (pauseOne spawnsInTime).2 := by
  have hanswer : (pauseOne spawnsInTime).1 = .ok .applied := by decide +kernel
  have hlive : (pauseOne spawnsInTime).2.world.live = [1] := by decide +kernel
  have hpass : lastPass (pauseOne spawnsInTime).2.world.history = [.exited 0] := by decide +kernel
  -- nothing below evaluates the run
  generalize hrun : pauseOne spawnsInTime = run at hanswer hlive hpass ⊢
  obtain ⟨answer, p'⟩ := run
  cases hanswer
  refine ⟨rfl, hlive, ?_⟩
  apply ((change_suspends_all_iff (identified_oneMember _) hrun).1 rfl rfl rfl).mpr
  intro parent child hborn
  rw [hpass] at hborn
  simp at hborn

/-- A member that spawns a child right after the listing and exits. -/
def forksAndExits : List JobTurn :=
  [{}, {}, {}, {}, {}, { moves := [.spawn 0, .exit 0] }]

/-- The pass finds nobody to suspend, the pause is applied, and the child runs on. -/
theorem pause_misses_child :
    (pauseOne forksAndExits).1 = .ok .applied ∧ (pauseOne forksAndExits).2.world.live = [1] ∧
      ¬ AllSuspended (pauseOne forksAndExits).2 := by
  refine ⟨by decide +kernel, by decide +kernel, fun hall => ?_⟩
  have howned := (hall 1 (by decide +kernel)).1
  revert howned
  decide +kernel

end Job

end Ngsm.Supervisor
