/-
# What has been said

The transcript of a dialogue is the list of its exchanges.  A rule judges an exchange by the
transcript before it.  What a transcript tells is knowledge when it stays true whatever is said
later, except for the calls that end it; a lock that was taken is known to be held until the
call that gives it back.

A fallible dialogue ends with a value or with an error.  Its rules follow the way it is
composed, and each has one postcondition for the value and one for the error.
-/

import Ngsm.Lib.Dialogue

namespace Ngsm.Lib

variable {C : Type} {A : C → Type} {ε α β : Type}

abbrev Transcript (A : C → Type) : Type :=
  List (Exchange A)

namespace Dialogue

/-! ## Transcripts -/

/-- A transcript of a dialogue, and what is left of the dialogue after it. -/
inductive Leads : Dialogue C A α → Transcript A → Dialogue C A α → Prop where
  | start (p : Dialogue C A α) : Leads p [] p
  | answer {c : C} {next : A c → Dialogue C A α} (a : A c) {xs : Transcript A}
      {rest : Dialogue C A α} (h : Leads (next a) xs rest) :
      Leads (.call c next) (⟨c, a⟩ :: xs) rest

/-- The code that judges every exchange by the transcript before it. -/
def Code.ofRule (rule : Transcript A → Exchange A → Prop) : Code A (Transcript A) where
  note s x := s ++ [x]
  proper := rule

variable {rule : Transcript A → Exchange A → Prop} {Q : α → Transcript A → Prop}
  {s xs : Transcript A} {p rest : Dialogue C A α}

theorem Leads.keeps (hleads : Leads p xs rest) (h : p.Keeps (.ofRule rule) Q s)
    (hs : EachEvent rule s) :
    EachEvent rule (s ++ xs) ∧ rest.Keeps (.ofRule rule) Q (s ++ xs) := by
  induction hleads generalizing s with
  | start p =>
      rw [List.append_nil]
      exact ⟨hs, h⟩
  | @answer c next a xs rest hrest ih =>
      obtain ⟨hproper, hnext⟩ := h a
      rw [← List.singleton_append, ← List.append_assoc]
      exact ih hnext (hs.concat hproper)

theorem Keeps.weaken {rule' : Transcript A → Exchange A → Prop}
    (h : p.Keeps (.ofRule rule) Q s) (hrule : ∀ s x, rule s x → rule' s x) :
    p.Keeps (.ofRule rule') Q s := by
  induction p generalizing s with
  | done a => exact h
  | call c next ih =>
      intro answer
      obtain ⟨hproper, hnext⟩ := h answer
      exact ⟨hrule s ⟨c, answer⟩ hproper, ih answer hnext⟩

/-- A dialogue that keeps to the rule follows it throughout, and ends as it promises. -/
theorem Leads.follows (hleads : Leads p xs rest) (h : p.Keeps (.ofRule rule) Q []) :
    EachEvent rule xs ∧ ∀ a, rest = .done a → Q a xs := by
  obtain ⟨heach, hrest⟩ := hleads.keeps h .nil
  refine ⟨heach, fun a hdone => ?_⟩
  rw [hdone] at hrest
  exact hrest

end Dialogue

/-! ## Knowledge -/

/-- What a transcript tells, until one of the calls that end it. -/
structure Knowledge (A : C → Type) (ends : C → Bool) where
  holds : Transcript A → Prop
  lasts : ∀ s x, ends x.call = false → holds s → holds (s ++ [x])

namespace Knowledge

variable {ends : C → Bool} {s : Transcript A} {x : Exchange A}

def nothing : Knowledge A ends where
  holds _ := True
  lasts _ _ _ _ := trivial

/-- A fact that no transcript has to tell. -/
def fact (p : Prop) : Knowledge A ends where
  holds _ := p
  lasts _ _ _ h := h

def and (K K' : Knowledge A ends) : Knowledge A ends where
  holds s := K.holds s ∧ K'.holds s
  lasts s x hx h := ⟨K.lasts s x hx h.1, K'.lasts s x hx h.2⟩

/-- That an exchange took place. -/
def said (x : Exchange A) : Knowledge A ends where
  holds s := x ∈ s
  lasts _ _ _ h := List.mem_append_left _ h

/-- That a call got an answer of some kind. -/
def heard (c : C) (kind : A c → Prop) : Knowledge A ends where
  holds s := ∃ answer, ⟨c, answer⟩ ∈ s ∧ kind answer
  lasts _ _ _ h := by
    obtain ⟨answer, hmem, hkind⟩ := h
    exact ⟨answer, List.mem_append_left _ hmem, hkind⟩

/-- That an exchange took place, and no call since has ended what it began. -/
def since (x : Exchange A) : Knowledge A ends where
  holds s := ∃ before after, s = before ++ x :: after ∧ ∀ y ∈ after, ends y.call = false
  lasts s y hy h := by
    obtain ⟨before, after, rfl, hafter⟩ := h
    refine ⟨before, after ++ [y], by simp, ?_⟩
    intro z hz
    rcases List.mem_append.mp hz with hold | hnew
    · exact hafter z hold
    · rw [List.mem_singleton.mp hnew]
      exact hy

theorem since_now (s : Transcript A) (x : Exchange A) :
    (since x : Knowledge A ends).holds (s ++ [x]) :=
  ⟨s, [], rfl, by simp⟩

end Knowledge

/-! ## Dialogues that may fail -/

abbrev Fallible (A : C → Type) (ε α : Type) : Type :=
  ExceptT ε (Dialogue C A) α

namespace Fallible

variable {σ : Type} {code : Dialogue.Code A σ} {s : σ}

/-- A dialogue that answers with a value or an error. -/
def demand (m : Dialogue C A (Except ε α)) : Fallible A ε α :=
  ExceptT.mk m

/-- What is promised of a value, and what of an error. -/
def either (Q : α → σ → Prop) (R : ε → σ → Prop) : Except ε α → σ → Prop
  | .ok a, s => Q a s
  | .error e, s => R e s

/-- The dialogue keeps to the code; `Q` holds of the value and `R` of the error it ends with. -/
def Keeps (code : Dialogue.Code A σ) (m : Fallible A ε α) (Q : α → σ → Prop) (R : ε → σ → Prop)
    (s : σ) : Prop :=
  m.run.Keeps code (either Q R) s

variable {Q Q' : α → σ → Prop} {R R' : ε → σ → Prop}

theorem keeps_pure {a : α} (h : Q a s) : Keeps code (pure a : Fallible A ε α) Q R s :=
  h

theorem keeps_throw {e : ε} (h : R e s) : Keeps code (throw e : Fallible A ε α) Q R s :=
  h

theorem keeps_bind {m : Fallible A ε α} {f : α → Fallible A ε β} {Q : β → σ → Prop}
    (h : Keeps code m (fun a => Keeps code (f a) Q R) R s) : Keeps code (m >>= f) Q R s := by
  change (m.run >>= ExceptT.bindCont f).Keeps code (either Q R) s
  refine .bind (Dialogue.Keeps.mono h ?_)
  intro outcome s' houtcome
  cases outcome with
  | ok a => exact houtcome
  | error e => exact houtcome

theorem keeps_liftExcept {x : Except ε α} (hok : ∀ a, x = .ok a → Q a s)
    (herror : ∀ e, x = .error e → R e s) : Keeps code (liftExcept x : Fallible A ε α) Q R s := by
  cases x with
  | ok a => exact hok a rfl
  | error e => exact herror e rfl

theorem keeps_monadLift {m : Dialogue C A α} (h : m.Keeps code Q s) :
    Keeps code (monadLift m : Fallible A ε α) Q R s := by
  change (m >>= fun a => pure (.ok a)).Keeps code (either Q R) s
  exact .bind h

theorem keeps_ite {c : Prop} [Decidable c] {m m' : Fallible A ε α}
    (h : c → Keeps code m Q R s) (h' : ¬c → Keeps code m' Q R s) :
    Keeps code (if c then m else m') Q R s := by
  split
  · rename_i hc
    exact h hc
  · rename_i hc
    exact h' hc

theorem Keeps.mono {m : Fallible A ε α} (h : Keeps code m Q R s)
    (hvalue : ∀ a s', Q a s' → Q' a s') (herror : ∀ e s', R e s' → R' e s') :
    Keeps code m Q' R' s := by
  refine Dialogue.Keeps.mono h ?_
  intro outcome s' houtcome
  cases outcome with
  | ok a => exact hvalue a s' houtcome
  | error e => exact herror e s' houtcome

end Fallible

/-! ## Dialogues that leave the notes alone -/

section

variable {σ : Type} {code : Dialogue.Code A σ} {s : σ}

theorem Dialogue.Leads.reaches {p rest : Dialogue C A α} {xs : Transcript A}
    {Q : α → σ → Prop} (hleads : p.Leads xs rest) (h : p.Keeps code Q s) :
    rest.Keeps code Q (xs.foldl code.note s) := by
  induction hleads generalizing s with
  | start p => exact h
  | answer a hrest ih => exact ih (h a).2

/-- Nothing that the dialogue says changes the notes. -/
structure Quiet (code : Dialogue.Code A σ) (m : Fallible A ε α) : Prop where
  keeps : ∀ s, m.Keeps code (fun _ s' => s' = s) (fun _ s' => s' = s) s

namespace Quiet

variable {m : Fallible A ε α}

theorem pure {a : α} : Quiet code (Pure.pure a : Fallible A ε α) :=
  ⟨fun _ => Fallible.keeps_pure rfl⟩

theorem throw {e : ε} : Quiet code (MonadExcept.throw e : Fallible A ε α) :=
  ⟨fun _ => Fallible.keeps_throw rfl⟩

theorem check (x : Except ε α) : Quiet code (liftExcept x : Fallible A ε α) :=
  ⟨fun _ => Fallible.keeps_liftExcept (fun _ _ => rfl) fun _ _ => rfl⟩

/-- A quiet step, with what follows on its value and on its error. -/
theorem followed (h : Quiet code m) {f : α → Fallible A ε β} {Q : β → σ → Prop}
    {R : ε → σ → Prop} (hf : ∀ a, (f a).Keeps code Q R s) (herror : ∀ e, R e s) :
    (m >>= f).Keeps code Q R s := by
  refine Fallible.keeps_bind (Fallible.Keeps.mono (h.keeps s) ?_ ?_)
  · rintro a s' rfl
    exact hf a
  · rintro e s' rfl
    exact herror e

theorem bind {f : α → Fallible A ε β} (h : Quiet code m) (hf : ∀ a, Quiet code (f a)) :
    Quiet code (m >>= f) :=
  ⟨fun s => h.followed (fun a => (hf a).keeps s) fun _ => rfl⟩

theorem ask {c : C} (view : A c → Except ε α)
    (h : ∀ s answer, code.proper s ⟨c, answer⟩ ∧ code.note s ⟨c, answer⟩ = s) :
    Quiet code (Fallible.demand do return view (← Dialogue.ask c)) := by
  refine ⟨fun s answer => ⟨(h s answer).1, ?_⟩⟩
  rw [(h s answer).2]
  change Fallible.either _ _ (view answer) s
  cases view answer with
  | ok a => exact rfl
  | error e => exact rfl

theorem lift {c : C} (h : ∀ s answer, code.proper s ⟨c, answer⟩ ∧ code.note s ⟨c, answer⟩ = s) :
    Quiet code (monadLift (Dialogue.ask c) : Fallible A ε (A c)) :=
  ⟨fun s answer => ⟨(h s answer).1, (h s answer).2⟩⟩

theorem ite {c : Prop} [Decidable c] {m' : Fallible A ε α} (h : Quiet code m)
    (h' : Quiet code m') : Quiet code (if c then m else m') :=
  ⟨fun s => Fallible.keeps_ite (fun _ => h.keeps s) fun _ => h'.keeps s⟩

end Quiet

end

/-! ## What a dialogue teaches -/

section

variable {ends : C → Bool} {rule : Transcript A → Exchange A → Prop}
  {P P' : Knowledge A ends} {F F' : α → Knowledge A ends}

/-- From `P` the dialogue follows the rule, and `F` is known of the value it ends with.  Nothing
that was known before is lost on the way, not even when it fails. -/
structure Learns (rule : Transcript A → Exchange A → Prop) (P : Knowledge A ends)
    (m : Fallible A ε α) (F : α → Knowledge A ends) : Prop where
  keeps : ∀ (K : Knowledge A ends) s, K.holds s → P.holds s →
    m.Keeps (.ofRule rule) (fun a s' => K.holds s' ∧ P.holds s' ∧ (F a).holds s')
      (fun _ s' => K.holds s' ∧ P.holds s') s

namespace Learns

theorem pure {a : α} (h : ∀ s, P.holds s → (F a).holds s) :
    Learns rule P (Pure.pure a : Fallible A ε α) F :=
  ⟨fun _ s hK hP => Fallible.keeps_pure ⟨hK, hP, h s hP⟩⟩

theorem throw {e : ε} : Learns rule P (MonadExcept.throw e : Fallible A ε α) F :=
  ⟨fun _ _ hK hP => Fallible.keeps_throw ⟨hK, hP⟩⟩

theorem bind {m : Fallible A ε α} {f : α → Fallible A ε β} {G : β → Knowledge A ends}
    (h : Learns rule P m F) (hf : ∀ a, Learns rule (P.and (F a)) (f a) G) :
    Learns rule P (m >>= f) G := by
  refine ⟨fun K s hK hP => ?_⟩
  refine Fallible.keeps_bind (Fallible.Keeps.mono (h.keeps K s hK hP) ?_ ?_)
  · rintro a s' ⟨hK', hP', hF⟩
    refine Fallible.Keeps.mono ((hf a).keeps K s' hK' ⟨hP', hF⟩) ?_ ?_
    · rintro b t ⟨hKt, hPt, hG⟩
      exact ⟨hKt, hPt.1, hG⟩
    · rintro e t ⟨hKt, hPt⟩
      exact ⟨hKt, hPt.1⟩
  · rintro e s' h'
    exact h'

theorem mono {m : Fallible A ε α} (h : Learns rule P m F) (hP : ∀ s, P'.holds s → P.holds s)
    (hF : ∀ a s, P'.holds s → (F a).holds s → (F' a).holds s) : Learns rule P' m F' := by
  refine ⟨fun K s hK hP' => ?_⟩
  refine Fallible.Keeps.mono (h.keeps (K.and P') s ⟨hK, hP'⟩ (hP s hP')) ?_ ?_
  · rintro a t ⟨⟨hKt, hPt⟩, -, hFt⟩
    exact ⟨hKt, hPt, hF a t hPt hFt⟩
  · rintro e t ⟨⟨hKt, hPt⟩, -⟩
    exact ⟨hKt, hPt⟩

theorem check (x : Except ε α) :
    Learns rule P (liftExcept x : Fallible A ε α) fun a => .fact (x = .ok a) := by
  cases x with
  | ok a => exact pure fun _ _ => rfl
  | error e => exact throw

/-- What was checked, for all that follows. -/
theorem checked {x : Except ε α} {f : α → Fallible A ε β} {G : β → Knowledge A ends}
    (h : ∀ a, x = .ok a → Learns rule P (f a) G) : Learns rule P (liftExcept x >>= f) G := by
  cases x with
  | ok a => exact h a rfl
  | error e => exact throw

theorem ite {c : Prop} [Decidable c] {m m' : Fallible A ε α} (h : c → Learns rule P m F)
    (h' : ¬c → Learns rule P m' F) : Learns rule P (if c then m else m') F := by
  split
  · rename_i hc
    exact h hc
  · rename_i hc
    exact h' hc

/-- A proper call, and what its answer shows at once. -/
theorem call {c : C} (view : A c → Except ε α) (hends : ends c = false)
    (hrule : ∀ s answer, P.holds s → rule s ⟨c, answer⟩)
    (hnow : ∀ s answer a, P.holds s → view answer = .ok a →
      (F a).holds (s ++ [⟨c, answer⟩])) :
    Learns rule P (Fallible.demand do return view (← Dialogue.ask c)) F := by
  refine ⟨fun K s hK hP answer => ?_⟩
  refine ⟨hrule s answer hP, ?_⟩
  have hK' := K.lasts s ⟨c, answer⟩ hends hK
  have hP' := P.lasts s ⟨c, answer⟩ hends hP
  change Fallible.either _ _ (view answer) _
  cases hview : view answer with
  | ok a => exact ⟨hK', hP', hnow s answer a hP hview⟩
  | error e => exact ⟨hK', hP'⟩

/-- The answer to a proper call is known afterwards. -/
theorem ask {c : C} (view : A c → Except ε α) (hends : ends c = false)
    (hrule : ∀ s answer, P.holds s → rule s ⟨c, answer⟩) :
    Learns rule P (Fallible.demand do return view (← Dialogue.ask c))
      fun a => .heard c fun answer => view answer = .ok a :=
  call view hends hrule fun s answer _ _ hview => ⟨answer, by simp, hview⟩

/-- A proper call whose answer is the value, and what the answer shows at once. -/
theorem answered {c : C} {F : A c → Knowledge A ends} (hends : ends c = false)
    (hrule : ∀ s answer, P.holds s → rule s ⟨c, answer⟩)
    (hnow : ∀ s answer, P.holds s → (F answer).holds (s ++ [⟨c, answer⟩])) :
    Learns rule P (monadLift (Dialogue.ask c) : Fallible A ε (A c)) F := by
  refine ⟨fun K s hK hP answer => ⟨hrule s answer hP, ?_⟩⟩
  exact ⟨K.lasts s ⟨c, answer⟩ hends hK, P.lasts s ⟨c, answer⟩ hends hP, hnow s answer hP⟩

/-- Its answer is known afterwards. -/
theorem lift {c : C} (hends : ends c = false)
    (hrule : ∀ s answer, P.holds s → rule s ⟨c, answer⟩) :
    Learns rule P (monadLift (Dialogue.ask c) : Fallible A ε (A c))
      fun a => .said ⟨c, a⟩ := by
  refine answered hends hrule fun s answer _ => ?_
  change (⟨c, answer⟩ : Exchange A) ∈ s ++ [⟨c, answer⟩]
  simp

theorem liftMap {c : C} (g : A c → β) (hends : ends c = false)
    (hrule : ∀ s answer, P.holds s → rule s ⟨c, answer⟩) :
    Learns rule P (monadLift (do return g (← Dialogue.ask c)) : Fallible A ε β)
      fun _ => .nothing :=
  ⟨fun K s hK hP answer => ⟨hrule s answer hP, K.lasts s ⟨c, answer⟩ hends hK,
    P.lasts s ⟨c, answer⟩ hends hP, trivial⟩⟩

/-- What is known when a failure is looked at, and not passed on. -/
def outcome (F : α → Knowledge A ends) : Except ε α → Knowledge A ends
  | .ok a => F a
  | .error _ => .nothing

theorem attempt {ε' : Type} {m : Fallible A ε α} (h : Learns rule P m F) :
    Learns rule P (monadLift m.run : Fallible A ε' (Except ε α)) (outcome F) := by
  refine ⟨fun K s hK hP => ?_⟩
  refine Fallible.keeps_monadLift (Dialogue.Keeps.mono (h.keeps K s hK hP) ?_)
  intro result t ht
  cases result with
  | ok a => exact ht
  | error e => exact ⟨ht.1, ht.2, trivial⟩

theorem mapError {ε' : Type} {m : Fallible A ε α} (h : Learns rule P m F) (f : ε → ε') :
    Learns rule P (Fallible.demand do return (← m.run).mapError f) F := by
  refine ⟨fun K s hK hP => ?_⟩
  refine Dialogue.Keeps.bind (Dialogue.Keeps.mono (h.keeps K s hK hP) ?_)
  intro result t ht
  cases result with
  | ok a => exact ht
  | error e => exact ht

end Learns

/-- From `P` the dialogue follows the rule to its end, and `Q` holds of its value. -/
structure Finishes (rule : Transcript A → Exchange A → Prop) (P : Knowledge A ends)
    (m : Fallible A ε α) (Q : α → Transcript A → Prop) : Prop where
  keeps : ∀ s, P.holds s → m.Keeps (.ofRule rule) Q (fun _ _ => True) s

namespace Finishes

variable {Q : α → Transcript A → Prop}

theorem of_learns {m : Fallible A ε α} (h : Learns rule P m F)
    (hQ : ∀ a s, P.holds s → (F a).holds s → Q a s) : Finishes rule P m Q := by
  refine ⟨fun s hP => ?_⟩
  refine Fallible.Keeps.mono (h.keeps .nothing s trivial hP) ?_ fun _ _ _ => trivial
  rintro a t ⟨-, hPt, hFt⟩
  exact hQ a t hPt hFt

theorem throw {e : ε} : Finishes rule P (MonadExcept.throw e : Fallible A ε α) Q :=
  ⟨fun _ _ => Fallible.keeps_throw trivial⟩

theorem bind {m : Fallible A ε α} {f : α → Fallible A ε β} {Q : β → Transcript A → Prop}
    (h : Learns rule P m F) (hf : ∀ a, Finishes rule (P.and (F a)) (f a) Q) :
    Finishes rule P (m >>= f) Q := by
  refine ⟨fun s hP => ?_⟩
  refine Fallible.keeps_bind ?_
  refine Fallible.Keeps.mono (h.keeps .nothing s trivial hP) ?_ fun _ _ _ => trivial
  rintro a t ⟨-, hPt, hFt⟩
  exact (hf a).keeps t ⟨hPt, hFt⟩

theorem check {x : Except ε α} {f : α → Fallible A ε β} {Q : β → Transcript A → Prop}
    (h : ∀ a, x = .ok a → Finishes rule P (f a) Q) : Finishes rule P (liftExcept x >>= f) Q := by
  cases x with
  | ok a => exact h a rfl
  | error e => exact throw

theorem map {m : Fallible A ε α} {g : α → β} {Q : β → Transcript A → Prop}
    (h : Finishes rule P m fun a => Q (g a)) :
    Finishes rule P (m >>= fun a => Pure.pure (g a)) Q :=
  ⟨fun s hP => Fallible.keeps_bind (h.keeps s hP)⟩

theorem ite {c : Prop} [Decidable c] {m m' : Fallible A ε α} (h : c → Finishes rule P m Q)
    (h' : ¬c → Finishes rule P m' Q) : Finishes rule P (if c then m else m') Q := by
  split
  · rename_i hc
    exact h hc
  · rename_i hc
    exact h' hc

theorem weaken {rule' : Transcript A → Exchange A → Prop} {m : Fallible A ε α}
    (h : Finishes rule P m Q) (hrule : ∀ s x, rule s x → rule' s x) : Finishes rule' P m Q :=
  ⟨fun s hP => Dialogue.Keeps.weaken (h.keeps s hP) hrule⟩

theorem mono {m : Fallible A ε α} {Q' : α → Transcript A → Prop} (h : Finishes rule P m Q)
    (hQ : ∀ a s, Q a s → Q' a s) : Finishes rule P m Q' :=
  ⟨fun s hP => Fallible.Keeps.mono (h.keeps s hP) hQ fun _ _ _ => trivial⟩

theorem mapError {ε' : Type} {m : Fallible A ε α} (h : Finishes rule P m Q) (f : ε → ε') :
    Finishes rule P (Fallible.demand do return (← m.run).mapError f) Q := by
  refine ⟨fun s hP => Dialogue.Keeps.bind (Dialogue.Keeps.mono (h.keeps s hP) ?_)⟩
  intro result t ht
  cases result with
  | ok a => exact ht
  | error e => exact trivial

/-- Work that ends with a call after which nothing is sure but what `Q` says. -/
theorem release {c : C} {work : Fallible A ε α} (h : Learns rule P work F)
    (hrule : ∀ s answer, P.holds s → rule s ⟨c, answer⟩)
    (hQ : ∀ a s answer, (F a).holds s → Q a (s ++ [⟨c, answer⟩])) :
    Finishes rule P (do
      let outcome ← monadLift work.run
      let _ ← (monadLift (Dialogue.ask c) : Fallible A ε (A c))
      liftExcept outcome) Q := by
  refine ⟨fun s hP => ?_⟩
  refine Fallible.keeps_bind (Fallible.keeps_monadLift ?_)
  refine Dialogue.Keeps.mono (h.keeps .nothing s trivial hP) ?_
  intro outcome t ht
  refine Fallible.keeps_bind (Fallible.keeps_monadLift fun answer => ?_)
  cases outcome with
  | ok a => exact ⟨hrule t answer ht.2.1, hQ a t answer ht.2.2⟩
  | error e => exact ⟨hrule t answer ht.2, trivial⟩

/-- What an open dialogue has said followed the rule, and when it has ended with a value that
is as promised. -/
theorem of_leads {m : Fallible A ε α} (h : Finishes rule (.nothing : Knowledge A ends) m Q)
    {xs : Transcript A} {rest : Dialogue C A (Except ε α)} (hleads : m.run.Leads xs rest) :
    EachEvent rule xs ∧ ∀ a, rest = .done (.ok a) → Q a xs := by
  obtain ⟨heach, hdone⟩ := hleads.follows (h.keeps [] trivial)
  exact ⟨heach, fun a hrest => hdone (.ok a) hrest⟩

end Finishes

end

end Ngsm.Lib
