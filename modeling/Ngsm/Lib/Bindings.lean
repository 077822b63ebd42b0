/-
# Bindings of names that are compared up to a relation

A list of bindings may name a thing more than once and in several spellings.  A lookup
finds the first binding of a name, in whatever spelling; setting a name removes every
binding of it and adds one at the end.  After a list of settings a name is bound by the
last of them that names it, and once.
-/

import Mathlib.Data.List.Induction

namespace Ngsm.Lib

namespace Bindings

variable {ν α : Type}

section

variable (same : ν → ν → Bool)

/-- Every binding but those of a name. -/
def remove (bindings : List (ν × α)) (name : ν) : List (ν × α) :=
  bindings.filter fun entry => !same entry.1 name

/-- Bind a name, and it alone. -/
def set (bindings : List (ν × α)) (name : ν) (value : α) : List (ν × α) :=
  remove same bindings name ++ [(name, value)]

/-- The bindings of a name. -/
def named (bindings : List (ν × α)) (name : ν) : List (ν × α) :=
  bindings.filter fun entry => same entry.1 name

/-- The value of the first binding of a name. -/
def find (bindings : List (ν × α)) (name : ν) : Option α :=
  (named same bindings name).head?.map Prod.snd

/-- Bind a list of names, one after another. -/
def assign (bindings settings : List (ν × α)) : List (ν × α) :=
  settings.foldl (fun bindings entry => set same bindings entry.1 entry.2) bindings

end

section

variable {same : ν → ν → Bool} {bindings settings : List (ν × α)} {name other : ν} {value : α}

theorem find_eq_find? : find same bindings name =
    (bindings.find? fun entry => same entry.1 name).map Prod.snd := by
  rw [find, named, List.head?_filter]

/-- A name is one for which the relation is the same from both sides. -/
theorem same_congr (hsame : Equivalence fun a b => same a b = true) (h : same name other = true)
    (a : ν) : same a name = same a other := by
  rw [Bool.eq_iff_iff]
  exact ⟨fun ha => hsame.trans ha h, fun ha => hsame.trans ha (hsame.symm h)⟩

/-! ## Removing -/

theorem named_remove_same (hsame : Equivalence fun a b => same a b = true)
    (h : same other name = true) : named same (remove same bindings name) other = [] := by
  unfold named remove
  rw [List.filter_filter, List.filter_eq_nil_iff]
  intro entry _
  rw [same_congr hsame h]
  cases same entry.1 name <;> decide

/-- Removing a name leaves a selection of the others as it is. -/
theorem filter_remove {keep : ν × α → Bool}
    (hkeep : ∀ entry, keep entry = true → same entry.1 name = false) :
    (remove same bindings name).filter keep = bindings.filter keep := by
  unfold remove
  rw [List.filter_filter]
  apply List.filter_congr
  intro entry _
  cases hentry : keep entry with
  | false => rfl
  | true =>
      rw [hkeep entry hentry]
      rfl

theorem named_remove_other (hsame : Equivalence fun a b => same a b = true)
    (h : same other name = false) :
    named same (remove same bindings name) other = named same bindings other := by
  apply filter_remove
  intro entry hentry
  rw [← Bool.not_eq_true] at h ⊢
  exact fun hname => h (hsame.trans (hsame.symm hentry) hname)

/-! ## Setting -/

theorem named_set_same (hsame : Equivalence fun a b => same a b = true)
    (h : same other name = true) :
    named same (set same bindings name value) other = [(name, value)] := by
  have hnone : (remove same bindings name).filter (fun entry => same entry.1 other) = [] :=
    named_remove_same hsame h
  have hname : same name other = true := hsame.symm h
  rw [named, set, List.filter_append, hnone, List.nil_append]
  simp only [List.filter_cons, hname, if_true, List.filter_nil]

theorem filter_set {keep : ν × α → Bool}
    (hkeep : ∀ entry, keep entry = true → same entry.1 name = false)
    (hname : keep (name, value) = false) :
    (set same bindings name value).filter keep = bindings.filter keep := by
  rw [set, List.filter_append, filter_remove hkeep, List.filter_cons_of_neg (by simp [hname])]
  simp

theorem named_set_other (hsame : Equivalence fun a b => same a b = true)
    (h : same other name = false) :
    named same (set same bindings name value) other = named same bindings other := by
  have hsymm : same name other = false := by
    rw [← Bool.not_eq_true] at h ⊢
    exact fun hname => h (hsame.symm hname)
  apply filter_set
  · intro entry hentry
    rw [← Bool.not_eq_true] at h ⊢
    exact fun hname => h (hsame.trans (hsame.symm hentry) hname)
  · exact hsymm

/-! ## A list of settings -/

/-- A name that the settings bind is bound once, as the last of them says; every other name
is bound as before. -/
theorem named_assign (hsame : Equivalence fun a b => same a b = true) (bindings : List (ν × α)) :
    named same (assign same bindings settings) name =
      match (named same settings name).getLast? with
      | some last => [last]
      | none => named same bindings name := by
  induction settings using List.reverseRecOn with
  | nil => rfl
  | append_singleton settings setting ih =>
      rw [assign, List.foldl_append]
      change named same (set same (assign same bindings settings) setting.1 setting.2) name = _
      cases hname : same setting.1 name with
      | true =>
          rw [named_set_same hsame (hsame.symm hname), named, List.filter_append]
          simp only [List.filter_cons, hname, if_true, List.filter_nil, List.getLast?_concat]
      | false =>
          have hother : same name setting.1 = false := by
            rw [← Bool.not_eq_true] at hname ⊢
            exact fun hsymm => hname (hsame.symm hsymm)
          have hsettings : named same (settings ++ [setting]) name = named same settings name := by
            rw [named, List.filter_append, List.filter_cons_of_neg (by simp [hname]),
              List.filter_nil, List.append_nil]
            rfl
          rw [named_set_other hsame hother, ih, hsettings]

theorem find_assign (hsame : Equivalence fun a b => same a b = true) (bindings : List (ν × α)) :
    find same (assign same bindings settings) name =
      ((named same settings name).getLast?.map Prod.snd).or (find same bindings name) := by
  rw [find, named_assign hsame]
  cases (named same settings name).getLast? with
  | none => rfl
  | some last => rfl

theorem length_named_assign (hsame : Equivalence fun a b => same a b = true)
    (hbound : named same settings name ≠ []) (bindings : List (ν × α)) :
    (named same (assign same bindings settings) name).length = 1 := by
  rw [named_assign hsame]
  cases hlast : (named same settings name).getLast? with
  | none => exact absurd (List.getLast?_eq_none_iff.mp hlast) hbound
  | some last => rfl

end

end Bindings

end Ngsm.Lib
