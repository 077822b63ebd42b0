/-
# Discretionary access control

An object has an owner and a list of entries, each of which allows or denies a principal some
rights.  A right is granted to a token, which is a set of principals, by the first entry that
is about one of them and covers the right; an owner has some rights whatever the list says.
An entry may carry a condition, so whether it applies is left open.
-/

import Mathlib.Data.Set.Basic

namespace Ngsm.Lib.AccessControl

/-- An entry of an access control list. -/
structure Entry (π ρ : Type) where
  allows : Bool
  principal : π
  covers : Set ρ
  /-- The entry is there for the children of the object only. -/
  inheritOnly : Bool

/-- An object and its access control list. -/
structure Descriptor (π ρ : Type) where
  owner : π
  entries : List (Entry π ρ)

variable {π ρ : Type}

/-- The entry is about the token and the right. -/
def Entry.Matches (token : Set π) (right : ρ) (entry : Entry π ρ) : Prop :=
  entry.inheritOnly = false ∧ entry.principal ∈ token ∧ right ∈ entry.covers

/-- The list grants the right: the first entry that applies and is about it allows it. -/
inductive Allowed (applies : Entry π ρ → Prop) (token : Set π) (right : ρ) :
    List (Entry π ρ) → Prop where
  | here {entry : Entry π ρ} {later : List (Entry π ρ)} (hallows : entry.allows = true)
      (happlies : applies entry) (hmatches : entry.Matches token right) :
      Allowed applies token right (entry :: later)
  | skip {entry : Entry π ρ} {later : List (Entry π ρ)}
      (hskip : ¬(applies entry ∧ entry.Matches token right))
      (hlater : Allowed applies token right later) : Allowed applies token right (entry :: later)

/-- What the system grants, where an owner has the rights `ownerRights` of its own. -/
def Grants (ownerRights : Set ρ) (applies : Entry π ρ → Prop) (object : Descriptor π ρ)
    (token : Set π) (right : ρ) : Prop :=
  (object.owner ∈ token ∧ right ∈ ownerRights) ∨ Allowed applies token right object.entries

variable {ownerRights : Set ρ} {applies : Entry π ρ → Prop} {token : Set π} {right : ρ}

/-- Nothing is granted without an entry that allows it. -/
theorem Allowed.exists_entry {entries : List (Entry π ρ)}
    (h : Allowed applies token right entries) :
    ∃ entry ∈ entries, entry.allows = true ∧ entry.Matches token right := by
  induction h with
  | here hallows happlies hmatches =>
      exact ⟨_, List.mem_cons_self, hallows, hmatches⟩
  | skip hskip hlater ih =>
      obtain ⟨entry, hmem, hentry⟩ := ih
      exact ⟨entry, List.mem_cons_of_mem _ hmem, hentry⟩

/-- In a list that denies nothing, every entry that applies counts. -/
theorem Allowed.of_mem {entries : List (Entry π ρ)} {entry : Entry π ρ}
    (hdenies : ∀ other ∈ entries, other.allows = true) (hmem : entry ∈ entries)
    (happlies : applies entry) (hmatches : entry.Matches token right) :
    Allowed applies token right entries := by
  induction entries with
  | nil => cases hmem
  | cons first later ih =>
      by_cases hfirst : applies first ∧ first.Matches token right
      · exact .here (hdenies first List.mem_cons_self) hfirst.1 hfirst.2
      · refine .skip hfirst (ih (fun other h => hdenies other (List.mem_cons_of_mem _ h)) ?_)
        cases hmem with
        | head => exact absurd ⟨happlies, hmatches⟩ hfirst
        | tail _ hlater => exact hlater

/-- Neither the owner nor an allowing entry of a trusted object belongs to a token without
trusted principals. -/
theorem not_grants {trusted : Set π} {object : Descriptor π ρ} (howner : object.owner ∈ trusted)
    (hentries : ∀ entry ∈ object.entries, entry.allows = true → entry.inheritOnly = false →
      entry.principal ∉ trusted → right ∉ entry.covers)
    (htoken : ∀ principal ∈ token, principal ∉ trusted) :
    ¬Grants ownerRights applies object token right := by
  intro hgrants
  cases hgrants with
  | inl howns => exact htoken _ howns.1 howner
  | inr hallowed =>
      obtain ⟨entry, hmem, hallows, hinherit, htok, hcovers⟩ := hallowed.exists_entry
      exact hentries entry hmem hallows hinherit (htoken _ htok) hcovers

end Ngsm.Lib.AccessControl
