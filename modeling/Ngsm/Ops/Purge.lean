/-
# Deleting a managed configuration

A purge removes the two subtrees and every value that the manager owns.  It goes on when one of
them cannot be removed, and names at its end those that could not.  What fails leaves the item as
it is, or a subtree with some of its subkeys gone; everything else in the key stays.  So a purge
that failed can be repeated, and the first one that succeeds leaves nothing of the configuration.
-/

import Ngsm.Ops.SingleValue
import Ngsm.Registry.Cut
import Ngsm.Registry.Guarantees

namespace Ngsm.Ops

open Ngsm.Lib Ngsm.Core Ngsm.Registry NssmKeys

variable {fold : NameFold} {σ : Type}

/-! ## The purge -/

/-- Something the manager owns below the parameters key. -/
inductive OwnedItem where
  | subtree (name : String)
  | value (name : String)
  deriving DecidableEq, Repr

namespace OwnedItem

def name : OwnedItem → String
  | subtree name | value name => name

/-- Remove the item; it may be absent. -/
def remove : OwnedItem → RegM (Params fold σ) Unit
  | subtree name => ignoreMissing (deleteSubtree name)
  | value name => ignoreMissing (deleteValue name)

/-- What is reported of an item that could not be removed. -/
def failure (item : OwnedItem) (error : Error) : String :=
  item.name ++ " (" ++ error.text ++ ")"

/-- The system call that removes the item. -/
def systemCall : OwnedItem → String
  | subtree name => "RegDeleteTree(" ++ name ++ ")"
  | value name => "RegDeleteValue(" ++ name ++ ")"

/-- The error of a removal that the system refuses. -/
def refusal (item : OwnedItem) (fault : Fault) : Error :=
  mapRegError item.systemCall fault

/-- The key does not hold the item. -/
def Gone (node : Params fold σ) : OwnedItem → Prop
  | subtree name => node.subkey? name = none
  | value name => node.value? name = none

/-- The item is the same in both keys. -/
def Same (before after : Params fold σ) : OwnedItem → Prop
  | subtree name => after.subkey? name = before.subkey? name
  | value name => after.value? name = before.value? name

/-- The item is still there if it was; of a subtree some subkeys may be gone. -/
def Kept (fault : Fault) (before after : Params fold σ) : OwnedItem → Prop
  | subtree name => after.subkey? name = (before.subkey? name).map (·.keepSubkeys fault.keep)
  | value name => after.value? name = before.value? name

/-- How its one removal leaves the item. -/
def Ended (item : OwnedItem) (fault : Option Fault) (before after : Params fold σ) : Prop :=
  match fault with
  | none => item.Gone after
  | some fault => item.Kept fault before after

end OwnedItem

/-- The subtrees come first, then the values. -/
def ownedItems : List OwnedItem :=
  [appExit, appEvents].map .subtree ++ ownedValueNames.map .value

/-- One round of the loops of `scrub_managed`. -/
def scrubItem (failures : List String) (item : OwnedItem) : RegM (Params fold σ) (List String) := do
  match ← item.remove.attempt with
  | .error e => pure (failures ++ [item.failure e])
  | .ok () => pure failures

def couldNotRemove (failures : List String) : Error :=
  .registry ("could not remove managed registry data: " ++ String.intercalate "; " failures)

def scrubManaged : RegM (Params fold σ) Unit := do
  let failures ← ownedItems.foldlM scrubItem []
  if failures.isEmpty then
    pure ()
  else
    throw (couldNotRemove failures)

/-- Delete the configuration of a service that has a parameters key; without one there is
nothing to delete. -/
def deleteManagedConfig (service : String) : RegM (Params fold σ) Unit := do
  liftExcept (validateServiceName service)
  SingleValue.lockConfiguration
  SingleValue.openParameters service
  scrubManaged

/-! ## What a purge can do to a key -/

/-- `node'` is `node` after some of what the manager owns is gone. -/
structure Reduced (node node' : Params fold σ) : Prop where
  unmanaged : Unmanaged node node'
  values : ∀ k, node'.valueAt k = node.valueAt k ∨ node'.valueAt k = none
  subtrees : ∀ k, node.childAt k = none → node'.childAt k = none
  exits : ∀ k, exitAt node' k = exitAt node k ∨ exitAt node' k = none
  hooks : ∀ k, hooksAt node' k = hooksAt node k ∨ hooksAt node' k = none

/-- What is the same or gone, twice. -/
theorem same_or_none_trans {α : Type} {a b c : Option α} (h : b = a ∨ b = none)
    (h' : c = b ∨ c = none) : c = a ∨ c = none := by
  rcases h' with rfl | hnone
  · exact h
  · exact .inr hnone

namespace Reduced

variable {node node' node'' : Params fold σ}

theorem refl (node : Params fold σ) : Reduced node node where
  unmanaged := .refl node
  values _ := .inl rfl
  subtrees _ h := h
  exits _ := .inl rfl
  hooks _ := .inl rfl

theorem trans (h : Reduced node node') (h' : Reduced node' node'') : Reduced node node'' where
  unmanaged := h.unmanaged.trans h'.unmanaged
  values k := same_or_none_trans (h.values k) (h'.values k)
  subtrees k hnone := h'.subtrees k (h.subtrees k hnone)
  exits k := same_or_none_trans (h.exits k) (h'.exits k)
  hooks k := same_or_none_trans (h.hooks k) (h'.hooks k)

/-- What is gone stays gone. -/
theorem gone (h : Reduced node node') {item : OwnedItem} (hgone : item.Gone node) :
    item.Gone node' := by
  cases item with
  | subtree name =>
      rw [OwnedItem.Gone, Node.subkey?_eq] at hgone ⊢
      exact h.subtrees _ hgone
  | value name =>
      rw [OwnedItem.Gone, Node.value?_eq] at hgone ⊢
      rcases h.values (fold.key (toWide name)) with hsame | hnone
      · rw [hsame]
        exact hgone
      · exact hnone

theorem eraseValue (node : Params fold σ) {name : String} (hname : name ∈ ownedValueNames) :
    Reduced node (node.eraseValue name) := by
  have hsame : SameUnowned node (node.eraseValue name) :=
    (SameUnowned.refl node).eraseValue ((mem_scalarNames_iff name).mpr hname)
  refine ⟨.of_sameUnowned hsame, fun k => ?_, fun k hnone => ?_, fun k => ?_, fun k => ?_⟩
  · rw [Node.valueAt_eraseValue]
    split
    · exact .inr rfl
    · exact .inl rfl
  · rw [hsame.childAt]
    exact hnone
  · rw [hsame.exitAt]
    exact .inl rfl
  · rw [hsame.hooksAt]
    exact .inl rfl

/-- A change below the exit actions that takes values away. -/
theorem of_exit (h : SameOutside (exitKey fold) node node')
    (hchild : ∀ k, node.childAt k = none → node'.childAt k = none)
    (hexits : ∀ k, exitAt node' k = exitAt node k ∨ exitAt node' k = none) :
    Reduced node node' where
  unmanaged := .of_exit h
  values k := .inl (congrFun h.valueAt k)
  subtrees := hchild
  exits := hexits
  hooks k := .inl (congrFun h.hooksAt k)

/-- A change below the hooks that takes values away. -/
theorem of_events (h : SameOutside (eventsKey fold) node node')
    (hchild : ∀ k, node.childAt k = none → node'.childAt k = none)
    (hhooks : ∀ k, hooksAt node' k = hooksAt node k ∨ hooksAt node' k = none) :
    Reduced node node' where
  unmanaged := .of_events h
  values k := .inl (congrFun h.valueAt k)
  subtrees := hchild
  exits k := .inl (congrFun h.exitAt k)
  hooks := hhooks

theorem eraseSubkey (node : Params fold σ) {name : String} (hname : name ∈ [appExit, appEvents]) :
    Reduced node (node.eraseSubkey name) := by
  have hsame := SameOutside.eraseSubkey node name
  have hchild : ∀ k, node.childAt k = none → (node.eraseSubkey name).childAt k = none := by
    intro k hnone
    rw [Node.childAt_eraseSubkey, hnone, ite_self]
  have hgone : (node.eraseSubkey name).childAt (fold.key (toWide name)) = none := by
    rw [Node.childAt_eraseSubkey, if_pos rfl]
  rw [List.mem_pair] at hname
  rcases hname with rfl | rfl
  · refine .of_exit hsame hchild fun k => .inr ?_
    rw [exitAt, exitKey, hgone, Option.bind_none]
  · refine .of_events hsame hchild fun k => .inr ?_
    rw [hooksAt, eventsKey, hgone, Option.bind_none]

theorem cutSubtree (node : Params fold σ) {name : String} (hname : name ∈ [appExit, appEvents])
    (fault : Fault) : Reduced node (Registry.cutSubtree name fault node) := by
  rw [Registry.cutSubtree]
  split
  next child hfound =>
    have hsame := SameOutside.setSubkey node name (child.keepSubkeys fault.keep)
    rw [Node.subkey?_eq] at hfound
    have hchild : ∀ k, node.childAt k = none →
        (node.setSubkey name (child.keepSubkeys fault.keep)).childAt k = none := by
      intro k hnone
      rw [Node.childAt_setSubkey, if_neg, hnone]
      rintro rfl
      rw [hfound] at hnone
      cases hnone
    rw [List.mem_pair] at hname
    rcases hname with rfl | rfl
    · refine .of_exit hsame hchild fun k => .inl ?_
      rw [exitAt, exitAt, exitKey, hfound, Node.childAt_setSubkey, if_pos rfl]
      rfl
    · refine .of_events hsame hchild fun k => ?_
      rw [hooksAt, hooksAt, eventsKey, hfound, Node.childAt_setSubkey, if_pos rfl]
      exact hookView.view_keep child fault.keep k
  next => exact refl node

end Reduced

/-! ## One item -/

theorem mem_ownedItems {item : OwnedItem} : item ∈ ownedItems ↔
    (∃ name ∈ [appExit, appEvents], item = .subtree name) ∨
      ∃ name ∈ ownedValueNames, item = .value name := by
  simp only [ownedItems, List.mem_append, List.mem_map, eq_comm]

/-- Different owned items stand for different entries of the key. -/
theorem toWide_ne {name name' : String} (hname : OwnedItem.value name ∈ ownedItems)
    (hname' : OwnedItem.value name' ∈ ownedItems)
    (hne : OwnedItem.value name ≠ .value name') :
    fold.key (toWide name) ≠ fold.key (toWide name') := by
  have hscalar : ∀ {name}, OwnedItem.value name ∈ ownedItems → name ∈ scalarNames := by
    intro name hin
    rcases mem_ownedItems.mp hin with ⟨_, _, hother⟩ | ⟨name', hname', hsame⟩
    · cases hother
    · cases hsame
      exact (mem_scalarNames_iff name).mpr hname'
  intro hkey
  exact hne (congrArg _ (eq_of_toWide (hscalar hname) (hscalar hname') hkey))

theorem subtree_toWide_ne {name name' : String} (hname : OwnedItem.subtree name ∈ ownedItems)
    (hname' : OwnedItem.subtree name' ∈ ownedItems)
    (hne : OwnedItem.subtree name ≠ .subtree name') :
    fold.key (toWide name) ≠ fold.key (toWide name') := by
  have hsubtree : ∀ {name}, OwnedItem.subtree name ∈ ownedItems →
      name = appExit ∨ name = appEvents := by
    intro name hin
    rcases mem_ownedItems.mp hin with ⟨name', hname', hsame⟩ | ⟨_, _, hother⟩
    · cases hsame
      exact List.mem_pair.mp hname'
    · cases hother
  rcases hsubtree hname with rfl | rfl <;> rcases hsubtree hname' with rfl | rfl
  · exact absurd rfl hne
  · exact exitKey_ne_eventsKey
  · exact exitKey_ne_eventsKey.symm
  · exact absurd rfl hne

namespace OwnedItem

/-- The key after the call that is to remove the item. -/
def removed (item : OwnedItem) (fault : Option Fault) (node : Params fold σ) : Params fold σ :=
  match item, fault with
  | subtree name, none => node.eraseSubkey name
  | subtree name, some fault => cutSubtree name fault node
  | value name, none => node.eraseValue name
  | value _, some _ => node

variable {item other : OwnedItem} {node before after after' : Params fold σ}
  {fault : Option Fault}

theorem reduced_removed (hitem : item ∈ ownedItems) : Reduced node (item.removed fault node) := by
  rcases mem_ownedItems.mp hitem with ⟨name, hname, rfl⟩ | ⟨name, hname, rfl⟩
  · cases fault with
    | none => exact .eraseSubkey node hname
    | some fault => exact .cutSubtree node hname fault
  · cases fault with
    | none => exact .eraseValue node hname
    | some fault => exact .refl node

theorem ended_removed : item.Ended fault node (item.removed fault node) := by
  cases item with
  | subtree name =>
      cases fault with
      | none =>
          change (node.eraseSubkey name).subkey? name = none
          rw [Node.subkey?_eq, Node.childAt_eraseSubkey, if_pos rfl]
      | some fault =>
          change (cutSubtree name fault node).subkey? name = _
          unfold cutSubtree
          cases hchild : node.subkey? name with
          | none => simpa using hchild
          | some child =>
              simp only [Option.map_some]
              rw [Node.subkey?_eq, Node.childAt_setSubkey, if_pos rfl]
  | value name =>
      cases fault with
      | none =>
          change (node.eraseValue name).value? name = none
          rw [Node.value?_eq, Node.valueAt_eraseValue, if_pos rfl]
      | some fault => rfl

/-- The removal of one item does not touch the others. -/
theorem same_removed (hitem : item ∈ ownedItems) (hother : other ∈ ownedItems)
    (hne : other ≠ item) : other.Same node (item.removed fault node) := by
  cases item with
  | subtree name =>
      have houtside : SameOutside (fold.key (toWide name)) node
          ((OwnedItem.subtree name).removed fault node) := by
        cases fault with
        | none => exact .eraseSubkey node name
        | some fault =>
            change SameOutside _ node (cutSubtree name fault node)
            unfold cutSubtree
            split
            · exact .setSubkey node name _
            · exact .refl _ node
      cases other with
      | subtree name' => exact houtside.childAt (subtree_toWide_ne hother hitem hne)
      | value name' => exact congrFun houtside.valueAt _
  | value name =>
      cases fault with
      | none =>
          cases other with
          | subtree name' => rfl
          | value name' =>
              change (node.eraseValue name).value? name' = node.value? name'
              rw [Node.value?_eq, Node.valueAt_eraseValue, if_neg (toWide_ne hother hitem hne)]
              rfl
      | some fault => cases other <;> rfl

theorem Ended.of_same (h : item.Ended fault before after) (hsame : item.Same after after') :
    item.Ended fault before after' := by
  cases fault <;> cases item <;> exact hsame.trans h

theorem Ended.from_same (hsame : item.Same node before) (h : item.Ended fault before after) :
    item.Ended fault node after := by
  cases fault with
  | none => exact h
  | some fault =>
      cases item with
      | subtree name => exact h.trans (congrArg _ hsame)
      | value name => exact h.trans hsame

/-- What the call answers. -/
def answer (item : OwnedItem) (fault : Option Fault) : Result Unit :=
  match fault with
  | none => .ok ()
  | some fault => .error (item.refusal fault)

theorem exec_remove (item : OwnedItem) (node : Params fold σ) (faults : Nat → Option Fault) :
    item.remove.exec ⟨node, faults⟩ =
      (item.answer (faults 0), ⟨item.removed (faults 0) node, fun n => faults (n + 1)⟩) := by
  cases item with
  | subtree name =>
      change (ignoreMissing (deleteSubtree name)).exec _ = _
      rw [deleteSubtree, exec_ignoreMissing_call (node.eraseSubkey name)
        (fun fault context => Runs.mapRegError_ne_notFound _ fault context)]
      · cases faults 0 <;> rfl
      · rcases hchild : node.subkey? name with _ | child
        · have habsent : node.subkeys.lookup (fold.key (toWide name)) = none := by
            simpa [Node.subkey?, Table.find?] using hchild
          rw [Node.eraseSubkey, Table.erase_of_lookup_none habsent]
          exact .inr ⟨_, rfl⟩
        · exact .inl rfl
  | value name =>
      change (ignoreMissing (deleteValue name)).exec _ = _
      rw [deleteValue, exec_ignoreMissing_call (node.eraseValue name)
        (fun fault context => Runs.mapRegError_ne_notFound _ fault context)]
      · cases faults 0 <;> rfl
      · rcases hvalue : node.value? name with _ | value
        · have habsent : node.values.lookup (fold.key (toWide name)) = none := by
            simpa [Node.value?, Table.find?] using hvalue
          rw [Node.eraseValue, Table.erase_of_lookup_none habsent]
          exact .inr ⟨_, rfl⟩
        · exact .inl rfl

end OwnedItem

/-! ## The loop -/

/-- The items whose call is refused, each with its fault. -/
def refused : List OwnedItem → (Nat → Option Fault) → List (OwnedItem × Fault)
  | [], _ => []
  | item :: rest, faults =>
      (faults 0).toList.map (item, ·) ++ refused rest fun n => faults (n + 1)

/-- What is reported of them. -/
def failureTexts (failed : List (OwnedItem × Fault)) : List String :=
  failed.map fun entry => entry.1.failure (entry.1.refusal entry.2)

/-- The key after one call for each item. -/
def afterItems : List OwnedItem → (Nat → Option Fault) → Params fold σ → Params fold σ
  | [], _, node => node
  | item :: rest, faults, node =>
      afterItems rest (fun n => faults (n + 1)) (item.removed (faults 0) node)

/-- An item is among the refused exactly when its own call is refused. -/
theorem mem_refused {items : List OwnedItem} {faults : Nat → Option Fault} {item : OwnedItem}
    {fault : Fault} :
    (item, fault) ∈ refused items faults ↔ ∃ i, items[i]? = some item ∧ faults i = some fault := by
  induction items generalizing faults with
  | nil => simp [refused]
  | cons head rest ih =>
      rw [refused, List.mem_append, ih]
      constructor
      · rintro (hhead | ⟨i, hitem, hfault⟩)
        · obtain ⟨fault', hfault, hpair⟩ := List.mem_map.mp hhead
          cases hpair
          exact ⟨0, rfl, Option.mem_toList.mp hfault⟩
        · exact ⟨i + 1, hitem, hfault⟩
      · rintro ⟨i, hitem, hfault⟩
        cases i with
        | zero =>
            cases hitem
            exact .inl (List.mem_map.mpr ⟨fault, Option.mem_toList.mpr hfault, rfl⟩)
        | succ i => exact .inr ⟨i, hitem, hfault⟩

/-- The loop goes through all items, whatever fails. -/
theorem exec_scrubItems (items : List OwnedItem) (failures : List String) (node : Params fold σ)
    (faults : Nat → Option Fault) :
    (items.foldlM scrubItem failures).exec ⟨node, faults⟩ =
      (.ok (failures ++ failureTexts (refused items faults)),
        ⟨afterItems items faults node, fun n => faults (n + items.length)⟩) := by
  induction items generalizing failures node faults with
  | nil => simp [refused, failureTexts, afterItems]
  | cons item rest ih =>
      have hitem : (scrubItem failures item).exec ⟨node, faults⟩ =
          (.ok (failures ++ failureTexts ((faults 0).toList.map (item, ·))),
            ⟨item.removed (faults 0) node, fun n => faults (n + 1)⟩) := by
        rw [scrubItem, Prog.exec_bind, Prog.attempt, Prog.exec_step, OwnedItem.exec_remove]
        cases faults 0 with
        | none => simp [OwnedItem.answer, failureTexts]
        | some fault => simp [OwnedItem.answer, failureTexts]
      rw [List.foldlM_cons, Prog.exec_bind, hitem]
      simp only
      rw [ih, refused, failureTexts, failureTexts, failureTexts, List.map_append, List.append_assoc]
      refine Prod.ext rfl ?_
      simp only [afterItems, List.length_cons, World.mk.injEq, true_and]
      funext n
      rw [Nat.add_assoc, Nat.add_comm rest.length 1]

section Items

variable {items : List OwnedItem} {faults : Nat → Option Fault} {node : Params fold σ}

theorem reduced_afterItems (howned : ∀ item ∈ items, item ∈ ownedItems) :
    Reduced node (afterItems items faults node) := by
  induction items generalizing faults node with
  | nil => exact .refl node
  | cons item rest ih =>
      have hhead : Reduced node (item.removed (faults 0) node) :=
        OwnedItem.reduced_removed (howned item List.mem_cons_self)
      exact hhead.trans (ih fun other hother => howned other (List.mem_cons_of_mem _ hother))

theorem same_afterItems (howned : ∀ item ∈ items, item ∈ ownedItems) {other : OwnedItem}
    (hother : other ∈ ownedItems) (hout : other ∉ items) :
    other.Same node (afterItems items faults node) := by
  induction items generalizing faults node with
  | nil => cases other <;> rfl
  | cons item rest ih =>
      have hne := List.ne_of_not_mem_cons hout
      have hhead : other.Same node (item.removed (faults 0) node) :=
        OwnedItem.same_removed (howned item List.mem_cons_self) hother hne
      have hrest : other.Same (item.removed (faults 0) node)
          (afterItems (item :: rest) faults node) :=
        ih (fun item' hitem' => howned item' (List.mem_cons_of_mem _ hitem'))
          (List.not_mem_of_not_mem_cons hout)
      cases other <;> exact hrest.trans hhead

/-- Each item ends as its own call leaves it. -/
theorem ended_afterItems (howned : ∀ item ∈ items, item ∈ ownedItems) (hnodup : items.Nodup)
    {i : Nat} {item : OwnedItem} (hitem : items[i]? = some item) :
    item.Ended (faults i) node (afterItems items faults node) := by
  induction items generalizing faults node i with
  | nil => cases hitem
  | cons head rest ih =>
      obtain ⟨hout, hrest⟩ := List.nodup_cons.mp hnodup
      have hownedRest : ∀ item ∈ rest, item ∈ ownedItems :=
        fun item hin => howned item (List.mem_cons_of_mem _ hin)
      cases i with
      | zero =>
          cases hitem
          exact OwnedItem.ended_removed.of_same
            (same_afterItems hownedRest (howned _ List.mem_cons_self) hout)
      | succ i =>
          have hin : item ∈ rest := List.mem_of_getElem? hitem
          have hne : item ≠ head := fun heq => hout (heq ▸ hin)
          have hended : item.Ended (faults (i + 1)) (head.removed (faults 0) node)
              (afterItems (head :: rest) faults node) :=
            @ih (fun n => faults (n + 1)) _ hownedRest hrest i hitem
          exact .from_same (OwnedItem.same_removed (howned head List.mem_cons_self)
            (hownedRest item hin) hne) hended

end Items

/-! ## What a purge leaves -/

/-- Without its marker the service has no configuration, whatever else is left. -/
theorem read_of_gone {node : Params fold σ} (hgone : (OwnedItem.value application).Gone node)
    (service : String) : readManagedFromKey node service = .ok none := by
  have hread : optional (readTypedString node application) = .ok none := optional_of_none hgone
  rw [readManagedFromKey, readManaged, Prog.exec_bind, optConfigString, hread]
  rfl

/-- The name is accepted, and the lock and the key are there. -/
def PurgeBegins (service : String) (faults : Nat → Option Fault) : Prop :=
  validateServiceName service = .ok () ∧ faults 0 = none ∧ faults 1 = none

/-- What is answered when these calls were refused. -/
def purgeAnswer (failed : List (OwnedItem × Fault)) : Result Unit :=
  if failed = [] then .ok () else .error (couldNotRemove (failureTexts failed))

/-- What a purge leaves and answers: the call for the `i`th item is the one after the lock,
the opening of the key and the calls for the items before it. -/
structure PurgeEnds (service : String) (faults : Nat → Option Fault) (before after : Params fold σ)
    (outcome : Result Unit) : Prop where
  reduced : Reduced before after
  stopped : ¬PurgeBegins service faults → after = before ∧ ∃ e, outcome = .error e
  ended : PurgeBegins service faults → ∀ (i : Nat) (item : OwnedItem), ownedItems[i]? = some item →
    item.Ended (faults (i + 2)) before after
  reported : PurgeBegins service faults →
    outcome = purgeAnswer (refused ownedItems fun n => faults (n + 2))
  done : outcome = .ok () → (∀ item ∈ ownedItems, item.Gone after) ∧
    readManagedFromKey after service = .ok none

theorem application_owned : OwnedItem.value application ∈ ownedItems :=
  mem_ownedItems.mpr (.inr ⟨application, by decide, rfl⟩)

theorem nodup_ownedItems : ownedItems.Nodup := by
  decide

theorem exec_scrubManaged (node : Params fold σ) (faults : Nat → Option Fault) :
    scrubManaged.exec ⟨node, faults⟩ = (purgeAnswer (refused ownedItems faults),
      ⟨afterItems ownedItems faults node, fun n => faults (n + ownedItems.length)⟩) := by
  rw [scrubManaged, Prog.exec_bind, exec_scrubItems]
  simp only [List.nil_append]
  cases refused ownedItems faults with
  | nil => rfl
  | cons entry failed => rfl

/-- A purge that stops before it has removed anything. -/
theorem purgeEnds_untouched {service : String} {faults : Nat → Option Fault}
    (hstop : ¬PurgeBegins service faults) (node : Params fold σ) (e : Error) :
    PurgeEnds service faults node node (.error e) where
  reduced := .refl node
  stopped _ := ⟨rfl, e, rfl⟩
  ended hbegins := absurd hbegins hstop
  reported hbegins := absurd hbegins hstop
  done hok := nomatch hok

/-- One that goes through the items. -/
theorem purgeEnds_scrubbed {service : String} {faults : Nat → Option Fault}
    (hbegins : PurgeBegins service faults) (node : Params fold σ) :
    PurgeEnds service faults node (afterItems ownedItems (fun n => faults (n + 2)) node)
      (purgeAnswer (refused ownedItems fun n => faults (n + 2))) := by
  have hended : ∀ (i : Nat) (item : OwnedItem), ownedItems[i]? = some item →
      item.Ended (faults (i + 2)) node (afterItems ownedItems (fun n => faults (n + 2)) node) :=
    fun i item hitem => @ended_afterItems _ _ _ (fun n => faults (n + 2)) _ (fun _ h => h)
      nodup_ownedItems i item hitem
  refine ⟨reduced_afterItems fun _ h => h, fun hstop => absurd hbegins hstop, fun _ => hended,
    fun _ => rfl, fun hdone => ?_⟩
  have hnone : refused ownedItems (fun n => faults (n + 2)) = [] := by
    by_contra hsome
    rw [purgeAnswer, if_neg hsome] at hdone
    cases hdone
  have hgone : ∀ item ∈ ownedItems,
      item.Gone (afterItems ownedItems (fun n => faults (n + 2)) node) := by
    intro item hin
    obtain ⟨i, hitem⟩ := List.mem_iff_getElem?.mp hin
    have hitemEnded := hended i item hitem
    cases hfault : faults (i + 2) with
    | none =>
        rw [hfault] at hitemEnded
        exact hitemEnded
    | some fault =>
        have hrefused : (item, fault) ∈ refused ownedItems fun n => faults (n + 2) :=
          mem_refused.mpr ⟨i, hitem, hfault⟩
        rw [hnone] at hrefused
        cases hrefused
  exact ⟨hgone, read_of_gone (hgone _ application_owned) service⟩

/-- A purge stops at the name, at the lock or at the key, or it goes through the items. -/
theorem purgeEnds_exec (service : String) (node : Params fold σ) (faults : Nat → Option Fault) :
    PurgeEnds service faults node ((deleteManagedConfig service).exec ⟨node, faults⟩).2.node
      ((deleteManagedConfig service).exec ⟨node, faults⟩).1 := by
  rw [deleteManagedConfig, Prog.exec_bind]
  cases hname : validateServiceName service with
  | error e =>
      have hstop : ¬PurgeBegins service faults := fun hbegins => by
        have := hbegins.1
        rw [hname] at this
        cases this
      exact purgeEnds_untouched hstop node e
  | ok _ =>
      change PurgeEnds service faults node
        ((SingleValue.lockConfiguration >>= fun _ => SingleValue.openParameters service >>=
          fun _ => scrubManaged).exec ⟨node, faults⟩).2.node
        ((SingleValue.lockConfiguration >>= fun _ => SingleValue.openParameters service >>=
          fun _ => scrubManaged).exec ⟨node, faults⟩).1
      rw [Prog.exec_bind, SingleValue.lockConfiguration, exec_query_faults]
      cases hlock : faults 0 with
      | some fault =>
          have hstop : ¬PurgeBegins service faults := fun hbegins => by
            have := hbegins.2.1
            rw [hlock] at this
            cases this
          exact purgeEnds_untouched hstop node _
      | none =>
          simp only
          rw [Prog.exec_bind, SingleValue.openParameters, exec_query_faults]
          cases hopen : faults (0 + 1) with
          | some fault =>
              have hstop : ¬PurgeBegins service faults := fun hbegins => by
                have := hbegins.2.2
                rw [hopen] at this
                cases this
              exact purgeEnds_untouched hstop node _
          | none =>
              simp only [exec_scrubManaged]
              exact purgeEnds_scrubbed ⟨hname, hlock, hopen⟩ node

/-- Without a fault nothing is refused. -/
theorem refused_of_calm {items : List OwnedItem} {faults : Nat → Option Fault}
    (hcalm : Calm faults) : refused items faults = [] := by
  rw [List.eq_nil_iff_forall_not_mem]
  rintro ⟨item, fault⟩ hin
  obtain ⟨i, -, hfault⟩ := mem_refused.mp hin
  rw [hcalm i] at hfault
  cases hfault

theorem PurgeEnds.returns {service : String} {faults : Nat → Option Fault}
    {before after : Params fold σ} {outcome : Result Unit}
    (h : PurgeEnds service faults before after outcome)
    (hname : validateServiceName service = .ok ()) (hcalm : Calm faults) : outcome = .ok () := by
  rw [h.reported ⟨hname, hcalm 0, hcalm 1⟩, refused_of_calm fun n => hcalm (n + 2)]
  rfl

/-- A purge without a fault returns. -/
theorem exec_deleteManagedConfig {service : String} (hname : validateServiceName service = .ok ())
    (node : Params fold σ) :
    ∃ w, (deleteManagedConfig service).exec ⟨node, noFaults⟩ = (.ok (), w) := by
  have hreturns := (purgeEnds_exec service node noFaults).returns hname fun _ => rfl
  exact ⟨_, Prod.ext hreturns rfl⟩

/-! ## Purging until it succeeds -/

/-- The key after these attempts. -/
def afterPurges (service : String) (node : Params fold σ) (attempts : List (Nat → Option Fault)) :
    Params fold σ :=
  attempts.foldl (fun n faults => ((deleteManagedConfig service).exec ⟨n, faults⟩).2.node) node

theorem reduced_deleteManagedConfig (service : String) (node : Params fold σ)
    (faults : Nat → Option Fault) :
    Reduced node ((deleteManagedConfig service).exec ⟨node, faults⟩).2.node :=
  (purgeEnds_exec service node faults).reduced

theorem reduced_afterPurges (service : String) (node : Params fold σ)
    (attempts : List (Nat → Option Fault)) : Reduced node (afterPurges service node attempts) := by
  induction attempts generalizing node with
  | nil => exact .refl node
  | cons faults attempts ih => exact (reduced_deleteManagedConfig service node faults).trans (ih _)

/-- However often a purge has failed, and wherever: what the manager does not own is as it was,
each owned item is left as its own call leaves it, an attempt is answered with the items whose
call was refused, and one that returns leaves nothing of the configuration. -/
theorem purge_repeated {service : String} {node : Params fold σ} {faults : Nat → Option Fault}
    {outcome : Result Unit} {w : World (Params fold σ)} (attempts : List (Nat → Option Fault))
    (hrun : (deleteManagedConfig service).exec ⟨afterPurges service node attempts, faults⟩ =
      (outcome, w)) :
    Reduced node w.node ∧
      PurgeEnds service faults (afterPurges service node attempts) w.node outcome ∧
      (validateServiceName service = .ok () → Calm faults → outcome = .ok ()) := by
  have hends := purgeEnds_exec service (afterPurges service node attempts) faults
  rw [hrun] at hends
  exact ⟨(reduced_afterPurges service node attempts).trans hends.reduced, hends, hends.returns⟩

/-! ### Items that are in use -/

/-- The removal of the exit actions fails, the third call of a purge. -/
def exitsDenied : Nat → Option Fault :=
  fun n => if n = 2 then some accessDenied else none

/-- A managed key with a value of the application itself. -/
def sharedKey : Params asciiFold Unit :=
  ((Node.empty.setValue application (stringValue regSz "C:\\app.exe")).setValue "Vendor"
    (dwordValue 7)).setSubkey appExit .empty

/-- The removal of the marker fails, the fifth call. -/
def markerDenied : Nat → Option Fault :=
  fun n => if n = 4 then some accessDenied else none

/-- Both fail. -/
def bothDenied : Nat → Option Fault :=
  fun n => if n = 2 then some accessDenied else markerDenied n

/-- The second attempt removes the exit actions, leaves the marker and names it. -/
theorem denied_purge_repeated :
    ∃ w, (deleteManagedConfig "svc").exec
        ⟨afterPurges "svc" sharedKey [bothDenied], markerDenied⟩ =
        (.error (couldNotRemove ["Application (registry: RegDeleteValue(Application): " ++
          "Access is denied. (0x80070005))"]), w) ∧
      w.node.subkey? appExit = none ∧
      w.node.value? application = some (stringValue regSz "C:\\app.exe") ∧
      w.node.value? "Vendor" = some (dwordValue 7) := by
  have hbegins : PurgeBegins "svc" markerDenied := ⟨by decide, rfl, rfl⟩
  have hanswer : purgeAnswer (refused ownedItems fun n => markerDenied (n + 2)) =
      .error (couldNotRemove ["Application (registry: RegDeleteValue(Application): " ++
        "Access is denied. (0x80070005))"]) := by
    decide +kernel
  have hmarker : (afterPurges "svc" sharedKey [bothDenied]).value? application =
      some (stringValue regSz "C:\\app.exe") := by
    decide +kernel
  -- nothing below evaluates the run
  generalize hrun : (deleteManagedConfig "svc").exec
    ⟨afterPurges "svc" sharedKey [bothDenied], markerDenied⟩ = run
  obtain ⟨outcome, w⟩ := run
  obtain ⟨hreduced, hends, -⟩ := purge_repeated [bothDenied] hrun
  have hexits := hends.ended hbegins 0 (.subtree appExit) rfl
  have hkept := hends.ended hbegins 2 (.value application) rfl
  have hforeign : asciiFold.key (toWide "Vendor") ∉ ownedKeys asciiFold := by decide +kernel
  refine ⟨w, ?_, hexits, ?_, ?_⟩
  · rw [hends.reported hbegins, hanswer]
  · rw [← hmarker]
    exact hkept
  · rw [Node.value?_eq, Node.valueAt, hreduced.unmanaged.values _ hforeign]
    rfl

/-- The first attempt says what is left. -/
example : ((deleteManagedConfig "svc").exec ⟨sharedKey, exitsDenied⟩).1 =
    .error (couldNotRemove ["AppExit (registry: RegDeleteTree(AppExit): Access is denied. " ++
      "(0x80070005))"]) := by
  decide +kernel

/-! ## Writing and purging -/

/-- The key after these configurations were written into it, one after the other. -/
def afterWrites (node : Params fold σ)
    (writes : List (ManagedApplicationConfig × (Nat → Option Fault))) : Params fold σ :=
  writes.foldl (fun n write => ((writeIntoKey write.1).exec ⟨n, write.2⟩).2.node) node

/-- However a write ends, it has changed nothing that the manager does not own. -/
theorem unmanaged_writeIntoKey {node : Params fold σ} (hnames : NamesDecode node)
    (cfg : ManagedApplicationConfig) (faults : Nat → Option Fault) :
    Unmanaged node ((writeIntoKey cfg).exec ⟨node, faults⟩).2.node ∧
      NamesDecode ((writeIntoKey cfg).exec ⟨node, faults⟩).2.node := by
  refine Prog.wp_state (P := fun w : World (Params fold σ) =>
    Unmanaged node w.node ∧ NamesDecode w.node) ?_
  cases hpreflight : preflightConfig fold cfg with
  | error e =>
      rw [writeIntoKey, Prog.wp_bind, Prog.wp_liftExcept, hpreflight]
      exact ⟨.refl node, hnames⟩
  | ok exits =>
      refine Prog.wp_mono _ ?_ ?_ (runs_writeIntoKey hpreflight hnames faults)
      · rintro _ w ⟨hwritten, -⟩
        exact ⟨hwritten.unmanaged, hwritten.names⟩
      · rintro _ w ⟨hmidway, -⟩
        exact ⟨hmidway.unmanaged, hmidway.names⟩

theorem unmanaged_afterWrites {node : Params fold σ} (hnames : NamesDecode node)
    (writes : List (ManagedApplicationConfig × (Nat → Option Fault))) :
    Unmanaged node (afterWrites node writes) := by
  induction writes generalizing node with
  | nil => exact .refl node
  | cons write writes ih =>
      obtain ⟨hunmanaged, hdecode⟩ := unmanaged_writeIntoKey hnames write.1 write.2
      exact hunmanaged.trans (ih hdecode)

section Fresh

variable {node node' : Params fold σ}

theorem namesDecode_fresh (hfresh : ∀ item ∈ ownedItems, item.Gone node) : NamesDecode node where
  exits exit hexit := by
    have hgone := hfresh (.subtree appExit) (mem_ownedItems.mpr (.inl ⟨appExit, by decide, rfl⟩))
    rw [OwnedItem.Gone, Node.subkey?_eq] at hgone
    exact nomatch hgone.symm.trans hexit
  events events hevents := by
    have hgone := hfresh (.subtree appEvents)
      (mem_ownedItems.mpr (.inl ⟨appEvents, by decide, rfl⟩))
    rw [OwnedItem.Gone, Node.subkey?_eq] at hgone
    exact nomatch hgone.symm.trans hevents

theorem lookup_value_fresh (hfresh : ∀ item ∈ ownedItems, item.Gone node) {k : Name}
    (hk : k ∈ ownedKeys fold) : node.values.lookup k = none := by
  obtain ⟨name, hname, rfl⟩ := List.mem_map.mp hk
  have hgone := hfresh (.value name) (mem_ownedItems.mpr (.inr ⟨name, hname, rfl⟩))
  rw [OwnedItem.Gone, Node.value?_eq, key_scalarName ((mem_scalarNames_iff name).mpr hname)]
    at hgone
  exact Option.map_eq_none_iff.mp hgone

theorem lookup_subtree_fresh (hfresh : ∀ item ∈ ownedItems, item.Gone node) {name : String}
    (hname : name ∈ [appExit, appEvents]) :
    node.subkeys.lookup (fold.key (toWide name)) = none := by
  have hgone := hfresh (.subtree name) (mem_ownedItems.mpr (.inl ⟨name, hname, rfl⟩))
  rw [OwnedItem.Gone, Node.subkey?_eq] at hgone
  exact Option.map_eq_none_iff.mp hgone

/-- Two keys without anything owned that agree on the rest are the same. -/
theorem lookup_fresh (h : Unmanaged node node') (hfresh : ∀ item ∈ ownedItems, item.Gone node)
    (hfresh' : ∀ item ∈ ownedItems, item.Gone node') (k : Name) :
    node'.values.lookup k = node.values.lookup k ∧
      node'.subkeys.lookup k = node.subkeys.lookup k := by
  constructor
  · by_cases hk : k ∈ ownedKeys fold
    · rw [lookup_value_fresh hfresh hk, lookup_value_fresh hfresh' hk]
    · exact h.values k hk
  · by_cases hexit : k = exitKey fold
    · have hname : appExit ∈ [appExit, appEvents] := by decide
      rw [hexit, exitKey, lookup_subtree_fresh hfresh hname, lookup_subtree_fresh hfresh' hname]
    by_cases hevents : k = eventsKey fold
    · have hname : appEvents ∈ [appExit, appEvents] := by decide
      rw [hevents, eventsKey, lookup_subtree_fresh hfresh hname,
        lookup_subtree_fresh hfresh' hname]
    · exact h.subkeys k hexit hevents

end Fresh

/-- Whatever configurations were written into a key that held none, and wherever the writes and
the first purges were cut short: the purge that returns leaves the key as it was. -/
theorem purge_restores {service : String} {node : Params fold σ}
    {writes : List (ManagedApplicationConfig × (Nat → Option Fault))}
    {attempts : List (Nat → Option Fault)} {faults : Nat → Option Fault}
    {w : World (Params fold σ)} (hfresh : ∀ item ∈ ownedItems, item.Gone node)
    (hpurge : (deleteManagedConfig service).exec
      ⟨afterPurges service (afterWrites node writes) attempts, faults⟩ = (.ok (), w)) (k : Name) :
    w.node.values.lookup k = node.values.lookup k ∧
      w.node.subkeys.lookup k = node.subkeys.lookup k := by
  have hwritten := unmanaged_afterWrites (namesDecode_fresh hfresh) writes
  have hpurges := reduced_afterPurges service (afterWrites node writes) attempts
  have hends :=
    purgeEnds_exec service (afterPurges service (afterWrites node writes) attempts) faults
  rw [hpurge] at hends
  exact lookup_fresh (hwritten.trans (hpurges.unmanaged.trans hends.reduced.unmanaged)) hfresh
    (hends.done rfl).1 k

/-! ### A configuration that comes and goes -/

/-- A native service's own parameters. -/
def nativeKey : Params asciiFold Unit :=
  Node.empty.setValue "Vendor" (dwordValue 7)

theorem gone_nativeKey : ∀ item ∈ ownedItems, item.Gone nativeKey := by
  have hvalues : ∀ name ∈ ownedValueNames, nativeKey.value? name = none := by decide +kernel
  intro item hitem
  rcases mem_ownedItems.mp hitem with ⟨name, -, rfl⟩ | ⟨name, hname, rfl⟩
  · rfl
  · exact hvalues name hname

theorem native_purge_restores :
    ∃ w, (deleteManagedConfig "svc").exec
        ⟨afterPurges "svc" (afterWrites nativeKey [(hookedConfig "hook.exe", noFaults)])
          [exitsDenied], noFaults⟩ = (.ok (), w) ∧
      ∀ k, w.node.values.lookup k = nativeKey.values.lookup k ∧
        w.node.subkeys.lookup k = nativeKey.subkeys.lookup k := by
  have hsvc : validateServiceName "svc" = .ok () := by decide
  obtain ⟨w, hrun⟩ := exec_deleteManagedConfig hsvc
    (afterPurges "svc" (afterWrites nativeKey [(hookedConfig "hook.exe", noFaults)]) [exitsDenied])
  exact ⟨w, hrun, purge_restores gone_nativeKey hrun⟩

end Ngsm.Ops
