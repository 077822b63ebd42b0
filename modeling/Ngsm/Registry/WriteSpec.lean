/-
# What a write does to a parameters key

The specification of `writeIntoKey`.  `Written` is the key after a successful
write: owned content is exactly what the configuration wants, and everything else
is untouched.  `Midway` is the key after a fault at any point: each part of it is
somewhere in a write-first reconciliation.  `runs_writeIntoKey` proves both, and
that without faults the write succeeds.
-/

import Ngsm.Registry.ReconcileHooks

namespace Ngsm.Registry

open Ngsm.Lib Ngsm.Core NssmKeys

variable {fold : NameFold} {σ : Type}

/-! ## The parts of a parameters key -/

/-- The key of the exit-action subtree. -/
def exitKey (fold : NameFold) : Name :=
  fold.key (toWide appExit)

/-- The key of the hook subtree. -/
def eventsKey (fold : NameFold) : Name :=
  fold.key (toWide appEvents)

theorem exitKey_ne_eventsKey : exitKey fold ≠ eventsKey fold := by
  rw [exitKey, eventsKey, key_toWide (by decide), key_toWide (by decide),
    windowsNameKey_of_isAscii (by decide), windowsNameKey_of_isAscii (by decide)]
  decide

/-- The exit actions as a map. -/
def exitAt (node : Params fold σ) (k : Name) : Option RegValue :=
  (node.childAt (exitKey fold)).bind fun exit => exit.valueAt k

/-- The hooks as a map. -/
def hooksAt (node : Params fold σ) (k : Name × Name) : Option RegValue :=
  (node.childAt (eventsKey fold)).bind fun events => hookAt events k

/-- Every name in the two owned subtrees decodes. -/
structure NamesDecode (node : Params fold σ) : Prop where
  exits : ∀ exit, node.childAt (exitKey fold) = some exit → exit.ValueNamesDecode
  events : ∀ events, node.childAt (eventsKey fold) = some events → EventsDecode events

/-- The spellings that occur among the exit actions while `exits` is written into
`node`: those that were there and those of the writer. -/
def ExitSpelling (node : Params fold σ) (exits : ExitActions) (words : Name) : Prop :=
  (∃ exit, node.childAt (exitKey fold) = some exit ∧
    ∃ value, (words, value) ∈ exit.values.entries) ∨
  ∃ key ∈ exits, words = toWide (exitRegistryName key)

/-- The exit actions of `next` are spelled as allowed for a write into `node`. -/
def ExitsSpelled (exits : ExitActions) (node next : Params fold σ) : Prop :=
  ∀ exit, next.childAt (exitKey fold) = some exit → exit.NamesIn (ExitSpelling node exits)

theorem ExitsSpelled.refl (exits : ExitActions) (node : Params fold σ) :
    ExitsSpelled exits node node :=
  fun exit hexit entry hentry => .inl ⟨exit, hexit, entry.2, hentry⟩

theorem ExitsSpelled.congr {exits : ExitActions} {node node' next next' : Params fold σ}
    (h : ExitsSpelled exits node next)
    (hnode : node'.childAt (exitKey fold) = node.childAt (exitKey fold))
    (hnext : next'.childAt (exitKey fold) = next.childAt (exitKey fold)) :
    ExitsSpelled exits node' next' := by
  intro exit hexit
  rw [hnext] at hexit
  intro entry hentry
  have hspelling := h exit hexit entry hentry
  unfold ExitSpelling at hspelling ⊢
  rwa [hnode]

/-- The identities of the scalar values the manager owns. -/
def ownedKeys (fold : NameFold) : List Name :=
  ownedValueNames.map (windowsNameKey fold)

/-- `node'` differs from `node` at most in one subtree. -/
structure SameOutside (k : Name) (node node' : Params fold σ) : Prop where
  values : node'.values = node.values
  subkeys : ∀ j, j ≠ k → node'.subkeys.lookup j = node.subkeys.lookup j

namespace SameOutside

variable {k : Name} {node node' : Params fold σ}

theorem refl (k : Name) (node : Params fold σ) : SameOutside k node node :=
  ⟨rfl, fun _ _ => rfl⟩

theorem setSubkey (node : Params fold σ) (name : String) (child : Node fold (Node fold σ)) :
    SameOutside (fold.key (toWide name)) node (node.setSubkey name child) := by
  refine ⟨rfl, fun j hj => ?_⟩
  simp only [Node.setSubkey, Table.lookup_insert, if_neg hj]

theorem eraseSubkey (node : Params fold σ) (name : String) :
    SameOutside (fold.key (toWide name)) node (node.eraseSubkey name) := by
  refine ⟨rfl, fun j hj => ?_⟩
  simp only [Node.eraseSubkey, Table.lookup_erase, if_neg hj]

theorem trans {node'' : Params fold σ} (h : SameOutside k node node')
    (h' : SameOutside k node' node'') : SameOutside k node node'' :=
  ⟨h'.values.trans h.values, fun j hj => (h'.subkeys j hj).trans (h.subkeys j hj)⟩

theorem childAt (h : SameOutside k node node') {j : Name} (hj : j ≠ k) :
    node'.childAt j = node.childAt j := by
  rw [Node.childAt, h.subkeys j hj]
  rfl

theorem valueAt (h : SameOutside k node node') : node'.valueAt = node.valueAt := by
  unfold Node.valueAt
  rw [h.values]

theorem hooksAt (h : SameOutside (exitKey fold) node node') :
    Registry.hooksAt node' = Registry.hooksAt node := by
  funext k
  rw [Registry.hooksAt, h.childAt exitKey_ne_eventsKey.symm]
  rfl

theorem exitAt (h : SameOutside (eventsKey fold) node node') :
    Registry.exitAt node' = Registry.exitAt node := by
  funext k
  rw [Registry.exitAt, h.childAt exitKey_ne_eventsKey]
  rfl

end SameOutside

/-! ## The two subtrees -/

/-- A way of seeing a subtree as a map, with the well-formedness of names it
needs.  Removing subkeys of the subtree may lose entries of the map but adds and
changes none. -/
structure SubtreeView (fold : NameFold) (σ κ : Type) where
  view : Node fold (Node fold σ) → κ → Option RegValue
  decodes : Node fold (Node fold σ) → Prop
  view_empty : ∀ k, view .empty k = none
  decodes_empty : decodes .empty
  view_keep : ∀ child keep k, view (child.keepSubkeys keep) k = view child k ∨
    view (child.keepSubkeys keep) k = none
  decodes_keep : ∀ child keep, decodes child → decodes (child.keepSubkeys keep)

/-- The map of a subtree that may be absent. -/
def SubtreeView.at {κ : Type} (V : SubtreeView fold σ κ) (key : Name) (node : Params fold σ)
    (k : κ) : Option RegValue :=
  (node.childAt key).bind fun child => V.view child k

/-- Exit actions: the values of the subtree, under names of allowed spellings. -/
def exitView (allowed : Name → Prop) : SubtreeView fold σ Name where
  view := Node.valueAt
  decodes := Node.NamesIn allowed
  view_empty _ := rfl
  decodes_empty := by
    intro entry hentry
    cases hentry
  view_keep _ _ _ := .inl rfl
  decodes_keep _ _ h := h

/-- Hooks: the values of its subkeys. -/
def hookView : SubtreeView fold σ (Name × Name) where
  view := hookAt
  decodes := EventsDecode
  view_empty _ := rfl
  decodes_empty := by
    intro entry hentry
    cases hentry
  view_keep child keep k := by
    have hlookup := Table.lookup_filter child.subkeys keep k.1
    rcases hentry : child.subkeys.lookup k.1 with _ | entry
    · left
      rw [hookAt, hookAt, Node.childAt, Node.childAt, Node.keepSubkeys, hlookup, hentry]
      rfl
    · cases hkeep : keep entry.1 with
      | true =>
          left
          rw [hookAt, hookAt, Node.childAt, Node.childAt, Node.keepSubkeys, hlookup, hentry]
          simp [Option.filter, hkeep]
      | false =>
          right
          rw [hookAt, Node.childAt, Node.keepSubkeys, hlookup, hentry]
          simp [Option.filter, hkeep]
  decodes_keep _ _ h := fun entry hentry => h entry (Table.mem_of_mem_filter hentry)

/-- Reconciling a subtree: remove it when nothing is wanted, otherwise create it
and reconcile what is inside. -/
theorem runs_subtree {κ : Type} (V : SubtreeView fold σ κ) {name : String}
    (wanted : κ → Option RegValue) (Done : Node fold (Node fold σ) → Prop)
    {nothing : Prop} [Decidable nothing] {inner : RegM (Node fold (Node fold σ)) Unit}
    (hnothing : nothing → ∀ k, wanted k = none)
    (hinner : ∀ (child : Node fold (Node fold σ)) (Q : Unit → Node fold (Node fold σ) → Prop)
      (R : Node fold (Node fold σ) → Prop), V.decodes child →
      (∀ next, V.decodes next → WriteFirst (V.view child) wanted (V.view next) → R next) →
      (∀ next, V.decodes next → (∀ k, V.view next k = wanted k) → Done next → Q () next) →
      Runs inner child Q R)
    {node : Params fold σ} {Q : Unit → Params fold σ → Prop} {R : Params fold σ → Prop}
    (hnames : ∀ child, node.childAt (fold.key (toWide name)) = some child → V.decodes child)
    (hcut : ∀ next, SameOutside (fold.key (toWide name)) node next →
      (∀ child, next.childAt (fold.key (toWide name)) = some child → V.decodes child) →
      WriteFirst (V.at (fold.key (toWide name)) node) wanted
        (V.at (fold.key (toWide name)) next) → R next)
    (hpost : ∀ next, SameOutside (fold.key (toWide name)) node next →
      (∀ child, next.childAt (fold.key (toWide name)) = some child →
        V.decodes child ∧ Done child) →
      (∀ k, V.at (fold.key (toWide name)) next k = wanted k) → Q () next) :
    Runs (if nothing then ignoreMissing (deleteSubtree name)
      else do
        createSubkeyUnder name
        inSubkey name inner) node Q R := by
  have hself : ∀ (n : Params fold σ) (child : Node fold (Node fold σ)),
      (n.setSubkey name child).childAt (fold.key (toWide name)) = some child := by
    intro n child
    rw [Node.childAt_setSubkey, if_pos rfl]
  have hview : ∀ (n : Params fold σ) (child : Node fold (Node fold σ)) (k : κ),
      V.at (fold.key (toWide name)) (n.setSubkey name child) k = V.view child k := by
    intro n child k
    rw [SubtreeView.at, hself]
    rfl
  split
  · rename_i hempty
    refine Runs.deleteSubtree (fun fault => ?_) ?_
    · unfold cutSubtree
      split
      · rename_i child hchild
        have hat : V.at (fold.key (toWide name)) node = V.view child := by
          funext k
          rw [SubtreeView.at, show node.childAt (fold.key (toWide name)) = some child from hchild]
          rfl
        refine hcut _ (SameOutside.setSubkey node name _) (fun other hother => ?_)
          (.inr fun k => .inr ⟨hnothing hempty k, ?_⟩)
        · rw [hself] at hother
          cases hother
          exact V.decodes_keep child fault.keep (hnames child hchild)
        · rw [hview, hat]
          exact V.view_keep child fault.keep k
      · exact hcut _ (SameOutside.refl _ _) hnames (.inl (Writing.refl _ _))
    · have hgone : (node.eraseSubkey name).childAt (fold.key (toWide name)) = none := by
        rw [Node.childAt_eraseSubkey, if_pos rfl]
      refine hpost _ (SameOutside.eraseSubkey node name) (fun child hchild => ?_) fun k => ?_
      · rw [hgone] at hchild
        cases hchild
      · rw [SubtreeView.at, hgone, hnothing hempty k]
        rfl
  · let Created : Params fold σ → Prop := fun next =>
      SameOutside (fold.key (toWide name)) node next ∧
        V.at (fold.key (toWide name)) next = V.at (fold.key (toWide name)) node ∧
        ∃ child, next.subkey? name = some child ∧ V.decodes child
    refine Runs.bind (M := fun _ => Created) (Runs.createSubkeyUnder ?_ ?_ ?_) ?_
    · exact hcut node (SameOutside.refl _ _) hnames (.inl (Writing.refl _ _))
    · intro child hchild
      exact ⟨SameOutside.refl _ _, rfl, child, hchild, hnames child hchild⟩
    · intro habsent
      refine ⟨SameOutside.setSubkey node name _, ?_, .empty, hself _ _, V.decodes_empty⟩
      funext k
      rw [hview, V.view_empty, SubtreeView.at,
        show node.childAt (fold.key (toWide name)) = none from habsent]
      rfl
    · rintro _ created ⟨hsame, hat, child, hchild, hdecodes⟩
      have hold : V.view child = V.at (fold.key (toWide name)) node := by
        funext k
        rw [← hat, SubtreeView.at,
          show created.childAt (fold.key (toWide name)) = some child from hchild]
        rfl
      refine Runs.inSubkey hchild (hinner child _ _ hdecodes (fun next hnext hphase => ?_)
        (fun next hnext hdone hdone' => ?_))
      · refine hcut _ (hsame.trans (SameOutside.setSubkey created name next))
          (fun other hother => ?_) ?_
        · rw [hself] at hother
          cases hother
          exact hnext
        · rw [← hold, funext (hview created next)]
          exact hphase
      · refine hpost _ (hsame.trans (SameOutside.setSubkey created name next))
          (fun other hother => ?_) fun k => (hview created next k).trans (hdone k)
        rw [hself] at hother
        cases hother
        exact ⟨hnext, hdone'⟩

/-! ## Scalar values -/

/-- What a payload is stored as. -/
def payloadValue (fold : NameFold) (cfg : ManagedApplicationConfig) (name : String) :
    Payload → RegValue
  | .string value => stringValue (stringKind fold cfg name) value
  | .multi values => multiValue values
  | .dword value => dwordValue value

/-- The scalar names in the order of writing. -/
def scalarNames : List String :=
  (scalarPuts {}).map (·.name)

theorem map_name_scalarPuts (cfg : ManagedApplicationConfig) :
    (scalarPuts cfg).map (·.name) = scalarNames :=
  rfl

theorem mem_scalarNames_iff (name : String) : name ∈ scalarNames ↔ name ∈ ownedValueNames := by
  have hforward : ∀ n ∈ scalarNames, n ∈ ownedValueNames := by decide
  have hbackward : ∀ n ∈ ownedValueNames, n ∈ scalarNames := by decide
  exact ⟨hforward name, hbackward name⟩

theorem ascii_scalarName {name : String} (hname : name ∈ scalarNames) :
    IsAscii name ∧ Text.contains name '\x00' = false := by
  have hall : ∀ n ∈ scalarNames, IsAscii n ∧ Text.contains n '\x00' = false := by
    decide
  exact hall name hname

/-- No two scalar names are equal up to case. -/
theorem scalarKeys_nodup : (scalarNames.map (windowsNameKey fold)).Nodup := by
  have hkeys : scalarNames.map (windowsNameKey fold) = scalarNames.map asciiKey :=
    List.map_congr_left fun name hname => windowsNameKey_of_isAscii (ascii_scalarName hname).1
  rw [hkeys]
  decide

/-- The scalar values of a configuration as a table under their names. -/
def scalarTable (fold : NameFold) (cfg : ManagedApplicationConfig) :
    Table (windowsNameKey fold) (Option Payload) where
  entries := (scalarPuts cfg).map fun put => (put.name, put.payload)
  distinct := by
    have hkeys := @scalarKeys_nodup fold
    rw [← map_name_scalarPuts cfg, List.map_map] at hkeys
    rw [List.map_map]
    exact hkeys

/-- The scalar values a configuration wants. -/
def wantedScalars (fold : NameFold) (cfg : ManagedApplicationConfig) (k : Name) :
    Option RegValue :=
  ((scalarTable fold cfg).lookup k).bind fun entry =>
    entry.2.map (payloadValue fold cfg entry.1)

theorem wantedScalars_of_mem {cfg : ManagedApplicationConfig} {put : Put}
    (hput : put ∈ scalarPuts cfg) :
    wantedScalars fold cfg (windowsNameKey fold put.name) =
      put.payload.map (payloadValue fold cfg put.name) := by
  have hentry : (put.name, put.payload) ∈ (scalarTable fold cfg).entries :=
    List.mem_map.mpr ⟨put, hput, rfl⟩
  rw [wantedScalars, (Table.mem_entries_iff _ _ _).mp hentry]
  rfl

theorem exists_put_of_wantedScalars {cfg : ManagedApplicationConfig} {k : Name} {value : RegValue}
    (hvalue : wantedScalars fold cfg k = some value) :
    ∃ put ∈ scalarPuts cfg, put.payload.isSome = true ∧ windowsNameKey fold put.name = k := by
  obtain ⟨entry, hlookup, hpayload⟩ := Option.bind_eq_some_iff.mp hvalue
  obtain ⟨put, hput, rfl⟩ := List.mem_map.mp (List.mem_of_find?_eq_some hlookup)
  refine ⟨put, hput, ?_, Table.key_of_lookup hlookup⟩
  obtain ⟨payload, hsome, -⟩ := Option.map_eq_some_iff.mp hpayload
  exact Option.isSome_iff_exists.mpr ⟨payload, hsome⟩

/-- An owned name is among the written ones exactly when something is wanted
there. -/
theorem contains_writtenNames {cfg : ManagedApplicationConfig} {name : String}
    (hname : name ∈ ownedValueNames) :
    (writtenNames cfg).contains name =
      (wantedScalars fold cfg (windowsNameKey fold name)).isSome := by
  rw [← mem_scalarNames_iff, ← map_name_scalarPuts cfg] at hname
  obtain ⟨put, hput, rfl⟩ := List.mem_map.mp hname
  rw [wantedScalars_of_mem hput, Option.isSome_map, Bool.eq_iff_iff, List.contains_iff_mem,
    writtenNames]
  constructor
  · intro hmem
    obtain ⟨other, hother, hsame⟩ := List.mem_map.mp hmem
    obtain ⟨hother, hsome⟩ := List.mem_filter.mp hother
    have hwanted := @wantedScalars_of_mem fold _ _ hother
    rw [hsame, wantedScalars_of_mem hput] at hwanted
    have hisSome := congrArg Option.isSome hwanted
    rw [Option.isSome_map, Option.isSome_map] at hisSome
    rw [hisSome]
    exact hsome
  · intro hsome
    exact List.mem_map.mpr ⟨put, List.mem_filter.mpr ⟨hput, hsome⟩, rfl⟩

/-- A payload whose strings survive storage. -/
def Storable : Payload → Prop
  | .string value => Text.contains value '\x00' = false
  | .multi values => ∀ v ∈ values, Text.contains v '\x00' = false ∧ v ≠ ""
  | .dword _ => True

theorem storable_dword (value : Option UInt32) :
    ∀ p, value.map Payload.dword = some p → Storable p := by
  intro p hp
  obtain ⟨v, -, rfl⟩ := Option.map_eq_some_iff.mp hp
  trivial

theorem storable_bool (flag : Option Bool) : ∀ p, boolPayload flag = some p → Storable p := by
  intro p hp
  obtain ⟨b, -, rfl⟩ := Option.map_eq_some_iff.mp hp
  trivial

theorem storable_string {value : Option String}
    (hvalue : ∀ v, value = some v → Text.contains v '\x00' = false) :
    ∀ p, value.map Payload.string = some p → Storable p := by
  intro p hp
  obtain ⟨v, hv, rfl⟩ := Option.map_eq_some_iff.mp hp
  exact hvalue v hv

theorem storable_multi {values : List String}
    (hvalues : ∀ v ∈ values, Text.contains v '\x00' = false ∧ v ≠ "") :
    ∀ p, multiPayload values = some p → Storable p := by
  intro p hp
  unfold multiPayload at hp
  split at hp
  · cases hp
  · cases hp
    exact hvalues

theorem storable_stream (base : String) {stream : Option IoStream}
    (hpath : ∀ s, stream = some s → Text.contains s.path '\x00' = false) :
    ∀ put ∈ streamPuts base stream, ∀ p, put.payload = some p → Storable p := by
  cases stream with
  | none =>
      simp [streamPuts]
  | some s =>
      simp only [streamPuts, List.forall_mem_cons, Option.map_some, Option.bind_some]
      refine ⟨?_, storable_dword _, storable_dword _, storable_dword _, storable_bool _, by simp⟩
      intro p hp
      cases hp
      exact hpath s rfl

/-- Every scalar value of an accepted configuration can be stored. -/
theorem storable_of_accepted {cfg : ManagedApplicationConfig} {exits : ExitActions}
    (haccepted : Accepted fold cfg exits) :
    ∀ put ∈ scalarPuts cfg, ∀ p, put.payload = some p → Storable p := by
  have hnul := haccepted.noNul
  simp only [registryStrings, List.forall_mem_append, List.forall_mem_map, Option.mem_toList]
    at hnul
  obtain ⟨⟨⟨⟨⟨⟨⟨⟨⟨⟨happ, hparams⟩, hdir⟩, haffinity⟩, henv⟩, hextra⟩, hin⟩, hout⟩, herr⟩, -⟩, -⟩ :=
    hnul
  have hmulti : ∀ {values : List String}, (∀ e ∈ values.zipIdx, Text.contains e.1 '\x00' = false) →
      (∀ v ∈ values, v ≠ "") → ∀ v ∈ values, Text.contains v '\x00' = false ∧ v ≠ "" := by
    intro values hclean hempty v hv
    obtain ⟨i, hi⟩ := List.mem_iff_getElem?.mp hv
    exact ⟨hclean (v, i) (List.mem_zipIdx_iff_getElem?.mpr hi), hempty v hv⟩
  simp only [scalarPuts, List.forall_mem_append]
  refine ⟨⟨⟨?_, storable_stream _ hin⟩, storable_stream _ hout⟩, storable_stream _ herr⟩
  simp only [List.forall_mem_cons]
  refine ⟨storable_string happ, storable_string hparams, storable_string hdir,
    storable_dword _, storable_string haffinity, storable_multi (hmulti henv haccepted.environment),
    storable_multi (hmulti hextra haccepted.environmentExtra), storable_dword _,
    storable_dword _, storable_dword _, storable_dword _, storable_dword _, storable_dword _,
    storable_bool _, storable_bool _, storable_dword _, storable_dword _, ?_, ?_,
    storable_dword _, storable_bool _, by simp⟩
  all_goals
    intro p hp
    obtain ⟨v, -, rfl⟩ := Option.map_eq_some_iff.mp hp
    trivial

/-- `node'` differs from `node` at most in owned values. -/
structure SameUnowned (node node' : Params fold σ) : Prop where
  subkeys : node'.subkeys = node.subkeys
  values : ∀ k, k ∉ ownedKeys fold → node'.values.lookup k = node.values.lookup k

theorem SameUnowned.refl (node : Params fold σ) : SameUnowned node node :=
  ⟨rfl, fun _ _ => rfl⟩

theorem key_scalarName {name : String} (hname : name ∈ scalarNames) :
    fold.key (toWide name) = windowsNameKey fold name :=
  key_toWide (ascii_scalarName hname).2

/-- Different scalar names stand for different values. -/
theorem eq_of_toWide {name name' : String} (hname : name ∈ scalarNames)
    (hname' : name' ∈ scalarNames)
    (hkey : fold.key (toWide name) = fold.key (toWide name')) : name = name' := by
  rw [key_scalarName hname, key_scalarName hname'] at hkey
  exact List.inj_on_of_nodup_map scalarKeys_nodup hname hname' hkey

theorem mem_ownedKeys {name : String} (hname : name ∈ scalarNames) :
    windowsNameKey fold name ∈ ownedKeys fold :=
  List.mem_map.mpr ⟨name, (mem_scalarNames_iff name).mp hname, rfl⟩

theorem SameUnowned.setValue {node node' : Params fold σ} (h : SameUnowned node node')
    {name : String} (hname : name ∈ scalarNames) (value : RegValue) :
    SameUnowned node (node'.setValue name value) := by
  refine ⟨h.subkeys, fun k hk => ?_⟩
  have hother : k ≠ fold.key (toWide name) := by
    rintro rfl
    rw [key_scalarName hname] at hk
    exact hk (mem_ownedKeys hname)
  simp only [Node.setValue, Table.lookup_insert, if_neg hother]
  exact h.values k hk

theorem SameUnowned.eraseValue {node node' : Params fold σ} (h : SameUnowned node node')
    {name : String} (hname : name ∈ scalarNames) :
    SameUnowned node (node'.eraseValue name) := by
  refine ⟨h.subkeys, fun k hk => ?_⟩
  have hother : k ≠ fold.key (toWide name) := by
    rintro rfl
    rw [key_scalarName hname] at hk
    exact hk (mem_ownedKeys hname)
  simp only [Node.eraseValue, Table.lookup_erase, if_neg hother]
  exact h.values k hk

/-- Writing one scalar value. -/
theorem runs_writePut {cfg : ManagedApplicationConfig} {put : Put} {payload : Payload}
    (hpayload : put.payload = some payload) (hstorable : Storable payload)
    {node : Params fold σ} {Q : Unit → Params fold σ → Prop} {R : Params fold σ → Prop}
    (hcut : R node)
    (hpost : Q () (node.setValue put.name (payloadValue fold cfg put.name payload))) :
    Runs (writePut cfg put) node Q R := by
  unfold writePut
  rw [hpayload]
  cases payload with
  | string value => exact runs_writeStringTyped hstorable hcut hpost
  | multi values =>
      have hclean : (values.any fun v => Text.contains v '\x00' || v.isEmpty) = false := by
        rw [List.any_eq_false]
        intro v hv
        obtain ⟨hnul, hempty⟩ := hstorable v hv
        simp [hnul, hempty]
      simp only [writeMultiString, hclean, Bool.false_eq_true, if_false]
      exact Runs.setValue hcut hpost
  | dword value => exact Runs.setValue hcut hpost

/-- The first phase: every scalar value of the configuration. -/
theorem runs_scalarPuts {cfg : ManagedApplicationConfig} {exits : ExitActions}
    (haccepted : Accepted fold cfg exits) {node : Params fold σ}
    {Q : Unit → Params fold σ → Prop} {R : Params fold σ → Prop}
    (hcut : ∀ next, SameUnowned node next →
      Writing node.valueAt (wantedScalars fold cfg) next.valueAt → R next)
    (hpost : ∀ next, SameUnowned node next →
      Pruning node.valueAt (wantedScalars fold cfg) next.valueAt → Q () next) :
    Runs ((scalarPuts cfg).forM (writePut cfg)) node Q R := by
  let written : List Put → List Name := fun done =>
    (done.filter (·.payload.isSome)).map fun put => windowsNameKey fold put.name
  let I : List Put → Params fold σ → Prop := fun done next =>
    SameUnowned node next ∧
      WrittenUpTo node.valueAt (wantedScalars fold cfg) next.valueAt (written done)
  refine Runs.mono (Q := fun _ => I (scalarPuts cfg)) ?_ (fun _ h => h)
    (Runs.forM I ?_ ⟨SameUnowned.refl node, WrittenUpTo.nil _ _⟩)
  · rintro _ next ⟨hsame, hwritten⟩
    refine hpost next hsame (hwritten.pruning fun k value hvalue => ?_)
    obtain ⟨put, hput, hsome, hkey⟩ := exists_put_of_wantedScalars hvalue
    exact List.mem_map.mpr ⟨put, List.mem_filter.mpr ⟨hput, hsome⟩, hkey⟩
  · rintro done put rest hsplit next ⟨hsame, hwritten⟩
    have hput : put ∈ scalarPuts cfg := by simp [hsplit]
    have hname : put.name ∈ scalarNames := by
      rw [← map_name_scalarPuts cfg]
      exact List.mem_map.mpr ⟨put, hput, rfl⟩
    rcases hpayload : put.payload with _ | payload
    · have hskip : written (done ++ [put]) = written done := by
        simp [written, List.filter_append, hpayload]
      unfold writePut
      rw [hpayload]
      exact Runs.pure ⟨hsame, by rwa [hskip]⟩
    · have hmore : written (done ++ [put]) = written done ++ [windowsNameKey fold put.name] := by
        simp [written, List.filter_append, hpayload]
      refine runs_writePut hpayload (storable_of_accepted haccepted put hput payload hpayload)
        (hcut next hsame hwritten.writing) ⟨hsame.setValue hname _, ?_⟩
      rw [hmore]
      refine hwritten.set (a := payloadValue fold cfg put.name payload) ?_ fun k => ?_
      · rw [wantedScalars_of_mem hput, hpayload]
        rfl
      · rw [Node.valueAt_setValue, key_scalarName hname]

/-- The last phase: owned scalar values that were not written go. -/
theorem runs_deleteUnwritten {cfg : ManagedApplicationConfig} (old : Name → Option RegValue)
    {node : Params fold σ} {Q : Unit → Params fold σ → Prop} {R : Params fold σ → Prop}
    (hpruning : Pruning old (wantedScalars fold cfg) node.valueAt)
    (hcut : ∀ next, SameUnowned node next →
      Pruning old (wantedScalars fold cfg) next.valueAt → R next)
    (hpost : ∀ next, SameUnowned node next →
      Pruning old (wantedScalars fold cfg) next.valueAt →
      (∀ k ∈ ownedKeys fold, next.valueAt k = wantedScalars fold cfg k) → Q () next) :
    Runs (deleteUnwritten cfg) node Q R := by
  let I : List String → Params fold σ → Prop := fun done next =>
    SameUnowned node next ∧ Pruning old (wantedScalars fold cfg) next.valueAt ∧
      ∀ name ∈ done, next.valueAt (windowsNameKey fold name) =
        wantedScalars fold cfg (windowsNameKey fold name)
  refine Runs.mono (Q := fun _ => I ownedValueNames) ?_ (fun _ h => h)
    (Runs.forM I ?_ ⟨SameUnowned.refl node, hpruning, by simp⟩)
  · rintro _ next ⟨hsame, hphase, hdone⟩
    refine hpost next hsame hphase fun k hk => ?_
    obtain ⟨name, hname, rfl⟩ := List.mem_map.mp hk
    exact hdone name hname
  · rintro done name rest hsplit next ⟨hsame, hphase, hdone⟩
    have howned : name ∈ ownedValueNames := by simp [hsplit]
    have hname : name ∈ scalarNames := (mem_scalarNames_iff name).mpr howned
    rw [@contains_writtenNames fold _ _ howned]
    split
    · rename_i hwanted
      obtain ⟨value, hvalue⟩ := Option.isSome_iff_exists.mp hwanted
      refine Runs.pure ⟨hsame, hphase, fun other hother => ?_⟩
      rcases List.mem_append.mp hother with hearlier | hlast
      · exact hdone other hearlier
      · rw [List.mem_singleton.mp hlast, hvalue]
        exact hphase.wanted_present hvalue
    · rename_i hunwanted
      have hnone : wantedScalars fold cfg (windowsNameKey fold name) = none := by
        simpa using hunwanted
      have herased : ∀ k, (next.eraseValue name).valueAt k =
          if k = windowsNameKey fold name then none else next.valueAt k := by
        intro k
        rw [Node.valueAt_eraseValue, key_scalarName hname]
      refine Runs.deleteValue (hcut next hsame hphase)
        ⟨hsame.eraseValue hname, hphase.erase fun k => ?_, fun other hother => ?_⟩
      · rw [herased]
        split
        · rename_i hk
          exact .inr ⟨rfl, by rw [hk, hnone]⟩
        · exact .inl rfl
      · rw [herased]
        split
        · rename_i hk
          rw [hk, hnone]
        · rename_i hk
          rcases List.mem_append.mp hother with hearlier | hlast
          · exact hdone other hearlier
          · exact absurd (by rw [List.mem_singleton.mp hlast]) hk

/-! ## The whole write -/

theorem setSubkey_same {τ : Type} {node : Node fold τ} {name : String} {child : τ}
    (hchild : node.subkey? name = some child) : node.setSubkey name child = node := by
  obtain ⟨⟨stored, c⟩, hlookup, rfl⟩ := Option.map_eq_some_iff.mp hchild
  rw [Node.setSubkey, Table.insert_of_lookup hlookup]

/-- The check of the existing names passes and changes nothing. -/
theorem runs_checkExistingNames {node : Params fold σ} (hnames : NamesDecode node) :
    Runs checkExistingNames node (fun _ n => n = node) (fun n => n = node) := by
  have hvalues : ∀ {τ : Type} {parent : Node fold (Node fold τ)} {name : String},
      (∀ child, parent.subkey? name = some child → child.ValueNamesDecode) →
      Runs (openSubkeyOr name (pure ()) (inSubkey name do let _ ← enumerateValueNames)) parent
        (fun _ n => n = parent) (fun n => n = parent) := by
    intro τ parent name hdecode
    refine Runs.openSubkeyOr rfl (fun _ => Runs.pure rfl) fun child hchild => ?_
    refine Runs.inSubkey hchild ?_
    refine Runs.bind (Runs.enumerateValueNames (Q := fun _ n => n = child)
      (hdecode child hchild) (setSubkey_same hchild) rfl) ?_
    rintro names n rfl
    exact Runs.pure (setSubkey_same hchild)
  unfold checkExistingNames
  refine Runs.bind (hvalues hnames.exits) ?_
  rintro _ n rfl
  refine Runs.openSubkeyOr rfl (fun _ => Runs.pure rfl) fun events hevents => ?_
  have hdecode : EventsDecode events := hnames.events events hevents
  refine Runs.inSubkey hevents ?_
  refine Runs.bind (Runs.enumerateSubkeyNames (Q := fun _ m => m = events)
    (fun entry hentry => (hdecode entry hentry).1) (setSubkey_same hevents) rfl) ?_
  rintro names m rfl
  refine Runs.mono (Q := fun _ k => k = m) (R := fun k => k = m)
    (fun _ k hk => by rw [hk]; exact setSubkey_same hevents)
    (fun k hk => by rw [hk]; exact setSubkey_same hevents)
    (Runs.forM (fun _ k => k = m) ?_ rfl)
  rintro done name rest - k rfl
  exact hvalues fun child hchild => hdecode.child hchild

/-- Everything the manager does not own is the same in both keys. -/
structure Unmanaged (node node' : Params fold σ) : Prop where
  values : ∀ k, k ∉ ownedKeys fold → node'.values.lookup k = node.values.lookup k
  subkeys : ∀ k, k ≠ exitKey fold → k ≠ eventsKey fold →
    node'.subkeys.lookup k = node.subkeys.lookup k

namespace Unmanaged

variable {node node' node'' : Params fold σ}

theorem refl (node : Params fold σ) : Unmanaged node node :=
  ⟨fun _ _ => rfl, fun _ _ _ => rfl⟩

theorem trans (h : Unmanaged node node') (h' : Unmanaged node' node'') :
    Unmanaged node node'' :=
  ⟨fun k hk => (h'.values k hk).trans (h.values k hk),
    fun k hexit hevents => (h'.subkeys k hexit hevents).trans (h.subkeys k hexit hevents)⟩

theorem of_sameUnowned (h : SameUnowned node node') : Unmanaged node node' :=
  ⟨h.values, fun k _ _ => by rw [h.subkeys]⟩

theorem of_exit (h : SameOutside (exitKey fold) node node') : Unmanaged node node' :=
  ⟨fun k _ => by rw [h.values], fun k hexit _ => h.subkeys k hexit⟩

theorem of_events (h : SameOutside (eventsKey fold) node node') : Unmanaged node node' :=
  ⟨fun k _ => by rw [h.values], fun k _ hevents => h.subkeys k hevents⟩

end Unmanaged

namespace SameUnowned

variable {node node' : Params fold σ}

theorem childAt (h : SameUnowned node node') : node'.childAt = node.childAt := by
  unfold Node.childAt
  rw [h.subkeys]

theorem exitAt (h : SameUnowned node node') : Registry.exitAt node' = Registry.exitAt node := by
  unfold Registry.exitAt
  rw [h.childAt]

theorem hooksAt (h : SameUnowned node node') :
    Registry.hooksAt node' = Registry.hooksAt node := by
  unfold Registry.hooksAt
  rw [h.childAt]

theorem namesDecode (h : SameUnowned node node') (hnames : NamesDecode node) :
    NamesDecode node' := by
  refine ⟨fun exit hexit => hnames.exits exit ?_, fun events hevents => hnames.events events ?_⟩
  · rwa [← h.childAt]
  · rwa [← h.childAt]

end SameUnowned

/-- The key left behind by a fault anywhere in the write: each part of it is in
the middle of a write-first reconciliation, everything unowned is as it was, and
the names still decode. -/
structure Midway (cfg : ManagedApplicationConfig) (exits : ExitActions)
    (node node' : Params fold σ) : Prop where
  spelling : ExitsSpelled exits node node'
  scalars : WriteFirst node.valueAt (wantedScalars fold cfg) node'.valueAt
  exits : WriteFirst (exitAt node) (wantedExits fold exits) (exitAt node')
  hooks : WriteFirst (hooksAt node) (wantedHooks fold cfg) (hooksAt node')
  names : NamesDecode node'
  unmanaged : Unmanaged node node'

theorem Midway.refl (cfg : ManagedApplicationConfig) (exits : ExitActions) {node : Params fold σ}
    (hnames : NamesDecode node) : Midway cfg exits node node :=
  ⟨ExitsSpelled.refl exits node, .inl (Writing.refl _ _), .inl (Writing.refl _ _),
    .inl (Writing.refl _ _), hnames, Unmanaged.refl node⟩

/-- The key after a successful write. -/
structure Written (cfg : ManagedApplicationConfig) (exits : ExitActions)
    (node node' : Params fold σ) : Prop where
  scalars : ∀ k ∈ ownedKeys fold, node'.valueAt k = wantedScalars fold cfg k
  exits : ∀ k, exitAt node' k = wantedExits fold exits k
  hooks : ∀ k, hooksAt node' k = wantedHooks fold cfg k
  events : ∀ events, node'.childAt (eventsKey fold) = some events →
    ∀ k event, events.childAt k = some event →
      ∃ hook ∈ cfg.hooks, windowsNameKey fold hook.event = k
  names : NamesDecode node'
  unmanaged : Unmanaged node node'

/-- The exit actions of a parameters key, in some phase or done. -/
theorem runs_reconcileExitActions {exits : ExitActions} (hkeys : ∀ key ∈ exits, IsExitKey key)
    {node : Params fold σ} (hnames : NamesDecode node)
    {Q : Unit → Params fold σ → Prop} {R : Params fold σ → Prop}
    (hcut : ∀ next, SameOutside (exitKey fold) node next → NamesDecode next →
      ExitsSpelled exits node next →
      WriteFirst (exitAt node) (wantedExits fold exits) (exitAt next) → R next)
    (hpost : ∀ next, SameOutside (exitKey fold) node next → NamesDecode next →
      ExitsSpelled exits node next →
      (∀ k, exitAt next k = wantedExits fold exits k) → Q () next) :
    Runs (reconcileExitActions exits) node Q R := by
  let allowed : Name → Prop := fun words => DecodableName words ∧ ExitSpelling node exits words
  have hdecode : ∀ {next : Params fold σ}, SameOutside (exitKey fold) node next →
      (∀ exit, next.childAt (exitKey fold) = some exit → exit.NamesIn allowed) →
      NamesDecode next := by
    intro next hsame hexits
    refine ⟨fun exit hexit entry hentry => (hexits exit hexit entry hentry).1,
      fun events hevents => hnames.events events ?_⟩
    rwa [← hsame.childAt exitKey_ne_eventsKey.symm]
  refine runs_subtree (exitView allowed) (wantedExits fold exits) (fun _ => True) ?_ ?_ ?_ ?_ ?_
  · intro hempty k
    have hlist : exits.toList = [] := by
      rw [← List.isEmpty_iff, Std.ExtTreeMap.isEmpty_toList]
      exact hempty
    rw [wantedExits, hlist]
    rfl
  · intro child Q R hchild hcut' hpost'
    refine runs_exitEntries hkeys (fun words hwords => hwords.1) (fun entry hentry => ?_) hchild
      hcut' fun next hnext hdone => hpost' next hnext hdone trivial
    have hmem : entry.1 ∈ exits := by
      rw [Std.ExtTreeMap.mem_iff_isSome_getElem?,
        Std.ExtTreeMap.mem_toList_iff_getElem?_eq_some.mp hentry]
      rfl
    exact ⟨decodable_exitRegistryName (hkeys _ hmem), .inr ⟨entry.1, hmem, rfl⟩⟩
  · intro exit hexit entry hentry
    exact ⟨hnames.exits exit hexit entry hentry, .inl ⟨exit, hexit, entry.2, hentry⟩⟩
  · intro next hsame hexits hphase
    exact hcut next hsame (hdecode hsame hexits)
      (fun exit hexit entry hentry => (hexits exit hexit entry hentry).2) hphase
  · intro next hsame hexits hdone
    exact hpost next hsame (hdecode hsame fun exit hexit => (hexits exit hexit).1)
      (fun exit hexit entry hentry => ((hexits exit hexit).1 entry hentry).2) hdone

/-- The hooks of a parameters key, in some phase or done. -/
theorem runs_reconcileHooks {cfg : ManagedApplicationConfig} {exits : ExitActions}
    (haccepted : Accepted fold cfg exits) {node : Params fold σ} (hnames : NamesDecode node)
    {Q : Unit → Params fold σ → Prop} {R : Params fold σ → Prop}
    (hcut : ∀ next, SameOutside (eventsKey fold) node next → NamesDecode next →
      WriteFirst (hooksAt node) (wantedHooks fold cfg) (hooksAt next) → R next)
    (hpost : ∀ next, SameOutside (eventsKey fold) node next → NamesDecode next →
      (∀ k, hooksAt next k = wantedHooks fold cfg k) →
      (∀ events, next.childAt (eventsKey fold) = some events →
        ∀ k event, events.childAt k = some event →
          ∃ hook ∈ cfg.hooks, windowsNameKey fold hook.event = k) → Q () next) :
    Runs (reconcileHooks cfg) node Q R := by
  have hdecode : ∀ {next : Params fold σ}, SameOutside (eventsKey fold) node next →
      (∀ events, next.childAt (eventsKey fold) = some events → EventsDecode events) →
      NamesDecode next := by
    intro next hsame hevents
    refine ⟨fun exit hexit => hnames.exits exit ?_, hevents⟩
    rwa [← hsame.childAt exitKey_ne_eventsKey]
  refine runs_subtree hookView (wantedHooks fold cfg)
    (fun events => ∀ k event, events.childAt k = some event →
      ∃ hook ∈ cfg.hooks, windowsNameKey fold hook.event = k) ?_ ?_ hnames.events ?_ ?_
  · intro hempty k
    rw [wantedHooks, List.isEmpty_iff.mp hempty]
    rfl
  · intro child Q R hchild hcut' hpost'
    exact runs_hookEntries haccepted hchild hcut' hpost'
  · intro next hsame hevents hphase
    exact hcut next hsame (hdecode hsame hevents) hphase
  · intro next hsame hevents hdone
    exact hpost next hsame (hdecode hsame fun events h => (hevents events h).1) hdone
      fun events h => (hevents events h).2

/-- The specification of the writer: with or without faults, from any key whose
owned names decode. -/
theorem runs_writeIntoKey {cfg : ManagedApplicationConfig} {exits : ExitActions}
    (hpreflight : preflightConfig fold cfg = .ok exits) {node : Params fold σ}
    (hnames : NamesDecode node) :
    Runs (writeIntoKey cfg) node (fun _ => Written cfg exits node) (Midway cfg exits node) := by
  have haccepted := accepted_of_preflightConfig fold hpreflight
  have hstart := Midway.refl cfg exits hnames
  unfold writeIntoKey
  refine Runs.bind (Runs.liftOk (Q := fun e n => e = exits ∧ n = node) hpreflight ⟨rfl, rfl⟩) ?_
  rintro e n ⟨he, hn⟩
  rw [he, hn]
  refine Runs.bind (Runs.mono (fun _ _ h => h) (fun n hn => by rw [hn]; exact hstart)
    (runs_checkExistingNames hnames)) ?_
  intro _ n hn
  rw [hn]
  -- phase 1: the scalar values
  refine Runs.bind (M := fun _ next => SameUnowned node next ∧
    Pruning node.valueAt (wantedScalars fold cfg) next.valueAt) (runs_scalarPuts haccepted ?_ ?_) ?_
  · intro next hsame hwriting
    exact ⟨(ExitsSpelled.refl exits node).congr rfl (by rw [hsame.childAt]),
      .inl hwriting, .inl (by rw [hsame.exitAt]; exact Writing.refl _ _),
      .inl (by rw [hsame.hooksAt]; exact Writing.refl _ _), hsame.namesDecode hnames,
      Unmanaged.of_sameUnowned hsame⟩
  · intro next hsame hpruning
    exact ⟨hsame, hpruning⟩
  rintro _ first ⟨hfirst, hscalars⟩
  have hnames₁ := hfirst.namesDecode hnames
  have hrest₁ := Unmanaged.of_sameUnowned hfirst
  have hchild₁ : node.childAt (exitKey fold) = first.childAt (exitKey fold) := by
    rw [hfirst.childAt]
  -- phase 2a: the exit actions
  refine Runs.bind (M := fun _ next => SameOutside (exitKey fold) first next ∧
    NamesDecode next ∧ ExitsSpelled exits first next ∧
    ∀ k, exitAt next k = wantedExits fold exits k)
    (runs_reconcileExitActions haccepted.exitKeys hnames₁ ?_ ?_) ?_
  · intro next hsame hdecode hspelled hphase
    exact ⟨hspelled.congr hchild₁ rfl, .inr (by rw [hsame.valueAt]; exact hscalars),
      by rwa [← hfirst.exitAt],
      .inl (by rw [hsame.hooksAt, hfirst.hooksAt]; exact Writing.refl _ _), hdecode,
      hrest₁.trans (Unmanaged.of_exit hsame)⟩
  · intro next hsame hdecode hspelled hdone
    exact ⟨hsame, hdecode, hspelled, hdone⟩
  rintro _ second ⟨hsecond, hnames₂, hspelled, hexits⟩
  have hrest₂ := hrest₁.trans (Unmanaged.of_exit hsecond)
  have hexitPhase : Pruning (exitAt node) (wantedExits fold exits) (exitAt second) := by
    intro k
    rcases hwanted : wantedExits fold exits k with _ | value
    · exact .inr ⟨rfl, .inr ((hexits k).trans hwanted)⟩
    · exact .inl ⟨value, rfl, (hexits k).trans hwanted⟩
  -- phase 2b: the hooks
  refine Runs.bind (M := fun _ next => SameOutside (eventsKey fold) second next ∧
    NamesDecode next ∧ (∀ k, hooksAt next k = wantedHooks fold cfg k) ∧
    ∀ events, next.childAt (eventsKey fold) = some events →
      ∀ k event, events.childAt k = some event →
        ∃ hook ∈ cfg.hooks, windowsNameKey fold hook.event = k)
    (runs_reconcileHooks haccepted hnames₂ ?_ ?_) ?_
  · intro next hsame hdecode hphase
    exact ⟨hspelled.congr hchild₁ (hsame.childAt exitKey_ne_eventsKey),
      .inr (by rw [hsame.valueAt, hsecond.valueAt]; exact hscalars),
      .inr (by rw [hsame.exitAt]; exact hexitPhase),
      by rwa [← hfirst.hooksAt, ← hsecond.hooksAt], hdecode,
      hrest₂.trans (Unmanaged.of_events hsame)⟩
  · intro next hsame hdecode hdone hevents
    exact ⟨hsame, hdecode, hdone, hevents⟩
  rintro _ third ⟨hthird, hnames₃, hhooks, hevents⟩
  have hrest₃ := hrest₂.trans (Unmanaged.of_events hthird)
  have hhookPhase : Pruning (hooksAt node) (wantedHooks fold cfg) (hooksAt third) := by
    intro k
    rcases hwanted : wantedHooks fold cfg k with _ | value
    · exact .inr ⟨rfl, .inr ((hhooks k).trans hwanted)⟩
    · exact .inl ⟨value, rfl, (hhooks k).trans hwanted⟩
  -- phase 2c: the values that were not written
  refine runs_deleteUnwritten node.valueAt ?_ ?_ ?_
  · rw [hthird.valueAt, hsecond.valueAt]
    exact hscalars
  · intro next hsame hphase
    exact ⟨hspelled.congr hchild₁ (by rw [hsame.childAt, hthird.childAt exitKey_ne_eventsKey]),
      .inr hphase, .inr (by rw [hsame.exitAt, hthird.exitAt]; exact hexitPhase),
      .inr (by rw [hsame.hooksAt]; exact hhookPhase), hsame.namesDecode hnames₃,
      hrest₃.trans (Unmanaged.of_sameUnowned hsame)⟩
  · intro next hsame hphase hdone
    refine ⟨hdone, fun k => ?_, fun k => ?_, ?_, hsame.namesDecode hnames₃,
      hrest₃.trans (Unmanaged.of_sameUnowned hsame)⟩
    · rw [hsame.exitAt, hthird.exitAt, hexits k]
    · rw [hsame.hooksAt, hhooks k]
    · rw [hsame.childAt]
      exact hevents

end Ngsm.Registry
