/-
# The phases of a write

Each phase of a write is specified against `WriteFirst`: the content of the key
seen as a map, the map the configuration wants, and the phase the key is in.  The
three parts of a parameters key are three such maps: scalar values by name, exit
actions by value name, hooks by event and action.

Every rule says two things at once, what holds when the phase is done and what
holds of the key left behind by a fault in the middle of it.
-/

import Ngsm.Lib.WriteFirst
import Ngsm.Registry.Names
import Ngsm.Registry.Write

namespace Ngsm.Registry

open Ngsm.Lib Ngsm.Core NssmKeys

variable {fold : NameFold} {σ : Type}

/-! ## Keys as maps -/

namespace Node

/-- The value stored for a key of names. -/
def valueAt (node : Node fold σ) (k : Name) : Option RegValue :=
  (node.values.lookup k).map Prod.snd

/-- The subkey stored for a key of names. -/
def childAt (node : Node fold σ) (k : Name) : Option σ :=
  (node.subkeys.lookup k).map Prod.snd

theorem value?_eq (node : Node fold σ) (name : String) :
    node.value? name = node.valueAt (fold.key (toWide name)) :=
  rfl

theorem subkey?_eq (node : Node fold σ) (name : String) :
    node.subkey? name = node.childAt (fold.key (toWide name)) :=
  rfl

@[simp]
theorem valueAt_empty (k : Name) : (empty : Node fold σ).valueAt k = none :=
  rfl

@[simp]
theorem valueAt_setValue (node : Node fold σ) (name : String) (v : RegValue) (k : Name) :
    (node.setValue name v).valueAt k =
      if k = fold.key (toWide name) then some v else node.valueAt k := by
  unfold valueAt setValue
  rw [Table.lookup_insert]
  split <;> rfl

@[simp]
theorem valueAt_eraseValue (node : Node fold σ) (name : String) (k : Name) :
    (node.eraseValue name).valueAt k =
      if k = fold.key (toWide name) then none else node.valueAt k := by
  unfold valueAt eraseValue
  rw [Table.lookup_erase]
  split <;> rfl

@[simp]
theorem childAt_setSubkey (node : Node fold σ) (name : String) (child : σ) (k : Name) :
    (node.setSubkey name child).childAt k =
      if k = fold.key (toWide name) then some child else node.childAt k := by
  unfold childAt setSubkey
  rw [Table.lookup_insert]
  split <;> rfl

@[simp]
theorem childAt_eraseSubkey (node : Node fold σ) (name : String) (k : Name) :
    (node.eraseSubkey name).childAt k =
      if k = fold.key (toWide name) then none else node.childAt k := by
  unfold childAt eraseSubkey
  rw [Table.lookup_erase]
  split <;> rfl

/-- Every value name of a key is one of the allowed ones. -/
def NamesIn (allowed : Name → Prop) (node : Node fold σ) : Prop :=
  ∀ entry ∈ node.values.entries, allowed entry.1

/-- Every value name of a key decodes. -/
abbrev ValueNamesDecode (node : Node fold σ) : Prop :=
  node.NamesIn DecodableName

variable {allowed : Name → Prop}

theorem NamesIn.setValue {node : Node fold σ} (h : node.NamesIn allowed)
    {name : String} {v : RegValue} (hname : allowed (toWide name)) :
    (node.setValue name v).NamesIn allowed := by
  intro entry hentry
  rcases Table.mem_entries_insert hentry with hold | ⟨-, hnew | ⟨b, hold⟩⟩
  · exact h entry hold
  · rw [hnew]
    exact hname
  · exact h (entry.1, b) hold

theorem NamesIn.eraseValue {node : Node fold σ} (h : node.NamesIn allowed)
    (name : String) : (node.eraseValue name).NamesIn allowed :=
  fun entry hentry => h entry (Table.mem_of_mem_filter hentry)

end Node

/-! ## Writing values -/

theorem runs_writeStringTyped {name value : String} {kind : UInt32} {node : Node fold σ}
    {Q : Unit → Node fold σ → Prop} {R : Node fold σ → Prop}
    (hvalue : Text.contains value '\x00' = false) (hcut : R node)
    (hpost : Q () (node.setValue name (stringValue kind value))) :
    Runs (writeStringTyped name value kind) node Q R := by
  unfold writeStringTyped
  simp only [hvalue, Bool.false_eq_true, if_false]
  exact Runs.setValue hcut hpost

/-! ## Removing values -/

/-- `node'` is `node` after some of the values that `wanted` rejects are gone. -/
structure Pruned (wanted : String → Bool) (node node' : Node fold σ) : Prop where
  subkeys : node'.subkeys = node.subkeys
  lookup : ∀ k, node'.values.lookup k = node.values.lookup k ∨
    (node'.values.lookup k = none ∧
      ∀ entry, node.values.lookup k = some entry → wanted (nameText entry.1) = false)

theorem Pruned.refl (wanted : String → Bool) (node : Node fold σ) : Pruned wanted node node :=
  ⟨rfl, fun _ => .inl rfl⟩

theorem Pruned.eraseValue {wanted : String → Bool} {node node' : Node fold σ}
    (h : Pruned wanted node node') {entry : Name × RegValue}
    (hmem : entry ∈ node.values.entries) (hdecodes : DecodableName entry.1)
    (hunwanted : wanted (nameText entry.1) = false) :
    Pruned wanted node (node'.eraseValue (nameText entry.1)) := by
  refine ⟨h.subkeys, fun k => ?_⟩
  simp only [Node.eraseValue, Table.lookup_erase, hdecodes.toWide_text]
  by_cases hk : k = fold.key entry.1
  · rw [if_pos hk]
    refine .inr ⟨rfl, fun other hother => ?_⟩
    rw [hk, (Table.mem_entries_iff _ entry.1 entry.2).mp hmem] at hother
    cases hother
    exact hunwanted
  · rw [if_neg hk]
    exact h.lookup k

theorem Pruned.namesIn {wanted : String → Bool} {node node' : Node fold σ}
    (h : Pruned wanted node node') {allowed : Name → Prop} (hnames : node.NamesIn allowed) :
    node'.NamesIn allowed := by
  rintro ⟨stored, v⟩ hentry
  rw [Table.mem_entries_iff] at hentry
  rcases h.lookup (fold.key stored) with hsame | ⟨hgone, -⟩
  · rw [hsame] at hentry
    exact hnames (stored, v) ((Table.mem_entries_iff _ _ _).mpr hentry)
  · rw [hgone] at hentry
    cases hentry

theorem runs_pruneValues {wanted : String → Bool} {node : Node fold σ}
    {Q : Unit → Node fold σ → Prop} {R : Node fold σ → Prop}
    (hnames : node.ValueNamesDecode)
    (hcut : ∀ node', Pruned wanted node node' → R node')
    (hpost : ∀ node', Pruned wanted node node' →
      (∀ k entry, node'.values.lookup k = some entry → wanted (nameText entry.1) = true) →
      Q () node') :
    Runs (pruneValues wanted) node Q R := by
  refine Runs.bind (Runs.enumerateValueNames
    (Q := fun names n => names = node.values.entries.map (fun entry => nameText entry.1) ∧
      n = node) hnames (hcut node (Pruned.refl _ _)) ⟨rfl, rfl⟩) ?_
  rintro names n ⟨rfl, rfl⟩
  -- the names processed so far are gone unless they are wanted
  let I : List String → Node fold σ → Prop := fun done node' =>
    Pruned wanted n node' ∧
      ∀ entry ∈ n.values.entries, nameText entry.1 ∈ done → wanted (nameText entry.1) = false →
        node'.values.lookup (fold.key entry.1) = none
  refine Runs.mono (fun _ node' hdone => hpost node' hdone.1 ?_) (fun _ h => h)
    (Runs.forM I ?_ ⟨Pruned.refl _ _, by simp⟩)
  · rintro k ⟨stored, v⟩ hlookup
    have hkey := Table.key_of_lookup hlookup
    subst hkey
    rcases hdone.1.lookup (fold.key stored) with hsame | ⟨hgone, -⟩
    · have hmem : (stored, v) ∈ n.values.entries := by
        rw [Table.mem_entries_iff, ← hsame]
        exact hlookup
      by_contra hunwanted
      have hgone := hdone.2 (stored, v) hmem (List.mem_map.mpr ⟨_, hmem, rfl⟩)
        (by simpa using hunwanted)
      rw [hlookup] at hgone
      cases hgone
    · rw [hlookup] at hgone
      cases hgone
  · intro done name rest hsplit node' hdone
    obtain ⟨entry, hentry, hname⟩ : ∃ entry ∈ n.values.entries, nameText entry.1 = name := by
      have hmem : name ∈ n.values.entries.map fun entry => nameText entry.1 := by
        rw [hsplit]
        simp
      simpa using hmem
    have hdecodes := hnames entry hentry
    split
    · rename_i hkeep
      refine Runs.pure ⟨hdone.1, fun other hother hin hunwanted => ?_⟩
      rcases List.mem_append.mp hin with hearlier | hlast
      · exact hdone.2 other hother hearlier hunwanted
      · rw [List.mem_singleton] at hlast
        rw [hlast, hkeep] at hunwanted
        cases hunwanted
    · rename_i hdrop
      rw [← hname] at hdrop ⊢
      have hunwanted : wanted (nameText entry.1) = false := by simpa using hdrop
      refine Runs.deleteValue (hcut node' hdone.1)
        ⟨hdone.1.eraseValue hentry hdecodes hunwanted, fun other hother hin hother' => ?_⟩
      simp only [Node.eraseValue, Table.lookup_erase, hdecodes.toWide_text]
      by_cases hsame : fold.key other.1 = fold.key entry.1
      · rw [if_pos hsame]
      · rw [if_neg hsame]
        rcases List.mem_append.mp hin with hearlier | hlast
        · exact hdone.2 other hother hearlier hother'
        · rw [List.mem_singleton] at hlast
          have hwords : other.1 = entry.1 := by
            rw [← (hnames other hother).encode_text, hlast, hdecodes.encode_text]
          exact absurd (by rw [hwords]) hsame

/-! ## Exit actions -/

/-- The value of an exit action. -/
def exitValue (policy : ExitActionPolicy) : RegValue :=
  stringValue regSz (exitActionStr policy.action)

/-- The exit actions a configuration wants, by the key of their value name. -/
def wantedExits (fold : NameFold) (exits : ExitActions) (k : Name) : Option RegValue :=
  (exits.toList.find? fun entry => windowsNameKey fold (exitRegistryName entry.1) = k).map
    fun entry => exitValue entry.2

theorem mem_encode_toString {code : Int} {u : UInt16} (hu : u ∈ Utf16.encode (toString code)) :
    u.toNat = 0x2D ∨ (0x30 ≤ u.toNat ∧ u.toNat ≤ 0x39) := by
  obtain ⟨c, hc, hmem⟩ := List.mem_flatMap.mp hu
  have hchar : c.toNat = 0x2D ∨ (0x30 ≤ c.toNat ∧ c.toNat ≤ 0x39) := by
    rcases Text.mem_toString_int hc with rfl | hdigit
    · exact .inl rfl
    · exact .inr (Char.isDigit_iff_toNat.mp hdigit)
  rw [Utf16.encodeChar, if_pos (by omega), List.mem_singleton] at hmem
  rw [hmem, Utf16.ofNat_toNat_of_lt (by omega)]
  exact hchar

/-- The value name of an exit action has no letters, so only itself is equal to it
up to case. -/
theorem caseless_exitRegistryName {key : String} (hkey : IsExitKey key) :
    Caseless (Utf16.encode (exitRegistryName key)) := by
  unfold exitRegistryName
  split
  · intro v hv
    cases hv
  · rename_i hnamed
    rcases hkey with hdefault | ⟨code, -, rfl⟩
    · exact absurd hdefault hnamed
    · intro u hu
      have hrange := mem_encode_toString hu
      refine ⟨by omega, ?_⟩
      rintro (hupper | hlower) <;> omega

theorem exitRegistryName_noNul {key : String} (hkey : IsExitKey key) :
    Text.contains (exitRegistryName key) '\x00' = false := by
  unfold exitRegistryName
  split
  · rfl
  · rename_i hnamed
    rcases hkey with hdefault | ⟨code, -, rfl⟩
    · exact absurd hdefault hnamed
    · rw [← Bool.not_eq_true, contains_nul_iff]
      intro hzero
      have hrange := mem_encode_toString hzero
      simp at hrange

theorem decodable_exitRegistryName {key : String} (hkey : IsExitKey key) :
    DecodableName (toWide (exitRegistryName key)) := by
  have hnul := exitRegistryName_noNul hkey
  rw [toWide_of_noNul hnul]
  refine decodableName_encode hnul ?_
  unfold exitRegistryName
  split
  · decide
  · rename_i hnamed
    rcases hkey with hdefault | ⟨code, hcode, rfl⟩
    · exact absurd hdefault hnamed
    · have hascii : IsAscii (toString code) := by
        intro c hc
        rcases Text.mem_toString_int hc with rfl | hdigit
        · decide
        · have hrange := Char.isDigit_iff_toNat.mp hdigit
          change 48 ≤ c.toNat ∧ c.toNat ≤ 57 at hrange
          omega
      rw [encode_of_isAscii hascii, List.length_map]
      have hlength := Text.length_toString_int hcode
      unfold nameCapLimit
      omega

theorem exitRegistryName_injective {key key' : String} (hkey : IsExitKey key)
    (hkey' : IsExitKey key') (heq : exitRegistryName key = exitRegistryName key') :
    key = key' := by
  have hnormal := normalize_exitRegistryName hkey
  rw [heq, normalize_exitRegistryName hkey'] at hnormal
  exact (Except.ok.inj hnormal).symm

section ExitActions

variable {exits : ExitActions} (hkeys : ∀ key ∈ exits, IsExitKey key)

include hkeys

theorem isExitKey_of_mem {entry : String × ExitActionPolicy} (hentry : entry ∈ exits.toList) :
    IsExitKey entry.1 := by
  refine hkeys entry.1 ?_
  rw [Std.ExtTreeMap.mem_iff_isSome_getElem?]
  rw [Std.ExtTreeMap.mem_toList_iff_getElem?_eq_some.mp hentry]
  rfl

theorem wantedExits_of_mem {entry : String × ExitActionPolicy} (hentry : entry ∈ exits.toList) :
    wantedExits fold exits (windowsNameKey fold (exitRegistryName entry.1)) =
      some (exitValue entry.2) := by
  have hkey := isExitKey_of_mem hkeys hentry
  unfold wantedExits
  rcases hfind : exits.toList.find? fun other =>
      windowsNameKey fold (exitRegistryName other.1) =
        windowsNameKey fold (exitRegistryName entry.1) with _ | other
  · have hnone := List.find?_eq_none.mp hfind entry hentry
    simp at hnone
  · have hother := List.mem_of_find?_eq_some hfind
    have hsame : windowsNameKey fold (exitRegistryName other.1) =
        windowsNameKey fold (exitRegistryName entry.1) := by
      simpa using List.find?_some hfind
    have hname := Utf16.encode_injective (eq_of_key_eq (caseless_exitRegistryName hkey) hsame)
    have hfirst := exitRegistryName_injective (isExitKey_of_mem hkeys hother) hkey hname
    have hsecond : other.2 = entry.2 := by
      have hgot := Std.ExtTreeMap.mem_toList_iff_getElem?_eq_some.mp hother
      rw [hfirst, Std.ExtTreeMap.mem_toList_iff_getElem?_eq_some.mp hentry] at hgot
      exact (Option.some.inj hgot).symm
    rw [hfind, Option.map_some, hsecond]

/-- A name is kept by the exact comparison of the writer exactly when something
is wanted under its key. -/
theorem wantedExits_isSome_iff {name : String} :
    (wantedExits fold exits (windowsNameKey fold name)).isSome =
      (exits.toList.map fun entry => exitRegistryName entry.1).contains name := by
  rw [Bool.eq_iff_iff, List.contains_iff_mem, List.mem_map]
  constructor
  · intro hsome
    obtain ⟨value, hvalue⟩ := Option.isSome_iff_exists.mp hsome
    obtain ⟨entry, hfind, -⟩ := Option.map_eq_some_iff.mp hvalue
    have hentry := List.mem_of_find?_eq_some hfind
    have hsame : windowsNameKey fold (exitRegistryName entry.1) = windowsNameKey fold name := by
      simpa using List.find?_some hfind
    refine ⟨entry, hentry, ?_⟩
    exact (Utf16.encode_injective (eq_of_key_eq
      (caseless_exitRegistryName (isExitKey_of_mem hkeys hentry)) hsame.symm)).symm
  · rintro ⟨entry, hentry, rfl⟩
    rw [wantedExits_of_mem hkeys hentry]
    rfl

/-- The program inside the exit-action key: write all, then prune.  The content
is always in one of the two phases, and what is wanted at the end; no name is
spelled in a way that is not allowed. -/
theorem runs_exitEntries {allowed : Name → Prop}
    (hallowed : ∀ words, allowed words → DecodableName words)
    (hnew : ∀ entry ∈ exits.toList, allowed (toWide (exitRegistryName entry.1)))
    {node : Node fold σ} {Q : Unit → Node fold σ → Prop}
    {R : Node fold σ → Prop} (hnames : node.NamesIn allowed)
    (hcut : ∀ node', node'.NamesIn allowed →
      WriteFirst node.valueAt (wantedExits fold exits) node'.valueAt → R node')
    (hpost : ∀ node', node'.NamesIn allowed →
      (∀ k, node'.valueAt k = wantedExits fold exits k) → Q () node') :
    Runs (do
      exits.toList.forM writeExitAction
      pruneValues fun name =>
        (exits.toList.map fun entry => exitRegistryName entry.1).contains name)
      node Q R := by
  let keyOf : String × ExitActionPolicy → Name := fun entry =>
    windowsNameKey fold (exitRegistryName entry.1)
  let I : List (String × ExitActionPolicy) → Node fold σ → Prop := fun done node' =>
    node'.NamesIn allowed ∧
      WrittenUpTo node.valueAt (wantedExits fold exits) node'.valueAt (done.map keyOf)
  refine Runs.bind (M := fun _ => I exits.toList) (Runs.forM I ?_
    ⟨hnames, WrittenUpTo.nil _ _⟩) ?_
  · rintro done entry rest hsplit node' ⟨hdecode, hwritten⟩
    have hentry : entry ∈ exits.toList := by simp [hsplit]
    have hkey := isExitKey_of_mem hkeys hentry
    have hnumeric : (!(exitRegistryName entry.1).isEmpty &&
        (Text.parseI32 (exitRegistryName entry.1)).isNone) = false := by
      unfold exitRegistryName
      split
      · rfl
      · rename_i hnamed
        obtain ⟨code, hcode⟩ := parseI32_of_isExitKey hkey hnamed
        simp [hcode]
    have hclean : Text.contains (exitActionStr entry.2.action) '\x00' = false := by
      cases entry.2.action <;> rfl
    unfold writeExitAction
    simp only [hnumeric, Bool.false_eq_true, if_false, writeString]
    refine runs_writeStringTyped hclean (hcut _ hdecode (.inl hwritten.writing)) ⟨?_, ?_⟩
    · exact hdecode.setValue (hnew entry hentry)
    · rw [List.map_append]
      refine hwritten.set (wantedExits_of_mem hkeys hentry) fun k => ?_
      rw [Node.valueAt_setValue, key_toWide (exitRegistryName_noNul hkey)]
      rfl
  · rintro _ written ⟨hdecode, hwritten⟩
    have hpruning : Pruning node.valueAt (wantedExits fold exits) written.valueAt := by
      refine hwritten.pruning fun k value hvalue => ?_
      obtain ⟨entry, hfind, rfl⟩ := Option.map_eq_some_iff.mp hvalue
      exact List.mem_map.mpr ⟨entry, List.mem_of_find?_eq_some hfind, by
        simpa using List.find?_some hfind⟩
    have hpruned : ∀ node', Pruned (fun name =>
        (exits.toList.map fun entry => exitRegistryName entry.1).contains name) written node' →
        Pruning node.valueAt (wantedExits fold exits) node'.valueAt := by
      intro node' hnode'
      refine hpruning.erase fun k => ?_
      rcases hnode'.lookup k with hkept | ⟨hgone, hunwanted⟩
      · exact .inl (by rw [Node.valueAt, hkept]; rfl)
      · rcases hold : written.values.lookup k with _ | entry
        · exact .inl (by rw [Node.valueAt, Node.valueAt, hgone, hold])
        · refine .inr ⟨by rw [Node.valueAt, hgone]; rfl, ?_⟩
          have hentry : DecodableName entry.1 :=
            hallowed _ (hdecode entry (List.mem_of_find?_eq_some hold))
          have hkey : windowsNameKey fold (nameText entry.1) = k := by
            rw [hentry.key_text, Table.key_of_lookup hold]
          have hnone := hunwanted entry hold
          rw [← @wantedExits_isSome_iff fold _ hkeys, hkey] at hnone
          simpa using hnone
    refine runs_pruneValues (fun entry hentry => hallowed _ (hdecode entry hentry)) (fun node' hnode' => ?_) (fun node' hnode' hall => ?_)
    · exact hcut node' (hnode'.namesIn hdecode) (.inr (hpruned node' hnode'))
    · refine hpost node' (hnode'.namesIn hdecode)
        ((hpruned node' hnode').eq_wanted fun k hunwanted => ?_)
      rcases hvalue : node'.values.lookup k with _ | entry
      · rw [Node.valueAt, hvalue]
        rfl
      · have hkept := hall k entry hvalue
        have hdecodes : DecodableName entry.1 :=
          hallowed _ (hnode'.namesIn hdecode entry (List.mem_of_find?_eq_some hvalue))
        rw [← @wantedExits_isSome_iff fold _ hkeys, hdecodes.key_text,
          Table.key_of_lookup hvalue, hunwanted] at hkept
        cases hkept

end ExitActions

end Ngsm.Registry
