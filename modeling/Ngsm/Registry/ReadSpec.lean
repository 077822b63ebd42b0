/-
# Reading back what was written

The reader run on stored values.  A value that an encoder produced is read back
as what was encoded, and a string stored for expansion leaves its mark.  For the
two subtrees, which the reader goes through in the order of enumeration, the
result is described as a map and as a set.
-/

import Ngsm.Registry.WriteSpec

namespace Ngsm.Registry

open Ngsm.Lib Ngsm.Core NssmKeys

variable {fold : NameFold} {σ : Type}

/-! ## Single values -/

section Values

variable {α : Type} {node : Node fold σ} {name : String} {Q : α → Std.ExtTreeSet String → Prop}
  {R : Error → Std.ExtTreeSet String → Prop} {marked : Std.ExtTreeSet String}

/-- Add a mark under a condition. -/
def markIf (expandable : Bool) (name : String) (marked : Std.ExtTreeSet String) :
    Std.ExtTreeSet String :=
  if expandable then marked.insert name else marked

@[simp]
theorem mem_markIf {expandable : Bool} {name m : String} :
    m ∈ markIf expandable name marked ↔ (expandable = true ∧ name = m) ∨ m ∈ marked := by
  unfold markIf
  cases expandable with
  | true => simp
  | false => simp

theorem queryValueRaw_of_some {value : RegValue} (hvalue : node.value? name = some value) :
    queryValueRaw node name = .ok value := by
  rw [queryValueRaw, hvalue]

theorem optional_of_none {read : RegValue → Result α} (hvalue : node.value? name = none) :
    optional (queryValueRaw node name >>= read) = .ok none := by
  rw [queryValueRaw, hvalue]
  rfl

theorem wp_optU32 {value : Option UInt32} {Q : Option UInt32 → Std.ExtTreeSet String → Prop}
    (hvalue : node.value? name = value.map dwordValue) :
    (optU32 node name).wp Q R marked ↔ Q value marked := by
  have hread : optional (readU32 node name) = .ok value := by
    cases value with
    | none => exact optional_of_none hvalue
    | some v =>
        rw [readU32, queryValueRaw_of_some hvalue]
        change optional (decodeU32 name (dwordValue v).kind (dwordValue v).data) = _
        rw [dwordValue_decodes]
        rfl
  rw [optU32, hread, Prog.wp_liftExcept]

theorem wp_optMultiString {values : List String}
    {Q : Option (List String) → Std.ExtTreeSet String → Prop}
    (hstorable : ∀ v ∈ values, Text.contains v '\x00' = false ∧ v ≠ "")
    (hvalue : node.value? name = if values.isEmpty then none else some (multiValue values)) :
    (optMultiString node name).wp Q R marked ↔
      Q (if values.isEmpty then none else some values) marked := by
  have hread : optional (readMultiString node name) =
      .ok (if values.isEmpty then none else some values) := by
    cases hempty : values.isEmpty with
    | true =>
        rw [hempty, if_pos rfl] at hvalue
        exact optional_of_none hvalue
    | false =>
        rw [hempty, if_neg Bool.false_ne_true] at hvalue
        rw [readMultiString, queryValueRaw_of_some hvalue]
        change optional (bytesToWideMulti (multiValue values).data) = _
        rw [multiValue_decodes hstorable]
        rfl
  rw [optMultiString, hread, Prog.wp_liftExcept]

theorem wp_optConfigString {value : Option String} {expandable : Bool}
    {Q : Option String → Std.ExtTreeSet String → Prop}
    (hclean : ∀ v, value = some v → Text.contains v '\x00' = false)
    (hvalue : node.value? name =
      value.map (stringValue (if expandable then regExpandSz else regSz))) :
    (optConfigString node name).wp Q R marked ↔
      Q value (markIf (value.isSome && expandable) name marked) := by
  unfold optConfigString
  rw [Prog.wp_bind, Prog.wp_liftExcept]
  cases value with
  | none =>
      rw [readTypedString, optional_of_none hvalue]
      rfl
  | some v =>
      have hread : readTypedString node name =
          .ok (v, if expandable then regExpandSz else regSz) := by
        rw [readTypedString, queryValueRaw_of_some hvalue]
        have hdecodes := stringValue_decodes (if expandable then regExpandSz else regSz)
          (hclean v rfl)
        cases expandable
        · simp only [Bool.false_eq_true, if_false] at hdecodes
          change (bytesToWideString (stringValue regSz v).data >>= fun text => pure (text, regSz)) = _
          rw [hdecodes]
          rfl
        · simp only [if_true] at hdecodes
          change (bytesToWideString (stringValue regExpandSz v).data >>= fun text =>
            pure (text, regExpandSz)) = _
          rw [hdecodes]
          rfl
      rw [hread]
      cases expandable <;> rfl

end Values

/-! ## Enumeration -/

theorem readAll_of_ok {β γ : Type} {read : Nat → β → Result γ} {f : β → γ} (entries : List β)
    (index : Nat) (hread : ∀ entry ∈ entries, ∀ index, read index entry = .ok (f entry)) :
    readAll read index entries = .ok (entries.map f) := by
  induction entries generalizing index with
  | nil => rfl
  | cons entry entries ih =>
      rw [readAll, hread entry (by simp) index, ih _ fun e he => hread e (by simp [he])]
      rfl

/-- An enumeration that succeeds has read every entry. -/
theorem exists_of_readAll {β γ : Type} {read : Nat → β → Result γ} {entries : List β}
    {index : Nat} {out : List γ} (hread : readAll read index entries = .ok out) :
    ∀ entry ∈ entries, ∃ index x, x ∈ out ∧ read index entry = .ok x := by
  induction entries generalizing index out with
  | nil => simp
  | cons entry entries ih =>
      rw [readAll, Check.bind_eq_ok] at hread
      obtain ⟨x, hx, hread⟩ := hread
      rw [Check.bind_eq_ok] at hread
      obtain ⟨xs, hxs, hread⟩ := hread
      cases hread
      intro other hother
      rcases List.mem_cons.mp hother with rfl | hrest
      · exact ⟨index, x, by simp, hx⟩
      · obtain ⟨i, y, hy, hok⟩ := ih hxs other hrest
        exact ⟨i, y, by simp [hy], hok⟩

theorem readStringEntry_of_stringValue {words : Name} {kind : UInt32} {text : String}
    (hname : DecodableName words) (hkind : kind = regSz ∨ kind = regExpandSz)
    (hclean : Text.contains text '\x00' = false)
    (hsize : (stringValue kind text).data.length ≤ valueCapLimit) (index : Nat) :
    readStringEntry index (words, stringValue kind text) = .ok (nameText words, text, kind) := by
  have hfits : ¬ (words.length + 1 > nameCapLimit ∨
      (stringValue kind text).data.length > valueCapLimit) := by
    have hlength := hname.1
    omega
  have hstring : ¬ ((stringValue kind text).kind ≠ regSz ∧
      (stringValue kind text).kind ≠ regExpandSz) := by
    change ¬ (kind ≠ regSz ∧ kind ≠ regExpandSz)
    rintro ⟨hsz, hexpand⟩
    exact hkind.elim hsz hexpand
  unfold readStringEntry
  simp only [if_neg hfits, hname.decode_eq, if_neg hstring, stringValue_decodes kind hclean]
  rfl

/-! ## Exit actions -/

/-- An enumerated entry that stands for one of the exit actions. -/
def StandsFor (exits : ExitActions) (entry : String × String × UInt32) : Prop :=
  ∃ key policy, exits[key]? = some policy ∧ IsExitKey key ∧
    normalizeExitActionName entry.1 = .ok key ∧
    parseExitAction entry.2.1 = some policy.action

/-- One set of exit actions is part of another. -/
def PartOf (out exits : ExitActions) : Prop :=
  ∀ (key : String) (policy : ExitActionPolicy), out[key]? = some policy →
    exits[key]? = some policy

theorem insertExitAction_of_agree {exits out : ExitActions} {key : String}
    {policy : ExitActionPolicy} (hpolicy : exits[key]? = some policy) (hkey : IsExitKey key)
    (hout : PartOf out exits) :
    ∃ out', insertExitAction out key policy.action = .ok out' ∧
      PartOf out' exits ∧ PartOf out out' ∧ out'[key]? = some policy := by
  rw [insertExitAction, normalize_of_isExitKey hkey]
  rcases hprevious : out[key]? with _ | previous
  · refine ⟨out.insert key ⟨policy.action⟩, ?_, ?_, ?_, ?_⟩
    · simp only [bind, Except.bind]
      rw [hprevious]
    · intro k p hk
      rw [Std.ExtTreeMap.getElem?_insert] at hk
      split at hk
      · rename_i hsame
        have hequal : key = k := by simpa using hsame
        cases hk
        rw [← hequal, hpolicy]
      · exact hout k p hk
    · intro k p hk
      rw [Std.ExtTreeMap.getElem?_insert]
      split
      · rename_i hsame
        have hequal : key = k := by simpa using hsame
        rw [← hequal, hprevious] at hk
        cases hk
      · exact hk
    · rw [Std.ExtTreeMap.getElem?_insert_self]
  · have hagree : previous = policy := by
      have hold := hout key previous hprevious
      rw [hpolicy] at hold
      exact (Option.some.inj hold).symm
    refine ⟨out, ?_, hout, fun _ _ h => h, by rw [hprevious, hagree]⟩
    simp only [bind, Except.bind]
    rw [hprevious]
    simp [hagree]

/-- Entries that stand for exit actions are collected into a part of them that
covers every entry. -/
theorem foldlM_addExitEntry {exits : ExitActions} (entries : List (String × String × UInt32))
    (hentries : ∀ entry ∈ entries, StandsFor exits entry) (out : ExitActions)
    (hout : PartOf out exits) :
    ∃ out', entries.foldlM addExitEntry out = .ok out' ∧ PartOf out' exits ∧ PartOf out out' ∧
      ∀ entry ∈ entries, ∀ key, normalizeExitActionName entry.1 = .ok key →
        out'[key]? = exits[key]? := by
  induction entries generalizing out with
  | nil => exact ⟨out, rfl, hout, fun _ _ h => h, by simp⟩
  | cons entry entries ih =>
      obtain ⟨key, policy, hpolicy, hkey, hnormal, hparse⟩ := hentries entry (by simp)
      obtain ⟨next, hinsert, hnext, hgrow, hself⟩ := insertExitAction_of_agree hpolicy hkey hout
      obtain ⟨out', hrun, hsub, hgrow', hcover⟩ :=
        ih (fun e he => hentries e (by simp [he])) next hnext
      have hstep : addExitEntry out entry = .ok next := by
        refine Check.bind_eq_ok.mpr ⟨key, hnormal, ?_⟩
        rw [hparse]
        exact hinsert
      refine ⟨out', ?_, hsub, fun k p hk => hgrow' k p (hgrow k p hk), ?_⟩
      · rw [List.foldlM_cons, hstep]
        exact hrun
      · intro other hother k hk
        rcases List.mem_cons.mp hother with rfl | hrest
        · rw [hnormal] at hk
          cases hk
          rw [hgrow' _ _ hself, hpolicy]
        · exact hcover other hrest k hk

/-- The text of a stored string value. -/
def entryText (value : RegValue) : String :=
  match bytesToWideString value.data with
  | .ok text => text
  | .error _ => ""

theorem entryText_stringValue (kind : UInt32) {text : String}
    (hclean : Text.contains text '\x00' = false) : entryText (stringValue kind text) = text := by
  rw [entryText, stringValue_decodes kind hclean]

/-- A stored value that the enumeration reads. -/
def ReadableValue (value : RegValue) : Prop :=
  ∃ kind text, value = stringValue kind text ∧ (kind = regSz ∨ kind = regExpandSz) ∧
    Text.contains text '\x00' = false ∧ value.data.length ≤ valueCapLimit

/-- Reading all values of a key of an owned subtree. -/
theorem enumerateTypedStringValues_eq {node : Node fold σ}
    (hnames : node.ValueNamesDecode)
    (hvalues : ∀ entry ∈ node.values.entries, ReadableValue entry.2) :
    enumerateTypedStringValues node = .ok (node.values.entries.map fun entry =>
      (nameText entry.1, entryText entry.2, entry.2.kind)) := by
  refine readAll_of_ok _ _ fun entry hentry index => ?_
  obtain ⟨kind, text, hvalue, hkind, hclean, hsize⟩ := hvalues entry hentry
  obtain ⟨words, value⟩ := entry
  simp only at hvalue hsize
  subst hvalue
  rw [readStringEntry_of_stringValue (hnames _ hentry) hkind hclean hsize,
    entryText_stringValue kind hclean]
  rfl

theorem exitActionStr_noNul (action : ExitAction) :
    Text.contains (exitActionStr action) '\x00' = false := by
  cases action <;> rfl

theorem exitValue_size (policy : ExitActionPolicy) :
    (exitValue policy).data.length ≤ valueCapLimit := by
  obtain ⟨action⟩ := policy
  cases action <;> decide

/-- The exit actions of a key that holds exactly the wanted ones. -/
theorem readExitActions_eq {exits : ExitActions} (hkeys : ∀ key ∈ exits, IsExitKey key)
    {node : Params fold σ} (hnames : NamesDecode node)
    (hexits : ∀ k, exitAt node k = wantedExits fold exits k) :
    readExitActions node = .ok exits := by
  unfold readExitActions
  rw [Node.subkey?_eq, ← exitKey]
  rcases hchild : node.childAt (exitKey fold) with _ | exit
  · have hnone : exits = ∅ := by
      apply Std.ExtTreeMap.ext_getElem?
      intro key
      rcases hget : exits[key]? with _ | policy
      · simp
      · have hmem := Std.ExtTreeMap.mem_toList_iff_getElem?_eq_some.mpr hget
        have hwanted := @wantedExits_of_mem fold _ hkeys _ hmem
        rw [← hexits, exitAt, hchild] at hwanted
        cases hwanted
    rw [hnone]
  · have hdecode := hnames.exits exit hchild
    have hvalue : ∀ k, exit.valueAt k = wantedExits fold exits k := by
      intro k
      rw [← hexits, exitAt, hchild]
      rfl
    -- each stored value is one of the wanted exit actions, under its own name
    have hstored : ∀ entry ∈ exit.values.entries, ∃ action ∈ exits.toList,
        nameText entry.1 = exitRegistryName action.1 ∧ entry.2 = exitValue action.2 := by
      rintro ⟨words, value⟩ hentry
      have hwords := hdecode _ hentry
      have hfound := hvalue (fold.key words)
      rw [Node.valueAt, (Table.mem_entries_iff _ _ _).mp hentry, Option.map_some, eq_comm,
        wantedExits, Option.map_eq_some_iff] at hfound
      obtain ⟨action, hfind, hsame⟩ := hfound
      have haction := List.mem_of_find?_eq_some hfind
      refine ⟨action, haction, ?_, hsame.symm⟩
      have hkey : windowsNameKey fold (exitRegistryName action.1) = fold.key words := by
        simpa using List.find?_some hfind
      rw [← @DecodableName.key_text fold _ hwords] at hkey
      exact Utf16.encode_injective (eq_of_key_eq
        (caseless_exitRegistryName (isExitKey_of_mem hkeys haction)) hkey.symm)
    have hread : enumerateTypedStringValues exit = .ok (exit.values.entries.map fun entry =>
        (nameText entry.1, entryText entry.2, entry.2.kind)) := by
      refine enumerateTypedStringValues_eq hdecode fun entry hentry => ?_
      obtain ⟨action, -, -, hsame⟩ := hstored entry hentry
      refine ⟨regSz, exitActionStr action.2.action, hsame, .inl rfl,
        exitActionStr_noNul _, ?_⟩
      rw [hsame]
      exact exitValue_size action.2
    have hstands : ∀ entry ∈ exit.values.entries.map (fun entry =>
        (nameText entry.1, entryText entry.2, entry.2.kind)), StandsFor exits entry := by
      intro entry hentry
      obtain ⟨stored, hmem, rfl⟩ := List.mem_map.mp hentry
      obtain ⟨action, haction, hname, hsame⟩ := hstored stored hmem
      have hkey := isExitKey_of_mem hkeys haction
      refine ⟨action.1, action.2, Std.ExtTreeMap.mem_toList_iff_getElem?_eq_some.mp haction, hkey,
        ?_, ?_⟩
      · rw [hname]
        exact normalize_exitRegistryName hkey
      · rw [hsame, exitValue, entryText_stringValue _ (exitActionStr_noNul _)]
        exact parseExitAction_exitActionStr _
    obtain ⟨out, hrun, hpart, -, hcover⟩ := foldlM_addExitEntry _ hstands ∅ (by
      intro key policy hget
      simp at hget)
    have hout : out = exits := by
      apply Std.ExtTreeMap.ext_getElem?
      intro key
      rcases hget : exits[key]? with _ | policy
      · rcases hget' : out[key]? with _ | policy
        · rfl
        · rw [hpart key policy hget'] at hget
          cases hget
      · have haction := Std.ExtTreeMap.mem_toList_iff_getElem?_eq_some.mpr hget
        have hkey := isExitKey_of_mem hkeys haction
        have hwanted := @wantedExits_of_mem fold _ hkeys _ haction
        rw [← hvalue] at hwanted
        obtain ⟨⟨words, value⟩, hlookup, -⟩ := Option.map_eq_some_iff.mp hwanted
        have hmem := List.mem_of_find?_eq_some hlookup
        have hwords := hdecode _ hmem
        have hname : nameText words = exitRegistryName key := by
          refine Utf16.encode_injective (@eq_of_key_eq fold _ _
            (caseless_exitRegistryName hkey) ?_)
          have hsame := Table.key_of_lookup hlookup
          rw [hwords.encode_text]
          exact hsame
        rw [← hget]
        refine hcover _ (List.mem_map.mpr ⟨_, hmem, rfl⟩) key ?_
        rw [hname]
        exact normalize_exitRegistryName hkey
    simp only
    rw [hread]
    change List.foldlM addExitEntry ∅ _ = _
    rw [hrun, hout]

/-! ## Hooks -/

/-- A unit without case occurs in a name if it occurs in one that is equal to it
up to case. -/
theorem mem_of_key_eq {u v : Name} {x : UInt16} (hx : x.toNat < 0xA0) (hletter : ¬ isAsciiLetter x)
    (hkey : fold.key u = fold.key v) (hmem : x ∈ u) : x ∈ v := by
  have hup : fold.upcase x ∈ fold.key v := by
    rw [← hkey]
    exact List.mem_map.mpr ⟨x, hmem, rfl⟩
  obtain ⟨y, hy, hsame⟩ := List.mem_map.mp hup
  rwa [← fold.caseless y x hx hletter hsame]

theorem not_letter_of_forbidden {c : Char}
    (hc : c = '\\' ∨ c = '/' ∨ Text.isControl c = true) :
    c.toNat < 0xA0 ∧ ¬ (0x41 ≤ c.toNat ∧ c.toNat ≤ 0x5A ∨ 0x61 ≤ c.toNat ∧ c.toNat ≤ 0x7A) := by
  rcases hc with rfl | rfl | hcontrol
  · decide
  · decide
  · simp only [Text.isControl, Bool.or_eq_true, Bool.and_eq_true, decide_eq_true_eq] at hcontrol
    omega

/-- A hook component stays valid under any spelling that the registry takes for
the same name. -/
theorem validateHookComponent_congr {name other kind kind' : String}
    (hsame : windowsNameKey fold name = windowsNameKey fold other)
    (hother : validateHookComponent other kind = .ok ()) :
    validateHookComponent name kind' = .ok () := by
  obtain ⟨hnonempty, hlength, hchars⟩ := (validateHookComponent_ok_iff other kind).mp hother
  have hlen : (Utf16.encode name).length = (Utf16.encode other).length := by
    have hkeys := congrArg List.length hsame
    simpa [windowsNameKey, NameFold.key] using hkeys
  refine (validateHookComponent_ok_iff name kind').mpr ⟨?_, by omega, fun c hc => ?_⟩
  · rintro rfl
    rw [Utf16.encode_empty, List.length_nil, eq_comm, List.length_eq_zero_iff,
      Utf16.encode_eq_nil_iff] at hlen
    exact hnonempty hlen
  · by_contra hforbidden
    have hbad : c = '\\' ∨ c = '/' ∨ Text.isControl c = true := by
      by_contra hgood
      rw [not_or, not_or, Bool.not_eq_true] at hgood
      exact hforbidden hgood
    obtain ⟨hsmall, hletter⟩ := not_letter_of_forbidden hbad
    have hunit : (UInt16.ofNat c.toNat).toNat = c.toNat := Utf16.ofNat_toNat_of_lt (by omega)
    have hmem : UInt16.ofNat c.toNat ∈ Utf16.encode name :=
      (Utf16.mem_encode_of_lt (by omega)).mpr ⟨c, hc, hunit.symm⟩
    have hmem' := mem_of_key_eq (by omega) (by rwa [isAsciiLetter, hunit]) hsame hmem
    obtain ⟨c', hc', heq⟩ := (Utf16.mem_encode_of_lt (by omega)).mp hmem'
    have hchar : c' = c := Char.toNat_inj.mp (heq.trans hunit)
    rw [hchar] at hc'
    obtain ⟨hback, hslash, hcontrol⟩ := hchars c hc'
    rcases hbad with h | h | h
    · exact hback h
    · exact hslash h
    · rw [hcontrol] at h
      cases h

/-- The hooks stored under one event. -/
def storedActions (event : Name × Node fold σ) : List HookConfig :=
  event.2.values.entries.map fun entry =>
    ⟨nameText event.1, nameText entry.1, entryText entry.2⟩

/-- The hooks stored under the events key, in the order of enumeration. -/
def storedHooks (events : Node fold (Node fold σ)) : List HookConfig :=
  events.subkeys.entries.flatMap storedActions

/-- The marks of one event's hooks. -/
def ActionMark (event : Name × Node fold σ) (m : String) : Prop :=
  ∃ entry ∈ event.2.values.entries, entry.2.kind = regExpandSz ∧
    m = ManagedApplicationConfig.hookExpansionKey (nameText event.1) (nameText entry.1)

/-- Everything below the events key can be read. -/
structure ReadableEvents (events : Node fold (Node fold σ)) : Prop where
  decode : EventsDecode events
  event : ∀ entry ∈ events.subkeys.entries,
    validateHookComponent (nameText entry.1) "event" = .ok ()
  action : ∀ event ∈ events.subkeys.entries, ∀ entry ∈ event.2.values.entries,
    validateHookComponent (nameText entry.1) "action" = .ok ()
  value : ∀ event ∈ events.subkeys.entries, ∀ entry ∈ event.2.values.entries,
    ReadableValue entry.2

/-- Reading the hooks of one event. -/
theorem wp_readHook_fold {event : Name × Node fold σ} (out : List HookConfig)
    (hvalid : ∀ entry ∈ event.2.values.entries,
      validateHookComponent (nameText entry.1) "action" = .ok ())
    {R : Error → Std.ExtTreeSet String → Prop} (marked : Std.ExtTreeSet String) :
    ((event.2.values.entries.map fun entry =>
        (nameText entry.1, entryText entry.2, entry.2.kind)).foldlM
      (readHook (nameText event.1)) out).wp
      (fun hooks marked' => hooks = out ++ storedActions event ∧
        ∀ m, m ∈ marked' ↔ m ∈ marked ∨ ActionMark event m) R marked := by
  unfold storedActions ActionMark
  generalize event.2.values.entries = entries at hvalid ⊢
  induction entries generalizing out marked with
  | nil => simp
  | cons entry entries ih =>
      have hhead := hvalid entry (by simp)
      rw [List.map_cons, List.foldlM_cons, Prog.wp_bind]
      simp only [readHook, Prog.wp_bind, Prog.wp_liftExcept, hhead]
      have hrest : ∀ marked' : Std.ExtTreeSet String,
          (∀ m, m ∈ marked' ↔ m ∈ marked ∨ (entry.2.kind = regExpandSz ∧
            m = ManagedApplicationConfig.hookExpansionKey (nameText event.1)
              (nameText entry.1))) →
          ((entries.map fun entry => (nameText entry.1, entryText entry.2, entry.2.kind)).foldlM
            (readHook (nameText event.1))
            (out ++ [⟨nameText event.1, nameText entry.1, entryText entry.2⟩])).wp
            (fun hooks marked'' => hooks = out ++ (entry :: entries).map (fun entry =>
                (⟨nameText event.1, nameText entry.1, entryText entry.2⟩ : HookConfig)) ∧
              ∀ m, m ∈ marked'' ↔ m ∈ marked ∨ ∃ e ∈ entry :: entries, e.2.kind = regExpandSz ∧
                m = ManagedApplicationConfig.hookExpansionKey (nameText event.1) (nameText e.1))
            R marked' := by
        intro marked' hmarked'
        refine Prog.wp_mono _ ?_ (fun _ _ h => h)
          (ih _ marked' fun e he => hvalid e (by simp [he]))
        rintro hooks marked'' ⟨rfl, hmarks⟩
        refine ⟨by simp, fun m => ?_⟩
        rw [hmarks, hmarked']
        simp only [List.mem_cons, exists_eq_or_imp]
        tauto
      by_cases hkind : entry.2.kind = regExpandSz
      · rw [if_pos hkind, Prog.wp_bind]
        refine hrest _ fun m => ?_
        simp only [Std.ExtTreeSet.mem_insert, hkind, true_and]
        constructor
        · rintro (hnew | hold)
          · have hequal : ManagedApplicationConfig.hookExpansionKey (nameText event.1)
                (nameText entry.1) = m := by simpa using hnew
            exact .inr hequal.symm
          · exact .inl hold
        · rintro (hold | hnew)
          · exact .inr hold
          · exact .inl (by simp [hnew])
      · rw [if_neg hkind]
        refine hrest _ fun m => ?_
        simp [hkind]

/-- Reading all hooks. -/
theorem wp_readEvent_fold {events : Node fold (Node fold σ)} (hreadable : ReadableEvents events)
    {R : Error → Std.ExtTreeSet String → Prop} (marked : Std.ExtTreeSet String) :
    ((events.subkeys.entries.map fun entry => nameText entry.1).foldlM
      (readEvent events) []).wp
      (fun hooks marked' => hooks = storedHooks events ∧
        ∀ m, m ∈ marked' ↔ m ∈ marked ∨ ∃ event ∈ events.subkeys.entries, ActionMark event m)
      R marked := by
  suffices hloop : ∀ (entries : List (Name × Node fold σ)) (out : List HookConfig)
      (marked : Std.ExtTreeSet String), (∀ e ∈ entries, e ∈ events.subkeys.entries) →
      ((entries.map fun entry => nameText entry.1).foldlM (readEvent events) out).wp
        (fun hooks marked' => hooks = out ++ entries.flatMap storedActions ∧
          ∀ m, m ∈ marked' ↔ m ∈ marked ∨ ∃ event ∈ entries, ActionMark event m) R marked by
    simpa [storedHooks] using hloop events.subkeys.entries [] marked fun _ h => h
  intro entries
  induction entries with
  | nil =>
      intro out marked _
      simp
  | cons event entries ih =>
      intro out marked hsub
      have hevent : event ∈ events.subkeys.entries := hsub event (by simp)
      have hname := (hreadable.decode event hevent).1
      have hchild : events.subkey? (nameText event.1) = some event.2 := by
        rw [Node.subkey?_eq, hname.toWide_text, Node.childAt,
          (Table.mem_entries_iff _ event.1 event.2).mp hevent]
        rfl
      rw [List.map_cons, List.foldlM_cons, Prog.wp_bind]
      unfold readEvent
      simp only [Prog.wp_bind, Prog.wp_liftExcept, hreadable.event event hevent, hchild,
        enumerateTypedStringValues_eq (hreadable.decode event hevent).2
          (hreadable.value event hevent)]
      refine Prog.wp_mono _ ?_ (fun _ _ h => h)
        (wp_readHook_fold out (hreadable.action event hevent) marked)
      rintro hooks marked' ⟨rfl, hmarks⟩
      refine Prog.wp_mono _ ?_ (fun _ _ h => h) (ih _ marked' fun e he => hsub e (by simp [he]))
      rintro hooks marked'' ⟨rfl, hmarks'⟩
      refine ⟨by simp, fun m => ?_⟩
      rw [hmarks', hmarks]
      simp only [List.mem_cons, exists_eq_or_imp, or_assoc]

end Ngsm.Registry
