/-
# What a successful read says about the key

The reader run backwards: when a parameters key reads as a managed configuration,
its owned names decode, its application is not blank, and every exit action and
hook of the configuration is stored in the key.  Nothing here assumes that the
key was written by the manager; other tools write the same schema, with other
spellings of the same names.
-/

import Ngsm.Registry.RoundTrip

namespace Ngsm.Registry

open Ngsm.Lib Ngsm.Core NssmKeys

variable {fold : NameFold} {σ : Type}

/-- An exit action is stored, under some spelling of its key. -/
def ExitStored (node : Params fold σ) (key : String) (action : ExitAction) : Prop :=
  ∃ exit, node.childAt (exitKey fold) = some exit ∧ ∃ entry ∈ exit.values.entries,
    normalizeExitActionName (nameText entry.1) = .ok key ∧
    parseExitAction (entryText entry.2) = some action

/-- A hook is stored with a command. -/
def HookStored (node : Params fold σ) (k : Name × Name) (command : String) : Prop :=
  ∃ value, hooksAt node k = some value ∧ bytesToWideString value.data = .ok command

/-- A value that holds a string. -/
def HoldsString (value : RegValue) (text : String) : Prop :=
  (value.kind = regSz ∨ value.kind = regExpandSz) ∧ bytesToWideString value.data = .ok text

/-- The application of a key is a string that is not blank. -/
def ApplicationPresent (node : Params fold σ) : Prop :=
  ∃ value app, node.value? application = some value ∧ HoldsString value app ∧
    (Text.trim app).isEmpty = false

/-- What a key that reads as `cfg` holds. -/
structure ReadsAs (node : Params fold σ) (cfg : ManagedApplicationConfig) : Prop where
  application : ApplicationPresent node
  names : NamesDecode node
  exits : ∀ (key : String) (policy : ExitActionPolicy), cfg.exitActions[key]? = some policy →
    ExitStored node key policy.action
  hooks : ∀ k command, HasHook fold cfg k command → HookStored node k command
  sizes : ∀ k value, hooksAt node k = some value → value.data.length ≤ valueCapLimit

/-! ## Entries -/

/-- What a stored entry that was read looks like. -/
theorem of_readStringEntry {index : Nat} {entry : Name × RegValue}
    {x : String × String × UInt32} (hread : readStringEntry index entry = .ok x) :
    DecodableName entry.1 ∧ entry.2.data.length ≤ valueCapLimit ∧
      bytesToWideString entry.2.data = .ok x.2.1 ∧
      x = (nameText entry.1, entryText entry.2, entry.2.kind) := by
  by_cases hfits : entry.1.length + 1 > nameCapLimit ∨ entry.2.data.length > valueCapLimit
  · rw [readStringEntry, if_pos hfits] at hread
    cases hread
  rw [readStringEntry, if_neg hfits] at hread
  rw [not_or] at hfits
  obtain ⟨name, hname, hread⟩ := Check.bind_eq_ok.mp hread
  by_cases hstring : entry.2.kind ≠ regSz ∧ entry.2.kind ≠ regExpandSz
  · rw [if_pos hstring] at hread
    cases hread
  rw [if_neg hstring] at hread
  obtain ⟨text, htext, hread⟩ := Check.bind_eq_ok.mp hread
  cases hread
  have hdecodable : DecodableName entry.1 := ⟨Nat.not_lt.mp hfits.1, name, hname⟩
  refine ⟨hdecodable, Nat.not_lt.mp hfits.2, htext, ?_⟩
  have hsame : nameText entry.1 = name := by
    have hok := hdecodable.decode_eq
    rw [hname] at hok
    exact (Except.ok.inj hok).symm
  rw [hsame, entryText, htext]

/-- An enumeration of an owned key that succeeds returns its values in order. -/
theorem of_enumerateTypedStringValues {node : Node fold σ}
    {out : List (String × String × UInt32)}
    (hread : enumerateTypedStringValues node = .ok out) :
    node.ValueNamesDecode ∧
      (∀ entry ∈ node.values.entries, entry.2.data.length ≤ valueCapLimit ∧
        bytesToWideString entry.2.data = .ok (entryText entry.2)) ∧
      out = node.values.entries.map fun entry =>
        (nameText entry.1, entryText entry.2, entry.2.kind) := by
  have hall := exists_of_readAll hread
  refine ⟨fun entry hentry => ?_, fun entry hentry => ?_, ?_⟩
  · obtain ⟨index, x, -, hx⟩ := hall entry hentry
    exact (of_readStringEntry hx).1
  · obtain ⟨index, x, -, hx⟩ := hall entry hentry
    obtain ⟨-, hsize, htext, heq⟩ := of_readStringEntry hx
    rw [heq] at htext
    exact ⟨hsize, htext⟩
  · unfold enumerateTypedStringValues at hread
    clear hall
    generalize node.values.entries = entries at hread ⊢
    generalize 0 = index at hread
    induction entries generalizing index out with
    | nil =>
        cases hread
        rfl
    | cons entry entries ih =>
        rw [readAll, Check.bind_eq_ok] at hread
        obtain ⟨x, hx, hread⟩ := hread
        rw [Check.bind_eq_ok] at hread
        obtain ⟨xs, hxs, hread⟩ := hread
        cases hread
        rw [List.map_cons, ← (of_readStringEntry hx).2.2.2, ih (index + 1) hxs]

/-! ## Exit actions -/

theorem of_insertExitAction {out out' : ExitActions} {name : String} {action : ExitAction}
    (hinsert : insertExitAction out name action = .ok out') {key : String}
    {policy : ExitActionPolicy} (hget : out'[key]? = some policy) :
    out[key]? = some policy ∨
      (normalizeExitActionName name = .ok key ∧ policy.action = action) := by
  rw [insertExitAction, Check.bind_eq_ok] at hinsert
  obtain ⟨canonical, hcanonical, hinsert⟩ := hinsert
  split at hinsert
  · split at hinsert
    · cases hinsert
    · cases hinsert
      exact .inl hget
  · cases hinsert
    rw [Std.ExtTreeMap.getElem?_insert] at hget
    split at hget
    · rename_i hsame
      have hequal : canonical = key := by simpa using hsame
      cases hget
      exact .inr ⟨by rw [hcanonical, hequal], rfl⟩
    · exact .inl hget

theorem exitStored_of_read {node : Params fold σ} {exits : ExitActions}
    (hread : readExitActions node = .ok exits) :
    (∀ exit, node.childAt (exitKey fold) = some exit → exit.ValueNamesDecode) ∧
      ∀ (key : String) (policy : ExitActionPolicy), exits[key]? = some policy →
        ExitStored node key policy.action := by
  unfold readExitActions at hread
  rw [Node.subkey?_eq, ← exitKey] at hread
  rcases hchild : node.childAt (exitKey fold) with _ | exit
  · rw [hchild] at hread
    cases hread
    refine ⟨by simp, fun key policy hget => ?_⟩
    simp at hget
  · rw [hchild] at hread
    simp only at hread
    rw [Check.bind_eq_ok] at hread
    obtain ⟨entries, henumerate, hfold⟩ := hread
    obtain ⟨hdecode, -, rfl⟩ := of_enumerateTypedStringValues henumerate
    refine ⟨fun other hother => ?_, fun key policy hget => ?_⟩
    · cases hother
      exact hdecode
    · have hsource := Check.foldlM_invariant
        (fun done (out : ExitActions) => ∀ (key : String) (policy : ExitActionPolicy),
          out[key]? = some policy → ∃ x ∈ done, normalizeExitActionName x.1 = .ok key ∧
            parseExitAction x.2.1 = some policy.action)
        (by intro key policy hget; simp at hget)
        (by
          intro done x before after hx hbefore hstep key policy hget
          rw [addExitEntry, Check.bind_eq_ok] at hstep
          obtain ⟨actionName, hnormal, hstep⟩ := hstep
          split at hstep
          · rename_i action hparse
            rcases of_insertExitAction hstep hget with hold | ⟨hname, haction⟩
            · obtain ⟨y, hy, hfacts⟩ := hbefore key policy hold
              exact ⟨y, by simp [hy], hfacts⟩
            · rw [normalize_of_isExitKey (isExitKey_of_normalize hnormal)] at hname
              cases hname
              exact ⟨x, by simp, hnormal, by rw [hparse, haction]⟩
          · cases hstep)
        hfold
      obtain ⟨x, hx, hnormal, hparse⟩ := hsource key policy hget
      obtain ⟨entry, hentry, rfl⟩ := List.mem_map.mp hx
      exact ⟨exit, hchild, entry, hentry, hnormal, hparse⟩

/-! ## Hooks -/

/-- Facts about an event that was read. -/
def EventRead (event : Name × Node fold σ) : Prop :=
  DecodableName event.1 ∧ event.2.ValueNamesDecode ∧
    ∀ entry ∈ event.2.values.entries, entry.2.data.length ≤ valueCapLimit ∧
      bytesToWideString entry.2.data = .ok (entryText entry.2)

theorem wp_readHook_inv (event : String) (entries : List (String × String × UInt32))
    (out : List HookConfig) (marked : Std.ExtTreeSet String) :
    (entries.foldlM (readHook event) out).wp
      (fun hooks _ => hooks = out ++ entries.map fun entry => ⟨event, entry.1, entry.2.1⟩)
      (fun _ _ => True) marked := by
  induction entries generalizing out marked with
  | nil => simp
  | cons entry entries ih =>
      rw [List.foldlM_cons, Prog.wp_bind]
      simp only [readHook, Prog.wp_bind, Prog.wp_liftExcept]
      have hrest : ∀ marked' : Std.ExtTreeSet String,
          (entries.foldlM (readHook event) (out ++ [⟨event, entry.1, entry.2.1⟩])).wp
            (fun hooks _ => hooks = out ++ (entry :: entries).map fun entry =>
              (⟨event, entry.1, entry.2.1⟩ : HookConfig)) (fun _ _ => True) marked' := by
        intro marked'
        refine Prog.wp_mono _ ?_ (fun _ _ h => h) (ih _ marked')
        rintro hooks _ rfl
        simp
      cases validateHookComponent entry.1 "action" with
      | error e => trivial
      | ok u =>
          simp only
          split
          · exact hrest _
          · exact hrest _

theorem wp_readEvent_inv {events : Node fold (Node fold σ)}
    (entries : List (Name × Node fold σ)) (hsub : ∀ e ∈ entries, e ∈ events.subkeys.entries)
    (hnames : ∀ e ∈ entries, DecodableName e.1) (out : List HookConfig)
    (marked : Std.ExtTreeSet String) :
    ((entries.map fun entry => nameText entry.1).foldlM (readEvent events) out).wp
      (fun hooks _ => hooks = out ++ entries.flatMap storedActions ∧
        ∀ event ∈ entries, EventRead event) (fun _ _ => True) marked := by
  induction entries generalizing out marked with
  | nil => simp
  | cons event entries ih =>
      have hevent := hsub event (by simp)
      have hname := hnames event (by simp)
      have hchild : events.subkey? (nameText event.1) = some event.2 := by
        rw [Node.subkey?_eq, hname.toWide_text, Node.childAt,
          (Table.mem_entries_iff _ event.1 event.2).mp hevent]
        rfl
      rw [List.map_cons, List.foldlM_cons, Prog.wp_bind]
      unfold readEvent
      simp only [Prog.wp_bind, Prog.wp_liftExcept, hchild]
      cases validateHookComponent (nameText event.1) "event" with
      | error e => trivial
      | ok u =>
          simp only
          rcases henumerate : enumerateTypedStringValues event.2 with e | values
          · trivial
          · simp only
            obtain ⟨hdecode, hvalues, rfl⟩ := of_enumerateTypedStringValues henumerate
            refine Prog.wp_mono _ ?_ (fun _ _ h => h) (wp_readHook_inv _ _ out marked)
            rintro hooks marked' rfl
            refine Prog.wp_mono _ ?_ (fun _ _ h => h)
              (ih (fun e he => hsub e (by simp [he])) (fun e he => hnames e (by simp [he])) _ marked')
            rintro hooks marked'' ⟨rfl, hread⟩
            refine ⟨?_, ?_⟩
            · simp [storedActions, List.map_map, Function.comp_def]
            · intro other hother
              rcases List.mem_cons.mp hother with rfl | hrest
              · exact ⟨hname, hdecode, hvalues⟩
              · exact hread other hrest

/-- The hooks of a key that was read are the stored ones. -/
theorem wp_readHooks_inv {node : Params fold σ} (marked : Std.ExtTreeSet String) :
    (readHooks node).wp
      (fun hooks _ =>
        (∀ events, node.childAt (eventsKey fold) = some events → EventsDecode events) ∧
        (∀ k value, hooksAt node k = some value → value.data.length ≤ valueCapLimit) ∧
        ∀ hook ∈ hooks, HookStored node (hookIdentity fold hook) hook.command)
      (fun _ _ => True) marked := by
  unfold readHooks
  rw [Node.subkey?_eq, ← eventsKey]
  rcases hevents : node.childAt (eventsKey fold) with _ | events
  · refine ⟨by simp, fun k value hvalue => ?_, by simp⟩
    rw [hooksAt, hevents] at hvalue
    cases hvalue
  · simp only [Prog.wp_bind, Prog.wp_liftExcept]
    rcases hnames : subkeyNames events with e | names
    · trivial
    · have hdecodes : ∀ entry ∈ events.subkeys.entries, DecodableName entry.1 := by
        intro entry hentry
        obtain ⟨index, x, -, hx⟩ := exists_of_readAll hnames entry hentry
        exact decodableName_of_readName hx
      have hlist : names = events.subkeys.entries.map fun entry => nameText entry.1 := by
        have hok : subkeyNames events =
            .ok (events.subkeys.entries.map fun entry => nameText entry.1) :=
          readAll_of_ok _ _ fun entry hentry _ => (hdecodes entry hentry).readName_eq _
        rw [hnames] at hok
        exact Except.ok.inj hok
      simp only
      rw [hlist]
      refine Prog.wp_mono _ ?_ (fun _ _ h => h)
        (wp_readEvent_inv events.subkeys.entries (fun _ h => h) hdecodes [] marked)
      rintro hooks marked' ⟨rfl, hread⟩
      refine ⟨fun other hother => ?_, fun k value hvalue => ?_, fun hook hhook => ?_⟩
      · cases hother
        exact fun entry hentry => ⟨(hread entry hentry).1, (hread entry hentry).2.1⟩
      · rw [hooksAt, hevents, Option.bind_some, hookAt, Option.bind_eq_some_iff] at hvalue
        obtain ⟨child, hchild, hvalue⟩ := hvalue
        obtain ⟨event, hevent, rfl⟩ := Option.map_eq_some_iff.mp hchild
        obtain ⟨entry, hentry, rfl⟩ := Option.map_eq_some_iff.mp hvalue
        exact ((hread event (List.mem_of_find?_eq_some hevent)).2.2 entry
          (List.mem_of_find?_eq_some hentry)).1
      · rw [List.nil_append] at hhook
        obtain ⟨event, hevent, hhook⟩ := List.mem_flatMap.mp hhook
        obtain ⟨entry, hentry, rfl⟩ := List.mem_map.mp hhook
        obtain ⟨hname, hdecode, hvalues⟩ := hread event hevent
        refine ⟨entry.2, ?_, (hvalues entry hentry).2⟩
        rw [hookIdentity, hname.key_text, (hdecode entry hentry).key_text, hooksAt, hevents,
          Option.bind_some, hookAt, Node.childAt,
          (Table.mem_entries_iff _ event.1 event.2).mp hevent]
        change event.2.valueAt (fold.key entry.1) = _
        rw [Node.valueAt, (Table.mem_entries_iff _ entry.1 entry.2).mp hentry]
        rfl

/-! ## The configuration -/

theorem of_readTypedString {τ : Type} {node : Node fold τ} {name text : String} {kind : UInt32}
    (hread : readTypedString node name = .ok (text, kind)) :
    ∃ value, node.value? name = some value ∧ HoldsString value text := by
  obtain ⟨value, hquery, hread⟩ := Check.bind_eq_ok.mp hread
  have hvalue : node.value? name = some value := by
    unfold queryValueRaw at hquery
    split at hquery
    · rename_i found hfound
      cases hquery
      exact hfound
    · cases hquery
  by_cases hkind : value.kind ≠ regSz ∧ value.kind ≠ regExpandSz
  · rw [if_pos hkind] at hread
    cases hread
  rw [if_neg hkind] at hread
  obtain ⟨found, htext, hread⟩ := Check.bind_eq_ok.mp hread
  cases hread
  refine ⟨value, hvalue, ?_, htext⟩
  by_contra hneither
  exact hkind (not_or.mp hneither)

theorem readTypedString_of_holds {τ : Type} {node : Node fold τ} {name text : String}
    {value : RegValue} (hvalue : node.value? name = some value)
    (hholds : HoldsString value text) : readTypedString node name = .ok (text, value.kind) := by
  have hkind : ¬ (value.kind ≠ regSz ∧ value.kind ≠ regExpandSz) := by
    rintro ⟨hsz, hexpand⟩
    exact hholds.1.elim hsz hexpand
  rw [readTypedString, queryValueRaw_of_some hvalue]
  refine Check.bind_eq_ok.mpr ⟨value, rfl, ?_⟩
  rw [if_neg hkind]
  exact Check.bind_eq_ok.mpr ⟨text, hholds.2, rfl⟩

theorem bytesToWideString_ne_notFound (bytes : List UInt8) (context : String) :
    bytesToWideString bytes ≠ .error (.notFound context) := by
  have htext : ∀ words, decodeText "REG_SZ value" words ≠ .error (.notFound context) := by
    intro words
    unfold decodeText
    split <;> simp
  unfold bytesToWideString
  split
  · simp
  · split
    · simp
    · dsimp only
      split
      · split
        · simp
        · exact htext _
      · exact htext _

/-- Only a value that is absent is reported as such. -/
theorem value?_eq_none_of_readTypedString {τ : Type} {node : Node fold τ} {name context : String}
    (hread : readTypedString node name = .error (.notFound context)) : node.value? name = none := by
  rcases hvalue : node.value? name with _ | value
  · rfl
  · rw [readTypedString, queryValueRaw_of_some hvalue] at hread
    by_cases hkind : value.kind ≠ regSz ∧ value.kind ≠ regExpandSz
    · simp only [bind, Except.bind, if_pos hkind] at hread
      cases hread
    · simp only [bind, Except.bind, if_neg hkind] at hread
      rcases htext : bytesToWideString value.data with e | text
      · rw [htext] at hread
        cases hread
        exact absurd htext (bytesToWideString_ne_notFound _ _)
      · rw [htext] at hread
        cases hread

theorem wp_optConfigString_inv {τ : Type} {node : Node fold τ} {name : String}
    {Q : Option String → Std.ExtTreeSet String → Prop} {marked : Std.ExtTreeSet String}
    (hnone : node.value? name = none → Q none marked)
    (hsome : ∀ text value marked', node.value? name = some value → HoldsString value text →
      Q (some text) marked') :
    (optConfigString node name).wp Q (fun _ _ => True) marked := by
  unfold optConfigString
  rw [Prog.wp_bind, Prog.wp_liftExcept]
  rcases hread : readTypedString node name with e | ⟨text, kind⟩
  · cases e with
    | notFound context => exact hnone (value?_eq_none_of_readTypedString hread)
    | _ => trivial
  · obtain ⟨value, hvalue, hholds⟩ := of_readTypedString hread
    simp only [optional]
    split
    · exact hsome text value _ hvalue hholds
    · exact hsome text value _ hvalue hholds

/-- The text of a stored string value, if there is one. -/
def stringAt {τ : Type} (node : Node fold τ) (name : String) : Option String :=
  (node.value? name).map entryText

theorem wp_optConfigString_stringAt {τ : Type} {node : Node fold τ} {name : String}
    {Q : Option String → Std.ExtTreeSet String → Prop} {marked : Std.ExtTreeSet String}
    (hpost : ∀ marked', Q (stringAt node name) marked') :
    (optConfigString node name).wp Q (fun _ _ => True) marked := by
  refine wp_optConfigString_inv (fun hvalue => ?_) fun text value marked' hvalue hholds => ?_
  · have hat : stringAt node name = none := by
      rw [stringAt, hvalue]
      rfl
    rw [← hat]
    exact hpost marked
  · have hat : stringAt node name = some text := by
      rw [stringAt, hvalue, Option.map_some, entryText, hholds.2]
    rw [← hat]
    exact hpost marked'

/-- A check that reads one more value and forgets it. -/
theorem wp_skip {α β : Type} (m : ReadM α) {f : α → ReadM β}
    {Q : β → Std.ExtTreeSet String → Prop} {s : Std.ExtTreeSet String}
    (hnext : ∀ a s', (f a).wp Q (fun _ _ => True) s') :
    (m >>= f).wp Q (fun _ _ => True) s := by
  rw [Prog.wp_bind]
  exact Prog.wp_of_forall m hnext fun _ _ => trivial

theorem wp_readIoStream_inv {node : Params fold σ} {base : String}
    {Q : Option IoStream → Std.ExtTreeSet String → Prop} {marked : Std.ExtTreeSet String}
    (hpost : ∀ stream marked', stream.map (·.path) =
      (stringAt node base).filter (!·.isEmpty) → Q stream marked') :
    (readIoStream node base).wp Q (fun _ _ => True) marked := by
  unfold readIoStream
  rw [Prog.wp_bind]
  refine wp_optConfigString_stringAt fun marked' => ?_
  rcases hat : stringAt node base with _ | path
  · exact hpost none marked' (by rw [hat]; rfl)
  · simp only
    cases hempty : path.isEmpty with
    | true =>
        rw [if_pos rfl]
        exact hpost none marked' (by rw [hat]; simp [Option.filter, hempty])
    | false =>
        rw [if_neg Bool.false_ne_true]
        iterate 4 refine wp_skip _ fun _ _ => ?_
        exact hpost _ _ (by rw [hat]; simp [Option.filter, hempty])

/-- What a successful read of the fields says about the two subtrees. -/
theorem wp_readFields_inv {node : Params fold σ} (app : String)
    (marked : Std.ExtTreeSet String) :
    (readFields node app).wp
      (fun cfg _ => NamesDecode node ∧
        (∀ (key : String) (policy : ExitActionPolicy), cfg.exitActions[key]? = some policy →
          ExitStored node key policy.action) ∧
        (∀ k value, hooksAt node k = some value → value.data.length ≤ valueCapLimit) ∧
        ∀ hook ∈ cfg.hooks, HookStored node (hookIdentity fold hook) hook.command)
      (fun _ _ => True) marked := by
  unfold readFields
  -- the two halves of the rotation threshold, then the exit actions
  iterate 2 refine wp_skip _ fun _ _ => ?_
  rw [Prog.wp_bind, Prog.wp_liftExcept]
  rcases hexits : readExitActions node with e | exits
  · trivial
  obtain ⟨hdecode, hstored⟩ := exitStored_of_read hexits
  -- the other scalar fields, then the hooks
  iterate 21 refine wp_skip _ fun _ _ => ?_
  rw [Prog.wp_bind]
  refine Prog.wp_mono _ ?_ (fun _ _ h => h) (wp_readHooks_inv _)
  rintro hooks marked' ⟨hevents, hsizes, hhooks⟩
  exact ⟨⟨hdecode, hevents⟩, hstored, hsizes, hhooks⟩

/-- The strings of a configuration that was read are the stored ones. -/
structure StringsRead (node : Params fold σ) (cfg : ManagedApplicationConfig) : Prop where
  application : cfg.application = stringAt node application
  appParameters : cfg.appParameters = stringAt node appParameters
  appDirectory : cfg.appDirectory = stringAt node appDirectory
  stdout : cfg.io.stdout.map (·.path) = (stringAt node appStdout).filter (!·.isEmpty)
  stderr : cfg.io.stderr.map (·.path) = (stringAt node appStderr).filter (!·.isEmpty)

theorem wp_readFields_strings {node : Params fold σ} {app : String}
    (happ : stringAt node application = some app) (marked : Std.ExtTreeSet String) :
    (readFields node app).wp (fun cfg _ => StringsRead node cfg) (fun _ _ => True) marked := by
  unfold readFields
  iterate 3 refine wp_skip _ fun _ _ => ?_
  rw [Prog.wp_bind]
  refine wp_optConfigString_stringAt fun _ => ?_
  rw [Prog.wp_bind]
  refine wp_optConfigString_stringAt fun _ => ?_
  iterate 12 refine wp_skip _ fun _ _ => ?_
  rw [Prog.wp_bind]
  refine wp_readIoStream_inv fun stdout _ hstdout => ?_
  rw [Prog.wp_bind]
  refine wp_readIoStream_inv fun stderr _ hstderr => ?_
  iterate 6 refine wp_skip _ fun _ _ => ?_
  exact ⟨happ.symm, rfl, rfl, hstdout, hstderr⟩

/-- What holds of every configuration that the reader assembles holds of the one
it returns. -/
theorem of_readManagedFromKey {node : Params fold σ} {service : String}
    {cfg : ManagedApplicationConfig} (P : ManagedApplicationConfig → Prop)
    (hfields : ∀ app value marked, node.value? application = some value →
      HoldsString value app → (Text.trim app).isEmpty = false →
      (readFields node app).wp (fun found marked' =>
        P { found with expandableStrings := marked' }) (fun _ _ => True) marked)
    (hread : readManagedFromKey node service = .ok (some cfg)) : P cfg := by
  have hinv : (readManaged node service).wp
      (fun read marked => ∀ found, read = some found →
        P { found with expandableStrings := marked }) (fun _ _ => True) ∅ := by
    unfold readManaged
    rw [Prog.wp_bind]
    refine wp_optConfigString_inv (by simp) fun app value marked hvalue hholds => ?_
    simp only
    split
    · trivial
    rename_i hblank
    rw [Prog.wp_map]
    refine Prog.wp_mono _ ?_ (fun _ _ h => h)
      (hfields app value marked hvalue hholds (by simpa using hblank))
    rintro found marked' hfound _ ⟨⟩
    exact hfound
  unfold readManagedFromKey at hread
  rcases hrun : (readManaged node service).exec ∅ with ⟨outcome, marked⟩
  rw [hrun] at hread
  cases outcome with
  | error e => cases hread
  | ok found =>
      simp only [Except.ok.injEq, Option.map_eq_some_iff] at hread
      obtain ⟨base, hfound, rfl⟩ := hread
      exact Prog.wp_ok _ hinv hrun base hfound

/-- A key that reads as a configuration holds it. -/
theorem readsAs_of_read {node : Params fold σ} {service : String}
    {cfg : ManagedApplicationConfig} (hread : readManagedFromKey node service = .ok (some cfg)) :
    ReadsAs node cfg := by
  refine of_readManagedFromKey (ReadsAs node) (fun app value marked hvalue hholds hblank => ?_)
    hread
  refine Prog.wp_mono _ ?_ (fun _ _ h => h) (wp_readFields_inv app marked)
  rintro found marked' ⟨hnames, hexits, hsizes, hhooks⟩
  refine ⟨⟨value, app, hvalue, hholds, hblank⟩, hnames, hexits, ?_, hsizes⟩
  rintro k command ⟨hook, hhook, rfl, rfl⟩
  exact hhooks hook hhook

theorem stringsRead_of_read {node : Params fold σ} {service : String}
    {cfg : ManagedApplicationConfig} (hread : readManagedFromKey node service = .ok (some cfg)) :
    StringsRead node cfg := by
  refine of_readManagedFromKey (StringsRead node) (fun app value marked hvalue hholds _ => ?_)
    hread
  have happ : stringAt node application = some app := by
    rw [stringAt, hvalue, Option.map_some, entryText, hholds.2]
  refine Prog.wp_mono _ ?_ (fun _ _ h => h) (wp_readFields_strings happ marked)
  rintro found marked' ⟨h₁, h₂, h₃, h₄, h₅⟩
  exact ⟨h₁, h₂, h₃, h₄, h₅⟩

end Ngsm.Registry
