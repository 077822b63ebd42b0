/-
# Reconciling the hooks

Hooks live two levels deep: a subkey for each event and a value for each action.
Seen as one map from pairs of names they follow the same two phases as every
other part of a write.  What is special is that a stale event goes as a whole
subtree, and that a cut-short removal of a subtree may leave it half way; its
values are still there then.
-/

import Ngsm.Registry.Reconcile

namespace Ngsm.Registry

open Ngsm.Lib Ngsm.Core NssmKeys

variable {fold : NameFold} {σ : Type}

/-! ## Events as a map -/

/-- The command value of an event and an action. -/
def hookAt (events : Node fold (Node fold σ)) (k : Name × Name) : Option RegValue :=
  (events.childAt k.1).bind fun event => event.valueAt k.2

/-- Every event name and every action name decodes. -/
def EventsDecode (events : Node fold (Node fold σ)) : Prop :=
  ∀ entry ∈ events.subkeys.entries, DecodableName entry.1 ∧ entry.2.ValueNamesDecode

theorem hookAt_setSubkey (events : Node fold (Node fold σ)) (name : String)
    (event : Node fold σ) (k : Name × Name) :
    hookAt (events.setSubkey name event) k =
      if k.1 = fold.key (toWide name) then event.valueAt k.2 else hookAt events k := by
  unfold hookAt
  rw [Node.childAt_setSubkey]
  split <;> rfl

theorem hookAt_eraseSubkey (events : Node fold (Node fold σ)) (name : String)
    (k : Name × Name) :
    hookAt (events.eraseSubkey name) k =
      if k.1 = fold.key (toWide name) then none else hookAt events k := by
  unfold hookAt
  rw [Node.childAt_eraseSubkey]
  split <;> rfl

theorem EventsDecode.setSubkey {events : Node fold (Node fold σ)} (h : EventsDecode events)
    {name : String} {event : Node fold σ} (hname : DecodableName (toWide name))
    (hevent : event.ValueNamesDecode) : EventsDecode (events.setSubkey name event) := by
  intro entry hentry
  rcases Table.mem_entries_insert hentry with hold | ⟨hvalue, hnew | ⟨b, hold⟩⟩
  · exact h entry hold
  · rw [hvalue, hnew]
    exact ⟨hname, hevent⟩
  · rw [hvalue]
    exact ⟨(h (entry.1, b) hold).1, hevent⟩

theorem EventsDecode.eraseSubkey {events : Node fold (Node fold σ)} (h : EventsDecode events)
    (name : String) : EventsDecode (events.eraseSubkey name) :=
  fun entry hentry => h entry (Table.mem_of_mem_filter hentry)

theorem EventsDecode.child {events : Node fold (Node fold σ)} (h : EventsDecode events)
    {k : Name} {event : Node fold σ} (hchild : events.childAt k = some event) :
    event.ValueNamesDecode := by
  obtain ⟨⟨stored, child⟩, hlookup, rfl⟩ := Option.map_eq_some_iff.mp hchild
  exact (h _ (List.mem_of_find?_eq_some hlookup)).2

/-! ## Wanted hooks -/

/-- The commands a configuration wants. -/
def wantedHooks (fold : NameFold) (cfg : ManagedApplicationConfig) (k : Name × Name) :
    Option RegValue :=
  (cfg.hooks.find? fun hook => hookIdentity fold hook = k).map (hookValue fold cfg)

theorem windowsNameKey_append (s t : String) :
    windowsNameKey fold (s ++ t) = windowsNameKey fold s ++ windowsNameKey fold t := by
  rw [windowsNameKey, Utf16.encode_append, key_append]
  rfl

/-- The identity of a hook's expansion mark follows from the identity of the
hook. -/
theorem windowsNameKey_hookExpansionKey (event action : String) :
    windowsNameKey fold (ManagedApplicationConfig.hookExpansionKey event action) =
      windowsNameKey fold "AppEvents\\" ++ windowsNameKey fold event ++
        windowsNameKey fold "\\" ++ windowsNameKey fold action := by
  simp only [ManagedApplicationConfig.hookExpansionKey, windowsNameKey_append]

theorem stringKind_congr {cfg : ManagedApplicationConfig} {name name' : String}
    (hsame : windowsNameKey fold name = windowsNameKey fold name') :
    stringKind fold cfg name = stringKind fold cfg name' := by
  rw [stringKind, stringKind, registryIsExpandable, registryIsExpandable, hsame]

theorem wantedHooks_eq_none_iff (cfg : ManagedApplicationConfig) (k : Name × Name) :
    wantedHooks fold cfg k = none ↔ ∀ hook ∈ cfg.hooks, hookIdentity fold hook ≠ k := by
  simp [wantedHooks, List.find?_eq_none]

section Accepted

variable {cfg : ManagedApplicationConfig} {exits : ExitActions}
  (haccepted : Accepted fold cfg exits)

include haccepted

theorem hookValue_congr {hook other : HookConfig} (hhook : hook ∈ cfg.hooks)
    (hother : other ∈ cfg.hooks) (hsame : hookIdentity fold hook = hookIdentity fold other) :
    hookValue fold cfg hook = hookValue fold cfg other := by
  have hevent : windowsNameKey fold hook.event = windowsNameKey fold other.event :=
    congrArg Prod.fst hsame
  have haction : windowsNameKey fold hook.action = windowsNameKey fold other.action :=
    congrArg Prod.snd hsame
  have hkind : stringKind fold cfg
        (ManagedApplicationConfig.hookExpansionKey hook.event hook.action) =
      stringKind fold cfg
        (ManagedApplicationConfig.hookExpansionKey other.event other.action) := by
    apply stringKind_congr
    rw [windowsNameKey_hookExpansionKey, windowsNameKey_hookExpansionKey, hevent, haction]
  rw [hookValue, hookValue, hkind, haccepted.hookAgree hook hhook other hother hsame]

theorem wantedHooks_of_mem {hook : HookConfig} (hhook : hook ∈ cfg.hooks) :
    wantedHooks fold cfg (hookIdentity fold hook) = some (hookValue fold cfg hook) := by
  unfold wantedHooks
  rcases hfind : cfg.hooks.find? fun other => hookIdentity fold other = hookIdentity fold hook
    with _ | other
  · have hnone := List.find?_eq_none.mp hfind hook hhook
    simp at hnone
  · have hsame : hookIdentity fold other = hookIdentity fold hook := by
      simpa using List.find?_some hfind
    rw [Option.map_some,
      hookValue_congr haccepted (List.mem_of_find?_eq_some hfind) hhook hsame]

omit haccepted in
theorem noNul_of_hookComponent {name kind : String}
    (hname : validateHookComponent name kind = .ok ()) :
    Text.contains name '\x00' = false := by
  obtain ⟨-, -, hchars⟩ := (validateHookComponent_ok_iff name kind).mp hname
  rw [← Bool.not_eq_true, Text.contains, List.contains_iff_mem]
  intro hnul
  have hcontrol := (hchars _ hnul).2.2
  exact absurd hcontrol (by decide)

omit haccepted in
theorem decodable_of_hookComponent {name kind : String}
    (hname : validateHookComponent name kind = .ok ()) : DecodableName (toWide name) := by
  have hnul := noNul_of_hookComponent hname
  rw [toWide_of_noNul hnul]
  refine decodableName_encode hnul ?_
  obtain ⟨-, hlength, -⟩ := (validateHookComponent_ok_iff name kind).mp hname
  unfold nameCapLimit
  omega

theorem hookCommand_noNul {hook : HookConfig} (hhook : hook ∈ cfg.hooks) :
    Text.contains hook.command '\x00' = false := by
  refine haccepted.noNul
    ("AppEvents\\" ++ hook.event ++ "\\" ++ hook.action ++ " (command)", hook.command) ?_
  simp only [registryStrings, List.mem_append, List.mem_flatMap]
  exact .inr ⟨hook, hhook, by simp⟩

/-! ## Writing the hooks -/

/-- One hook: its event exists afterwards and holds its command. -/
theorem runs_writeHook {hook : HookConfig} (hhook : hook ∈ cfg.hooks)
    {events : Node fold (Node fold σ)} {Q : Unit → Node fold (Node fold σ) → Prop}
    {R : Node fold (Node fold σ) → Prop} (hdecode : EventsDecode events)
    (hcut : ∀ events', EventsDecode events' → (∀ k, hookAt events' k = hookAt events k) →
      R events')
    (hpost : ∀ events', EventsDecode events' →
      (∀ k, hookAt events' k =
        if k = hookIdentity fold hook then some (hookValue fold cfg hook)
        else hookAt events k) → Q () events') :
    Runs (writeHook cfg hook) events Q R := by
  have hevent := haccepted.hookEvent hook hhook
  have haction := haccepted.hookAction hook hhook
  have hname := decodable_of_hookComponent hevent
  have hkey : fold.key (toWide hook.event) = windowsNameKey fold hook.event :=
    key_toWide (noNul_of_hookComponent hevent)
  -- after the event key is there, no hook has changed yet
  let Created : Node fold (Node fold σ) → Prop := fun events' =>
    EventsDecode events' ∧ (∀ k, hookAt events' k = hookAt events k) ∧
      ∃ event, events'.subkey? hook.event = some event
  refine Runs.bind (M := fun _ => Created) (Runs.createSubkeyUnder
    (hcut events hdecode fun _ => rfl) ?_ ?_) ?_
  · intro event hpresent
    exact ⟨hdecode, fun _ => rfl, event, hpresent⟩
  · intro habsent
    refine ⟨hdecode.setSubkey hname (by intro entry hentry; cases hentry), fun k => ?_, ?_⟩
    · rw [hookAt_setSubkey]
      split
      · rename_i hsame
        rw [Node.subkey?_eq] at habsent
        rw [hookAt, hsame, habsent]
        rfl
      · rfl
    · refine ⟨.empty, ?_⟩
      rw [Node.subkey?_eq, Node.childAt_setSubkey, if_pos rfl]
  · rintro _ events' ⟨hdecode', hsame, event, hpresent⟩
    have hchild : events'.childAt (fold.key (toWide hook.event)) = some event := hpresent
    have hnames := hdecode'.child hchild
    have hview : ∀ (event' : Node fold σ) (k : Name × Name),
        hookAt (events'.setSubkey hook.event event') k =
          if k.1 = windowsNameKey fold hook.event then event'.valueAt k.2
          else hookAt events k := by
      intro event' k
      rw [hookAt_setSubkey, hkey, hsame]
    refine Runs.inSubkey hpresent (runs_writeStringTyped (hookCommand_noNul haccepted hhook) ?_ ?_)
    · refine hcut _ (hdecode'.setSubkey hname hnames) fun k => ?_
      rw [hview, ← hsame]
      split
      · rename_i hk
        rw [hookAt, hk, ← hkey, hchild]
        rfl
      · rfl
    · refine hpost _ (hdecode'.setSubkey hname
        (hnames.setValue (decodable_of_hookComponent haction))) fun k => ?_
      rw [hview, Node.valueAt_setValue, key_toWide (noNul_of_hookComponent haction)]
      by_cases hk : k = hookIdentity fold hook
      · rw [if_pos hk, hk]
        simp only [hookIdentity, if_true]
        rfl
      · rw [if_neg hk]
        split
        · rename_i hfirst
          have hsecond : k.2 ≠ windowsNameKey fold hook.action :=
            fun hsecond => hk (Prod.ext hfirst hsecond)
          rw [if_neg hsecond, ← hsame, hookAt, hfirst, ← hkey, hchild]
          rfl
        · rfl

end Accepted

/-! ## Removing stale events and actions -/

theorem wantedActions_eq_none_iff (hooks : List HookConfig) (k : Name) :
    wantedActions fold hooks k = none ↔
      ∀ hook ∈ hooks, windowsNameKey fold hook.event ≠ k := by
  simp [wantedActions]

/-- Under a wanted event the actions kept are those some hook wants. -/
theorem contains_of_wantedActions {cfg : ManagedApplicationConfig} {k : Name}
    {actions : List Name} (hactions : wantedActions fold cfg.hooks k = some actions) (ka : Name) :
    actions.contains ka = (wantedHooks fold cfg (k, ka)).isSome := by
  have hlist : actions = (cfg.hooks.filter fun hook => windowsNameKey fold hook.event = k).map
      fun hook => windowsNameKey fold hook.action := by
    simp only [wantedActions] at hactions
    split at hactions
    · cases hactions
    · exact (Option.some.inj hactions).symm
  rw [Bool.eq_iff_iff, List.contains_iff_mem, hlist, Option.isSome_iff_ne_none, ne_eq,
    wantedHooks_eq_none_iff]
  simp only [List.mem_map, List.mem_filter, decide_eq_true_eq, not_forall, not_not, hookIdentity,
    Prod.mk.injEq]
  constructor
  · rintro ⟨hook, ⟨hhook, hevent⟩, haction⟩
    exact ⟨hook, hhook, hevent, haction⟩
  · rintro ⟨hook, hhook, hevent, haction⟩
    exact ⟨hook, ⟨hhook, hevent⟩, haction⟩

/-- `events'` is `events` after some of the hooks that are not wanted are gone. -/
structure EventsPruned (cfg : ManagedApplicationConfig)
    (events events' : Node fold (Node fold σ)) : Prop where
  decode : EventsDecode events'
  names : ∀ k entry', events'.subkeys.lookup k = some entry' →
    ∃ entry, events.subkeys.lookup k = some entry ∧ entry.1 = entry'.1
  hooks : ∀ k, hookAt events' k = hookAt events k ∨
    (hookAt events' k = none ∧ wantedHooks fold cfg k = none)

/-- Nothing stale is left under an event name. -/
structure EventSettled (cfg : ManagedApplicationConfig) (events : Node fold (Node fold σ))
    (k : Name) : Prop where
  event : ∀ event, events.childAt k = some event →
    ∃ hook ∈ cfg.hooks, windowsNameKey fold hook.event = k
  actions : ∀ ka value, hookAt events (k, ka) = some value →
    (wantedHooks fold cfg (k, ka)).isSome = true

variable {cfg : ManagedApplicationConfig} {events events' : Node fold (Node fold σ)}

/-- Replacing an event that is there by a pruned one. -/
theorem EventsPruned.setSubkey (h : EventsPruned cfg events events') {name : String}
    {event event' : Node fold σ} (hpresent : events'.subkey? name = some event)
    (hdecode : event'.ValueNamesDecode)
    (hvalues : ∀ ka, event'.valueAt ka = event.valueAt ka ∨
      (event'.valueAt ka = none ∧ wantedHooks fold cfg (fold.key (toWide name), ka) = none)) :
    EventsPruned cfg events (events'.setSubkey name event') := by
  obtain ⟨⟨stored, child⟩, hlookup, rfl⟩ := Option.map_eq_some_iff.mp hpresent
  have hview : ∀ ka, hookAt events' (fold.key (toWide name), ka) = child.valueAt ka := by
    intro ka
    rw [hookAt, Node.childAt, hlookup]
    rfl
  refine ⟨?_, ?_, ?_⟩
  · intro entry hentry
    rcases Table.mem_entries_insert hentry with hold | ⟨hvalue, hnew | ⟨b, hold⟩⟩
    · exact h.decode entry hold
    · -- the event keeps its stored name, so the new name is never used
      rw [Table.mem_entries_iff _ entry.1 entry.2] at hentry
      simp only [Node.setSubkey, Table.lookup_insert, hnew, hlookup, if_true] at hentry
      have hstored : stored = toWide name := congrArg Prod.fst (Option.some.inj hentry)
      rw [hvalue, hnew, ← hstored]
      exact ⟨(h.decode _ (List.mem_of_find?_eq_some hlookup)).1, hdecode⟩
    · rw [hvalue]
      exact ⟨(h.decode (entry.1, b) hold).1, hdecode⟩
  · intro k entry' hentry'
    simp only [Node.setSubkey, Table.lookup_insert] at hentry'
    split at hentry'
    · rename_i hk
      subst hk
      rw [hlookup] at hentry'
      cases hentry'
      exact h.names _ (stored, child) hlookup
    · exact h.names k entry' hentry'
  · rintro ⟨ke, ka⟩
    rw [hookAt_setSubkey]
    split
    · rename_i hk
      simp only at hk
      subst hk
      rcases hvalues ka with hkept | ⟨hgone, hunwanted⟩
      · rw [hkept, ← hview]
        exact h.hooks _
      · exact .inr ⟨hgone, hunwanted⟩
    · exact h.hooks (ke, ka)

theorem EventsPruned.eraseSubkey (h : EventsPruned cfg events events') {name : String}
    (hunwanted : ∀ hook ∈ cfg.hooks, windowsNameKey fold hook.event ≠ fold.key (toWide name)) :
    EventsPruned cfg events (events'.eraseSubkey name) := by
  refine ⟨h.decode.eraseSubkey name, ?_, ?_⟩
  · intro k entry' hentry'
    simp only [Node.eraseSubkey, Table.lookup_erase] at hentry'
    split at hentry'
    · cases hentry'
    · exact h.names k entry' hentry'
  · rintro ⟨ke, ka⟩
    rw [hookAt_eraseSubkey]
    split
    · rename_i hk
      refine .inr ⟨rfl, ?_⟩
      rw [wantedHooks_eq_none_iff]
      intro hook hhook hidentity
      exact hunwanted hook hhook ((congrArg Prod.fst hidentity).trans hk)
    · exact h.hooks (ke, ka)

/-- One round over the existing events. -/
theorem runs_reconcileEvent {entry : Name × Node fold σ} (hname : DecodableName entry.1)
    (hpruned : EventsPruned cfg events events')
    {Q : Unit → Node fold (Node fold σ) → Prop} {R : Node fold (Node fold σ) → Prop}
    (hcut : ∀ next, EventsPruned cfg events next → R next)
    (hpost : ∀ next, EventsPruned cfg events next →
      EventSettled cfg next (fold.key entry.1) →
      (∀ k, k ≠ fold.key entry.1 → next.childAt k = events'.childAt k) → Q () next) :
    Runs (reconcileEvent cfg.hooks (nameText entry.1)) events' Q R := by
  have hwide := hname.toWide_text
  unfold reconcileEvent
  rw [hname.key_text]
  split
  · rename_i hnone
    rw [wantedActions_eq_none_iff] at hnone
    refine Runs.deleteSubtree (fun fault => hcut _ ?_) (hpost _ ?_ ⟨?_, ?_⟩ fun k hk => ?_)
    · -- a cut-short removal has touched no value
      unfold cutSubtree
      split
      · rename_i event hpresent
        have hnames : event.ValueNamesDecode := hpruned.decode.child hpresent
        exact hpruned.setSubkey hpresent hnames fun ka => .inl rfl
      · exact hpruned
    · exact hpruned.eraseSubkey (by rwa [hwide])
    · intro event hevent
      rw [Node.childAt_eraseSubkey, hwide, if_pos rfl] at hevent
      cases hevent
    · intro ka value hvalue
      rw [hookAt_eraseSubkey, hwide, if_pos rfl] at hvalue
      cases hvalue
    · rw [Node.childAt_eraseSubkey, hwide, if_neg hk]
  · rename_i actions hactions
    have hwanted : ∃ hook ∈ cfg.hooks, windowsNameKey fold hook.event = fold.key entry.1 := by
      by_contra hnone
      have habsent := (wantedActions_eq_none_iff cfg.hooks (fold.key entry.1)).mpr
        fun hook hhook hsame => hnone ⟨hook, hhook, hsame⟩
      rw [hactions] at habsent
      cases habsent
    refine Runs.openSubkeyOr (hcut _ hpruned) (fun habsent => Runs.pure ?_)
      (fun event hpresent => Runs.inSubkey hpresent ?_)
    · refine hpost _ hpruned ⟨fun _ _ => hwanted, fun ka value hvalue => ?_⟩ fun _ _ => rfl
      rw [Node.subkey?_eq, hwide] at habsent
      rw [hookAt, habsent] at hvalue
      cases hvalue
    · have hdecode := hpruned.decode.child hpresent
      have hnext : ∀ next : Node fold σ,
          Pruned (fun name => actions.contains (windowsNameKey fold name)) event next →
          EventsPruned cfg events (events'.setSubkey (nameText entry.1) next) := by
        intro next hnext
        refine hpruned.setSubkey hpresent (hnext.namesIn hdecode) fun ka => ?_
        rcases hnext.lookup ka with hkept | ⟨hgone, hunwanted⟩
        · exact .inl (by rw [Node.valueAt, hkept]; rfl)
        · rcases hold : event.values.lookup ka with _ | old
          · exact .inl (by rw [Node.valueAt, Node.valueAt, hgone, hold])
          · refine .inr ⟨by rw [Node.valueAt, hgone]; rfl, ?_⟩
            have hdecodes : DecodableName old.1 := hdecode old (List.mem_of_find?_eq_some hold)
            have hdropped := hunwanted old hold
            simp only [hdecodes.key_text, Table.key_of_lookup hold] at hdropped
            rw [contains_of_wantedActions hactions] at hdropped
            simpa [hwide] using hdropped
      refine runs_pruneValues hdecode (fun next hpruned' => hcut _ (hnext next hpruned'))
        (fun next hpruned' hall => hpost _ (hnext next hpruned') ⟨fun _ _ => hwanted, ?_⟩ ?_)
      · intro ka value hvalue
        rw [hookAt_setSubkey, hwide, if_pos rfl] at hvalue
        obtain ⟨old, hlookup, -⟩ := Option.map_eq_some_iff.mp hvalue
        have hdecodes : DecodableName old.1 :=
          hpruned'.namesIn hdecode old (List.mem_of_find?_eq_some hlookup)
        have hkept := hall ka old hlookup
        simp only [hdecodes.key_text, Table.key_of_lookup hlookup] at hkept
        rwa [contains_of_wantedActions hactions] at hkept
      · intro k hk
        rw [Node.childAt_setSubkey, hwide, if_neg hk]

theorem EventSettled.congr {k : Name} (h : EventSettled cfg events k)
    (hchild : events'.childAt k = events.childAt k) : EventSettled cfg events' k := by
  refine ⟨fun event hevent => h.event event (by rwa [← hchild]), fun ka value hvalue => ?_⟩
  refine h.actions ka value ?_
  rw [hookAt] at hvalue ⊢
  rwa [← hchild]

/-- The program inside the events key: write all hooks, then go through the
events that exist. -/
theorem runs_hookEntries {exits : ExitActions} (haccepted : Accepted fold cfg exits)
    {Q : Unit → Node fold (Node fold σ) → Prop} {R : Node fold (Node fold σ) → Prop}
    (hdecode : EventsDecode events)
    (hcut : ∀ next, EventsDecode next →
      WriteFirst (hookAt events) (wantedHooks fold cfg) (hookAt next) → R next)
    (hpost : ∀ next, EventsDecode next → (∀ k, hookAt next k = wantedHooks fold cfg k) →
      (∀ k event, next.childAt k = some event →
        ∃ hook ∈ cfg.hooks, windowsNameKey fold hook.event = k) → Q () next) :
    Runs (do
      cfg.hooks.forM (writeHook cfg)
      let existing ← enumerateSubkeyNames
      existing.forM (reconcileEvent cfg.hooks))
      events Q R := by
  let I : List HookConfig → Node fold (Node fold σ) → Prop := fun done next =>
    EventsDecode next ∧
      WrittenUpTo (hookAt events) (wantedHooks fold cfg) (hookAt next)
        (done.map (hookIdentity fold))
  refine Runs.bind (M := fun _ => I cfg.hooks) (Runs.forM I ?_
    ⟨hdecode, WrittenUpTo.nil _ _⟩) ?_
  · rintro done hook rest hsplit next ⟨hnext, hwritten⟩
    have hhook : hook ∈ cfg.hooks := by simp [hsplit]
    refine runs_writeHook haccepted hhook hnext (fun after hafter hsame => ?_)
      (fun after hafter hset => ⟨hafter, ?_⟩)
    · exact hcut after hafter (.inl (hwritten.congr hsame).writing)
    · rw [List.map_append]
      exact hwritten.set (wantedHooks_of_mem haccepted hhook) hset
  · rintro _ written ⟨hdecode', hwritten⟩
    have hpruning : Pruning (hookAt events) (wantedHooks fold cfg) (hookAt written) := by
      refine hwritten.pruning fun k value hvalue => ?_
      obtain ⟨hook, hfind, -⟩ := Option.map_eq_some_iff.mp hvalue
      exact List.mem_map.mpr ⟨hook, List.mem_of_find?_eq_some hfind, by
        simpa using List.find?_some hfind⟩
    have hrefl : EventsPruned cfg written written :=
      ⟨hdecode', fun k entry hentry => ⟨entry, hentry, rfl⟩, fun k => .inl rfl⟩
    have hcut' : ∀ next, EventsPruned cfg written next → R next := fun next hnext =>
      hcut next hnext.decode (.inr (hpruning.erase hnext.hooks))
    refine Runs.bind (Runs.enumerateSubkeyNames
      (Q := fun names n =>
        names = written.subkeys.entries.map (fun entry => nameText entry.1) ∧ n = written)
      (fun entry hentry => (hdecode' entry hentry).1) (hcut' written hrefl) ⟨rfl, rfl⟩) ?_
    rintro names n ⟨rfl, rfl⟩
    -- the events gone through so far hold nothing stale
    let J : List String → Node fold (Node fold σ) → Prop := fun done next =>
      EventsPruned cfg n next ∧
        ∀ entry ∈ n.subkeys.entries, nameText entry.1 ∈ done →
          EventSettled cfg next (fold.key entry.1)
    refine Runs.mono (fun _ next hnext => ?_) (fun _ h => h)
      (Runs.forM J ?_ ⟨hrefl, by simp⟩)
    · obtain ⟨hpruned, hsettled⟩ := hnext
      have hevent : ∀ k event, next.childAt k = some event → EventSettled cfg next k := by
        intro k event hchild
        obtain ⟨entry', hlookup', -⟩ := Option.map_eq_some_iff.mp hchild
        obtain ⟨entry, hlookup, -⟩ := hpruned.names k entry' hlookup'
        have hmem := List.mem_of_find?_eq_some hlookup
        have hkey := Table.key_of_lookup hlookup
        rw [← hkey]
        exact hsettled entry hmem (List.mem_map.mpr ⟨entry, hmem, rfl⟩)
      refine hpost next hpruned.decode ((hpruning.erase hpruned.hooks).eq_wanted ?_) ?_
      · rintro ⟨ke, ka⟩ hunwanted
        rcases hvalue : hookAt next (ke, ka) with _ | value
        · rfl
        · rcases hchild : next.childAt ke with _ | event
          · rw [hookAt, hchild] at hvalue
            cases hvalue
          · have hwanted := (hevent ke event hchild).actions ka value hvalue
            rw [hunwanted] at hwanted
            cases hwanted
      · intro k event hchild
        exact (hevent k event hchild).event event hchild
    · rintro done name rest hsplit next ⟨hpruned, hsettled⟩
      obtain ⟨entry, hentry, rfl⟩ : ∃ entry ∈ n.subkeys.entries, nameText entry.1 = name := by
        have hmem : name ∈ n.subkeys.entries.map fun entry => nameText entry.1 := by
          rw [hsplit]
          simp
        simpa using hmem
      refine runs_reconcileEvent (hdecode' entry hentry).1 hpruned hcut'
        (fun after hafter hdone hothers => ⟨hafter, fun other hother hin => ?_⟩)
      by_cases hsame : fold.key other.1 = fold.key entry.1
      · rw [hsame]
        exact hdone
      · rcases List.mem_append.mp hin with hearlier | hlast
        · exact (hsettled other hother hearlier).congr (hothers _ hsame)
        · rw [List.mem_singleton] at hlast
          have hwords : other.1 = entry.1 := by
            rw [← (hdecode' other hother).1.encode_text, hlast,
              (hdecode' entry hentry).1.encode_text]
          exact absurd (by rw [hwords]) hsame

end Ngsm.Registry
