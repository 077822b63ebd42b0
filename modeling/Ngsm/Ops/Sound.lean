/-
# Changes that keep a configuration sound

A change of single values is described by what it may leave under each known name: the value
that was there, nothing, or a value that the full writer would have stored.  Such a change
keeps a readable configuration readable, and an accepted one accepted.  The subtrees are
not touched, and what the reader makes of them does not depend on the values read before.
-/

import Ngsm.Ops.Fields

namespace Ngsm.Ops

open Ngsm.Lib Ngsm.Core Ngsm.Registry NssmKeys

variable {fold : NameFold} {σ α β : Type}

/-! ## Readers and marks -/

/-- The reader does the same whatever is marked already: its outcome is fixed, and so are the
marks it adds. -/
def Uniform (m : ReadM α) : Prop :=
  ∃ outcome, ∃ added : List String, ∀ marked,
    m.exec marked = (outcome, added.foldl Std.ExtTreeSet.insert marked)

theorem uniform_pure (a : α) : Uniform (pure a : ReadM α) :=
  ⟨.ok a, [], fun _ => rfl⟩

theorem uniform_liftExcept (read : Result α) : Uniform (liftExcept read : ReadM α) := by
  refine ⟨read, [], fun marked => ?_⟩
  cases read <;> rfl

theorem uniform_mark (name : String) : Uniform (mark name) :=
  ⟨.ok (), [name], fun _ => rfl⟩

theorem uniform_bind {m : ReadM α} {f : α → ReadM β} (hm : Uniform m)
    (hf : ∀ a, Uniform (f a)) : Uniform (m >>= f) := by
  obtain ⟨outcome, added, hrun⟩ := hm
  cases outcome with
  | error e =>
      refine ⟨.error e, added, fun marked => ?_⟩
      rw [Prog.exec_bind, hrun]
  | ok a =>
      obtain ⟨outcome', added', hrun'⟩ := hf a
      refine ⟨outcome', added ++ added', fun marked => ?_⟩
      rw [Prog.exec_bind, hrun, List.foldl_append]
      exact hrun' _

theorem uniform_foldlM {f : β → α → ReadM β} (hf : ∀ b a, Uniform (f b a)) (entries : List α)
    (b : β) : Uniform (entries.foldlM f b) := by
  induction entries generalizing b with
  | nil => exact uniform_pure b
  | cons entry entries ih =>
      rw [List.foldlM_cons]
      exact uniform_bind (hf b entry) ih

theorem uniform_readHook (event : String) (out : List HookConfig)
    (entry : String × String × UInt32) : Uniform (readHook event out entry) := by
  unfold readHook
  refine uniform_bind (uniform_liftExcept _) fun _ => ?_
  split
  · exact uniform_bind (uniform_mark _) fun _ => uniform_pure _
  · exact uniform_pure _

theorem uniform_readEvent (events : Node fold (Node fold σ)) (out : List HookConfig)
    (event : String) : Uniform (readEvent events out event) := by
  unfold readEvent
  refine uniform_bind (uniform_liftExcept _) fun _ => ?_
  split
  · exact uniform_pure _
  · exact uniform_bind (uniform_liftExcept _) fun _ => uniform_foldlM (uniform_readHook event) _ _

/-- The hooks are read alike whatever strings were read before them. -/
theorem uniform_readHooks (node : Params fold σ) : Uniform (readHooks node) := by
  unfold readHooks
  split
  · exact uniform_pure _
  · exact uniform_bind (uniform_liftExcept _) fun _ => uniform_foldlM (uniform_readEvent _) _ _

theorem mem_foldl_insert {added : List String} {marked : Std.ExtTreeSet String} {m : String} :
    m ∈ added.foldl Std.ExtTreeSet.insert marked ↔ m ∈ marked ∨ m ∈ added := by
  induction added generalizing marked with
  | nil => simp
  | cons name added ih =>
      rw [List.foldl_cons, ih, Std.ExtTreeSet.mem_insert, List.mem_cons]
      simp only [Std.LawfulEqCmp.compare_eq_iff_eq]
      tauto

theorem mem_foldl_markIf {expandable : String → Bool} {names : List String}
    {marked : Std.ExtTreeSet String} {m : String} :
    m ∈ names.foldl (fun marked name => markIf (expandable name) name marked) marked ↔
      m ∈ marked ∨ (m ∈ names ∧ expandable m = true) := by
  induction names generalizing marked with
  | nil => simp
  | cons name names ih =>
      rw [List.foldl_cons, ih, mem_markIf, List.mem_cons]
      constructor
      · rintro ((⟨hname, rfl⟩ | hold) | ⟨hin, hm⟩)
        · exact .inr ⟨.inl rfl, hname⟩
        · exact .inl hold
        · exact .inr ⟨.inr hin, hm⟩
      · rintro (hold | ⟨rfl | hin, hm⟩)
        · exact .inl (.inr hold)
        · exact .inl (.inl ⟨hm, rfl⟩)
        · exact .inr ⟨hin, hm⟩

/-- The marks of the strings are the strings that are stored for expansion. -/
theorem mem_stringMarks {node : Params fold σ} {m : String} :
    m ∈ stringMarks node ↔ m ∈ expandableNames ∧ isExpandAt node m = true := by
  have hfold : stringMarks node = expandableNames.foldl
      (fun marked name => markIf (isExpandAt node name) name marked) ∅ := by
    simp only [stringMarks, fieldMarks, expandableNames, List.foldl_cons, List.foldl_nil,
      NssmKeys.application, appParameters, appDirectory, appAffinity, appStdin, appStdout,
      appStderr]
  rw [hfold, mem_foldl_markIf]
  simp

/-! ## What the preflight looks at -/

theorem validateManagedConfig_ok_iff {cfg : ManagedApplicationConfig} :
    validateManagedConfig fold cfg = .ok () ↔ ∃ exits, preflightConfig fold cfg = .ok exits := by
  unfold validateManagedConfig
  rcases preflightConfig fold cfg with e | exits
  · simp [Except.map]
  · simp [Except.map]

/-- The preflight, check by check. -/
structure Passes (fold : NameFold) (cfg : ManagedApplicationConfig) : Prop where
  application : requireApplication cfg = .ok ()
  marks : ∀ m ∈ cfg.expandableStrings, checkMark m = .ok ()
  noNul : ∀ entry ∈ registryStrings cfg, Text.contains entry.2 '\x00' = false
  environment : ∀ v ∈ cfg.environment, v ≠ ""
  environmentExtra : ∀ v ∈ cfg.environmentExtra, v ≠ ""
  hooks : ∃ seen, cfg.hooks.foldlM (checkHook fold) [] = .ok seen
  paths : ∀ entry ∈ configuredPaths cfg, validateRawPath cfg entry.1 entry.2 = .ok ()
  exits : ∃ exits, normalizedExitActions cfg = .ok exits

theorem checkNoNul_eq_ok {entry : String × String} :
    checkNoNul entry = .ok () ↔ Text.contains entry.2 '\x00' = false := by
  unfold checkNoNul
  split
  · rename_i hnul
    simp [hnul]
  · rename_i hclean
    simpa using hclean

theorem checkMulti_eq_ok {entry : String × List String} :
    checkMulti entry = .ok () ↔ ∀ v ∈ entry.2, v ≠ "" := by
  unfold checkMulti
  split
  · rename_i hempty
    simpa using hempty
  · rename_i hnone
    simp only [true_iff]
    intro v hv hempty
    exact hnone (List.any_eq_true.mpr ⟨v, hv, by simp [hempty]⟩)

theorem validateManagedConfig_iff_passes {cfg : ManagedApplicationConfig} :
    validateManagedConfig fold cfg = .ok () ↔ Passes fold cfg := by
  rw [validateManagedConfig_ok_iff]
  simp only [preflightConfig, precheckNoEmbeddedNuls, Check.bind_eq_ok]
  constructor
  · rintro ⟨exits, ⟨⟩, happ, ⟨⟩, hmarks, ⟨⟩, hnul, ⟨⟩, hmulti, seen, hhooks, ⟨⟩, hpaths, hexits⟩
    rw [Check.forM_eq_ok] at hmarks hnul hmulti hpaths
    exact {
      application := happ
      marks := fun m hm => hmarks m (Std.ExtTreeSet.mem_toList.mpr hm)
      noNul := fun entry hentry => checkNoNul_eq_ok.mp (hnul entry hentry)
      environment := checkMulti_eq_ok.mp (hmulti (appEnvironment, cfg.environment) (by simp))
      environmentExtra := checkMulti_eq_ok.mp
        (hmulti (appEnvironmentExtra, cfg.environmentExtra) (by simp))
      hooks := ⟨seen, hhooks⟩
      paths := hpaths
      exits := ⟨exits, hexits⟩ }
  · intro h
    obtain ⟨seen, hhooks⟩ := h.hooks
    obtain ⟨exits, hexits⟩ := h.exits
    refine ⟨exits, (), h.application, (), ?_, (), ?_, (), ?_, seen, hhooks, (), ?_, hexits⟩
    · rw [Check.forM_eq_ok]
      intro m hm
      exact h.marks m (Std.ExtTreeSet.mem_toList.mp hm)
    · rw [Check.forM_eq_ok]
      intro entry hentry
      exact checkNoNul_eq_ok.mpr (h.noNul entry hentry)
    · rw [Check.forM_eq_ok]
      simp only [List.forall_mem_cons, checkMulti_eq_ok]
      exact ⟨h.environment, h.environmentExtra, by simp⟩
    · rw [Check.forM_eq_ok]
      exact h.paths

/-! ## The strings of a key -/

theorem field_eq_some {read : Result α} {v : α} : field read = some v ↔ read = .ok v := by
  cases read with
  | error e => simp [field]
  | ok w => simp [field]

theorem noNul_of_textAt {node : Params fold σ} {name text : String} {kind : UInt32}
    (htext : textAt node name = some (text, kind)) : Text.contains text '\x00' = false := by
  rw [textAt, field_eq_some] at htext
  obtain ⟨value, -, -, hdecode⟩ := of_readTypedString htext
  exact noNul_of_bytesToWideString hdecode

theorem storable_of_listAt {node : Params fold σ} {name : String} {values : List String}
    (hlist : listAt node name = some values) : ∀ v ∈ values, StorableEntry v := by
  rw [listAt, field_eq_some, readMultiString, Check.bind_eq_ok] at hlist
  obtain ⟨value, -, hread⟩ := hlist
  by_cases hkind : value.kind ≠ regMultiSz
  · rw [if_pos hkind] at hread
    cases hread
  · rw [if_neg hkind] at hread
    exact storable_of_bytesToWideMulti hread

theorem storable_getD {node : Params fold σ} {name : String} :
    ∀ v ∈ (listAt node name).getD [], StorableEntry v := by
  rcases hlist : listAt node name with _ | values
  · simp
  · exact storable_of_listAt hlist

section

variable {node : Params fold σ} {exits : ExitActions} {hooks : List HookConfig}
  {marked : Std.ExtTreeSet String}

theorem mem_streamPath {base path : String} :
    path ∈ (streamAt node base).map (·.path) ↔
      (∃ kind, textAt node base = some (path, kind)) ∧ path ≠ "" := by
  unfold streamAt
  rcases textAt node base with _ | ⟨text, kind⟩
  · simp
  · by_cases hempty : text = ""
    · subst hempty
      simp [Option.filter]
    · have hkeep : text.isEmpty = false := by simpa using hempty
      simp only [Option.map_some, Option.filter, hkeep, Bool.not_false, if_true, Option.mem_def,
        Option.some.injEq, Prod.mk.injEq]
      constructor
      · rintro rfl
        exact ⟨⟨kind, rfl, rfl⟩, hempty⟩
      · rintro ⟨⟨-, htext, -⟩, -⟩
        exact htext

theorem mem_streamEntry {base name path : String} :
    (name, path) ∈ (streamAt node base).toList.map (fun s => (base, s.path)) ↔
      name = base ∧ (∃ kind, textAt node base = some (path, kind)) ∧ path ≠ "" := by
  rw [← mem_streamPath]
  simp only [List.mem_map, Option.mem_toList, Option.map_eq_some_iff, Option.mem_def,
    Prod.mk.injEq]
  constructor
  · rintro ⟨s, hs, rfl, rfl⟩
    exact ⟨rfl, s, hs, rfl⟩
  · rintro ⟨rfl, s, hs, rfl⟩
    exact ⟨s, hs, rfl, rfl⟩

theorem mem_textEntry {base name path : String} :
    (name, path) ∈ ((textAt node base).map Prod.fst).toList.map (fun text => (base, text)) ↔
      name = base ∧ ∃ kind, textAt node base = some (path, kind) := by
  simp only [List.mem_map, Option.mem_toList, Option.map_eq_some_iff, Prod.mk.injEq]
  constructor
  · rintro ⟨text, ⟨⟨_, kind⟩, hread, rfl⟩, rfl, rfl⟩
    exact ⟨rfl, kind, hread⟩
  · rintro ⟨rfl, kind, hread⟩
    exact ⟨path, ⟨(path, kind), hread, rfl⟩, rfl, rfl⟩

/-- The paths of a configuration are the stored paths. -/
theorem mem_configuredPaths {name path : String} :
    (name, path) ∈ configuredPaths (configAt node exits hooks marked) ↔
      isPathValue name = true ∧ (∃ kind, textAt node name = some (path, kind)) ∧
        (name = application ∨ path ≠ "") := by
  have hdirectory : (name, path) ∈ (((textAt node appDirectory).map Prod.fst).toList.filter
      (!·.isEmpty)).map (fun text => (appDirectory, text)) ↔
        name = appDirectory ∧ (∃ kind, textAt node appDirectory = some (path, kind)) ∧
          path ≠ "" := by
    rw [← and_assoc, ← mem_textEntry]
    simp only [List.mem_map, List.mem_filter, Bool.not_eq_true', String.isEmpty_eq_false_iff,
      Prod.mk.injEq]
    constructor
    · rintro ⟨text, ⟨htext, hnonempty⟩, rfl, rfl⟩
      exact ⟨⟨text, htext, rfl, rfl⟩, hnonempty⟩
    · rintro ⟨⟨text, htext, rfl, rfl⟩, hnonempty⟩
      exact ⟨text, ⟨htext, hnonempty⟩, rfl, rfl⟩
  have hsplit : (name, path) ∈ configuredPaths (configAt node exits hooks marked) ↔
      ((((name, path) ∈ ((textAt node application).map Prod.fst).toList.map
          (fun text => (application, text)) ∨
        (name, path) ∈ (((textAt node appDirectory).map Prod.fst).toList.filter
          (!·.isEmpty)).map (fun text => (appDirectory, text))) ∨
        (name, path) ∈ (streamAt node appStdin).toList.map (fun s => (appStdin, s.path))) ∨
        (name, path) ∈ (streamAt node appStdout).toList.map (fun s => (appStdout, s.path))) ∨
        (name, path) ∈ (streamAt node appStderr).toList.map (fun s => (appStderr, s.path)) := by
    simp only [configuredPaths, List.mem_append]
    rfl
  have hnames : isPathValue name = true ↔ name = application ∨ name = appDirectory ∨
      name = appStdin ∨ name = appStdout ∨ name = appStderr := by
    simp [isPathValue]
  rw [hsplit, hdirectory, mem_textEntry, mem_streamEntry, mem_streamEntry, mem_streamEntry, hnames]
  constructor
  · rintro ((((⟨rfl, htext⟩ | ⟨rfl, h⟩) | ⟨rfl, h⟩) | ⟨rfl, h⟩) | ⟨rfl, h⟩)
    · exact ⟨.inl rfl, htext, .inl rfl⟩
    · exact ⟨.inr (.inl rfl), h.1, .inr h.2⟩
    · exact ⟨.inr (.inr (.inl rfl)), h.1, .inr h.2⟩
    · exact ⟨.inr (.inr (.inr (.inl rfl))), h.1, .inr h.2⟩
    · exact ⟨.inr (.inr (.inr (.inr rfl))), h.1, .inr h.2⟩
  · rintro ⟨hname, htext, hkept⟩
    by_cases happ : name = application
    · subst happ
      exact .inl (.inl (.inl (.inl ⟨rfl, htext⟩)))
    · have hnonempty := hkept.resolve_left happ
      rcases hname.resolve_left happ with rfl | rfl | rfl | rfl
      · exact .inl (.inl (.inl (.inr ⟨rfl, htext, hnonempty⟩)))
      · exact .inl (.inl (.inr ⟨rfl, htext, hnonempty⟩))
      · exact .inl (.inr ⟨rfl, htext, hnonempty⟩)
      · exact .inr ⟨rfl, htext, hnonempty⟩

theorem noNul_of_mem_text {name label : String} {entry : String × String}
    (hentry : entry ∈ ((textAt node name).map Prod.fst).toList.map (fun text => (label, text))) :
    Text.contains entry.2 '\x00' = false := by
  obtain ⟨text, htext, rfl⟩ := List.mem_map.mp hentry
  rw [Option.mem_toList, Option.map_eq_some_iff] at htext
  obtain ⟨⟨_, kind⟩, hread, rfl⟩ := htext
  exact noNul_of_textAt hread

theorem noNul_of_mem_stream {base label : String} {entry : String × String}
    (hentry : entry ∈ (streamAt node base).toList.map (fun s => (label, s.path))) :
    Text.contains entry.2 '\x00' = false := by
  obtain ⟨stream, hstream, rfl⟩ := List.mem_map.mp hentry
  have hpath : stream.path ∈ (streamAt node base).map (·.path) :=
    Option.map_eq_some_iff.mpr ⟨stream, Option.mem_toList.mp hstream, rfl⟩
  obtain ⟨⟨kind, hread⟩, -⟩ := mem_streamPath.mp hpath
  exact noNul_of_textAt hread

theorem noNul_of_mem_list {name : String} {f : String × Nat → String × String}
    {entry : String × String} (hentry : entry ∈ ((listAt node name).getD []).zipIdx.map f)
    (hf : ∀ v, (f v).2 = v.1) : Text.contains entry.2 '\x00' = false := by
  obtain ⟨v, hv, rfl⟩ := List.mem_map.mp hentry
  rw [hf]
  exact (storable_getD v.1 (List.fst_mem_of_mem_zipIdx hv)).1

/-- Only the subtrees can put a terminator into what is read. -/
theorem noNul_configAt
    (hsubtrees : ∀ entry ∈ registryStrings { exitActions := exits, hooks := hooks },
      Text.contains entry.2 '\x00' = false) :
    ∀ entry ∈ registryStrings (configAt node exits hooks marked),
      Text.contains entry.2 '\x00' = false := by
  intro entry hentry
  simp only [registryStrings, List.mem_append] at hentry hsubtrees
  rcases hentry with ((((((((((h | h) | h) | h) | h) | h) | h) | h) | h) | h) | h)
  · exact noNul_of_mem_text h
  · exact noNul_of_mem_text h
  · exact noNul_of_mem_text h
  · exact noNul_of_mem_text h
  · exact noNul_of_mem_list h fun _ => rfl
  · exact noNul_of_mem_list h fun _ => rfl
  · exact noNul_of_mem_stream h
  · exact noNul_of_mem_stream h
  · exact noNul_of_mem_stream h
  · exact hsubtrees entry (.inl (.inr h))
  · exact hsubtrees entry (.inr h)

end

/-! ## Reading one value -/

section

variable {τ : Type} {node node' : Node fold τ} {name : String}

theorem queryValueRaw_congr (hsame : node'.value? name = node.value? name) :
    queryValueRaw node' name = queryValueRaw node name := by
  unfold queryValueRaw
  rw [hsame]

theorem queryValueRaw_of_none (hnone : node.value? name = none) :
    queryValueRaw node name = .error (.notFound ("RegQueryValueEx(" ++ name ++ ") size")) := by
  unfold queryValueRaw
  rw [hnone]

theorem readTypedString_of_stringValue {text : String} {kind : UInt32}
    (hvalue : node.value? name = some (stringValue kind text))
    (hkind : kind = regSz ∨ kind = regExpandSz) (hclean : Text.contains text '\x00' = false) :
    readTypedString node name = .ok (text, kind) :=
  readTypedString_of_holds hvalue ⟨hkind, stringValue_decodes kind hclean⟩

theorem readMultiString_of_multiValue {entries : List String}
    (hvalue : node.value? name = some (multiValue entries))
    (hentries : ∀ v ∈ entries, StorableEntry v) : readMultiString node name = .ok entries := by
  rw [readMultiString, queryValueRaw_of_some hvalue]
  change bytesToWideMulti (multiValue entries).data = _
  exact multiValue_decodes hentries

theorem readU32_of_dwordValue {n : UInt32} (hvalue : node.value? name = some (dwordValue n)) :
    readU32 node name = .ok n := by
  rw [readU32, queryValueRaw_of_some hvalue]
  exact dwordValue_decodes name n

end

/-! ## Changes of single values -/

/-- A value that the full writer could have stored under a name of this kind. -/
def Storing (name : String) (value : RegValue) : ManagedValueKind → Prop
  | .string => ∃ text, value = stringValue regSz text ∧ Text.contains text '\x00' = false ∧
      (isPathValue name = true → validateAbsolutePath name text = .ok ()) ∧
        (name = application → (Text.trim text).isEmpty = false)
  | .multiString => ∃ entries, value = multiValue entries ∧ ∀ v ∈ entries, StorableEntry v
  | .number => ∃ n, value = dwordValue n

/-- Some known values are replaced by storable ones and some others are removed; the marker
stays, and so does everything below the key. -/
structure Adjusted (node node' : Params fold σ) : Prop where
  subkeys : node'.subkeys = node.subkeys
  values : ∀ name kind, (name, kind) ∈ knownValues →
    node'.value? name = node.value? name ∨ (node'.value? name = none ∧ name ≠ application) ∨
      ∃ value, node'.value? name = some value ∧ Storing name value kind

/-- The key has an application that is not blank. -/
def HasMarker (node : Params fold σ) : Prop :=
  ∃ app kind, textAt node application = some (app, kind) ∧ (Text.trim app).isEmpty = false

section

variable {node node' node'' : Params fold σ}

theorem Adjusted.refl (node : Params fold σ) : Adjusted node node :=
  ⟨rfl, fun _ _ _ => .inl rfl⟩

theorem Adjusted.trans (h : Adjusted node node') (h' : Adjusted node' node'') :
    Adjusted node node'' := by
  refine ⟨h'.subkeys.trans h.subkeys, fun name kind hname => ?_⟩
  rcases h'.values name kind hname with hsame | hchanged
  · rw [hsame]
    exact h.values name kind hname
  · exact .inr hchanged

/-- A value of a kind, or none, is what a change leaves. -/
theorem Adjusted.wellFormed (h : Adjusted node node') (hwf : WellFormed node) :
    WellFormed node' := by
  rintro ⟨name, kind⟩ hname
  have hold := hwf (name, kind) hname
  rcases h.values name kind hname with hsame | ⟨hnone, -⟩ | ⟨value, hvalue, hstoring⟩
  · cases kind with
    | string =>
        simp only [OfKind, readTypedString, queryValueRaw_congr hsame] at hold ⊢
        exact hold
    | multiString =>
        simp only [OfKind, readMultiString, queryValueRaw_congr hsame] at hold ⊢
        exact hold
    | number =>
        simp only [OfKind, readU32, queryValueRaw_congr hsame] at hold ⊢
        exact hold
  · cases kind with
    | string =>
        apply settled_of_notFound
        rw [readTypedString, queryValueRaw_of_none hnone]
        rfl
    | multiString =>
        apply settled_of_notFound
        rw [readMultiString, queryValueRaw_of_none hnone]
        rfl
    | number =>
        apply settled_of_notFound
        rw [readU32, queryValueRaw_of_none hnone]
        rfl
  · cases kind with
    | string =>
        obtain ⟨text, rfl, hclean, -⟩ := hstoring
        exact settled_of_ok (readTypedString_of_stringValue hvalue (.inl rfl) hclean)
    | multiString =>
        obtain ⟨entries, rfl, hentries⟩ := hstoring
        exact settled_of_ok (readMultiString_of_multiValue hvalue hentries)
    | number =>
        obtain ⟨n, rfl⟩ := hstoring
        exact settled_of_ok (readU32_of_dwordValue hvalue)

/-- What a change leaves under the name of a string. -/
theorem Adjusted.text (h : Adjusted node node') {name : String}
    (hname : (name, .string) ∈ knownValues) :
    textAt node' name = textAt node name ∨ (textAt node' name = none ∧ name ≠ application) ∨
      ∃ text, textAt node' name = some (text, regSz) ∧
        (isPathValue name = true → validateAbsolutePath name text = .ok ()) ∧
        (name = application → (Text.trim text).isEmpty = false) := by
  rcases h.values name .string hname with hsame | ⟨hnone, hother⟩ | ⟨value, hvalue, hstoring⟩
  · refine .inl ?_
    simp only [textAt, readTypedString, queryValueRaw_congr hsame]
  · refine .inr (.inl ⟨?_, hother⟩)
    rw [textAt, readTypedString, queryValueRaw_of_none hnone]
    rfl
  · obtain ⟨text, rfl, hclean, hpath, happ⟩ := hstoring
    refine .inr (.inr ⟨text, ?_, hpath, happ⟩)
    rw [textAt, readTypedString_of_stringValue hvalue (.inl rfl) hclean]
    rfl

theorem Adjusted.hasMarker (h : Adjusted node node') (hmarker : HasMarker node) :
    HasMarker node' := by
  have hknown : (application, .string) ∈ knownValues := by decide
  rcases h.text hknown with hsame | ⟨-, hother⟩ | ⟨text, htext, -, happ⟩
  · obtain ⟨app, kind, hread, hnonblank⟩ := hmarker
    exact ⟨app, kind, hsame.trans hread, hnonblank⟩
  · exact absurd rfl hother
  · exact ⟨text, regSz, htext, happ rfl⟩

theorem isExpandableString_configAt {exits : ExitActions} {hooks : List HookConfig}
    {added : List String} {name : String} (hname : name ∈ expandableNames) :
    (configAt node exits hooks
      (added.foldl Std.ExtTreeSet.insert (stringMarks node))).isExpandableString name =
        (isExpandAt node name || added.any (Text.eqIgnoreAsciiCase · name)) := by
  have hdistinct : ∀ m ∈ expandableNames, ∀ name ∈ expandableNames,
      Text.eqIgnoreAsciiCase m name = true → m = name := by decide
  rw [Bool.eq_iff_iff]
  simp only [ManagedApplicationConfig.isExpandableString, configAt, List.any_eq_true,
    Std.ExtTreeSet.mem_toList, mem_foldl_insert, mem_stringMarks, Bool.or_eq_true]
  constructor
  · rintro ⟨m, ⟨hm, hexpand⟩ | hm, hequal⟩
    · refine .inl ?_
      rw [← hdistinct m hm name hname hequal]
      exact hexpand
    · exact .inr ⟨m, hm, hequal⟩
  · rintro (hexpand | ⟨m, hm, hequal⟩)
    · exact ⟨name, .inl ⟨hname, hexpand⟩, by simp [Text.eqIgnoreAsciiCase]⟩
    · exact ⟨m, .inr hm, hequal⟩

theorem validateRawPath_of_absolute {cfg : ManagedApplicationConfig} {name path : String}
    (hpath : validateAbsolutePath name path = .ok ()) : validateRawPath cfg name path = .ok () := by
  have hclean : path.toList.any Text.isControl = false := by
    unfold validateAbsolutePath at hpath
    split at hpath
    · cases hpath
    · rename_i hclean
      simpa using hclean
  unfold validateRawPath
  simp only [hclean, hpath, Bool.false_eq_true, if_false]
  split
  · split <;> rfl
  · rfl

theorem known_of_isPathValue {name : String} (hpath : isPathValue name = true) :
    name ∈ expandableNames ∧ (name, .string) ∈ knownValues := by
  have hall : ∀ name ∈ [application, appDirectory, appStdin, appStdout, appStderr],
      name ∈ expandableNames ∧ (name, .string) ∈ knownValues := by decide
  exact hall name (List.contains_iff_mem.mp hpath)

/-- What was readable and acceptable stays so. -/
theorem Adjusted.sound (h : Adjusted node node') (hwf : WellFormed node) {service : String}
    {cfg : ManagedApplicationConfig} (hread : readManagedFromKey node service = .ok (some cfg))
    (hvalid : validateManagedConfig fold cfg = .ok ()) :
    ∃ cfg', readManagedFromKey node' service = .ok (some cfg') ∧
      validateManagedConfig fold cfg' = .ok () := by
  obtain ⟨app, kind, exits, hooks, marked, happ, hnonblank, hexits, hhooks, rfl⟩ :=
    (reads_iff hwf.legible).mp hread
  obtain ⟨outcome, added, huniform⟩ := uniform_readHooks node
  obtain ⟨rfl, rfl⟩ : outcome = .ok hooks ∧
      marked = added.foldl Std.ExtTreeSet.insert (stringMarks node) := by
    have hrun := huniform (stringMarks node)
    rw [hhooks] at hrun
    cases hrun
    exact ⟨rfl, rfl⟩
  have hsubkey : ∀ name, node'.subkey? name = node.subkey? name := by
    intro name
    rw [Node.subkey?, Node.subkey?, h.subkeys]
  obtain ⟨app', kind', happ', hnonblank'⟩ := h.hasMarker ⟨app, kind, happ, hnonblank⟩
  refine ⟨_, (reads_iff (h.wellFormed hwf).legible).mpr ⟨app', kind', exits, hooks,
    added.foldl Std.ExtTreeSet.insert (stringMarks node'), happ', hnonblank', ?_, ?_, rfl⟩, ?_⟩
  · unfold readExitActions at hexits ⊢
    rw [hsubkey]
    exact hexits
  · have hsame : readHooks node' = readHooks node := by
      unfold readHooks
      rw [hsubkey]
    rw [hsame]
    exact huniform _
  rw [validateManagedConfig_iff_passes] at hvalid ⊢
  exact {
    application := by
      simp only [requireApplication, configAt, happ', Option.map_some, hnonblank',
        Bool.false_eq_true, if_false]
    marks := by
      intro m hm
      rcases mem_foldl_insert.mp hm with hstring | hadded
      · obtain ⟨hname, -⟩ := mem_stringMarks.mp hstring
        rw [checkMark, if_pos (List.any_eq_true.mpr ⟨m, hname, by simp [Text.eqIgnoreAsciiCase]⟩)]
      · exact hvalid.marks m (mem_foldl_insert.mpr (.inr hadded))
    noNul := by
      refine noNul_configAt fun entry hentry => hvalid.noNul entry ?_
      simp only [registryStrings, List.mem_append] at hentry ⊢
      rcases hentry with (hscalar | hexit) | hhook
      · simp at hscalar
      · exact .inl (.inr hexit)
      · exact .inr hhook
    environment := fun v hv => (storable_getD v hv).2
    environmentExtra := fun v hv => (storable_getD v hv).2
    hooks := hvalid.hooks
    paths := by
      rintro ⟨name, path⟩ hentry
      obtain ⟨hname, ⟨kind, htext⟩, hkept⟩ := mem_configuredPaths.mp hentry
      obtain ⟨hexpandable, hknown⟩ := known_of_isPathValue hname
      rcases h.text hknown with hsame | ⟨hnone, -⟩ | ⟨text, hnew, hpath, -⟩
      · have hold := hvalid.paths (name, path)
          (mem_configuredPaths.mpr ⟨hname, ⟨kind, hsame.symm.trans htext⟩, hkept⟩)
        rw [← hold]
        simp only [validateRawPath, isExpandableString_configAt hexpandable, isExpandAt, hsame]
      · rw [hnone] at htext
        cases htext
      · rw [hnew] at htext
        cases htext
        exact validateRawPath_of_absolute (hpath hname)
    exits := hvalid.exits }

end

end Ngsm.Ops
