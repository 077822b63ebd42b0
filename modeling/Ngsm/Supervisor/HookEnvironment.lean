/-
# The environment of the application and of its hooks

The effective environment comes from three sources: the process, the configured entries
that replace it, and the extra entries.  Names are compared as the system compares them,
and the last entry for a name counts.

A hook gets this environment with six variables of its own.  Whatever the other sources
say about their names, in any spelling, the six have the values of the invocation or are
absent, and nothing else changes.
-/

import Mathlib.Data.List.TakeWhile
import Ngsm.Lib.ArgumentVector
import Ngsm.Lib.Bindings
import Ngsm.Supervisor.Launch

namespace Ngsm.Supervisor.Launch

open Ngsm.Lib
open Ngsm.Core

/-! ## The environment of a hook -/

/-- The variables that a hook is given. -/
def hookNames : List String :=
  ["NGSM_SERVICE_NAME", "NGSM_EVENT", "NGSM_APPLICATION", "NGSM_APPLICATION_PID",
    "NGSM_EXIT_CODE", "NGSM_POWER_EVENT_TYPE"]

section

variable (envNameEq : OsString → OsString → Bool)

def setOptional (environment : Environment) (name : String) : Option String → Environment
  | some value => setEnvironment envNameEq environment name value
  | none => environment

/-- The environment that a hook runs in: what is known of the six variables before is
dropped, and those that the invocation has a value for are set. -/
def hookEnvironment (environment : Environment) (service : String) (application : Option String)
    (call : HookCall) : Environment :=
  let environment := hookNames.foldl (fun environment key =>
    environment.filter fun entry => !envNameEq entry.1 (Utf16.encode key)) environment
  let environment := setEnvironment envNameEq environment "NGSM_SERVICE_NAME" service
  let environment := setEnvironment envNameEq environment "NGSM_EVENT"
    (call.point.event ++ "/" ++ call.point.action)
  let environment := setOptional envNameEq environment "NGSM_APPLICATION" application
  let environment := setOptional envNameEq environment "NGSM_APPLICATION_PID"
    (call.pid.map toString)
  let environment := setOptional envNameEq environment "NGSM_EXIT_CODE" (call.exit.map toString)
  setOptional envNameEq environment "NGSM_POWER_EVENT_TYPE" (call.power.map toString)

/-- The environment that a hook starts from: that of the launch, or where nothing has been
launched the effective one. -/
def hookBase (environment vars : Environment) (cfg : ManagedApplicationConfig) :
    Except SupervisorError Environment :=
  if environment.isEmpty then effectiveEnvironment envNameEq vars cfg else .ok environment

/-- The environment that `fire_hook` runs a hook in; without one the hook is skipped.  The
application is that of the launched configuration, where there is one. -/
def fireHookEnvironment (environment vars : Environment)
    (launchConfig : Option ManagedApplicationConfig) (cfg : ManagedApplicationConfig)
    (service : String) (call : HookCall) : Except SupervisorError Environment := do
  let base ← hookBase envNameEq environment vars cfg
  pure (hookEnvironment envNameEq base service (launchConfig.getD cfg).application call)

end

/-- The values that an invocation gives the six variables. -/
def hookValues (service : String) (application : Option String) (call : HookCall) :
    List (String × Option String) :=
  [("NGSM_SERVICE_NAME", some service),
    ("NGSM_EVENT", some (call.point.event ++ "/" ++ call.point.action)),
    ("NGSM_APPLICATION", application),
    ("NGSM_APPLICATION_PID", call.pid.map toString),
    ("NGSM_EXIT_CODE", call.exit.map toString),
    ("NGSM_POWER_EVENT_TYPE", call.power.map toString)]

/-! ## Entries -/

/-- The name of an entry `NAME=VALUE`. -/
def settingName (entry : String) : String :=
  String.ofList (entry.toList.takeWhile (· != '='))

def settingValue (entry : String) : String :=
  String.ofList (entry.toList.dropWhile (· != '=')).tail

/-- An entry without a sign, with an empty name, or with a NUL. -/
def Malformed (entry : String) : Prop :=
  '=' ∉ entry.toList ∨ entry.toList.head? = some '=' ∨ '\x00' ∈ entry.toList

/-- The setting of an entry, as the environment stores it. -/
def setting (entry : String) : OsString × OsString :=
  (Utf16.encode (settingName entry), Utf16.encode (settingValue entry))

/-- An entry with a sign is cut at the first one. -/
theorem cut_at_sign {entry : String} (hsign : '=' ∈ entry.toList) :
    ∃ name value, entry.toList = name ++ '=' :: value ∧
      entry.toList.takeWhile (· != '=') = name ∧
      entry.toList.dropWhile (· != '=') = '=' :: value := by
  obtain ⟨name, value, hentry, hname⟩ := List.eq_append_cons_of_mem hsign
  have hkeep : ∀ c ∈ name, (c != '=') = true := by
    intro c hc
    rw [bne_iff_ne]
    rintro rfl
    exact hname hc
  rw [hentry]
  exact ⟨name, value, rfl, ArgumentVector.takeWhile_append_stop value hkeep (by decide)⟩

theorem parseEnvEntry_malformed {entry : String} (hmalformed : Malformed entry) :
    ∃ error, parseEnvEntry entry = .error error := by
  unfold parseEnvEntry
  by_cases hsign : '=' ∈ entry.toList
  · obtain ⟨name, value, hentry, htake, hdrop⟩ := cut_at_sign hsign
    rw [htake, hdrop]
    refine ⟨_, if_pos ?_⟩
    rw [Bool.or_eq_true, Bool.or_eq_true]
    obtain hnone | hhead | hnul := hmalformed
    · exact absurd hsign hnone
    · left
      left
      rw [hentry] at hhead
      cases name with
      | nil => rfl
      | cons c name =>
          have hc : c = '=' := Option.some.inj hhead
          have hkeep := List.all_eq_true.mp List.all_takeWhile c (htake ▸ List.mem_cons_self)
          rw [hc] at hkeep
          cases hkeep
    · rw [hentry, List.mem_append, List.mem_cons] at hnul
      obtain hname | hequal | hvalue := hnul
      · exact .inl (.inr (List.contains_iff_mem.mpr hname))
      · exact absurd hequal (by decide)
      · exact .inr (List.contains_iff_mem.mpr hvalue)
  · have hdrop : entry.toList.dropWhile (· != '=') = [] := by
      rw [List.dropWhile_eq_nil_iff]
      intro c hc
      rw [bne_iff_ne]
      rintro rfl
      exact hsign hc
    rw [hdrop]
    exact ⟨_, rfl⟩

theorem parseEnvEntry_eq_ok {entry : String} (hwell : ¬ Malformed entry) :
    parseEnvEntry entry = .ok (settingName entry, settingValue entry) := by
  rw [Malformed, not_or, not_or, not_not] at hwell
  obtain ⟨hsign, hhead, hnul⟩ := hwell
  obtain ⟨name, value, hentry, htake, hdrop⟩ := cut_at_sign hsign
  unfold parseEnvEntry settingName settingValue
  rw [htake, hdrop, List.tail_cons]
  refine if_neg ?_
  rw [Bool.or_eq_true, Bool.or_eq_true, List.contains_iff_mem, List.contains_iff_mem]
  rintro ((hempty | hname) | hvalue)
  · rw [List.isEmpty_iff] at hempty
    rw [hentry, hempty] at hhead
    exact hhead rfl
  · exact hnul (by rw [hentry]; exact List.mem_append_left _ hname)
  · exact hnul (by rw [hentry]; exact List.mem_append_right _ (List.mem_cons_of_mem _ hvalue))

/-! ## The effective environment -/

section

variable {envNameEq : OsString → OsString → Bool} {cfg : ManagedApplicationConfig}
  {vars environment : Environment} {entries : List String}

theorem lookupEnvironment_eq (environment : Environment) (name : String) :
    lookupEnvironment envNameEq environment name =
      (Bindings.find envNameEq environment (Utf16.encode name)).bind Utf16.decode := by
  unfold lookupEnvironment
  rw [Bindings.find_eq_find?, Option.bind_map]
  rfl

/-- Well-formed entries are settings, one after another. -/
theorem foldlM_parse (hentries : ∀ entry ∈ entries, ¬ Malformed entry) :
    entries.foldlM (fun environment entry => do
      let (name, value) ← parseEnvEntry entry
      pure (setEnvironment envNameEq environment name value)) environment =
    .ok (Bindings.assign envNameEq environment (entries.map setting)) := by
  induction entries generalizing environment with
  | nil => rfl
  | cons entry entries ih =>
      rw [List.foldlM_cons, parseEnvEntry_eq_ok (hentries entry List.mem_cons_self)]
      exact ih fun other hother => hentries other (List.mem_cons_of_mem entry hother)

theorem foldlM_parse_malformed (hentries : ∃ entry ∈ entries, Malformed entry) :
    ∃ error, entries.foldlM (fun environment entry => do
      let (name, value) ← parseEnvEntry entry
      pure (setEnvironment envNameEq environment name value)) environment = .error error := by
  induction entries generalizing environment with
  | nil =>
      obtain ⟨entry, hentry, -⟩ := hentries
      cases hentry
  | cons first entries ih =>
      rw [List.foldlM_cons]
      by_cases hfirst : Malformed first
      · obtain ⟨error, herror⟩ := parseEnvEntry_malformed hfirst
        rw [herror]
        exact ⟨error, rfl⟩
      · rw [parseEnvEntry_eq_ok hfirst]
        obtain ⟨entry, hentry, hmalformed⟩ := hentries
        rcases List.mem_cons.mp hentry with rfl | hentry
        · exact absurd hmalformed hfirst
        · exact ih ⟨entry, hentry, hmalformed⟩

/-- The configured entries in the order in which they count. -/
def entriesOf (cfg : ManagedApplicationConfig) : List String :=
  cfg.environment ++ cfg.environmentExtra

/-- What the configured entries are added to. -/
def inherited (vars : Environment) (cfg : ManagedApplicationConfig) : Environment :=
  if cfg.environment.isEmpty then vars else []

theorem effectiveEnvironment_fails_iff :
    (∃ error, effectiveEnvironment envNameEq vars cfg = .error error) ↔
      ∃ entry ∈ entriesOf cfg, Malformed entry := by
  constructor
  · rintro ⟨error, herror⟩
    by_contra hnone
    have hok : effectiveEnvironment envNameEq vars cfg = _ := foldlM_parse
      fun entry hentry hmalformed => hnone ⟨entry, hentry, hmalformed⟩
    rw [hok] at herror
    cases herror
  · exact foldlM_parse_malformed

theorem effectiveEnvironment_eq_ok
    (hok : effectiveEnvironment envNameEq vars cfg = .ok environment) :
    environment =
      Bindings.assign envNameEq (inherited vars cfg) ((entriesOf cfg).map setting) := by
  have hentries : ∀ entry ∈ entriesOf cfg, ¬ Malformed entry := by
    intro entry hentry hmalformed
    obtain ⟨error, herror⟩ := effectiveEnvironment_fails_iff.mpr ⟨entry, hentry, hmalformed⟩
    rw [hok] at herror
    cases herror
  have hassigned : effectiveEnvironment envNameEq vars cfg = _ := foldlM_parse hentries
  rw [hok] at hassigned
  exact Except.ok.inj hassigned

/-- The value of the last entry of a name, in whatever spelling. -/
def lastValue (envNameEq : OsString → OsString → Bool) (entries : List String) (name : String) :
    Option String :=
  ((entries.filter fun entry =>
    envNameEq (Utf16.encode (settingName entry)) (Utf16.encode name)).getLast?).map settingValue

theorem named_settings (name : String) :
    (Bindings.named envNameEq (entries.map setting) (Utf16.encode name)).getLast?.map Prod.snd =
      (lastValue envNameEq entries name).map Utf16.encode := by
  unfold Bindings.named lastValue
  rw [List.filter_map, List.getLast?_map, Option.map_map, Option.map_map]
  rfl

/-- What a name is bound to: the last entry for it, or what is inherited. -/
theorem find_effectiveEnvironment (hsame : Equivalence fun a b => envNameEq a b = true)
    (hok : effectiveEnvironment envNameEq vars cfg = .ok environment) (name : String) :
    Bindings.find envNameEq environment (Utf16.encode name) =
      ((lastValue envNameEq (entriesOf cfg) name).map Utf16.encode).or
        (Bindings.find envNameEq (inherited vars cfg) (Utf16.encode name)) := by
  rw [effectiveEnvironment_eq_ok hok, Bindings.find_assign hsame, named_settings]

theorem lookup_effectiveEnvironment (hsame : Equivalence fun a b => envNameEq a b = true)
    (hok : effectiveEnvironment envNameEq vars cfg = .ok environment) (name : String) :
    lookupEnvironment envNameEq environment name =
      (lastValue envNameEq (entriesOf cfg) name).or
        (lookupEnvironment envNameEq (inherited vars cfg) name) := by
  rw [lookupEnvironment_eq, find_effectiveEnvironment hsame hok, lookupEnvironment_eq]
  cases lastValue envNameEq (entriesOf cfg) name with
  | none => rfl
  | some value => exact Utf16.decode_encode value

/-- A configured name is bound once. -/
theorem configured_once (hsame : Equivalence fun a b => envNameEq a b = true)
    (hok : effectiveEnvironment envNameEq vars cfg = .ok environment) {entry : String}
    (hentry : entry ∈ entriesOf cfg) :
    (Bindings.named envNameEq environment (Utf16.encode (settingName entry))).length = 1 := by
  rw [effectiveEnvironment_eq_ok hok]
  apply Bindings.length_named_assign hsame
  have hmem : setting entry ∈ Bindings.named envNameEq ((entriesOf cfg).map setting)
      (Utf16.encode (settingName entry)) :=
    List.mem_filter.mpr ⟨List.mem_map_of_mem hentry, hsame.refl _⟩
  exact List.ne_nil_of_mem hmem

/-! ## The six variables -/

/-- Whether a binding is of none of the six variables. -/
def isOther (envNameEq : OsString → OsString → Bool) (entry : OsString × OsString) : Bool :=
  hookNames.all fun key => !envNameEq entry.1 (Utf16.encode key)

/-- Set what has a value, one name after another. -/
def setAll (envNameEq : OsString → OsString → Bool) (environment : Environment)
    (values : List (String × Option String)) : Environment :=
  values.foldl (fun environment entry => setOptional envNameEq environment entry.1 entry.2)
    environment

/-- Drop some names, one after another. -/
def dropAll (envNameEq : OsString → OsString → Bool) (environment : Environment)
    (names : List String) : Environment :=
  names.foldl (fun environment key =>
    environment.filter fun entry => !envNameEq entry.1 (Utf16.encode key)) environment

theorem hookEnvironment_eq (environment : Environment) (service : String)
    (application : Option String) (call : HookCall) :
    hookEnvironment envNameEq environment service application call =
      setAll envNameEq (dropAll envNameEq environment hookNames)
        (hookValues service application call) :=
  rfl

variable {names : List String} {values : List (String × Option String)} {name : OsString}

theorem named_dropAll_mem (hsame : Equivalence fun a b => envNameEq a b = true) {key : String}
    (hkey : key ∈ names) (hname : envNameEq name (Utf16.encode key) = true) :
    Bindings.named envNameEq (dropAll envNameEq environment names) name = [] := by
  induction names using List.reverseRecOn with
  | nil => cases hkey
  | append_singleton names last ih =>
      rw [dropAll, List.foldl_append]
      change Bindings.named envNameEq (Bindings.remove envNameEq
        (dropAll envNameEq environment names) (Utf16.encode last)) name = []
      cases hlast : envNameEq name (Utf16.encode last) with
      | true => exact Bindings.named_remove_same hsame hlast
      | false =>
          rw [Bindings.named_remove_other hsame hlast]
          rcases List.mem_append.mp hkey with hkey | hkey
          · exact ih hkey
          · rw [List.mem_singleton.mp hkey, hlast] at hname
            cases hname

theorem filter_dropAll {keep : OsString × OsString → Bool}
    (hkeep : ∀ entry, keep entry = true → ∀ key ∈ names,
      envNameEq entry.1 (Utf16.encode key) = false) :
    (dropAll envNameEq environment names).filter keep = environment.filter keep := by
  induction names generalizing environment with
  | nil => rfl
  | cons first names ih =>
      have hfirst : (Bindings.remove envNameEq environment (Utf16.encode first)).filter keep =
          environment.filter keep :=
        Bindings.filter_remove fun entry hentry => hkeep entry hentry first List.mem_cons_self
      rw [← hfirst]
      exact ih fun entry hentry key hkey =>
        hkeep entry hentry key (List.mem_cons_of_mem first hkey)

theorem filter_setOptional (hsame : Equivalence fun a b => envNameEq a b = true)
    {keep : OsString × OsString → Bool} {key : String} (value : Option String)
    (hkeep : ∀ entry, keep entry = true → envNameEq entry.1 (Utf16.encode key) = false) :
    (setOptional envNameEq environment key value).filter keep = environment.filter keep := by
  cases value with
  | none => rfl
  | some text =>
      apply Bindings.filter_set hkeep
      rw [← Bool.not_eq_true]
      intro hkept
      have hself := hkeep _ hkept
      rw [hsame.refl (Utf16.encode key)] at hself
      cases hself

/-- Setting some names leaves a selection of the others as it is. -/
theorem filter_setAll (hsame : Equivalence fun a b => envNameEq a b = true)
    {keep : OsString × OsString → Bool}
    (hkeep : ∀ entry, keep entry = true → ∀ value ∈ values,
      envNameEq entry.1 (Utf16.encode value.1) = false) :
    (setAll envNameEq environment values).filter keep = environment.filter keep := by
  induction values generalizing environment with
  | nil => rfl
  | cons first values ih =>
      have hfirst : (setOptional envNameEq environment first.1 first.2).filter keep =
          environment.filter keep :=
        filter_setOptional hsame first.2 fun entry hentry =>
          hkeep entry hentry first List.mem_cons_self
      rw [← hfirst]
      exact ih fun entry hentry value hvalue =>
        hkeep entry hentry value (List.mem_cons_of_mem first hvalue)

/-- A binding of a name is of no other name that differs from it. -/
theorem differs_of_same (hsame : Equivalence fun a b => envNameEq a b = true) {key other : OsString}
    (hname : envNameEq name key = true) (hother : envNameEq key other = false) (a : OsString)
    (ha : envNameEq a name = true) : envNameEq a other = false := by
  rw [← Bool.not_eq_true] at hother ⊢
  exact fun h => hother (hsame.trans (hsame.symm (hsame.trans ha hname)) h)

/-- A name among different ones is bound to its value alone, or as before if it has none. -/
theorem named_setAll (hsame : Equivalence fun a b => envNameEq a b = true)
    (hvalues : values.Pairwise fun a b =>
      envNameEq (Utf16.encode a.1) (Utf16.encode b.1) = false)
    {key : String} {value : Option String} (hmem : (key, value) ∈ values)
    (hname : envNameEq name (Utf16.encode key) = true) :
    Bindings.named envNameEq (setAll envNameEq environment values) name =
      match value with
      | some text => [(Utf16.encode key, Utf16.encode text)]
      | none => Bindings.named envNameEq environment name := by
  induction values generalizing environment with
  | nil => cases hmem
  | cons first values ih =>
      obtain ⟨hfirst, hrest⟩ := List.pairwise_cons.mp hvalues
      change Bindings.named envNameEq (setAll envNameEq
        (setOptional envNameEq environment first.1 first.2) values) name = _
      rcases List.mem_cons.mp hmem with rfl | hmem
      · have hlater : Bindings.named envNameEq (setAll envNameEq
            (setOptional envNameEq environment key value) values) name =
            Bindings.named envNameEq (setOptional envNameEq environment key value) name :=
          filter_setAll hsame fun entry hentry other hother =>
            differs_of_same hsame hname (hfirst other hother) entry.1 hentry
        rw [hlater]
        cases value with
        | none => rfl
        | some text => exact Bindings.named_set_same hsame hname
      · rw [ih hrest hmem]
        cases value with
        | some text => rfl
        | none =>
            have hdiffers : envNameEq (Utf16.encode key) (Utf16.encode first.1) = false := by
              have hne := hfirst _ hmem
              rw [← Bool.not_eq_true] at hne ⊢
              exact fun h => hne (hsame.symm h)
            exact filter_setOptional hsame first.2 fun entry hentry =>
              differs_of_same hsame hname hdiffers entry.1 hentry

/-- In the environment of a hook each of the six names, in any spelling, is bound to the value
of the invocation and to nothing else, and every other binding is as before. -/
theorem hookEnvironment_spec (hsame : Equivalence fun a b => envNameEq a b = true)
    (hkeys : hookNames.Pairwise fun a b =>
      envNameEq (Utf16.encode a) (Utf16.encode b) = false)
    (environment : Environment) (service : String) (application : Option String)
    (call : HookCall) :
    (∀ key value, (key, value) ∈ hookValues service application call →
      ∀ name, envNameEq name (Utf16.encode key) = true →
        Bindings.named envNameEq
          (hookEnvironment envNameEq environment service application call) name =
            (value.map fun text => (Utf16.encode key, Utf16.encode text)).toList) ∧
    (hookEnvironment envNameEq environment service application call).filter
        (isOther envNameEq) = environment.filter (isOther envNameEq) := by
  have hnames : hookNames = (hookValues service application call).map Prod.fst := rfl
  rw [hookEnvironment_eq]
  constructor
  · intro key value hmem name hname
    rw [hnames, List.pairwise_map] at hkeys
    have hkey : key ∈ hookNames := by
      rw [hnames]
      exact List.mem_map_of_mem hmem
    rw [named_setAll hsame hkeys hmem hname]
    cases value with
    | some text => rfl
    | none => exact named_dropAll_mem hsame hkey hname
  · have hother : ∀ entry, isOther envNameEq entry = true → ∀ key ∈ hookNames,
        envNameEq entry.1 (Utf16.encode key) = false := by
      intro entry hentry key hkey
      have hkept := List.all_eq_true.mp hentry key hkey
      simpa using hkept
    rw [filter_setAll hsame, filter_dropAll hother]
    intro entry hentry value hvalue
    apply hother entry hentry
    rw [hnames]
    exact List.mem_map_of_mem hvalue

theorem lookup_inherited (vars : Environment) (cfg : ManagedApplicationConfig) (name : String) :
    lookupEnvironment envNameEq (inherited vars cfg) name =
      if cfg.environment = [] then
        (Bindings.find envNameEq vars (Utf16.encode name)).bind Utf16.decode
      else
        none := by
  rw [lookupEnvironment_eq]
  unfold inherited
  cases cfg.environment with
  | nil => rfl
  | cons first rest => rfl

/-- The effective environment fails on a malformed entry and on nothing else.  It binds a name
as the last entry for it says, and a configured name once; without configured entries it binds
every other name as the process does.  A hook is given the environment of the launch, or the
effective one, with the six variables of its invocation. -/
theorem environment_spec (hsame : Equivalence fun a b => envNameEq a b = true)
    (hkeys : hookNames.Pairwise fun a b =>
      envNameEq (Utf16.encode a) (Utf16.encode b) = false)
    (vars : Environment) (cfg : ManagedApplicationConfig) :
    ((∃ error, effectiveEnvironment envNameEq vars cfg = .error error) ↔
      ∃ entry ∈ entriesOf cfg, Malformed entry) ∧
    (∀ environment, effectiveEnvironment envNameEq vars cfg = .ok environment →
      (∀ name, lookupEnvironment envNameEq environment name =
        (lastValue envNameEq (entriesOf cfg) name).or
          (if cfg.environment = [] then
            (Bindings.find envNameEq vars (Utf16.encode name)).bind Utf16.decode
          else
            none)) ∧
      ∀ entry ∈ entriesOf cfg, (Bindings.named envNameEq environment
        (Utf16.encode (settingName entry))).length = 1) ∧
    (∀ launched launchConfig service call given,
      fireHookEnvironment envNameEq launched vars launchConfig cfg service call = .ok given →
      ∃ base, hookBase envNameEq launched vars cfg = .ok base ∧
        (∀ key value,
          (key, value) ∈ hookValues service (launchConfig.getD cfg).application call →
          ∀ name, envNameEq name (Utf16.encode key) = true →
            Bindings.named envNameEq given name =
              (value.map fun text => (Utf16.encode key, Utf16.encode text)).toList) ∧
        given.filter (isOther envNameEq) = base.filter (isOther envNameEq)) := by
  refine ⟨effectiveEnvironment_fails_iff, ?_, ?_⟩
  · intro environment hok
    constructor
    · intro name
      rw [lookup_effectiveEnvironment hsame hok, lookup_inherited]
    · intro entry hentry
      exact configured_once hsame hok hentry
  · intro launched launchConfig service call given hgiven
    obtain ⟨base, hbase, hgiven⟩ := Check.bind_eq_ok.mp hgiven
    cases hgiven
    exact ⟨base, hbase, hookEnvironment_spec hsame hkeys base service _ call⟩

end

/-! ## A comparison of names -/

/-- Upper case of the ASCII letters among the code units. -/
def upperUnit (unit : UInt16) : UInt16 :=
  if 97 ≤ unit ∧ unit ≤ 122 then unit - 32 else unit

/-- The comparison of names as far as ASCII letters go. -/
def sameAsciiName (a b : OsString) : Bool :=
  a.map upperUnit == b.map upperUnit

theorem equivalence_sameAsciiName : Equivalence fun a b => sameAsciiName a b = true := by
  unfold sameAsciiName
  simp only [beq_iff_eq]
  exact ⟨fun _ => rfl, fun h => h.symm, fun h h' => h.trans h'⟩

/-- A value of the process for the event of a hook, in another spelling, is not seen. -/
theorem environment_spec_event :
    Bindings.named sameAsciiName
      (hookEnvironment sameAsciiName [(Utf16.encode "ngsm_event", Utf16.encode "stale")] "web"
        none { point := .startPre }) (Utf16.encode "Ngsm_Event") =
      [(Utf16.encode "NGSM_EVENT", Utf16.encode "Start/Pre")] := by
  obtain ⟨base, hbase, hsix, -⟩ := (environment_spec equivalence_sameAsciiName (by decide) []
    {}).2.2 [(Utf16.encode "ngsm_event", Utf16.encode "stale")] none "web" { point := .startPre }
      _ rfl
  exact hsix "NGSM_EVENT" (some "Start/Pre") (by simp [hookValues, HookPoint.event,
    HookPoint.action]) (Utf16.encode "Ngsm_Event") (by decide)

/-- A value of the process that is no text is not found, although it is bound. -/
theorem lookup_inherited_no_text :
    ¬ ∀ (envNameEq : OsString → OsString → Bool),
      (Equivalence fun a b => envNameEq a b = true) →
      ∀ (vars environment : Environment) (cfg : ManagedApplicationConfig) (name : String),
      effectiveEnvironment envNameEq vars cfg = .ok environment →
      lastValue envNameEq (entriesOf cfg) name = none → cfg.environment = [] →
      ∀ value, Bindings.find envNameEq vars (Utf16.encode name) = some value →
        (lookupEnvironment envNameEq environment name).map Utf16.encode = some value := by
  intro hclaimed
  have hfound := hclaimed sameAsciiName equivalence_sameAsciiName
    [(Utf16.encode "PATH", [0xD800])] _ {} "PATH" rfl rfl rfl [0xD800] (by decide)
  revert hfound
  decide

end Ngsm.Supervisor.Launch
