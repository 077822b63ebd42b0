/-
# What a change leaves alone

An operation names the fields it may change.  The setter of a single value leaves every other
value where it is.  An operation that rewrites the whole configuration stores what it has read
in all other fields, also when the values are written anew; and when it fails and says that the
configuration is restored, that holds of all fields.
-/

import Ngsm.Ops.RecoveryPolicy
import Ngsm.Ops.StoredFields

namespace Ngsm.Ops

open Ngsm.Lib Ngsm.Core Ngsm.Registry NssmKeys

variable {fold : NameFold} {σ : Type}

/-! ## Single values -/

/-- A key that differs in the named values only. -/
structure SameElsewhere (names : List String) (node node' : Params fold σ) : Prop where
  subkeys : node'.subkeys = node.subkeys
  values : ∀ other ∈ scalarNames, other ∉ names → node'.value? other = node.value? other

/-- The values a setter may change. -/
def changedNames (name : String) : List String :=
  match lookupKind name with
  | .ok (canonical, _) => clearedNames canonical
  | .error _ => []

section

variable {names : List String} {node : Params fold σ} {name : String}

theorem SameElsewhere.refl (names : List String) (node : Params fold σ) :
    SameElsewhere names node node where
  subkeys := rfl
  values := fun _ _ _ => rfl

theorem SameElsewhere.setValue {node' : Params fold σ} (h : SameElsewhere names node node')
    (hlisted : name ∈ names) (hname : name ∈ scalarNames) (value : RegValue) :
    SameElsewhere names node (node'.setValue name value) where
  subkeys := h.subkeys
  values := by
    intro other hother hunlisted
    have hne : other ≠ name := fun hsame => hunlisted (hsame ▸ hlisted)
    rw [value?_setValue hname hother, if_neg hne]
    exact h.values other hother hunlisted

theorem SameElsewhere.eraseValue {node' : Params fold σ} (h : SameElsewhere names node node')
    (hlisted : name ∈ names) (hname : name ∈ scalarNames) :
    SameElsewhere names node (node'.eraseValue name) where
  subkeys := h.subkeys
  values := by
    intro other hother hunlisted
    have hne : other ≠ name := fun hsame => hunlisted (hsame ▸ hlisted)
    rw [value?_eraseValue hname hother, if_neg hne]
    exact h.values other hother hunlisted

/-- Every name of the values of a field is one of the scalar names. -/
theorem valueNames_subset (f : Field) : ∀ name ∈ f.valueNames, name ∈ scalarNames := by
  cases f <;> decide

/-- A field none of whose values is named is stored as before. -/
theorem SameElsewhere.stored_eq {node' : Params fold σ} (h : SameElsewhere names node node')
    {f : Field} (hspared : ∀ name ∈ f.valueNames, name ∉ names) :
    stored node' f = stored node f := by
  apply stored_congr h.subkeys
  intro name hname
  exact h.values name (valueNames_subset f name hname) (hspared name hname)

/-- The program changes the named values only. -/
def Confined (names : List String) {α : Type} (m : RegM (Params fold σ) α) : Prop :=
  ∀ node, m.Keeps (fun w => SameElsewhere names node w.node) fun _ => True

theorem confined_call {report : Fault → Error} {α : Type}
    {cut : Fault → Params fold σ → Params fold σ}
    {body : Params fold σ → Result α × Params fold σ}
    (hcut : ∀ fault node node', SameElsewhere names node node' →
      SameElsewhere names node (cut fault node'))
    (hbody : ∀ node node', SameElsewhere names node node' →
      SameElsewhere names node (body node').2) : Confined names (call report cut body) := by
  intro node
  apply Prog.Keeps.step
  intro w h
  simp only
  split
  · exact hcut _ _ _ h
  · exact hbody _ _ h

theorem confined_query {report : Fault → Error} {α : Type} {body : Params fold σ → Result α} :
    Confined names (query report body) :=
  confined_call (fun _ _ _ h => h) fun _ _ h => h

theorem confined_throw {α : Type} (e : Error) :
    Confined names (throw e : RegM (Params fold σ) α) :=
  fun _ => .throw trivial

theorem confined_liftExcept {α : Type} (x : Result α) :
    Confined names (liftExcept x : RegM (Params fold σ) α) :=
  fun _ => .liftExcept fun _ _ => trivial

theorem Confined.bind {α β : Type} {m : RegM (Params fold σ) α} {f : α → RegM (Params fold σ) β}
    (hm : Confined names m) (hf : ∀ a, Confined names (f a)) : Confined names (m >>= f) :=
  fun node => (hm node).bind fun a => hf a node

theorem Confined.ignoreMissing {m : RegM (Params fold σ) Unit} (hm : Confined names m) :
    Confined names (ignoreMissing m) := by
  intro node
  apply (hm node).attempt.bind
  rintro (e | ⟨⟩)
  · cases e with
    | notFound context => exact .pure _
    | _ => exact .throw trivial
  · exact .pure _

theorem confined_setValue (hlisted : name ∈ names) (hname : name ∈ scalarNames)
    (value : RegValue) :
    Confined names (Registry.setValue name value : RegM (Params fold σ) Unit) :=
  confined_call (fun _ _ _ h => h) fun _ _ h => h.setValue hlisted hname value

theorem confined_deleteValue (hlisted : name ∈ names) (hname : name ∈ scalarNames) :
    Confined names (deleteValue name : RegM (Params fold σ) Unit) := by
  apply confined_call
  · exact fun _ _ _ h => h
  · intro node node' h
    split
    · exact h.eraseValue hlisted hname
    · exact h

/-- Clearing a path changes the path and the attributes of its stream. -/
theorem confined_clearPathValue {canonical : String}
    (hnames : ∀ name ∈ clearedNames canonical, name ∈ scalarNames) :
    Confined (clearedNames canonical) (clearPathValue canonical : RegM (Params fold σ) Unit) := by
  intro node
  rw [clearPathValue_eq]
  apply Prog.Keeps.forM
  intro name hname
  exact (confined_deleteValue hname (hnames name hname)).ignoreMissing node

theorem clearedNames_subset {canonical : String} {kind : ManagedValueKind}
    (hknown : (canonical, kind) ∈ knownValues) :
    ∀ name ∈ clearedNames canonical, name ∈ scalarNames := by
  intro name hname
  by_cases happ : canonical = application
  · subst happ
    have hall : ∀ name ∈ clearedNames application, name ∈ scalarNames := by decide
    exact hall name hname
  · rw [mem_scalarNames_iff]
    exact (mem_clearedNames hknown happ name hname).1

theorem self_mem_clearedNames (canonical : String) : canonical ∈ clearedNames canonical :=
  List.mem_cons_self

theorem confined_putValue {canonical : String} {kind : ManagedValueKind}
    (hknown : (canonical, kind) ∈ knownValues) (value : String) :
    Confined (clearedNames canonical)
      (putValue canonical value kind : RegM (Params fold σ) Unit) := by
  have hself := self_mem_clearedNames canonical
  have hname := mem_scalarNames_of_known hknown
  cases kind with
  | string =>
      change Confined _ (if _ then _ else _)
      split
      · exact confined_clearPathValue (clearedNames_subset hknown)
      · unfold writeString writeStringTyped
        split
        · exact (confined_throw _).bind fun _ => confined_setValue hself hname _
        · exact confined_setValue hself hname _
  | multiString =>
      change Confined _ (writeMultiString canonical (splitMultiValue value))
      unfold writeMultiString
      split
      · exact (confined_throw _).bind fun _ => confined_setValue hself hname _
      · exact confined_setValue hself hname _
  | number =>
      unfold putValue
      simp only
      split
      · exact confined_throw _
      · exact confined_setValue hself hname _

/-- An operation on a known value may change what belongs to the value; on any other name it
changes nothing. -/
theorem confined_known {α : Type} {f : String × ManagedValueKind → RegM (Params fold σ) α}
    (hf : ∀ canonical kind, (canonical, kind) ∈ knownValues →
      Confined (clearedNames canonical) (f (canonical, kind))) :
    Confined (changedNames name) (liftExcept (lookupKind name) >>= f) := by
  intro node w h
  rw [Prog.wp_bind, Prog.wp_liftExcept]
  unfold changedNames at h ⊢
  rcases hlookup : lookupKind name with e | ⟨canonical, kind⟩
  · rw [hlookup] at h
    exact ⟨trivial, h⟩
  · rw [hlookup] at h
    exact hf canonical kind (of_lookupKind hlookup).1 node w h

/-- Setting a value changes that value, and the attributes of a stream that loses its path. -/
theorem confined_set (service name value : String) :
    Confined (changedNames name)
      (SingleValue.setValue service name value : RegM (Params fold σ) Unit) := by
  apply (confined_liftExcept _).bind
  intro _
  apply confined_query.bind
  intro _
  apply confined_query.bind
  intro _
  apply confined_known
  intro canonical kind hknown
  apply (confined_liftExcept _).bind
  intro _
  apply confined_query.bind
  intro _
  exact confined_putValue hknown value

theorem confined_unset (service name : String) :
    Confined (changedNames name)
      (SingleValue.unsetValue service name : RegM (Params fold σ) Unit) := by
  apply (confined_liftExcept _).bind
  intro _
  apply confined_query.bind
  intro _
  apply confined_query.bind
  intro _
  apply confined_known
  intro canonical kind hknown
  dsimp only
  split
  · exact confined_throw _
  · apply confined_query.bind
    intro _
    split
    · exact confined_clearPathValue (clearedNames_subset hknown)
    · exact (confined_deleteValue (self_mem_clearedNames canonical)
        (mem_scalarNames_of_known hknown)).ignoreMissing

theorem Confined.exec {α : Type} {m : RegM (Params fold σ) α}
    (hm : Confined names m) (node : Params fold σ) (faults : ℕ → Option Fault) :
    SameElsewhere names node (m.exec ⟨node, faults⟩).2.node := by
  have hwp := hm node ⟨node, faults⟩ (.refl names node)
  rcases hrun : m.exec ⟨node, faults⟩ with ⟨e | a, w⟩
  · exact (Prog.wp_error _ hwp hrun).2
  · exact Prog.wp_ok _ hwp hrun

end

/-! ## Whole configurations -/

/-- A key the writer can overwrite. -/
structure Overwritable (node : Params fold σ) : Prop where
  names : NamesDecode node
  application : ApplicationPresent node

section

variable {node : Params fold σ} {cfg : ManagedApplicationConfig} {service : String}

theorem overwritable_of_read (hread : readManagedFromKey node service = .ok (some cfg)) :
    Overwritable node where
  names := (readsAs_of_read hread).names
  application := (readsAs_of_read hread).application

/-- A name or a configuration that is refused leaves the key as it is. -/
theorem exec_write_refused {faults : ℕ → Option Fault}
    (hrefused : validateServiceName service ≠ .ok () ∨ validateManagedConfig fold cfg ≠ .ok ()) :
    ∃ e, (writeManagedConfig service cfg).exec ⟨node, faults⟩ = (.error e, ⟨node, faults⟩) := by
  by_cases hvalid : validateManagedConfig fold cfg = .ok ()
  · have hname := hrefused.resolve_right fun h => h hvalid
    unfold writeManagedConfig
    rw [Prog.exec_bind]
    rcases hchecked : validateServiceName service with e | ⟨⟩
    · exact ⟨e, rfl⟩
    · exact absurd hchecked hname
  · exact exec_writeManagedConfig_refused hvalid _

/-- Whatever a write does, the key can be overwritten again; when it returns, the fields are
those of the configuration. -/
theorem of_write (hnode : Overwritable node) {faults : ℕ → Option Fault} {outcome : Result Unit}
    {w : World (Params fold σ)}
    (hrun : (writeManagedConfig service cfg).exec ⟨node, faults⟩ = (outcome, w)) :
    Overwritable w.node ∧
      (outcome = .ok () → ∀ f, stored w.node f = configured fold cfg f) := by
  by_cases hvalid : validateServiceName service = .ok () ∧ validateManagedConfig fold cfg = .ok ()
  · obtain ⟨hname, hconfig⟩ := hvalid
    obtain ⟨exits, hpreflight⟩ := exists_exits_of_valid hconfig
    have haccepted := accepted_of_preflightConfig fold hpreflight
    have hruns := runs_writeManagedConfig hname hpreflight hnode.names hnode.application faults
    rcases outcome with e | ⟨⟩
    · have hmidway := (Prog.wp_error _ hruns hrun).1
      refine ⟨⟨hmidway.names, ?_⟩, by simp⟩
      exact applicationPresent_of_midway haccepted hmidway hnode.application
    · have hwritten := (Prog.wp_ok _ hruns hrun).1
      refine ⟨⟨hwritten.names, applicationPresent_of_written haccepted hwritten⟩, ?_⟩
      exact fun _ f => stored_of_written haccepted hwritten f
  · obtain ⟨e, hrefused⟩ := exec_write_refused (not_and_or.mp hvalid)
    rw [hrefused] at hrun
    cases hrun
    exact ⟨hnode, by simp⟩

/-- Of a backend whose key was overwritten with a configuration. -/
def Restored (cfg : ManagedApplicationConfig) (after : Backend fold σ) : Prop :=
  after.calls.getLast? ≠ some (.write false) → ∀ f, stored after.key f = configured fold cfg f

theorem wp_write_stored {b : Backend fold σ} (hnode : Overwritable b.key)
    {Q : Unit → Backend fold σ → Prop} {R : Error → Backend fold σ → Prop}
    (hok : ∀ after, Overwritable after.key → (∀ f, stored after.key f = configured fold cfg f) →
      Restored cfg after → Q () after)
    (herror : ∀ e after, Overwritable after.key → Restored cfg after → R e after) :
    (writeManagedBackend service cfg).wp Q R b := by
  apply wp_writeManagedBackend
  · intro w hrun
    obtain ⟨hagain, hfields⟩ := of_write hnode hrun
    exact hok _ hagain (hfields rfl) fun _ => hfields rfl
  · intro e w hrun
    obtain ⟨hagain, -⟩ := of_write hnode hrun
    refine herror e _ hagain fun hlast => ?_
    simp [Backend.afterWrite] at hlast

end

/-! ## Edits -/

/-- The fields an edit asks for. -/
def EditSpec.Touches (spec : EditSpec) : Field → Bool
  | .application => spec.application.isSome
  | .appParameters => spec.appParameters.isSome
  | .appDirectory => spec.appDirectory.isSome
  | .stdout => spec.stdout.isSome
  | .stderr => spec.stderr.isSome
  | _ => false

section

variable {spec : EditSpec} {original managed : ManagedApplicationConfig}

/-- Dropping the marks of one value makes no difference to another. -/
theorem registryIsExpandable_of_dropMark {path : Option String} {key name : String}
    {cfg cfg' : ManagedApplicationConfig}
    (hdrop : cfg'.expandableStrings = dropMark path key cfg.expandableStrings)
    (hspared : path ≠ none → windowsNameKey fold name ≠ windowsNameKey fold key) :
    registryIsExpandable fold cfg' name = registryIsExpandable fold cfg name := by
  rw [Bool.eq_iff_iff, registryIsExpandable_iff, registryIsExpandable_iff, hdrop]
  constructor
  · rintro ⟨m, hm, hsame⟩
    exact ⟨m, (mem_dropMark.mp hm).1, hsame⟩
  · rintro ⟨m, hm, hsame⟩
    refine ⟨m, mem_dropMark.mpr ⟨hm, ?_⟩, hsame⟩
    rintro ⟨rfl, hdropped⟩
    exact hspared (by simp) (hsame.symm.trans (windowsNameKey_of_eqIgnoreAsciiCase hdropped))

theorem key_ne_of_ne {name name' : String} (hname : name ∈ scalarNames)
    (hname' : name' ∈ scalarNames) (hne : name ≠ name') :
    windowsNameKey fold name ≠ windowsNameKey fold name' :=
  fun hsame => hne (List.inj_on_of_nodup_map scalarKeys_nodup hname hname' hsame)

/-- A string that is not asked for is expanded as before. -/
theorem registryIsExpandable_of_merge (hmerge : mergeManagedFields original spec = .ok managed)
    {name : String} (hname : name ∈ scalarNames) (hout : spec.stdout ≠ none → name ≠ appStdout)
    (herr : spec.stderr ≠ none → name ≠ appStderr) :
    registryIsExpandable fold managed name = registryIsExpandable fold original name := by
  unfold mergeManagedFields at hmerge
  split at hmerge
  · cases hmerge
  · cases hmerge
    let marked := dropMark spec.stdout "AppStdout" original.expandableStrings
    have hfirst : registryIsExpandable fold { original with expandableStrings := marked } name =
        registryIsExpandable fold original name := by
      apply registryIsExpandable_of_dropMark rfl
      exact fun hasked => key_ne_of_ne hname (by decide) (hout hasked)
    rw [← hfirst]
    apply registryIsExpandable_of_dropMark rfl
    exact fun hasked => key_ne_of_ne hname (by decide) (herr hasked)

/-- The configuration an edit writes has what it had in all other fields. -/
theorem configured_of_merge (hmerge : mergeManagedFields original spec = .ok managed) {f : Field}
    (hspared : spec.Touches f = false) :
    configured fold managed f = configured fold original f := by
  have hexpand : ∀ name ∈ expandableNames, (spec.stdout ≠ none → name ≠ appStdout) →
      (spec.stderr ≠ none → name ≠ appStderr) →
      registryIsExpandable fold managed name = registryIsExpandable fold original name :=
    fun name hname => registryIsExpandable_of_merge hmerge (scalar_of_expandable hname)
  obtain ⟨happ, hparams, hdir, hout, herr, hin, htimestamp, henv, hextra, hpriority, haffinity,
    hrestart, hshutdown, hrotation, hexits, -, -⟩ := replaces_of_merge hmerge
  have hplain : ∀ name ∈ [application, appParameters, appDirectory, appAffinity, appStdin],
      registryIsExpandable fold managed name = registryIsExpandable fold original name := by
    intro name hname
    have hlisted : ∀ name ∈ [application, appParameters, appDirectory, appAffinity, appStdin],
        name ∈ expandableNames ∧ name ≠ appStdout ∧ name ≠ appStderr := by decide
    obtain ⟨hexpandable, hne, hne'⟩ := hlisted name hname
    exact hexpand name hexpandable (fun _ => hne) fun _ => hne'
  cases f with
  | application =>
      rw [EditSpec.Touches, Option.isSome_eq_false_iff, Option.isNone_iff_eq_none] at hspared
      simp only [configured, configuredText, happ, hspared, Option.none_or,
        hplain application (by simp)]
  | appParameters =>
      rw [EditSpec.Touches, Option.isSome_eq_false_iff, Option.isNone_iff_eq_none] at hspared
      simp only [configured, configuredText, hparams, hspared, Option.none_or,
        hplain appParameters (by simp)]
  | appDirectory =>
      rw [EditSpec.Touches, Option.isSome_eq_false_iff, Option.isNone_iff_eq_none] at hspared
      simp only [configured, configuredText, hdir, hspared, Option.none_or,
        hplain appDirectory (by simp)]
  | stdout =>
      rw [EditSpec.Touches, Option.isSome_eq_false_iff, Option.isNone_iff_eq_none] at hspared
      simp only [configured, configuredStream, hout.1 hspared]
      rw [hexpand appStdout (by decide) (fun hasked => absurd hspared hasked)
        (fun _ => by decide)]
  | stderr =>
      rw [EditSpec.Touches, Option.isSome_eq_false_iff, Option.isNone_iff_eq_none] at hspared
      simp only [configured, configuredStream, herr.1 hspared]
      rw [hexpand appStderr (by decide) (fun _ => by decide)
        (fun hasked => absurd hspared hasked)]
  | affinity => simp only [configured, configuredText, haffinity, hplain appAffinity (by simp)]
  | stdin => simp only [configured, configuredStream, hin, hplain appStdin (by simp)]
  | exitActions => simp only [configured, normalizedExitActions, hexits, hrestart]
  | _ => simp only [configured, henv, hextra, hpriority, hrestart, hshutdown, htimestamp, hrotation]

/-- An operation that fails and does not say that its rollback failed changes no field. -/
def Untouched (before after : Backend fold σ) : Prop :=
  after.calls.getLast? ≠ some (.write false) → ∀ f, stored after.key f = stored before.key f

/-- An operation that succeeds changes what it asks for. -/
def Spared (touches : Field → Bool) (before after : Backend fold σ) : Prop :=
  ∀ f, touches f = false → stored after.key f = stored before.key f

theorem wp_rollback_stored {b : Backend fold σ} (hnode : Overwritable b.key) {error : Error}
    {nativeAttempted : Bool} {R : Error → Backend fold σ → Prop} :
    (rollbackManaged spec original error nativeAttempted).wp
      (fun _ after => Restored original after) R b := by
  apply wp_rollbackManaged
  intro report rollback w hrun hlast
  cases rollback with
  | ok u => exact (of_write hnode hrun).2 rfl
  | error e => simp [Backend.afterWrite, Except.isOk, Except.toBool] at hlast

theorem wp_editManaged_stored {b : Backend fold σ} (hnode : Overwritable b.key)
    (hbefore : ∀ f, stored b.key f = configured fold original f) :
    (editManaged spec original).wp
      (fun _ after => Overwritable after.key ∧ Spared spec.Touches b after)
      (fun _ after => Restored original after) b := by
  unfold editManaged
  rw [Prog.wp_bind, Prog.wp_liftExcept]
  rcases hmerge : mergeManagedFields original spec with e | managed
  · exact fun _ => hbefore
  simp only
  rw [Prog.wp_bind, Prog.wp_liftExcept]
  rcases validateManagedConfig fold managed with e | ⟨⟩
  · exact fun _ => hbefore
  simp only
  rw [Prog.wp_bind, Prog.wp_attempt]
  apply wp_write_stored hnode
  · intro after hagain hfields _
    refine ⟨hagain, fun f hspared => ?_⟩
    rw [hfields f, hbefore f]
    exact configured_of_merge hmerge hspared
  · intro e after hagain _
    simp only [Prog.wp_bind]
    exact wp_rollback_stored hagain

theorem wp_editNative_stored {b : Backend fold σ} (hnode : Overwritable b.key) :
    (editNative spec original).wp (fun _ after => after.key = b.key)
      (fun _ after => after.key = b.key ∧ spec.touchesManaged = false ∨ Restored original after)
      b := by
  unfold editNative updateNative
  rw [Prog.wp_bind, Prog.wp_attempt, Prog.wp_step]
  cases b.nativeError with
  | none => rfl
  | some e =>
      cases htouches : spec.touchesManaged with
      | false => exact .inl ⟨rfl, rfl⟩
      | true =>
          simp only [if_true, Prog.wp_bind]
          refine Prog.wp_mono _ ?_ (fun _ _ h => h) (wp_rollback_stored ?_)
          · intro report after hrestored
            exact .inr hrestored
          · exact hnode

/-- Both parts of an edit, on a key that reads as `original`. -/
theorem wp_editParts_stored {b : Backend fold σ} (hnode : Overwritable b.key)
    (hbefore : ∀ f, stored b.key f = configured fold original f) (message : String) :
    (do
      (if spec.touchesManaged then editManaged spec original else pure ())
      (if spec.touchesNative then editNative spec original else pure ())
      pure message : OpM fold σ String).wp (fun _ after => Spared spec.Touches b after)
      (fun _ after => Untouched b after) b := by
  have hrestored : ∀ {after}, Restored original after → Untouched b after :=
    fun hrestored hlast f => (hrestored hlast f).trans (hbefore f).symm
  have hnative : ∀ mid : Backend fold σ, Overwritable mid.key → Spared spec.Touches b mid →
      (spec.touchesManaged = false → mid.key = b.key) →
      (do
        (if spec.touchesNative then editNative spec original else pure ())
        pure message : OpM fold σ String).wp (fun _ after => Spared spec.Touches b after)
        (fun _ after => Untouched b after) mid := by
    intro mid hmid hspared hsame
    rw [Prog.wp_bind]
    split
    · refine Prog.wp_mono _ ?_ ?_ (wp_editNative_stored hmid)
      · rintro ⟨⟩ after hkey f hf
        rw [hkey]
        exact hspared f hf
      · rintro e after (⟨hkey, htouches⟩ | hback)
        · intro _ f
          rw [hkey, hsame htouches]
        · exact hrestored hback
    · exact hspared
  rw [Prog.wp_bind]
  split
  · rename_i htouches
    refine Prog.wp_mono _ ?_ (fun _ _ hback => hrestored hback)
      (wp_editManaged_stored hnode hbefore)
    rintro ⟨⟩ mid ⟨hmid, hspared⟩
    apply hnative mid hmid hspared
    intro hnone
    rw [htouches] at hnone
    cases hnone
  · exact hnative b hnode (fun _ _ => rfl) fun _ => rfl

/-- What an edit leaves alone. -/
theorem wp_edit_stored (spec : EditSpec) (b : Backend fold σ) :
    (editWithBackend spec).wp (fun _ after => Spared spec.Touches b after)
      (fun _ after => Untouched b after) b := by
  unfold editWithBackend
  split
  · rw [Prog.wp_bind, Prog.wp_liftExcept]
    rcases validateNativeUpdate spec with e | ⟨⟩
    · exact fun _ _ => rfl
    unfold lockServiceConfig
    simp only
    rw [Prog.wp_bind, Prog.wp_step]
    rcases b.lockError with _ | e
    · unfold readManagedBackend
      simp only
      rw [Prog.wp_bind, Prog.wp_step]
      rcases b.readError with _ | e
      · simp only
        rcases hread : readManagedFromKey b.key spec.name with e | _ | original
        · exact fun _ _ => rfl
        · exact fun _ _ => rfl
        · let mid : Backend fold σ := { b with
            readError := none
            calls := b.calls ++ [.read] }
          exact wp_editParts_stored (b := mid) (overwritable_of_read hread)
            (fun f => stored_of_read hread f) _
      · exact fun _ _ => rfl
    · exact fun _ _ => rfl
  · exact fun _ _ => rfl

end

/-! ## Recovery policies -/

/-- The fields a policy is made of. -/
def recoveryTouches : Field → Bool
  | .restartDelay => true
  | .throttle => true
  | .exitActions => true
  | _ => false

theorem configured_of_applyRecovery (original : ManagedApplicationConfig) (spec : RecoverySpec)
    {f : Field} (hspared : recoveryTouches f = false) :
    configured fold (applyRecovery original spec) f = configured fold original f := by
  cases f with
  | restartDelay => cases hspared
  | throttle => cases hspared
  | exitActions => cases hspared
  | _ => rfl

theorem wp_writeRecovery_stored {b : Backend fold σ} (hnode : Overwritable b.key) (name : String)
    (original managed : ManagedApplicationConfig) :
    (writeRecovery name original managed).wp
      (fun _ after => ∀ f, stored after.key f = configured fold managed f)
      (fun _ after => Restored original after) b := by
  unfold writeRecovery
  rw [Prog.wp_bind, Prog.wp_attempt]
  apply wp_write_stored hnode
  · exact fun after _ hfields _ => hfields
  · intro e after hagain _
    simp only [Prog.wp_bind, Prog.wp_attempt]
    apply wp_write_stored hagain
    · exact fun last _ hfields _ _ => hfields
    · exact fun _ last _ hrestored => hrestored

theorem wp_save_stored (spec : RecoverySpec) (b : Backend fold σ) :
    (saveRecoveryWithBackend spec).wp (fun _ after => Spared recoveryTouches b after)
      (fun _ after => Untouched b after) b := by
  unfold saveRecoveryWithBackend
  rw [Prog.wp_bind, Prog.wp_liftExcept]
  rcases spec.exitActions.keys.forM validateRecoveryCode with e | ⟨⟩
  · exact fun _ _ => rfl
  unfold lockServiceConfig
  simp only
  rw [Prog.wp_bind, Prog.wp_step]
  rcases b.lockError with _ | e
  · unfold readManagedBackend
    simp only
    rw [Prog.wp_bind, Prog.wp_step]
    rcases b.readError with _ | e
    · simp only
      rcases hread : readManagedFromKey b.key spec.name with e | _ | original
      · exact fun _ _ => rfl
      · exact fun _ _ => rfl
      · simp only
        rw [Prog.wp_bind, Prog.wp_liftExcept]
        rcases validateManagedConfig fold (applyRecovery original spec) with e | ⟨⟩
        · exact fun _ _ => rfl
        · refine Prog.wp_mono _ ?_ ?_ (wp_writeRecovery_stored ?_ _ _ _)
          · intro message after hfields f hspared
            rw [hfields f, configured_of_applyRecovery original spec hspared]
            exact (stored_of_read hread f).symm
          · intro e after hrestored hlast f
            exact (hrestored hlast f).trans (stored_of_read hread f).symm
          · exact overwritable_of_read hread
    · exact fun _ _ => rfl
  · exact fun _ _ => rfl

theorem wp_update_stored (name : String) (update : RecoverySpec → Result RecoverySpec)
    (b : Backend fold σ) :
    (updateRecoveryWithBackend name update).wp
      (fun _ after => Spared recoveryTouches b after) (fun _ after => Untouched b after) b := by
  unfold updateRecoveryWithBackend lockServiceConfig
  rw [Prog.wp_bind, Prog.wp_step]
  rcases b.lockError with _ | e
  · unfold readRecoveryWithBackend readManagedBackend
    simp only
    rw [Prog.wp_bind, Prog.wp_bind, Prog.wp_step]
    rcases b.readError with _ | e
    · simp only
      rcases readManagedFromKey b.key name with e | _ | original
      · exact fun _ _ => rfl
      · exact fun _ _ => rfl
      · simp only [Prog.wp_pure]
        rw [Prog.wp_bind, Prog.wp_liftExcept]
        rcases update (recoveryOf name original) with e | spec
        · exact fun _ _ => rfl
        · simp only
          split
          · exact fun _ _ => rfl
          · exact wp_save_stored spec _
    · exact fun _ _ => rfl
  · exact fun _ _ => rfl

end Ngsm.Ops
