/-
# What a key stores, field by field

The operations change different parts of a configuration.  A field is one part, and its content
is what the reader makes of the values it is stored in: several values can mean the same.  A
stream is one field with its attributes, which mean nothing without a path, and so are the two
halves of the rotation threshold.  The content of a field is defined for every key, also for
one that does not read as a whole.
-/

import Ngsm.Lib.Keeps
import Ngsm.Ops.EditAtomic
import Ngsm.Ops.Recovery
import Ngsm.Ops.ValueCalls
import Ngsm.Registry.ExitNames

namespace Ngsm.Ops

open Ngsm.Lib Ngsm.Core Ngsm.Registry NssmKeys

variable {fold : NameFold} {σ : Type}

/-! ## Fields -/

inductive Field where
  | application
  | appParameters
  | appDirectory
  | affinity
  | environment
  | environmentExtra
  | priority
  | restartDelay
  | throttle
  | stopMethodSkip
  | killConsoleGrace
  | killWindowGrace
  | killThreadsGrace
  | killProcessTree
  | stdin
  | stdout
  | stderr
  | timestampLog
  | rotate
  | rotateOnline
  | rotateSeconds
  | rotateBytes
  | rotateDelay
  | exitActions
  deriving DecidableEq, Repr

/-- What a field can contain.  Of a string that is stored, or the path of a stream, it is also
known whether variables in it are expanded. -/
inductive Content where
  | text (value : Option (String × Bool))
  | stream (value : Option (IoStream × Bool))
  | list (entries : List String)
  | number (value : Option UInt32)
  | flag (value : Option Bool)
  | size (value : Option UInt64)
  | exits (value : Option ExitActions)

namespace Field

/-- The values a field is stored in; the exit actions are stored in a subkey. -/
def valueNames : Field → List String
  | application => [NssmKeys.application]
  | appParameters => [NssmKeys.appParameters]
  | appDirectory => [NssmKeys.appDirectory]
  | affinity => [appAffinity]
  | environment => [appEnvironment]
  | environmentExtra => [appEnvironmentExtra]
  | priority => [appPriority]
  | restartDelay => [appRestartDelay]
  | throttle => [appThrottle]
  | stopMethodSkip => [appStopMethodSkip]
  | killConsoleGrace => [appKillConsoleGrace]
  | killWindowGrace => [appKillWindowGrace]
  | killThreadsGrace => [appKillThreadsGrace]
  | killProcessTree => [appKillProcessTree]
  | stdin => appStdin :: stdioAttributeNames appStdin
  | stdout => appStdout :: stdioAttributeNames appStdout
  | stderr => appStderr :: stdioAttributeNames appStderr
  | timestampLog => [appTimestampLog]
  | rotate => [appRotate]
  | rotateOnline => [appRotateOnline]
  | rotateSeconds => [appRotateSeconds]
  | rotateBytes => [appRotateBytesLow, appRotateBytesHigh]
  | rotateDelay => [appRotateDelay]
  | exitActions => []

end Field

/-! ## Contents -/

section

variable (node : Params fold σ)

def storedText (name : String) : Content :=
  .text ((textAt node name).map fun text => (text.1, text.2 == regExpandSz))

def storedStream (base : String) : Content :=
  .stream ((streamAt node base).map fun stream => (stream, isExpandAt node base))

def storedList (name : String) : Content :=
  .list ((listAt node name).getD [])

def storedNumber (name : String) : Content :=
  .number (numberAt node name)

def storedFlag (name : String) : Content :=
  .flag ((numberAt node name).map (· != 0))

/-- What a key has in a field. -/
def stored : Field → Content
  | .application => storedText node application
  | .appParameters => storedText node appParameters
  | .appDirectory => storedText node appDirectory
  | .affinity => storedText node appAffinity
  | .environment => storedList node appEnvironment
  | .environmentExtra => storedList node appEnvironmentExtra
  | .priority => storedNumber node appPriority
  | .restartDelay => storedNumber node appRestartDelay
  | .throttle => storedNumber node appThrottle
  | .stopMethodSkip => storedNumber node appStopMethodSkip
  | .killConsoleGrace => storedNumber node appKillConsoleGrace
  | .killWindowGrace => storedNumber node appKillWindowGrace
  | .killThreadsGrace => storedNumber node appKillThreadsGrace
  | .killProcessTree => storedFlag node appKillProcessTree
  | .stdin => storedStream node appStdin
  | .stdout => storedStream node appStdout
  | .stderr => storedStream node appStderr
  | .timestampLog => storedFlag node appTimestampLog
  | .rotate => storedFlag node appRotate
  | .rotateOnline => storedNumber node appRotateOnline
  | .rotateSeconds => storedNumber node appRotateSeconds
  | .rotateBytes => .size
      (rotateBytes (numberAt node appRotateBytesLow) (numberAt node appRotateBytesHigh))
  | .rotateDelay => storedNumber node appRotateDelay
  | .exitActions => .exits (field (readExitActions node))

end

section

variable (fold : NameFold) (cfg : ManagedApplicationConfig)

def configuredText (name : String) (value : Option String) : Content :=
  .text (value.map fun text => (text, registryIsExpandable fold cfg name))

def configuredStream (base : String) (value : Option IoStream) : Content :=
  .stream (value.map fun stream => (stream, registryIsExpandable fold cfg base))

/-- What a configuration has in a field. -/
def configured : Field → Content
  | .application => configuredText fold cfg application cfg.application
  | .appParameters => configuredText fold cfg appParameters cfg.appParameters
  | .appDirectory => configuredText fold cfg appDirectory cfg.appDirectory
  | .affinity => configuredText fold cfg appAffinity cfg.affinity
  | .environment => .list cfg.environment
  | .environmentExtra => .list cfg.environmentExtra
  | .priority => .number cfg.priority
  | .restartDelay => .number cfg.restart.restartDelayMs
  | .throttle => .number cfg.restart.throttleDelayMs
  | .stopMethodSkip => .number cfg.shutdown.stopMethodSkip
  | .killConsoleGrace => .number cfg.shutdown.killConsoleGraceMs
  | .killWindowGrace => .number cfg.shutdown.killWindowGraceMs
  | .killThreadsGrace => .number cfg.shutdown.killThreadsGraceMs
  | .killProcessTree => .flag cfg.shutdown.killProcessTree
  | .stdin => configuredStream fold cfg appStdin cfg.io.stdin
  | .stdout => configuredStream fold cfg appStdout cfg.io.stdout
  | .stderr => configuredStream fold cfg appStderr cfg.io.stderr
  | .timestampLog => .flag cfg.io.timestampLog
  | .rotate => .flag cfg.rotation.enabled
  | .rotateOnline => .number cfg.rotation.online
  | .rotateSeconds => .number cfg.rotation.seconds
  | .rotateBytes => .size cfg.rotation.bytes
  | .rotateDelay => .number cfg.rotation.delayMs
  | .exitActions => .exits (field (normalizedExitActions cfg))

end

/-! ## Frames -/

section

variable {node node' : Params fold σ} {name : String}

theorem textAt_congr (hsame : node'.value? name = node.value? name) :
    textAt node' name = textAt node name := by
  simp only [textAt, readTypedString, queryValueRaw_congr hsame]

theorem listAt_congr (hsame : node'.value? name = node.value? name) :
    listAt node' name = listAt node name := by
  simp only [listAt, readMultiString, queryValueRaw_congr hsame]

theorem numberAt_congr (hsame : node'.value? name = node.value? name) :
    numberAt node' name = numberAt node name := by
  simp only [numberAt, readU32, queryValueRaw_congr hsame]

theorem storedStream_congr {base : String}
    (hsame : ∀ name ∈ base :: stdioAttributeNames base, node'.value? name = node.value? name) :
    storedStream node' base = storedStream node base := by
  simp only [stdioAttributeNames, List.forall_mem_cons] at hsame
  obtain ⟨hbase, hshare, hdisposition, hflags, hcopy, -⟩ := hsame
  simp only [storedStream, streamAt, isExpandAt, textAt_congr hbase, numberAt_congr hshare,
    numberAt_congr hdisposition, numberAt_congr hflags, numberAt_congr hcopy]

/-- A field depends on its own values and on nothing else of the key. -/
theorem stored_congr (hsubkeys : node'.subkeys = node.subkeys) {f : Field}
    (hsame : ∀ name ∈ f.valueNames, node'.value? name = node.value? name) :
    stored node' f = stored node f := by
  cases f with
  | stdin => exact storedStream_congr hsame
  | stdout => exact storedStream_congr hsame
  | stderr => exact storedStream_congr hsame
  | exitActions =>
      have hsubkey : node'.subkey? appExit = node.subkey? appExit := by
        rw [Node.subkey?, hsubkeys, Node.subkey?]
      simp only [stored, readExitActions, hsubkey]
  | rotateBytes =>
      simp only [Field.valueNames, List.forall_mem_cons] at hsame
      simp only [stored, numberAt_congr hsame.1, numberAt_congr hsame.2.1]
  | _ =>
      simp only [Field.valueNames, List.forall_mem_cons] at hsame
      simp only [stored, storedText, storedList, storedNumber, storedFlag, textAt_congr hsame.1,
        listAt_congr hsame.1, numberAt_congr hsame.1]

end

/-! ## Keys that read -/

theorem settled_of_optional {α : Type} {read : Result α} {found : Option α}
    (hread : Registry.optional read = .ok found) : Settled read := by
  rcases read with e | v
  · cases e with
    | notFound context => exact settled_of_notFound rfl
    | _ => cases hread
  · exact settled_of_ok rfl

section

variable {node : Params fold σ} {name : String} {marked : Std.ExtTreeSet String} {β : Type}
  {Q : β → Std.ExtTreeSet String → Prop}

theorem wp_optU32_settled {f : Option UInt32 → ReadM β}
    (hnext : Settled (readU32 node name) → ∀ v marked', (f v).wp Q (fun _ _ => True) marked') :
    (optU32 node name >>= f).wp Q (fun _ _ => True) marked := by
  rw [Prog.wp_bind, optU32, Prog.wp_liftExcept]
  rcases hread : Registry.optional (readU32 node name) with e | found
  · trivial
  · exact hnext (settled_of_optional hread) found marked

theorem wp_optMultiString_settled {f : Option (List String) → ReadM β}
    (hnext : Settled (readMultiString node name) →
      ∀ v marked', (f v).wp Q (fun _ _ => True) marked') :
    (optMultiString node name >>= f).wp Q (fun _ _ => True) marked := by
  rw [Prog.wp_bind, optMultiString, Prog.wp_liftExcept]
  rcases hread : Registry.optional (readMultiString node name) with e | found
  · trivial
  · exact hnext (settled_of_optional hread) found marked

theorem wp_optConfigString_settled {f : Option String → ReadM β}
    (hnext : Settled (readTypedString node name) →
      ∀ marked', (f ((textAt node name).map Prod.fst)).wp Q (fun _ _ => True) marked') :
    (optConfigString node name >>= f).wp Q (fun _ _ => True) marked := by
  rw [Prog.wp_bind]
  rcases hread : Registry.optional (readTypedString node name) with e | found
  · unfold optConfigString
    rw [Prog.wp_bind, Prog.wp_liftExcept, hread]
    trivial
  · have hsettled := settled_of_optional hread
    rw [wp_optConfigString_field hsettled]
    exact hnext hsettled _

/-- The attributes of a stream are looked at when it has a path. -/
theorem wp_readIoStream_settled {base : String} {f : Option IoStream → ReadM β}
    (hnext : Settled (readTypedString node base) → ((streamAt node base).isSome = true →
      ∀ name ∈ stdioAttributeNames base, Settled (readU32 node name)) →
        ∀ stream marked', (f stream).wp Q (fun _ _ => True) marked') :
    (readIoStream node base >>= f).wp Q (fun _ _ => True) marked := by
  have hpath : (streamAt node base).isSome =
      (((textAt node base).map Prod.fst).filter (!·.isEmpty)).isSome := by
    rw [streamAt, Option.isSome_map]
  rw [Prog.wp_bind]
  unfold readIoStream
  apply wp_optConfigString_settled
  intro hbase marked'
  rcases htext : (textAt node base).map Prod.fst with _ | path
  · apply hnext hbase
    intro hsome
    rw [hpath, htext] at hsome
    cases hsome
  · cases hempty : path.isEmpty with
    | true =>
        simp only [hempty, if_true]
        apply hnext hbase
        intro hsome
        rw [hpath, htext] at hsome
        simp [Option.filter, hempty] at hsome
    | false =>
        simp only [hempty, Bool.false_eq_true, if_false]
        apply wp_optU32_settled
        intro hshare _ _
        apply wp_optU32_settled
        intro hdisposition _ _
        apply wp_optU32_settled
        intro hflags _ _
        apply wp_optU32_settled
        intro hcopy _ _
        apply hnext hbase
        intro _
        simp only [stdioAttributeNames, List.forall_mem_cons]
        exact ⟨hshare, hdisposition, hflags, hcopy, by simp⟩

/-- A key that reads is legible. -/
theorem legible_of_read {service : String} {cfg : ManagedApplicationConfig}
    (hread : readManagedFromKey node service = .ok (some cfg)) : Legible node := by
  refine of_readManagedFromKey (fun _ => Legible node)
    (fun app value marked hvalue hholds _ => ?_) hread
  have happ : Settled (readTypedString node application) :=
    settled_of_ok (readTypedString_of_holds hvalue hholds)
  unfold readFields
  refine wp_optU32_settled fun hlow _ _ => ?_
  refine wp_optU32_settled fun hhigh _ _ => ?_
  rw [Prog.wp_bind, Prog.wp_liftExcept]
  rcases readExitActions node with e | exits
  · trivial
  refine wp_optConfigString_settled fun hparameters _ => ?_
  refine wp_optConfigString_settled fun hdirectory _ => ?_
  refine wp_optMultiString_settled fun henvironment _ _ => ?_
  refine wp_optMultiString_settled fun hextra _ _ => ?_
  refine wp_optU32_settled fun hpriority _ _ => ?_
  refine wp_optConfigString_settled fun haffinity _ => ?_
  refine wp_optU32_settled fun hrestart _ _ => ?_
  refine wp_optU32_settled fun hthrottle _ _ => ?_
  refine wp_optU32_settled fun hskip _ _ => ?_
  refine wp_optU32_settled fun hconsole _ _ => ?_
  refine wp_optU32_settled fun hwindow _ _ => ?_
  refine wp_optU32_settled fun hthreads _ _ => ?_
  refine wp_optU32_settled fun htree _ _ => ?_
  refine wp_readIoStream_settled fun hstdin hstdin' _ _ => ?_
  refine wp_readIoStream_settled fun hstdout hstdout' _ _ => ?_
  refine wp_readIoStream_settled fun hstderr hstderr' _ _ => ?_
  refine wp_optU32_settled fun htimestamp _ _ => ?_
  refine wp_optU32_settled fun hrotate _ _ => ?_
  refine wp_optU32_settled fun honline _ _ => ?_
  refine wp_optU32_settled fun hseconds _ _ => ?_
  refine wp_optU32_settled fun hdelay _ _ => ?_
  refine wp_skip _ fun _ _ => ?_
  constructor
  · simp only [managedValueKinds, List.forall_mem_cons, OfKind]
    exact ⟨happ, hparameters, hdirectory, henvironment, hextra, hpriority, haffinity, hrestart,
      hthrottle, hskip, hconsole, hwindow, hthreads, htree, hstdin, hstdout, hstderr, hrotate,
      honline, hseconds, hlow, hhigh, hdelay, htimestamp, by simp⟩
  · simp only [List.forall_mem_cons]
    exact ⟨hstdin', hstdout', hstderr', by simp⟩

end

/-! ## Marks -/

/-- A mark of a hook. -/
def IsHookMark (m : String) : Prop :=
  ∃ event action, m = ManagedApplicationConfig.hookExpansionKey event action

section

variable {marked : Std.ExtTreeSet String}

/-- The reader of the hooks adds marks of hooks only. -/
def HookMarked (marked marked' : Std.ExtTreeSet String) : Prop :=
  ∀ m ∈ marked', m ∈ marked ∨ IsHookMark m

theorem keeps_mark (event action : String) :
    Prog.Keeps (HookMarked marked) (fun _ => True)
      (mark (ManagedApplicationConfig.hookExpansionKey event action)) := by
  intro marked' hold m hm
  rcases Std.ExtTreeSet.mem_insert.mp hm with hnew | hm
  · exact .inr ⟨event, action, (Std.LawfulEqCmp.eq_of_compare hnew).symm⟩
  · exact hold m hm

theorem keeps_readHook (event : String) (out : List HookConfig)
    (entry : String × String × UInt32) :
    Prog.Keeps (HookMarked marked) (fun _ => True) (readHook event out entry) := by
  apply Prog.Keeps.bind (.liftExcept fun _ _ => trivial)
  intro _
  split
  · apply Prog.Keeps.bind (keeps_mark event entry.1)
    intro _
    exact .pure _
  · exact .pure _

theorem keeps_readEvent (events : Node fold (Node fold σ)) (out : List HookConfig)
    (event : String) :
    Prog.Keeps (HookMarked marked) (fun _ => True) (readEvent events out event) := by
  unfold readEvent
  apply Prog.Keeps.bind (.liftExcept fun _ _ => trivial)
  intro _
  split
  · exact .pure _
  · apply Prog.Keeps.bind (.liftExcept fun _ _ => trivial)
    intro entries
    exact .foldlM fun out entry => keeps_readHook event out entry

theorem keeps_readHooks (node : Params fold σ) :
    Prog.Keeps (HookMarked marked) (fun _ => True) (readHooks node) := by
  unfold readHooks
  split
  · exact .pure _
  · apply Prog.Keeps.bind (.liftExcept fun _ _ => trivial)
    intro events
    exact .foldlM fun out event => keeps_readEvent _ out event

end

/-- The marks of a configuration that was read: those of its strings, and those of its hooks. -/
theorem mem_marks_of_readHooks {node : Params fold σ} {hooks : List HookConfig}
    {marked : Std.ExtTreeSet String}
    (hhooks : (readHooks node).exec (stringMarks node) = (Except.ok hooks, marked)) {m : String}
    (hother : ¬ IsHookMark m) :
    m ∈ marked ↔ m ∈ expandableNames ∧ isExpandAt node m = true := by
  obtain ⟨outcome, added, huniform⟩ := uniform_readHooks node
  have hrun := huniform (stringMarks node)
  rw [hhooks] at hrun
  cases hrun
  rw [mem_foldl_insert, mem_stringMarks]
  constructor
  · rintro (hstring | hadded)
    · exact hstring
    · have hkept := Prog.wp_ok _ 
        ((keeps_readHooks node : Prog.Keeps (HookMarked ∅) _ _) ∅ (by simp [HookMarked]))
        (huniform ∅)
      rcases hkept m (mem_foldl_insert.mpr (.inr hadded)) with hnone | hhook
      · simp at hnone
      · exact absurd hhook hother
  · exact .inl

/-- The identity of a hook's mark has a separator in it, that of a value name has none. -/
theorem key_ne_of_isHookMark {m name : String} (hm : IsHookMark m) (hname : name ∈ scalarNames) :
    windowsNameKey fold m ≠ windowsNameKey fold name := by
  obtain ⟨event, action, rfl⟩ := hm
  intro hsame
  have hseparator : (0x5C : UInt16) ∈ asciiKey "AppEvents\\" := by decide
  have hplain : ∀ name ∈ scalarNames, (0x5C : UInt16) ∉ asciiKey name := by decide
  apply hplain name hname
  rw [← @windowsNameKey_of_isAscii fold _ (ascii_scalarName hname).1, ← hsame,
    windowsNameKey_hookExpansionKey, @windowsNameKey_of_isAscii fold "AppEvents\\" (by decide)]
  simp [hseparator]

theorem scalar_of_expandable {name : String} (hname : name ∈ expandableNames) :
    name ∈ scalarNames := by
  have hall : ∀ name ∈ expandableNames, name ∈ scalarNames := by decide
  exact hall name hname

/-- A string of a configuration that was read is marked exactly if it is stored for expansion. -/
theorem registryIsExpandable_of_read {node : Params fold σ} {exits : ExitActions}
    {hooks : List HookConfig} {marked : Std.ExtTreeSet String}
    (hhooks : (readHooks node).exec (stringMarks node) = (Except.ok hooks, marked)) {name : String}
    (hname : name ∈ expandableNames) :
    registryIsExpandable fold (configAt node exits hooks marked) name = isExpandAt node name := by
  have hscalar := scalar_of_expandable hname
  have hnot : ∀ m, windowsNameKey fold m = windowsNameKey fold name → ¬ IsHookMark m :=
    fun m hsame hhook => key_ne_of_isHookMark hhook hscalar hsame
  rw [Bool.eq_iff_iff, registryIsExpandable_iff]
  constructor
  · rintro ⟨m, hm, hsame⟩
    obtain ⟨hexpandable, hexpand⟩ := (mem_marks_of_readHooks hhooks (hnot m hsame)).mp hm
    rwa [← List.inj_on_of_nodup_map scalarKeys_nodup (scalar_of_expandable hexpandable) hscalar
      hsame]
  · intro hexpand
    exact ⟨name, (mem_marks_of_readHooks hhooks (hnot name rfl)).mpr ⟨hname, hexpand⟩, rfl⟩

/-! ## Exit actions -/

theorem eq_of_partOf {exits exits' : ExitActions} (h : PartOf exits exits')
    (h' : PartOf exits' exits) : exits = exits' := by
  apply Std.ExtTreeMap.ext_getElem?
  intro key
  apply Option.ext
  intro policy
  exact ⟨h key policy, h' key policy⟩

/-- Collecting entries of a policy gives a part of the policy that has them all. -/
theorem foldlM_insertExitAction {exits : ExitActions} (hkeys : ∀ key ∈ exits, IsExitKey key)
    (entries : List (String × ExitActionPolicy))
    (hentries : ∀ entry ∈ entries, exits[entry.1]? = some entry.2) (out : ExitActions)
    (hout : PartOf out exits) :
    ∃ out', entries.foldlM (fun out entry => insertExitAction out entry.1 entry.2.action) out =
        .ok out' ∧ PartOf out' exits ∧ PartOf out out' ∧
      ∀ entry ∈ entries, out'[entry.1]? = some entry.2 := by
  induction entries generalizing out with
  | nil => exact ⟨out, rfl, hout, fun _ _ h => h, by simp⟩
  | cons entry entries ih =>
      have hpolicy := hentries entry (by simp)
      have hmem : entry.1 ∈ exits := by
        rw [Std.ExtTreeMap.mem_iff_isSome_getElem?, hpolicy]
        rfl
      obtain ⟨next, hinsert, hnext, hgrow, hself⟩ :=
        insertExitAction_of_agree hpolicy (hkeys _ hmem) hout
      obtain ⟨out', hrun, hpart, hgrow', hall⟩ :=
        ih (fun e he => hentries e (by simp [he])) next hnext
      refine ⟨out', ?_, hpart, fun k p hk => hgrow' k p (hgrow k p hk), ?_⟩
      · rw [List.foldlM_cons, hinsert]
        exact hrun
      · rw [List.forall_mem_cons]
        exact ⟨hgrow' _ _ hself, hall⟩

/-- The keys of a policy that was read are normal. -/
theorem isExitKey_of_read {node : Params fold σ} {exits : ExitActions}
    (hread : readExitActions node = .ok exits) : ∀ key ∈ exits, IsExitKey key := by
  unfold readExitActions at hread
  split at hread
  · cases hread
    simp
  · obtain ⟨entries, -, hfold⟩ := Check.bind_eq_ok.mp hread
    refine Check.foldlM_invariant (fun _ (out : ExitActions) => ∀ key ∈ out, IsExitKey key)
      (by simp) ?_ hfold
    intro _ out out' entry _ hout hadd
    obtain ⟨name, -, hinsert⟩ := Check.bind_eq_ok.mp hadd
    split at hinsert
    · exact insertExitAction_keys hinsert hout
    · cases hinsert

/-- The policy of a configuration that was read is normal. -/
theorem normalizedExitActions_of_read {node : Params fold σ} {service : String}
    {cfg : ManagedApplicationConfig} (hread : readManagedFromKey node service = .ok (some cfg)) :
    normalizedExitActions cfg = .ok cfg.exitActions := by
  obtain ⟨hexits, hdefault⟩ := exits_of_read hread
  have hkeys := isExitKey_of_read hexits
  obtain ⟨out, hrun, hpart, -, hall⟩ := foldlM_insertExitAction hkeys cfg.exitActions.toList
    (fun entry hentry => Std.ExtTreeMap.mem_toList_iff_getElem?_eq_some.mp hentry) ∅
    (by intro key policy hnone; simp at hnone)
  have hsame : out = cfg.exitActions := by
    apply eq_of_partOf hpart
    intro key policy hpolicy
    exact hall (key, policy) (Std.ExtTreeMap.mem_toList_iff_getElem?_eq_some.mpr hpolicy)
  rw [normalizedExitActions, hrun, hdefault, hsame]
  rcases hpolicy : cfg.exitActions["default"]? with _ | policy
  · rfl
  · obtain ⟨out', hinsert, hpart', hgrow, -⟩ := insertExitAction_of_agree hpolicy (.inl rfl)
      (fun _ _ h => h : PartOf cfg.exitActions cfg.exitActions)
    rw [← eq_of_partOf hgrow hpart'] at hinsert
    exact hinsert

/-! ## Reading and writing -/

/-- A key that reads as a configuration has its fields. -/
theorem stored_of_read {node : Params fold σ} {service : String} {cfg : ManagedApplicationConfig}
    (hread : readManagedFromKey node service = .ok (some cfg)) (f : Field) :
    stored node f = configured fold cfg f := by
  have hnormal := normalizedExitActions_of_read hread
  have hactions := (exits_of_read hread).1
  obtain ⟨app, kind, exits, hooks, marked, happ, -, hexits, hhooks, rfl⟩ :=
    (reads_iff (legible_of_read hread)).mp hread
  have hmarks : ∀ name ∈ expandableNames,
      registryIsExpandable fold (configAt node exits hooks marked) name = isExpandAt node name :=
    fun name hname => registryIsExpandable_of_read hhooks hname
  have htext : ∀ name ∈ expandableNames, storedText node name =
      configuredText fold (configAt node exits hooks marked) name
        ((textAt node name).map Prod.fst) := by
    intro name hname
    rw [storedText, configuredText, hmarks name hname, isExpandAt]
    cases textAt node name <;> rfl
  have hstream : ∀ base ∈ expandableNames, storedStream node base =
      configuredStream fold (configAt node exits hooks marked) base (streamAt node base) := by
    intro base hbase
    rw [storedStream, configuredStream, hmarks base hbase]
  cases f with
  | application => exact htext _ (by decide)
  | appParameters => exact htext _ (by decide)
  | appDirectory => exact htext _ (by decide)
  | affinity => exact htext _ (by decide)
  | stdin => exact hstream _ (by decide)
  | stdout => exact hstream _ (by decide)
  | stderr => exact hstream _ (by decide)
  | exitActions => simp only [stored, configured, hnormal, hactions, field]
  | _ => rfl

section

variable {cfg : ManagedApplicationConfig} {exits : ExitActions} {node node' : Params fold σ}
  {name : String}

theorem numberAt_of_value {value : Option UInt32}
    (hvalue : node.value? name = value.map dwordValue) : numberAt node name = value := by
  cases value with
  | none =>
      rw [numberAt, readU32, queryValueRaw_of_none hvalue]
      rfl
  | some v =>
      rw [numberAt, readU32_of_dwordValue hvalue]
      rfl

theorem listAt_of_value {values : List String} (hstorable : ∀ v ∈ values, StorableEntry v)
    (hvalue : node.value? name = if values.isEmpty then none else some (multiValue values)) :
    (listAt node name).getD [] = values := by
  cases values with
  | nil =>
      rw [listAt, readMultiString, queryValueRaw_of_none hvalue]
      rfl
  | cons v values =>
      rw [listAt, readMultiString_of_multiValue hvalue hstorable]
      rfl

theorem textAt_of_value {value : Option String} {expandable : Bool}
    (hclean : ∀ v, value = some v → Text.contains v '\x00' = false)
    (hvalue : node.value? name =
      value.map (stringValue (if expandable then regExpandSz else regSz))) :
    textAt node name =
      value.map fun text => (text, if expandable then regExpandSz else regSz) := by
  cases value with
  | none =>
      rw [textAt, readTypedString, queryValueRaw_of_none hvalue]
      rfl
  | some v =>
      rw [textAt, readTypedString_of_stringValue hvalue (by cases expandable <;> simp)
        (hclean v rfl)]
      rfl

theorem expand_eq (expandable : Bool) :
    ((if expandable then regExpandSz else regSz) == regExpandSz) = expandable := by
  cases expandable <;> rfl

end

section

variable {cfg : ManagedApplicationConfig} {node : Params fold σ} {base : String}
  {stream : Option IoStream}

/-- A stream is stored as its values say. -/
theorem storedStream_of_values
    (hvalues : ∀ put ∈ streamPuts base stream,
      node.value? put.name = put.payload.map (payloadValue fold cfg put.name))
    (hpath : ∀ s, stream = some s → Text.contains s.path '\x00' = false ∧ s.path ≠ "") :
    storedStream node base = configuredStream fold cfg base stream := by
  simp only [streamPuts, List.forall_mem_cons] at hvalues
  obtain ⟨hbase, hshare, hdisposition, hflags, hcopy, -⟩ := hvalues
  cases stream with
  | none =>
      have htext : textAt node base = none := by
        rw [textAt, readTypedString, queryValueRaw_of_none hbase]
        rfl
      rw [storedStream, streamAt, htext]
      rfl
  | some s =>
      obtain ⟨hclean, hnonempty⟩ := hpath s rfl
      have hbase' : node.value? base = (some s.path).map (stringValue
          (if registryIsExpandable fold cfg base then regExpandSz else regSz)) := hbase
      have htext := textAt_of_value (by simpa using hclean) hbase'
      have hempty : s.path.isEmpty = false := by simpa using hnonempty
      simp only [Option.bind_some] at hshare hdisposition hflags hcopy
      have hshare' := numberAt_of_value (hshare.trans (map_payloadValue_dword cfg _ _))
      have hdisposition' := numberAt_of_value (hdisposition.trans (map_payloadValue_dword cfg _ _))
      have hflags' := numberAt_of_value (hflags.trans (map_payloadValue_dword cfg _ _))
      have hcopy' := numberAt_of_value (hcopy.trans (map_payloadValue_bool cfg _ _))
      simp only [storedStream, streamAt, isExpandAt, htext, configuredStream, Option.map_some,
        Option.filter, hempty, Bool.not_false, if_true, Option.any_some, expand_eq,
        hshare', hdisposition', hflags', hcopy', flag_roundTrip]

end

section

variable {cfg : ManagedApplicationConfig} {exits : ExitActions} {node node' : Params fold σ}
  (haccepted : Accepted fold cfg exits) (hwritten : Written cfg exits node node')

include haccepted hwritten

/-- A written key has the fields of its configuration. -/
theorem stored_of_written (f : Field) : stored node' f = configured fold cfg f := by
  have hexits := readExitActions_eq haccepted.exitKeys hwritten.names hwritten.exits
  have hvalues : ∀ put ∈ scalarPuts cfg,
      node'.value? put.name = put.payload.map (payloadValue fold cfg put.name) :=
    fun put hput => value?_of_written hwritten hput
  have hstorable := storable_of_accepted haccepted
  simp only [scalarPuts, List.forall_mem_append] at hvalues hstorable
  obtain ⟨⟨⟨hvalues, hin⟩, hout⟩, herr⟩ := hvalues
  obtain ⟨⟨⟨hstorable, hin'⟩, hout'⟩, herr'⟩ := hstorable
  simp only [List.forall_mem_cons, map_payloadValue_dword, map_payloadValue_bool,
    map_payloadValue_string, map_payloadValue_multi] at hvalues
  simp only [List.forall_mem_cons] at hstorable
  obtain ⟨vApp, vParams, vDir, vPriority, vAffinity, vEnv, vExtra, vDelay, vThrottle, vSkip,
    vConsole, vWindow, vThreads, vTree, vRotate, vOnline, vSeconds, vLow, vHigh, vRotateDelay,
    vTimestamp, -⟩ := hvalues
  obtain ⟨sApp, sParams, sDir, -, sAffinity, sEnv, sExtra, -⟩ := hstorable
  have htext : ∀ {name : String} {value : Option String},
      (∀ p, value.map Payload.string = some p → Storable p) →
      node'.value? name = value.map (stringValue
        (if registryIsExpandable fold cfg name then regExpandSz else regSz)) →
      storedText node' name = configuredText fold cfg name value := by
    intro name value hst hvalue
    have hclean : ∀ v, value = some v → Text.contains v '\x00' = false := by
      intro v hv
      exact hst (.string v) (by rw [hv]; rfl)
    rw [storedText, textAt_of_value hclean hvalue, configuredText, Option.map_map]
    simp only [Function.comp_def, expand_eq]
  have hlist : ∀ {name : String} {values : List String},
      (∀ p, multiPayload values = some p → Storable p) →
      node'.value? name = (if values.isEmpty then none else some (multiValue values)) →
      storedList node' name = .list values := by
    intro name values hst hvalue
    have hstorable : ∀ v ∈ values, StorableEntry v := by
      cases values with
      | nil => simp
      | cons v rest => exact hst (.multi (v :: rest)) rfl
    rw [storedList, listAt_of_value hstorable hvalue]
  have hnumber : ∀ {name : String} {value : Option UInt32},
      node'.value? name = value.map dwordValue → storedNumber node' name = .number value := by
    intro name value hvalue
    rw [storedNumber, numberAt_of_value hvalue]
  have hflag : ∀ {name : String} {flag : Option Bool},
      node'.value? name = (flag.map fun b => if b then (1 : UInt32) else 0).map dwordValue →
      storedFlag node' name = .flag flag := by
    intro name flag hvalue
    rw [storedFlag, numberAt_of_value hvalue, flag_roundTrip]
  cases f with
  | application => exact htext sApp vApp
  | appParameters => exact htext sParams vParams
  | appDirectory => exact htext sDir vDir
  | affinity => exact htext sAffinity vAffinity
  | environment => exact hlist sEnv vEnv
  | environmentExtra => exact hlist sExtra vExtra
  | priority => exact hnumber vPriority
  | restartDelay => exact hnumber vDelay
  | throttle => exact hnumber vThrottle
  | stopMethodSkip => exact hnumber vSkip
  | killConsoleGrace => exact hnumber vConsole
  | killWindowGrace => exact hnumber vWindow
  | killThreadsGrace => exact hnumber vThreads
  | killProcessTree => exact hflag vTree
  | stdin =>
      apply storedStream_of_values hin (streamPath_of_accepted haccepted hin' _)
      intro s hs
      simp [configuredPaths, hs, appStdin]
  | stdout =>
      apply storedStream_of_values hout (streamPath_of_accepted haccepted hout' _)
      intro s hs
      simp [configuredPaths, hs, appStdout]
  | stderr =>
      apply storedStream_of_values herr (streamPath_of_accepted haccepted herr' _)
      intro s hs
      simp [configuredPaths, hs, appStderr]
  | timestampLog => exact hflag vTimestamp
  | rotate => exact hflag vRotate
  | rotateOnline => exact hnumber vOnline
  | rotateSeconds => exact hnumber vSeconds
  | rotateBytes =>
      have hlow : node'.value? appRotateBytesLow =
          (cfg.rotation.bytes.map fun v => v.toUInt32).map dwordValue := by
        rw [vLow, Option.map_map, Option.map_map]
        rfl
      have hhigh : node'.value? appRotateBytesHigh =
          (cfg.rotation.bytes.map fun (v : UInt64) => (v >>> 32).toUInt32).map dwordValue := by
        rw [vHigh, Option.map_map, Option.map_map]
        rfl
      rw [stored, configured, numberAt_of_value hlow, numberAt_of_value hhigh,
        rotateBytes_roundTrip]
  | rotateDelay => exact hnumber vRotateDelay
  | exitActions => rw [stored, configured, hexits, haccepted.normalized]

end

end Ngsm.Ops
