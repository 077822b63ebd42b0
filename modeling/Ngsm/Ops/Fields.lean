/-
# A configuration field by field

Where every known value of a key is of its kind, reading the key is no longer a program: each
field of the configuration is a function of one stored value, or of the values of one
stream.  Only the two subtrees can still make the key unreadable.
-/

import Ngsm.Ops.SingleValue
import Ngsm.Registry.Guarantees

namespace Ngsm.Ops

open Ngsm.Lib Ngsm.Core Ngsm.Registry NssmKeys

/-! ## Single fields -/

section

variable {α : Type}

/-- What is read, if anything can be. -/
def field (read : Result α) : Option α :=
  match read with
  | .ok v => some v
  | .error _ => none

/-- Nothing is read only because nothing is there. -/
def Settled (read : Result α) : Prop :=
  Registry.optional read = .ok (field read)

theorem settled_of_ok {read : Result α} {v : α} (hread : read = .ok v) : Settled read := by
  rw [hread]
  rfl

theorem settled_of_notFound {read : Result α} {context : String}
    (hread : read = .error (.notFound context)) : Settled read := by
  rw [hread]
  rfl

end

variable {fold : NameFold} {σ : Type}

/-- The value of a known name is absent or of its kind. -/
def OfKind (node : Params fold σ) (name : String) : ManagedValueKind → Prop
  | .string => Settled (readTypedString node name)
  | .multiString => Settled (readMultiString node name)
  | .number => Settled (readU32 node name)

/-- Every owned value is of its kind. -/
def WellFormed (node : Params fold σ) : Prop :=
  ∀ known ∈ knownValues, OfKind node known.1 known.2

def textAt (node : Params fold σ) (name : String) : Option (String × UInt32) :=
  field (readTypedString node name)

def listAt (node : Params fold σ) (name : String) : Option (List String) :=
  field (readMultiString node name)

def numberAt (node : Params fold σ) (name : String) : Option UInt32 :=
  field (readU32 node name)

/-- A value stored for expansion. -/
def isExpandAt (node : Params fold σ) (name : String) : Bool :=
  (textAt node name).any (·.2 == regExpandSz)

/-- A stream with its attributes; an empty path means none. -/
def streamAt (node : Params fold σ) (base : String) : Option IoStream :=
  (((textAt node base).map Prod.fst).filter (!·.isEmpty)).map fun path =>
    { path
      shareMode := numberAt node (base ++ appStdioSharing)
      creationDisposition := numberAt node (base ++ appStdioDisposition)
      flagsAndAttributes := numberAt node (base ++ appStdioFlags)
      copyAndTruncate := (numberAt node (base ++ appStdioCopyAndTruncate)).map (· != 0) }

section

variable {node : Params fold σ} {name : String} {marked : Std.ExtTreeSet String}
  {R : Error → Std.ExtTreeSet String → Prop}

theorem wp_optU32_field (hsettled : Settled (readU32 node name))
    {Q : Option UInt32 → Std.ExtTreeSet String → Prop} :
    (optU32 node name).wp Q R marked ↔ Q (numberAt node name) marked := by
  rw [optU32, hsettled, Prog.wp_liftExcept]
  rfl

theorem wp_optMultiString_field (hsettled : Settled (readMultiString node name))
    {Q : Option (List String) → Std.ExtTreeSet String → Prop} :
    (optMultiString node name).wp Q R marked ↔ Q (listAt node name) marked := by
  rw [optMultiString, hsettled, Prog.wp_liftExcept]
  rfl

theorem wp_optConfigString_field (hsettled : Settled (readTypedString node name))
    {Q : Option String → Std.ExtTreeSet String → Prop} :
    (optConfigString node name).wp Q R marked ↔
      Q ((textAt node name).map Prod.fst) (markIf (isExpandAt node name) name marked) := by
  unfold optConfigString isExpandAt textAt
  rw [Prog.wp_bind, hsettled, Prog.wp_liftExcept]
  rcases field (readTypedString node name) with _ | ⟨text, kind⟩
  · rfl
  · by_cases hkind : kind = regExpandSz
    · subst hkind
      rfl
    · have hother : (kind == regExpandSz) = false := by simpa using hkind
      simp only [if_neg hkind, Option.any_some, hother, Option.map_some]
      rfl

theorem wp_readIoStream_field {base : String} (hbase : Settled (readTypedString node base))
    (hattributes : (streamAt node base).isSome = true →
      ∀ name ∈ stdioAttributeNames base, Settled (readU32 node name))
    {Q : Option IoStream → Std.ExtTreeSet String → Prop} :
    (readIoStream node base).wp Q R marked ↔
      Q (streamAt node base) (markIf (isExpandAt node base) base marked) := by
  unfold streamAt at hattributes
  unfold readIoStream streamAt
  rw [Prog.wp_bind, wp_optConfigString_field hbase]
  generalize (textAt node base).map Prod.fst = found at hattributes ⊢
  rcases found with _ | path
  · rfl
  · cases hempty : path.isEmpty with
    | true => simp [Option.filter, hempty]
    | false =>
        have hsettled := hattributes (by simp [Option.filter, hempty])
        simp only [stdioAttributeNames, List.forall_mem_cons] at hsettled
        obtain ⟨hshare, hdisposition, hflags, hcopy, -⟩ := hsettled
        simp only [hempty, Bool.false_eq_true, if_false, Prog.wp_bind, wp_optU32_field hshare,
          wp_optU32_field hdisposition, wp_optU32_field hflags, wp_optU32_field hcopy,
          Option.filter, Bool.not_false, if_true, Option.map_some]
        rfl

end

/-! ## The configuration -/

/-- The marks of the strings other than the application, in the order of reading. -/
def fieldMarks (node : Params fold σ) (marked : Std.ExtTreeSet String) :
    Std.ExtTreeSet String :=
  [appParameters, appDirectory, appAffinity, appStdin, appStdout, appStderr].foldl
    (fun marked name => markIf (isExpandAt node name) name marked) marked

def stringMarks (node : Params fold σ) : Std.ExtTreeSet String :=
  fieldMarks node (markIf (isExpandAt node application) application ∅)

/-- The configuration of a key, with what its subtrees hold. -/
def configAt (node : Params fold σ) (exits : ExitActions) (hooks : List HookConfig)
    (marked : Std.ExtTreeSet String) : ManagedApplicationConfig :=
  { application := (textAt node application).map Prod.fst
    appParameters := (textAt node appParameters).map Prod.fst
    appDirectory := (textAt node appDirectory).map Prod.fst
    environment := (listAt node appEnvironment).getD []
    environmentExtra := (listAt node appEnvironmentExtra).getD []
    priority := numberAt node appPriority
    affinity := (textAt node appAffinity).map Prod.fst
    restart := {
      restartDelayMs := numberAt node appRestartDelay
      throttleDelayMs := numberAt node appThrottle
      defaultAction := exits["default"]?.map (·.action) }
    shutdown := {
      stopMethodSkip := numberAt node appStopMethodSkip
      killConsoleGraceMs := numberAt node appKillConsoleGrace
      killWindowGraceMs := numberAt node appKillWindowGrace
      killThreadsGraceMs := numberAt node appKillThreadsGrace
      killProcessTree := (numberAt node appKillProcessTree).map (· != 0) }
    io := {
      stdin := streamAt node appStdin
      stdout := streamAt node appStdout
      stderr := streamAt node appStderr
      timestampLog := (numberAt node appTimestampLog).map (· != 0) }
    rotation := {
      enabled := (numberAt node appRotate).map (· != 0)
      online := numberAt node appRotateOnline
      seconds := numberAt node appRotateSeconds
      bytes := rotateBytes (numberAt node appRotateBytesLow) (numberAt node appRotateBytesHigh)
      delayMs := numberAt node appRotateDelay }
    exitActions := exits
    hooks
    expandableStrings := marked }

/-- The values that the reader looks at are of their kinds. -/
structure Legible (node : Params fold σ) : Prop where
  values : ∀ known ∈ managedValueKinds, OfKind node known.1 known.2
  attributes : ∀ base ∈ [appStdin, appStdout, appStderr], (streamAt node base).isSome = true →
    ∀ name ∈ stdioAttributeNames base, Settled (readU32 node name)

theorem WellFormed.legible {node : Params fold σ} (hwf : WellFormed node) : Legible node where
  values := fun known hknown => hwf known (List.mem_append_left _ hknown)
  attributes := by
    intro base hbase _ name hname
    exact hwf (name, .number) (List.mem_append_right _
      (List.mem_flatMap.mpr ⟨base, hbase, List.mem_map_of_mem hname⟩))

section

variable {node : Params fold σ} (hlegible : Legible node)

include hlegible

theorem Legible.string {name : String} (hname : (name, .string) ∈ managedValueKinds) :
    Settled (readTypedString node name) :=
  hlegible.values _ hname

theorem Legible.multi {name : String} (hname : (name, .multiString) ∈ managedValueKinds) :
    Settled (readMultiString node name) :=
  hlegible.values _ hname

theorem Legible.number {name : String} (hname : (name, .number) ∈ managedValueKinds) :
    Settled (readU32 node name) :=
  hlegible.values _ hname

/-- What the reader does with the fields of a key whose values are of their kinds. -/
theorem wp_readFields_known {app : String} {marked : Std.ExtTreeSet String}
    {Q : ManagedApplicationConfig → Std.ExtTreeSet String → Prop} :
    (readFields node app).wp Q (fun _ _ => False) marked ↔
      ∃ exits, readExitActions node = .ok exits ∧
        (readHooks node).wp
          (fun hooks => Q { configAt node exits hooks ∅ with application := some app })
          (fun _ _ => False) (fieldMarks node marked) := by
  have hu32 : ∀ name, (name, .number) ∈ managedValueKinds →
      ∀ (Q : Option UInt32 → Std.ExtTreeSet String → Prop) marked,
        (optU32 node name).wp Q (fun _ _ => False) marked ↔ Q (numberAt node name) marked :=
    fun name hname _ _ => wp_optU32_field (hlegible.number hname)
  have hstring : ∀ name, (name, .string) ∈ managedValueKinds →
      ∀ (Q : Option String → Std.ExtTreeSet String → Prop) marked,
        (optConfigString node name).wp Q (fun _ _ => False) marked ↔
          Q ((textAt node name).map Prod.fst) (markIf (isExpandAt node name) name marked) :=
    fun name hname _ _ => wp_optConfigString_field (hlegible.string hname)
  have hmulti : ∀ name, (name, .multiString) ∈ managedValueKinds →
      ∀ (Q : Option (List String) → Std.ExtTreeSet String → Prop) marked,
        (optMultiString node name).wp Q (fun _ _ => False) marked ↔ Q (listAt node name) marked :=
    fun name hname _ _ => wp_optMultiString_field (hlegible.multi hname)
  have hstream : ∀ base, (base, .string) ∈ managedValueKinds → base ∈ [appStdin, appStdout, appStderr] →
      ∀ (Q : Option IoStream → Std.ExtTreeSet String → Prop) marked,
        (readIoStream node base).wp Q (fun _ _ => False) marked ↔
          Q (streamAt node base) (markIf (isExpandAt node base) base marked) :=
    fun base hname hbase _ _ =>
      wp_readIoStream_field (hlegible.string hname) (hlegible.attributes base hbase)
  rcases hexits : readExitActions node with e | exits
  · simp (disch := decide) only [readFields, Prog.wp_bind, Prog.wp_liftExcept, hexits, hu32]
    simp
  · simp (disch := decide) only [readFields, Prog.wp_bind, Prog.wp_liftExcept, hexits,
      hu32, hstring, hmulti, hstream]
    simp only [Except.ok.injEq, exists_eq_left']
    rfl

/-- When a key reads, and as which configuration. -/
theorem reads_iff {service : String} {cfg : ManagedApplicationConfig} :
    readManagedFromKey node service = .ok (some cfg) ↔
      ∃ app kind exits hooks marked, textAt node application = some (app, kind) ∧
        (Text.trim app).isEmpty = false ∧ readExitActions node = .ok exits ∧
        (readHooks node).exec (stringMarks node) = (.ok hooks, marked) ∧
        cfg = configAt node exits hooks marked := by
  have hrun : readManagedFromKey node service = .ok (some cfg) ↔
      (readManaged node service).wp (fun read marked => ∃ base, read = some base ∧
        cfg = { base with expandableStrings := marked }) (fun _ _ => False) ∅ := by
    unfold readManagedFromKey Prog.wp
    rcases (readManaged node service).exec ∅ with ⟨e | _ | base, marked⟩
    · simp
    · simp
    · simp [eq_comm]
  rw [hrun]
  unfold readManaged
  rw [Prog.wp_bind, wp_optConfigString_field (hlegible.string (by decide))]
  rcases happ : textAt node application with _ | ⟨app, kind⟩
  · simp
  · cases hblank : (Text.trim app).isEmpty with
    | true =>
        refine iff_of_false (by simp [hblank]) ?_
        rintro ⟨other, kind', exits, hooks, marked, hsome, hother, -⟩
        cases hsome
        rw [hblank] at hother
        cases hother
    | false =>
        simp only [Option.map_some, hblank, Bool.false_eq_true, if_false, Prog.wp_map,
          wp_readFields_known hlegible]
        have happ' : ∀ exits hooks, { configAt node exits hooks ∅ with application := some app } =
            configAt node exits hooks ∅ := by
          intro exits hooks
          simp only [configAt, happ, Option.map_some]
        simp only [happ']
        rw [← stringMarks]
        constructor
        · rintro ⟨exits, hexits, hhooks⟩
          obtain ⟨hooks, marked, hexec, base, hbase, rfl⟩ := Prog.exists_ok_of_wp _ hhooks
          have hsame : configAt node exits hooks ∅ = base := Option.some.inj hbase
          subst hsame
          exact ⟨app, kind, exits, hooks, marked, rfl, hblank, hexits, hexec, rfl⟩
        · rintro ⟨other, kind', exits, hooks, marked, -, -, hexits, hexec, rfl⟩
          refine ⟨exits, hexits, ?_⟩
          unfold Prog.wp
          rw [hexec]
          exact ⟨_, rfl, rfl⟩

end

end Ngsm.Ops
