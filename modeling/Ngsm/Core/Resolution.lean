/-
# What an expansion means

A text is cut at its percent signs into literal pieces and references, and the expansion puts
the values of the known names in the place of their references.  The scan consumes these pieces
in order, and its two limits, checked piece by piece, come to the limits on the whole result.
A configuration resolves when every marked string in it expands within the limits.
-/

import Ngsm.Core.References

namespace Ngsm.Core

open Ngsm.Lib

/-! ## The pieces of a text -/

/-- A part of a text between percent signs, or a reference to a variable. -/
inductive Piece where
  | literal (text : List Char)
  | reference (name : List Char)
  deriving DecidableEq, Repr

/-- The piece as it stands in the text. -/
def Piece.source : Piece → List Char
  | .literal text => text
  | .reference name => '%' :: (name ++ ['%'])

/-- Pair the signs between the parts of a text; an empty name and a last sign without a
partner are literal. -/
def cut : List (List Char) → List Piece
  | before :: name :: next :: rest =>
      .literal before :: (if name = [] then .literal ['%', '%'] else .reference name) ::
        cut (next :: rest)
  | [before, after] => [.literal before, .literal ('%' :: after)]
  | [text] => [.literal text]
  | [] => []

def pieces (text : List Char) : List Piece :=
  cut (text.splitOn '%')

example : pieces "a%B%%%c%d".toList =
    [.literal ['a'], .reference ['B'], .literal [], .literal ['%', '%'], .literal ['c'],
      .literal ['%', 'd']] := by decide

section

variable {before name rest text : List Char}

theorem pieces_plain (h : '%' ∉ text) : pieces text = [.literal text] := by
  rw [pieces, splitOn_plain h]
  rfl

theorem pieces_single {after : List Char} (hbefore : '%' ∉ before) (hafter : '%' ∉ after) :
    pieces (before ++ '%' :: after) = [.literal before, .literal ('%' :: after)] := by
  rw [pieces, splitOn_sign hbefore, splitOn_plain hafter]
  rfl

theorem pieces_pair (hbefore : '%' ∉ before) (hname : '%' ∉ name) :
    pieces (before ++ '%' :: (name ++ '%' :: rest)) =
      .literal before :: (if name = [] then .literal ['%', '%'] else .reference name) ::
        pieces rest := by
  obtain ⟨next, parts, hparts, hsplit⟩ := splitOn_pair hbefore hname rest
  rw [pieces, pieces, hsplit, hparts, cut]

/-- Nothing of the text is lost or repeated. -/
theorem source_pieces (text : List Char) : (pieces text).flatMap Piece.source = text := by
  induction text using sign_induction with
  | plain text htext => simp [pieces_plain htext, Piece.source]
  | single before after hbefore hafter => simp [pieces_single hbefore hafter, Piece.source]
  | pair before name rest hbefore hname ih =>
      rw [pieces_pair hbefore hname, List.flatMap_cons, List.flatMap_cons, ih]
      by_cases hempty : name = []
      · simp [hempty, Piece.source]
      · simp [hempty, Piece.source]

end

/-! ## The value of a text -/

section

variable {σ : Type}

/-- A literal stands for itself, a reference for the value of its name if that is known. -/
def Piece.value (lookup : Lookup σ) : Piece → StateM σ (List Char)
  | .literal text => pure text
  | .reference name => do
      let value ← lookup (String.ofList name)
      pure ((value.map String.toList).getD (Piece.reference name).source)

/-- The expansion of a text in one pass: the values of its pieces in order. -/
def expansion (lookup : Lookup σ) (text : String) : StateM σ String := do
  let values ← (pieces text.toList).mapM (Piece.value lookup)
  pure (String.ofList values.flatten)

/-- One piece of the scan. -/
def consume (field : String) (lookup : Lookup σ) (expanded : Expanded) (piece : Piece) :
    Prog σ Error Expanded := do
  let value ← liftM (piece.value lookup)
  liftExcept (appendExpanded field expanded (String.ofList value))

theorem consume_literal (field : String) (lookup : Lookup σ) (expanded : Expanded)
    (text : List Char) :
    consume field lookup expanded (.literal text) =
      liftExcept (appendExpanded field expanded (String.ofList text)) :=
  rfl

theorem consume_reference (field : String) (lookup : Lookup σ) (expanded : Expanded)
    {name : List Char} (hname : name ≠ []) :
    consume field lookup expanded (.reference name) = (do
      let value ← lookupName lookup name
      liftExcept (appendExpanded field expanded
        (value.getD (String.ofList ('%' :: name ++ ['%']))))) := by
  have hvalue : ∀ (value : Option String) (source : List Char),
      String.ofList ((value.map String.toList).getD source) =
        value.getD (String.ofList source) := by
    intro value source
    cases value with
    | none => rfl
    | some v => exact String.ofList_toList
  have hempty : name.isEmpty = false := by simpa using hname
  unfold consume lookupName
  rw [hempty, if_neg Bool.false_ne_true]
  simp only [Piece.value, liftM_bind, bind_assoc, liftM_pure, pure_bind, hvalue]
  rfl

/-- The scan consumes the pieces of the text in order. -/
theorem expandLoop_eq_foldlM (field : String) (lookup : Lookup σ) (text : List Char)
    (expanded : Expanded) :
    expandLoop field lookup text expanded =
      (pieces text).foldlM (consume field lookup) expanded := by
  induction text using sign_induction generalizing expanded with
  | plain text htext =>
      rw [expandLoop_plain _ _ _ htext, pieces_plain htext, List.foldlM_cons, consume_literal]
      simp
  | single before after hbefore hafter =>
      rw [expandLoop_single _ _ _ hbefore hafter, pieces_single hbefore hafter, List.foldlM_cons,
        consume_literal]
      simp [consume_literal]
  | pair before name rest hbefore hname ih =>
      rw [expandLoop_pair _ _ _ hbefore hname, pieces_pair hbefore hname, List.foldlM_cons,
        consume_literal]
      congr 1
      funext expanded
      by_cases hempty : name = []
      · subst hempty
        rw [if_pos rfl, List.foldlM_cons, consume_literal]
        simp only [lookupName, List.isEmpty_nil, if_true, pure_bind, ih]
        rfl
      · rw [if_neg hempty, List.foldlM_cons, consume_reference _ _ _ hempty, bind_assoc]
        simp only [ih]

/-- A text that may result from an expansion. -/
def WithinLimits (text : String) : Prop :=
  Text.contains text '\x00' = false ∧ (Utf16.encode text).length < expandedLimit

theorem fits_start_iff {text : List Char} : Fits {} text ↔ WithinLimits (String.ofList text) := by
  unfold Fits WithinLimits Text.contains
  rw [String.toList_ofList, ← Bool.not_eq_true, List.contains_iff_mem, Nat.zero_add]

theorem wp_lift {α : Type} (m : StateM σ α) {Q : α → σ → Prop} {R : Error → σ → Prop} {s : σ} :
    (liftM m : Prog σ Error α).wp Q R s ↔ Q (m.run s).1 (m.run s).2 :=
  Iff.rfl

/-- The scan of some pieces writes their values, if these fit behind what was written, and
refuses otherwise. -/
theorem wp_consume (field : String) (lookup : Lookup σ) (ps : List Piece) (expanded : Expanded)
    (hroom : expanded.units < expandedLimit) (s : σ) :
    (ps.foldlM (consume field lookup) expanded).wp
      (fun result s' => ∃ values, (ps.mapM (Piece.value lookup)).run s = (values, s') ∧
        result.out = expanded.out ++ String.ofList values.flatten ∧ Fits expanded values.flatten)
      (fun _ _ => ¬ Fits expanded ((ps.mapM (Piece.value lookup)).run s).1.flatten) s := by
  induction ps generalizing expanded s with
  | nil => exact ⟨[], rfl, by simp, by simpa [Fits] using hroom⟩
  | cons piece ps ih =>
      rw [List.foldlM_cons, Prog.wp_bind]
      unfold consume
      rw [Prog.wp_bind, wp_lift, Prog.wp_liftExcept]
      generalize hvalue : (piece.value lookup).run s = found
      obtain ⟨value, s₁⟩ := found
      have hrest : (List.mapM (Piece.value lookup) (piece :: ps)).run s =
          (value :: ((ps.mapM (Piece.value lookup)).run s₁).1,
            ((ps.mapM (Piece.value lookup)).run s₁).2) := by
        rw [List.mapM_cons, StateT.run_bind, hvalue]
        rfl
      rw [hrest, List.flatten_cons]
      simp only
      split
      · rename_i expanded' happend
        obtain ⟨hfits, hunits, hout⟩ := appendExpanded_iff.mp happend
        refine Prog.wp_mono _ ?_ ?_ (ih expanded' (hunits ▸ hfits.2) s₁)
        · rintro result s' ⟨values, hrun, hresult, hbehind⟩
          rw [hrun]
          refine ⟨_, rfl, ?_, (Fits.append_iff hunits hfits).mpr hbehind⟩
          rw [hresult, hout, List.flatten_cons, String.append_assoc, ← String.ofList_append]
        · intro e s' hrefused hall
          exact hrefused ((Fits.append_iff hunits hfits).mp hall)
      · rename_i happend
        exact fun hall => not_fits_of_error happend hall.of_append

/-- A string expands when its reference expansion is within the limits, and then to that. -/
theorem wp_expand (field text : String) (lookup : Lookup σ) (s : σ) :
    (expand field text lookup).wp
      (fun out s' => (expansion lookup text).run s = (out, s') ∧ WithinLimits out)
      (fun _ _ => ¬ WithinLimits ((expansion lookup text).run s).1) s := by
  have hrun : (expansion lookup text).run s =
      (String.ofList (((pieces text.toList).mapM (Piece.value lookup)).run s).1.flatten,
        (((pieces text.toList).mapM (Piece.value lookup)).run s).2) := by
    rw [expansion, StateT.run_bind]
    rfl
  unfold expand
  rw [Prog.wp_bind, expandLoop_eq_foldlM]
  refine Prog.wp_mono _ ?_ ?_ (wp_consume field lookup _ {} (by decide) s)
  · rintro result s' ⟨values, hvalues, hout, hfits⟩
    have hwhole : result.out = String.ofList values.flatten := by
      rw [hout]
      exact String.empty_append
    rw [Prog.wp_pure, hrun, hvalues, hwhole]
    exact ⟨rfl, fits_start_iff.mp hfits⟩
  · intro e s' hrefused hlimits
    rw [hrun] at hlimits
    exact hrefused (fits_start_iff.mpr hlimits)

/-! ## The strings of a configuration -/

/-- The strings that can be marked, with their marks. -/
def markableStrings (cfg : ManagedApplicationConfig) : List (String × String) :=
  cfg.application.toList.map (("Application", ·)) ++
  cfg.appParameters.toList.map (("AppParameters", ·)) ++
  cfg.appDirectory.toList.map (("AppDirectory", ·)) ++
  cfg.affinity.toList.map (("AppAffinity", ·)) ++
  cfg.io.stdin.toList.map (fun stream => ("AppStdin", stream.path)) ++
  cfg.io.stdout.toList.map (fun stream => ("AppStdout", stream.path)) ++
  cfg.io.stderr.toList.map (fun stream => ("AppStderr", stream.path)) ++
  cfg.hooks.map fun hook =>
    (ManagedApplicationConfig.hookExpansionKey hook.event hook.action, hook.command)

/-- What is left of a configuration without the texts of these strings. -/
def withoutTexts (cfg : ManagedApplicationConfig) : ManagedApplicationConfig :=
  { cfg with
    application := cfg.application.map fun _ => ""
    appParameters := cfg.appParameters.map fun _ => ""
    appDirectory := cfg.appDirectory.map fun _ => ""
    affinity := cfg.affinity.map fun _ => ""
    io := { cfg.io with
      stdin := cfg.io.stdin.map fun stream => { stream with path := "" }
      stdout := cfg.io.stdout.map fun stream => { stream with path := "" }
      stderr := cfg.io.stderr.map fun stream => { stream with path := "" } }
    hooks := cfg.hooks.map fun hook => { hook with command := "" }
    expandableStrings := ∅ }

/-- A marked string is expanded, another one stays. -/
def referenceEntry (cfg : ManagedApplicationConfig) (lookup : Lookup σ)
    (entry : String × String) : StateM σ (String × String) :=
  if cfg.isExpandableString entry.1 then (entry.1, ·) <$> expansion lookup entry.2 else pure entry

/-- The strings of the resolved configuration, one after the other. -/
def referenceStrings (cfg : ManagedApplicationConfig) (lookup : Lookup σ)
    (entries : List (String × String)) : StateM σ (List (String × String)) :=
  entries.mapM (referenceEntry cfg lookup)

/-- The marked strings among these are within the limits. -/
def AllWithin (cfg : ManagedApplicationConfig) (entries : List (String × String)) : Prop :=
  ∀ entry ∈ entries, cfg.isExpandableString entry.1 = true → WithinLimits entry.2

/-- A part of the resolution follows the reference on some strings: it returns when their
expansions are within the limits, and what it returns holds these expansions. -/
def Follows (cfg : ManagedApplicationConfig) (lookup : Lookup σ) {α : Type} (m : Prog σ Error α)
    (entries : List (String × String)) (S : α → List (String × String) → Prop) : Prop :=
  ∀ s, m.wp
    (fun a s' => ∃ found, (referenceStrings cfg lookup entries).run s = (found, s') ∧
      AllWithin cfg found ∧ S a found)
    (fun _ _ => ¬ AllWithin cfg ((referenceStrings cfg lookup entries).run s).1) s

section

variable {cfg : ManagedApplicationConfig} {lookup : Lookup σ} {α β : Type}

theorem run_referenceStrings_append (entries later : List (String × String)) (s : σ) :
    (referenceStrings cfg lookup (entries ++ later)).run s =
      (((referenceStrings cfg lookup entries).run s).1 ++
        ((referenceStrings cfg lookup later).run
          ((referenceStrings cfg lookup entries).run s).2).1,
        ((referenceStrings cfg lookup later).run
          ((referenceStrings cfg lookup entries).run s).2).2) := by
  unfold referenceStrings
  rw [List.mapM_append, StateT.run_bind]
  rfl

theorem allWithin_append {entries later : List (String × String)} :
    AllWithin cfg (entries ++ later) ↔ AllWithin cfg entries ∧ AllWithin cfg later :=
  List.forall_mem_append

theorem follows_pure {a : α} {S : α → List (String × String) → Prop} (hS : S a []) :
    Follows cfg lookup (pure a) [] S :=
  fun _ => ⟨[], rfl, by simp [AllWithin], hS⟩

theorem Follows.bind {m : Prog σ Error α} {f : α → Prog σ Error β}
    {entries later : List (String × String)} {S : α → List (String × String) → Prop}
    {T : β → List (String × String) → Prop} (hm : Follows cfg lookup m entries S)
    (hf : ∀ a found, S a found →
      Follows cfg lookup (f a) later fun b behind => T b (found ++ behind)) :
    Follows cfg lookup (m >>= f) (entries ++ later) T := by
  intro s
  rw [Prog.wp_bind, run_referenceStrings_append]
  refine Prog.wp_mono _ ?_ ?_ (hm s)
  · rintro a s₁ ⟨found, hrun, hwithin, hS⟩
    rw [hrun]
    refine Prog.wp_mono _ ?_ ?_ (hf a found hS s₁)
    · rintro b s₂ ⟨behind, hrun', hwithin', hT⟩
      rw [hrun']
      exact ⟨_, rfl, allWithin_append.mpr ⟨hwithin, hwithin'⟩, hT⟩
    · exact fun _ _ hrefused hall => hrefused (allWithin_append.mp hall).2
  · exact fun _ _ hrefused hall => hrefused (allWithin_append.mp hall).1

theorem Follows.map {m : Prog σ Error α} {g : α → β} {entries : List (String × String)}
    {T : β → List (String × String) → Prop}
    (hm : Follows cfg lookup m entries fun a found => T (g a) found) :
    Follows cfg lookup (g <$> m) entries T := by
  intro s
  rw [Prog.wp_map]
  exact hm s

theorem follows_expandMarked (name text : String) :
    Follows cfg lookup (expandMarked cfg lookup name text) [(name, text)]
      fun out found => found = [(name, out)] := by
  intro s
  unfold expandMarked
  cases hmarked : cfg.isExpandableString name with
  | true =>
      have hrun : (referenceStrings cfg lookup [(name, text)]).run s =
          ([(name, ((expansion lookup text).run s).1)], ((expansion lookup text).run s).2) := by
        rw [referenceStrings, List.mapM_cons, StateT.run_bind, referenceEntry, if_pos hmarked]
        rfl
      have hwithin : ∀ out, AllWithin cfg [(name, out)] ↔ WithinLimits out := by
        intro out
        simp [AllWithin, hmarked]
      rw [if_pos rfl, hrun]
      refine Prog.wp_mono _ ?_ ?_ (wp_expand name text lookup s)
      · rintro out s' ⟨hexpansion, hlimits⟩
        rw [hexpansion]
        exact ⟨_, rfl, (hwithin out).mpr hlimits, rfl⟩
      · exact fun _ _ hrefused hall => hrefused ((hwithin _).mp hall)
  | false =>
      have hrun : (referenceStrings cfg lookup [(name, text)]).run s = ([(name, text)], s) := by
        rw [referenceStrings, List.mapM_cons, StateT.run_bind, referenceEntry,
          if_neg (by simp [hmarked])]
        rfl
      rw [if_neg Bool.false_ne_true, hrun]
      exact ⟨_, rfl, by simp [AllWithin, hmarked], rfl⟩

theorem follows_expandField (name : String) (value : Option String) :
    Follows cfg lookup (expandField cfg lookup name value) (value.toList.map ((name, ·)))
      fun out found => found = out.toList.map ((name, ·)) ∧
        (out.map fun _ => "") = value.map fun _ => "" := by
  cases value with
  | none => exact follows_pure ⟨rfl, rfl⟩
  | some text =>
      apply Follows.map
      intro s
      refine Prog.wp_mono _ ?_ (fun _ _ h => h) (follows_expandMarked name text s)
      rintro out s' ⟨found, hrun, hwithin, rfl⟩
      exact ⟨_, hrun, hwithin, rfl, rfl⟩

theorem follows_expandStream (name : String) (stream : Option IoStream) :
    Follows cfg lookup (expandStream cfg lookup name stream)
      (stream.toList.map fun stream => (name, stream.path))
      fun out found => found = out.toList.map (fun stream => (name, stream.path)) ∧
        (out.map fun stream => { stream with path := "" }) =
          stream.map fun stream => { stream with path := "" } := by
  cases stream with
  | none => exact follows_pure ⟨rfl, rfl⟩
  | some stream =>
      apply Follows.map
      intro s
      refine Prog.wp_mono _ ?_ (fun _ _ h => h) (follows_expandMarked name stream.path s)
      rintro out s' ⟨found, hrun, hwithin, rfl⟩
      exact ⟨_, hrun, hwithin, rfl, rfl⟩

/-- A hook with its mark. -/
def hookEntry (hook : HookConfig) : String × String :=
  (ManagedApplicationConfig.hookExpansionKey hook.event hook.action, hook.command)

theorem follows_expandHooks (hooks : List HookConfig) :
    Follows cfg lookup (hooks.mapM (expandHook cfg lookup)) (hooks.map hookEntry)
      fun out found => found = out.map hookEntry ∧
        (out.map fun hook => { hook with command := "" }) =
          hooks.map fun hook => { hook with command := "" } := by
  induction hooks with
  | nil => exact follows_pure ⟨rfl, rfl⟩
  | cons hook hooks ih =>
      rw [List.mapM_cons]
      have hhook : Follows cfg lookup (expandHook cfg lookup hook) [hookEntry hook]
          fun out found => found = [hookEntry out] ∧
            { out with command := "" } = { hook with command := "" } := by
        apply Follows.map
        intro s
        refine Prog.wp_mono _ ?_ (fun _ _ h => h) (follows_expandMarked _ hook.command s)
        rintro out s' ⟨found, hrun, hwithin, rfl⟩
        exact ⟨_, hrun, hwithin, rfl, rfl⟩
      refine Follows.bind hhook ?_
      rintro out found ⟨rfl, hsame⟩
      rw [← List.append_nil (hooks.map hookEntry)]
      refine Follows.bind ih ?_
      rintro rest behind ⟨rfl, hrest⟩
      exact follows_pure ⟨by simp, by rw [List.map_cons, List.map_cons, hsame, hrest]⟩

/-- The whole resolution follows the reference on the strings of the configuration. -/
theorem follows_resolveExpandableStrings (cfg : ManagedApplicationConfig) (lookup : Lookup σ) :
    Follows cfg lookup (resolveExpandableStrings cfg lookup) (markableStrings cfg)
      fun effective found => markableStrings effective = found ∧
        withoutTexts effective = withoutTexts cfg ∧ effective.expandableStrings = ∅ := by
  have hentries : markableStrings cfg =
      cfg.application.toList.map (("Application", ·)) ++
      (cfg.appParameters.toList.map (("AppParameters", ·)) ++
      (cfg.appDirectory.toList.map (("AppDirectory", ·)) ++
      (cfg.affinity.toList.map (("AppAffinity", ·)) ++
      (cfg.io.stdin.toList.map (fun stream => ("AppStdin", stream.path)) ++
      (cfg.io.stdout.toList.map (fun stream => ("AppStdout", stream.path)) ++
      (cfg.io.stderr.toList.map (fun stream => ("AppStderr", stream.path)) ++
      (cfg.hooks.map hookEntry ++ []))))))) := by
    simp only [markableStrings, List.append_assoc, List.append_nil]
    rfl
  rw [hentries]
  unfold resolveExpandableStrings
  refine (follows_expandField "Application" cfg.application).bind ?_
  rintro application _ ⟨rfl, happ⟩
  refine (follows_expandField "AppParameters" cfg.appParameters).bind ?_
  rintro appParameters _ ⟨rfl, hparameters⟩
  refine (follows_expandField "AppDirectory" cfg.appDirectory).bind ?_
  rintro appDirectory _ ⟨rfl, hdirectory⟩
  refine (follows_expandField "AppAffinity" cfg.affinity).bind ?_
  rintro affinity _ ⟨rfl, haffinity⟩
  refine (follows_expandStream "AppStdin" cfg.io.stdin).bind ?_
  rintro stdin _ ⟨rfl, hstdin⟩
  refine (follows_expandStream "AppStdout" cfg.io.stdout).bind ?_
  rintro stdout _ ⟨rfl, hstdout⟩
  refine (follows_expandStream "AppStderr" cfg.io.stderr).bind ?_
  rintro stderr _ ⟨rfl, hstderr⟩
  refine (follows_expandHooks cfg.hooks).bind ?_
  rintro hooks _ ⟨rfl, hhooks⟩
  refine follows_pure ⟨?_, ?_, rfl⟩
  · simp only [markableStrings, List.append_assoc, List.append_nil]
    rfl
  · simp only [withoutTexts, happ, hparameters, hdirectory, haffinity, hstdin, hstdout, hstderr,
      hhooks]

end

/-- A configuration resolves exactly when its marked strings expand within the limits.  Then
each of them is its reference expansion, and nothing else changes but that no mark remains.
The text is consumed piece by piece, and the pieces make up the text. -/
theorem resolve_reference (cfg : ManagedApplicationConfig) (lookup : Lookup σ) (s : σ) :
    ((∃ effective s', (resolveExpandableStrings cfg lookup).exec s = (.ok effective, s')) ↔
      AllWithin cfg ((referenceStrings cfg lookup (markableStrings cfg)).run s).1) ∧
    (∀ effective s', (resolveExpandableStrings cfg lookup).exec s = (.ok effective, s') →
      (referenceStrings cfg lookup (markableStrings cfg)).run s =
          (markableStrings effective, s') ∧
        withoutTexts effective = withoutTexts cfg ∧ effective.expandableStrings = ∅) ∧
    (∀ field text expanded, expandLoop field lookup text expanded =
      (pieces text).foldlM (consume field lookup) expanded) ∧
    (∀ text, (pieces text).flatMap Piece.source = text) := by
  have hfollows := follows_resolveExpandableStrings cfg lookup s
  refine ⟨?_, ?_,
    fun field text expanded => expandLoop_eq_foldlM field lookup text expanded, source_pieces⟩
  · rcases hrun : (resolveExpandableStrings cfg lookup).exec s with ⟨e | effective, s'⟩
    · refine iff_of_false (by rintro ⟨_, _, hok⟩; cases hok) (Prog.wp_error _ hfollows hrun)
    · obtain ⟨found, hreference, hwithin, -⟩ := Prog.wp_ok _ hfollows hrun
      rw [hreference]
      exact iff_of_true ⟨_, _, rfl⟩ hwithin
  · intro effective s' hrun
    obtain ⟨found, hreference, -, rfl, hsame⟩ := Prog.wp_ok _ hfollows hrun
    exact ⟨hreference, hsame⟩

end

end Ngsm.Core
