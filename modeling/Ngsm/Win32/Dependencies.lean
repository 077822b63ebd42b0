/-
# The dependency list of a service

The services and the groups that a service depends on cross into the service control manager in
one buffer of UTF-16 words.  Every entry has a terminator, a second terminator ends the buffer,
and a leading plus sign makes an entry a group.  The reader looks for the first double
terminator, no further than a fixed number of words, and tells the entries apart again.
-/

import Ngsm.Lib.Terminated
import Ngsm.Ops.Edit

namespace Ngsm.Win32

open Ngsm.Lib Ngsm.Core Ngsm.Ops

/-! ## Writing -/

/-- The code unit of the plus sign. -/
def plusUnit : UInt16 :=
  0x2B

def encodeDependencies (dependencies : ServiceDependencies) : Result (List UInt16) := do
  dependencies.validate
  if dependencies.isEmpty then
    return [0, 0]
  let wide := dependencies.services.foldl
    (fun wide service => wide ++ Utf16.encode service ++ [0]) []
  let wide := dependencies.groups.foldl
    (fun wide group => wide ++ [plusUnit] ++ Utf16.encode group ++ [0]) wide
  return wide ++ [0]

/-! ## Reading -/

/-- The loop over the words of a buffer, at an index, with the start of the entry that is being
read. -/
def splitDoubleNullLoop (buf : List UInt16) : List UInt16 → Nat → Nat → List String → List String
  | [], _, _, out => out
  | c :: rest, i, start, out =>
      if c = 0 then
        if i = start then
          out
        else
          splitDoubleNullLoop buf rest (i + 1) (i + 1)
            (out ++ [Utf16.decodeLossy ((buf.take i).drop start)])
      else
        splitDoubleNullLoop buf rest (i + 1) start out

def splitDoubleNull (buf : List UInt16) : List String :=
  splitDoubleNullLoop buf buf 0 0 []

/-- The reader gives up behind so many words. -/
def scanLimit : Nat :=
  64 * 1024

/-- The length at which the search for the end of a buffer stops.  The words are read from a
pointer, and any word may follow those of the buffer. -/
def scanLength (memory : Nat → UInt16) (len : Nat) : Nat :=
  if memory len = 0 ∧ memory (len + 1) = 0 then
    len
  else if scanLimit < len + 1 then
    len + 1
  else
    scanLength memory (len + 1)
termination_by scanLimit + 1 - len

def stripPlus (entry : String) : Option String :=
  match entry.toList with
  | '+' :: rest => some (String.ofList rest)
  | _ => none

/-- Put an entry with the services or with the groups. -/
def classifyEntry (out : List String × List String) (entry : String) :
    List String × List String :=
  match stripPlus entry with
  | some rest => (out.1, out.2 ++ [rest])
  | none => (out.1 ++ [entry], out.2)

/-- The services and the groups at a pointer, which may be null. -/
def collectDependencies : Option (Nat → UInt16) → List String × List String
  | none => ([], [])
  | some memory =>
      let buf := (List.range (scanLength memory 0 + 1)).map memory
      (splitDoubleNull buf).foldl classifyEntry ([], [])

/-! ## Entries -/

/-- The entries of a buffer: the services, and the groups with their mark. -/
def entries (dependencies : ServiceDependencies) : List String :=
  dependencies.services ++ dependencies.groups.map ("+" ++ ·)

/-- The words of an entry end before its terminator. -/
theorem separable_encode {entry : String} (hsome : entry ≠ "")
    (hclean : ∀ c ∈ entry.toList, Text.isControl c = false) :
    Terminated.Separable 0 (Utf16.encode entry) := by
  constructor
  · rwa [Ne, Utf16.encode_eq_nil_iff]
  · intro hzero
    obtain ⟨c, hc, hnul⟩ := (Utf16.mem_encode_of_lt (by decide)).mp hzero
    have hcontrol : Text.isControl c = true := by
      rw [Text.isControl, hnul]
      decide
    rw [hclean c hc] at hcontrol
    cases hcontrol

theorem validateServiceDependencyName_ok {value : String}
    (hvalid : validateServiceDependencyName value = .ok ()) :
    stripPlus value = none ∧ Terminated.Separable 0 (Utf16.encode value) := by
  unfold validateServiceDependencyName at hvalid
  split at hvalid
  · cases hvalid
  · rename_i hplus
    split at hvalid
    · rename_i hname
      obtain ⟨hsome, -, hchars⟩ := (validateServiceName_ok_iff value).mp hname
      refine ⟨?_, separable_encode hsome fun c hc => (hchars c hc).2.2⟩
      unfold stripPlus
      split
      · rename_i rest hlist
        exact absurd (by rw [hlist]; rfl) hplus
      · rfl
    · cases hvalid

theorem validateGroupDependencyName_ok {value : String}
    (hvalid : validateGroupDependencyName value = .ok ()) :
    Terminated.Separable 0 (Utf16.encode ("+" ++ value)) := by
  unfold validateGroupDependencyName at hvalid
  split at hvalid
  · cases hvalid
  · split at hvalid
    · cases hvalid
    · rename_i hcontrol
      apply separable_encode (by simp)
      intro c hc
      rw [String.toList_append, List.mem_append] at hc
      rcases hc with hplus | hc
      · rw [List.mem_singleton.mp hplus]
        decide
      · rw [Bool.eq_false_iff]
        intro htrue
        exact hcontrol (List.any_eq_true.mpr ⟨c, hc, htrue⟩)

theorem foldl_services {services : List String}
    (hservices : ∀ service ∈ services, stripPlus service = none)
    (found : List String × List String) :
    services.foldl classifyEntry found = (found.1 ++ services, found.2) := by
  induction services generalizing found with
  | nil => simp
  | cons service services ih =>
      rw [List.forall_mem_cons] at hservices
      rw [List.foldl_cons, ih hservices.2, classifyEntry, hservices.1]
      simp

theorem stripPlus_plus (group : String) : stripPlus ("+" ++ group) = some group := by
  simp [stripPlus]

theorem foldl_groups (groups : List String) (found : List String × List String) :
    (groups.map ("+" ++ ·)).foldl classifyEntry found = (found.1, found.2 ++ groups) := by
  induction groups generalizing found with
  | nil => simp
  | cons group groups ih =>
      rw [List.map_cons, List.foldl_cons, ih, classifyEntry, stripPlus_plus]
      simp

section

variable {dependencies : ServiceDependencies} (hvalid : dependencies.validate = .ok ())

include hvalid

theorem validate_ok : (∀ service ∈ dependencies.services,
      validateServiceDependencyName service = .ok ()) ∧
    ∀ group ∈ dependencies.groups, validateGroupDependencyName group = .ok () := by
  obtain ⟨⟨⟩, hservices, hgroups⟩ := Check.bind_eq_ok.mp hvalid
  exact ⟨Check.forM_eq_ok.mp hservices, Check.forM_eq_ok.mp hgroups⟩

/-- No entry of an accepted list is empty or has a terminator in it. -/
theorem separable_entries :
    ∀ piece ∈ (entries dependencies).map Utf16.encode, Terminated.Separable 0 piece := by
  obtain ⟨hservices, hgroups⟩ := validate_ok hvalid
  intro piece hpiece
  obtain ⟨entry, hentry, rfl⟩ := List.mem_map.mp hpiece
  rcases List.mem_append.mp hentry with hservice | hgroup
  · exact (validateServiceDependencyName_ok (hservices entry hservice)).2
  · obtain ⟨group, hmem, rfl⟩ := List.mem_map.mp hgroup
    exact validateGroupDependencyName_ok (hgroups group hmem)

/-- The first entries of an accepted list are told apart again. -/
theorem classify_take (n : Nat) :
    ((entries dependencies).take n).foldl classifyEntry ([], []) =
      (dependencies.services.take n,
        dependencies.groups.take (n - dependencies.services.length)) := by
  obtain ⟨hservices, -⟩ := validate_ok hvalid
  have hunmarked : ∀ service ∈ dependencies.services.take n, stripPlus service = none :=
    fun service hservice =>
      (validateServiceDependencyName_ok (hservices service (List.mem_of_mem_take hservice))).1
  rw [entries, List.take_append, ← List.map_take, List.foldl_append, foldl_services hunmarked,
    foldl_groups, List.nil_append, List.nil_append]

end

/-! ## The words of a buffer -/

section

variable {buf : List UInt16}

/-- The loop reads the pieces that its buffer has. -/
theorem splitDoubleNullLoop_eq {rest : List UInt16} {i start : Nat} (out : List String)
    (hrest : buf.drop i = rest) (hstart : start ≤ i) :
    splitDoubleNullLoop buf rest i start out = out ++
      (Terminated.splitFrom 0 ((buf.take i).drop start) rest).map Utf16.decodeLossy := by
  induction rest generalizing i start out with
  | nil => simp [splitDoubleNullLoop, Terminated.splitFrom]
  | cons c rest ih =>
      have hi : i < buf.length := by
        apply Nat.lt_of_not_le
        intro hle
        rw [List.drop_eq_nil_of_le hle] at hrest
        cases hrest
      have hdrop := List.drop_eq_getElem_cons hi
      rw [hrest, List.cons.injEq] at hdrop
      obtain ⟨hc, hnext⟩ := hdrop
      have hpiece : ((buf.take i).drop start).length = i - start := by
        simp [Nat.min_eq_left (Nat.le_of_lt hi)]
      rw [splitDoubleNullLoop, Terminated.splitFrom]
      by_cases hzero : c = 0
      · rw [if_pos hzero, if_pos hzero]
        by_cases hend : i = start
        · have hempty : (buf.take i).drop start = [] := by
            apply List.eq_nil_of_length_eq_zero
            omega
          rw [if_pos hend, if_pos hempty, List.map_nil, List.append_nil]
        · have hsome : (buf.take i).drop start ≠ [] := by
            intro hempty
            rw [hempty, List.length_nil] at hpiece
            omega
          have hnone : (buf.take (i + 1)).drop (i + 1) = [] := by simp
          rw [if_neg hend, if_neg hsome, ih _ hnext.symm (Nat.le_refl _), hnone, List.map_cons,
            List.append_assoc, List.singleton_append]
      · have hmore : (buf.take (i + 1)).drop start = (buf.take i).drop start ++ [c] := by
          rw [List.take_add_one, List.getElem?_eq_getElem hi, ← hc, Option.toList_some,
            List.drop_append_of_le_length (by simp; omega)]
        rw [if_neg hzero, if_neg hzero, ih _ hnext.symm (by omega), hmore]

theorem splitDoubleNull_eq (buf : List UInt16) :
    splitDoubleNull buf = (Terminated.split 0 buf).map Utf16.decodeLossy := by
  rw [splitDoubleNull, splitDoubleNullLoop_eq [] (List.drop_zero : buf.drop 0 = buf) (Nat.le_refl 0)]
  simp [Terminated.split]

/-- The search stops at the first double terminator, or at the limit. -/
theorem scanLength_eq {memory : Nat → UInt16} {n len : Nat}
    (hbefore : ∀ i < n, ¬ (memory i = 0 ∧ memory (i + 1) = 0))
    (hend : memory n = 0 ∧ memory (n + 1) = 0) (hlen : len ≤ n) (hlimit : len ≤ scanLimit) :
    scanLength memory len = min n (scanLimit + 1) := by
  fun_induction scanLength memory len with
  | case1 len hdouble =>
      rcases Nat.lt_or_eq_of_le hlen with hlt | rfl
      · exact absurd hdouble (hbefore len hlt)
      · omega
  | case2 len hdouble hfar =>
      have hne : len ≠ n := by
        rintro rfl
        exact hdouble hend
      omega
  | case3 len hdouble hnear ih =>
      have hne : len ≠ n := by
        rintro rfl
        exact hdouble hend
      exact ih (by omega) (by omega)

end

/-! ## Round trip -/

/-- A buffer is stored from the first word of a memory on. -/
def Holds (memory : Nat → UInt16) (words : List UInt16) : Prop :=
  ∀ i w, words[i]? = some w → memory i = w

theorem map_memory {memory : Nat → UInt16} {words : List UInt16} (hmemory : Holds memory words)
    {n : Nat} (hn : n ≤ words.length) : (List.range n).map memory = words.take n := by
  apply List.ext_getElem
  · simp [hn]
  · intro i hi hi'
    rw [List.getElem_map, List.getElem_range, List.getElem_take]
    exact hmemory i _ (List.getElem?_eq_getElem _)

section

variable {dependencies : ServiceDependencies}

theorem foldl_encode (f : String → List UInt16) (names : List String) (wide : List UInt16) :
    names.foldl (fun wide name => wide ++ f name) wide = wide ++ names.flatMap f := by
  induction names generalizing wide with
  | nil => simp
  | cons name names ih => rw [List.foldl_cons, ih, List.flatMap_cons, List.append_assoc]

variable (hvalid : dependencies.validate = .ok ())

include hvalid

/-- The words of an accepted list. -/
theorem encodeDependencies_eq :
    encodeDependencies dependencies = .ok (if entries dependencies = [] then [0, 0]
      else Terminated.join 0 ((entries dependencies).map Utf16.encode) ++ [0]) := by
  have hempty : dependencies.isEmpty = true ↔ entries dependencies = [] := by
    simp [ServiceDependencies.isEmpty, entries]
  have hplus : Utf16.encode "+" = [plusUnit] := by decide
  unfold encodeDependencies
  rw [hvalid]
  simp only [List.append_assoc, foldl_encode]
  by_cases hnone : entries dependencies = []
  · simp only [hempty.mpr hnone, if_pos hnone]
    rfl
  · simp only [mt hempty.mp hnone, if_neg hnone]
    simp only [entries, Terminated.join, List.map_append, List.flatMap_append, List.flatMap_map,
      List.map_map, Function.comp_def, Utf16.encode_append, hplus, List.append_assoc,
      List.nil_append]
    rfl

/-- What is read from a memory that holds the words of an accepted list: all entries, where the
end of the buffer is found, or those of a part of it. -/
theorem splitDoubleNull_memory {words : List UInt16}
    (hencode : encodeDependencies dependencies = .ok words) {memory : Nat → UInt16}
    (hmemory : Holds memory words) :
    let read := splitDoubleNull ((List.range (scanLength memory 0 + 1)).map memory)
    read <+: entries dependencies ∧
      (words.length ≤ scanLimit + 3 → read = entries dependencies) := by
  have hpieces := separable_entries hvalid
  have hdecode : ((entries dependencies).map Utf16.encode).map Utf16.decodeLossy =
      entries dependencies := by
    simp [Function.comp_def]
  rw [encodeDependencies_eq hvalid, Except.ok.injEq] at hencode
  by_cases hnone : entries dependencies = []
  · rw [if_pos hnone] at hencode
    subst hencode
    have hzero : scanLength memory 0 = 0 := by
      rw [scanLength, if_pos ⟨hmemory 0 0 rfl, hmemory 1 0 rfl⟩]
    rw [hzero, map_memory hmemory (by simp), hnone]
    exact ⟨by decide, fun _ => by decide⟩
  · rw [if_neg hnone] at hencode
    subst hencode
    set pieces := (entries dependencies).map Utf16.encode with hentries
    have hsome : pieces ≠ [] := by simpa [hentries] using hnone
    obtain ⟨hlong, hfirst, hsecond⟩ := @Terminated.double_at_end UInt16 0 pieces hsome
    have hlength : (Terminated.join 0 pieces ++ [(0 : UInt16)]).length =
        (Terminated.join 0 pieces).length + 1 := by simp
    rw [hlength] at hlong
    have hend : memory ((Terminated.join 0 pieces).length - 1) = 0 ∧
        memory ((Terminated.join 0 pieces).length - 1 + 1) = 0 := by
      rw [Nat.sub_add_cancel (by omega)]
      exact ⟨hmemory _ _ hfirst, hmemory _ _ hsecond⟩
    have hbefore : ∀ i < (Terminated.join 0 pieces).length - 1,
        ¬ (memory i = 0 ∧ memory (i + 1) = 0) := by
      rintro i hi ⟨hzero, hnext⟩
      have hword : ∀ j, j ≤ (Terminated.join 0 pieces).length → memory j = 0 →
          (Terminated.join 0 pieces ++ [(0 : UInt16)])[j]? = some 0 := by
        intro j hj hread
        have hj' : j < (Terminated.join 0 pieces ++ [(0 : UInt16)]).length := by omega
        have hsame := hmemory j _ (List.getElem?_eq_getElem hj')
        rw [List.getElem?_eq_getElem hj', ← hsame, hread]
      have hstop := Terminated.end_of_double hpieces (hword i (by omega) hzero)
        (hword (i + 1) (by omega) hnext)
      omega
    rw [scanLength_eq hbefore hend (Nat.zero_le _) (Nat.zero_le _),
      map_memory hmemory (by omega), List.take_append_of_le_length (by omega),
      splitDoubleNull_eq]
    constructor
    · rw [← hdecode]
      exact (Terminated.split_take hpieces _).map _
    · intro hshort
      rw [List.take_of_length_le (by omega), Terminated.split_join hpieces, hdecode]

/-- The lists of services and groups survive the buffer; from a buffer that is longer than the
reader reads come the first entries. -/
theorem collectDependencies_encodeDependencies :
    ∃ words, encodeDependencies dependencies = .ok words ∧
      ∀ memory, Holds memory words →
        let read := collectDependencies (some memory)
        (words.length ≤ 65536 → read = (dependencies.services, dependencies.groups)) ∧
        (65536 < words.length →
          read.1 ++ read.2.map ("+" ++ ·) <+: entries dependencies ∧
            read.1 <+: dependencies.services ∧ read.2 <+: dependencies.groups) := by
  refine ⟨_, encodeDependencies_eq hvalid, fun memory hmemory => ?_⟩
  obtain ⟨hstart, hwhole⟩ :=
    splitDoubleNull_memory hvalid (encodeDependencies_eq hvalid) hmemory
  simp only [collectDependencies]
  constructor
  · intro hshort
    have hall := classify_take hvalid (entries dependencies).length
    rw [List.take_length] at hall
    rw [hwhole (Nat.le_trans hshort (by decide)), hall]
    simp [entries]
  · intro _
    rw [List.prefix_iff_eq_take.mp hstart, classify_take hvalid]
    refine ⟨?_, List.take_prefix _ _, List.take_prefix _ _⟩
    rw [List.map_take, ← List.take_append]
    exact List.take_prefix _ _

end

/-- A group may have a plus sign of its own. -/
theorem collectDependencies_markedGroup :
    ServiceDependencies.validate ⟨["Tcpip"], ["+NDIS"]⟩ = .ok () ∧
      ∃ words, encodeDependencies ⟨["Tcpip"], ["+NDIS"]⟩ = .ok words ∧
        ∀ memory, Holds memory words → words.length ≤ 65536 →
          collectDependencies (some memory) = (["Tcpip"], ["+NDIS"]) := by
  have hvalid : ServiceDependencies.validate ⟨["Tcpip"], ["+NDIS"]⟩ = .ok () := by decide
  obtain ⟨words, hencode, hread⟩ := collectDependencies_encodeDependencies hvalid
  exact ⟨hvalid, words, hencode, fun memory hmemory => (hread memory hmemory).1⟩

end Ngsm.Win32
