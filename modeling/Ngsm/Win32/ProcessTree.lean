/-
# The process tree of a service

The processes of a service are found by their parent links in a snapshot of all processes.  The
links are those of the system: a parent may be dead, its id may be in use again, and links may
run in circles.  The walk visits exactly the processes that can be reached from the root, in
breadth-first order.
-/

import Mathlib.Data.Finset.Basic
import Std.Data.ExtTreeMap
import Ngsm.Core.Config
import Ngsm.Lib.BreadthFirst
import Ngsm.Lib.Utf16

namespace Ngsm.Win32

open Ngsm.Lib Ngsm.Core

/-- An entry of a snapshot, `PROCESSENTRY32W`. -/
structure ProcessEntry where
  processId : UInt32
  parentProcessId : UInt32
  exeFile : List UInt16
  deriving DecidableEq, Repr

structure ProcessInfo where
  pid : UInt32
  parentPid : UInt32
  imageName : String
  deriving DecidableEq, Repr

def processInfo (entry : ProcessEntry) : ProcessInfo where
  pid := entry.processId
  parentPid := entry.parentProcessId
  imageName := Utf16.decodeLossy (entry.exeFile.takeWhile (· != 0))

@[simp]
theorem processInfo_pid (entry : ProcessEntry) : (processInfo entry).pid = entry.processId :=
  rfl

@[simp]
theorem processInfo_parentPid (entry : ProcessEntry) :
    (processInfo entry).parentPid = entry.parentProcessId :=
  rfl

/-- The processes of a snapshot, by parent and by id. -/
structure Tables where
  byParent : Std.ExtTreeMap UInt32 (List ProcessInfo)
  byPid : Std.ExtTreeMap UInt32 ProcessInfo

def Tables.record (tables : Tables) (entry : ProcessEntry) : Tables :=
  let info := processInfo entry
  { byParent := tables.byParent.alter info.parentPid
      fun children => some (children.getD [] ++ [info])
    byPid := tables.byPid.insert info.pid info }

def tablesOf (snapshot : List ProcessEntry) : Tables :=
  snapshot.foldl Tables.record { byParent := ∅, byPid := ∅ }

def Tables.childPids (tables : Tables) (pid : UInt32) : List UInt32 :=
  ((tables.byParent[pid]?).getD []).map (·.pid)

/-- The links of the tables as a graph. -/
def Tables.graph (tables : Tables) : BreadthFirst.Graph UInt32 where
  successors := tables.childPids
  sources := tables.byParent.keys.toFinset
  successors_of_not_mem := by
    intro pid hpid
    rw [List.mem_toFinset, Std.ExtTreeMap.mem_keys] at hpid
    rw [Tables.childPids, Std.ExtTreeMap.getElem?_eq_none hpid]
    rfl

def pushChildren (tables : Tables) (pid : UInt32) (queue : List UInt32) : List UInt32 :=
  match tables.byParent[pid]? with
  | some children => children.foldl (fun queue c => queue ++ [c.pid]) queue
  | none => queue

theorem foldl_push (children : List ProcessInfo) (queue : List UInt32) :
    children.foldl (fun queue c => queue ++ [c.pid]) queue = queue ++ children.map (·.pid) := by
  induction children generalizing queue with
  | nil => simp
  | cons child children ih =>
      rw [List.foldl_cons, ih, List.map_cons, List.append_assoc, List.singleton_append]

theorem pushChildren_eq (tables : Tables) (pid : UInt32) (queue : List UInt32) :
    pushChildren tables pid queue = queue ++ tables.childPids pid := by
  unfold pushChildren Tables.childPids
  rcases tables.byParent[pid]? with _ | children
  · simp
  · exact foldl_push children queue

/-- The loop over the queue. -/
def walkLoop (tables : Tables) (out : List ProcessInfo) (seen : Finset UInt32) :
    List UInt32 → List ProcessInfo
  | [] => out
  | pid :: queue =>
      if pid ∈ seen then
        walkLoop tables out seen queue
      else
        walkLoop tables (out ++ (tables.byPid[pid]?).toList) (insert pid seen)
          (pushChildren tables pid queue)
termination_by queue => ((tables.graph.sources \ seen).card, queue.length)
decreasing_by
  · apply Prod.Lex.right
    simp
  · rename_i hnew
    rw [pushChildren_eq]
    exact tables.graph.measure_lt hnew queue

/-- The processes below a root, and the root; the snapshot itself may fail. -/
def enumerateDescendants (snapshot : Result (List ProcessEntry)) (rootPid : UInt32) :
    Result (List ProcessInfo) := do
  let entries ← snapshot
  if entries.isEmpty then
    return []
  return walkLoop (tablesOf entries) [] ∅ [rootPid]

/-! ## Tables -/

section

variable {snapshot : List ProcessEntry}

theorem childPids_record (tables : Tables) (entry : ProcessEntry) (pid : UInt32) :
    (tables.record entry).childPids pid = tables.childPids pid ++
      if entry.parentProcessId = pid then [entry.processId] else [] := by
  simp only [Tables.childPids, Tables.record, Std.ExtTreeMap.getElem?_alter, processInfo_parentPid,
    Std.LawfulEqCmp.compare_eq_iff_eq]
  split
  · rename_i hparent
    simp [hparent]
  · simp

/-- The children of a process, in the order of the snapshot. -/
def childPids (snapshot : List ProcessEntry) (pid : UInt32) : List UInt32 :=
  (snapshot.filter (·.parentProcessId = pid)).map (·.processId)

theorem childPids_tablesOf (snapshot : List ProcessEntry) (pid : UInt32) :
    (tablesOf snapshot).childPids pid = childPids snapshot pid := by
  have hfold : ∀ tables : Tables, (snapshot.foldl Tables.record tables).childPids pid =
      tables.childPids pid ++ childPids snapshot pid := by
    induction snapshot with
    | nil => simp [childPids]
    | cons entry snapshot ih =>
        intro tables
        rw [List.foldl_cons, ih, childPids_record, List.append_assoc]
        congr 1
        unfold childPids
        by_cases hparent : entry.parentProcessId = pid
        · simp [hparent]
        · simp [hparent]
  rw [tablesOf, hfold]
  simp [Tables.childPids]

/-- The table by id has the processes of a snapshot whose ids are distinct. -/
theorem byPid_tablesOf (hdistinct : (snapshot.map (·.processId)).Nodup) {pid : UInt32}
    {info : ProcessInfo} :
    (tablesOf snapshot).byPid[pid]? = some info ↔
      ∃ entry ∈ snapshot, entry.processId = pid ∧ processInfo entry = info := by
  have hfold : ∀ tables : Tables,
      (snapshot.foldl Tables.record tables).byPid[pid]? = some info ↔
        (∃ entry ∈ snapshot, entry.processId = pid ∧ processInfo entry = info) ∨
        (pid ∉ snapshot.map (·.processId) ∧ tables.byPid[pid]? = some info) := by
    induction snapshot with
    | nil => simp
    | cons entry snapshot ih =>
        intro tables
        rw [List.map_cons, List.nodup_cons] at hdistinct
        rw [List.foldl_cons, ih hdistinct.2]
        simp only [Tables.record, Std.ExtTreeMap.getElem?_insert, processInfo_pid,
          Std.LawfulEqCmp.compare_eq_iff_eq, List.map_cons, List.mem_cons, not_or,
          exists_eq_or_imp]
        by_cases hpid : entry.processId = pid
        · subst hpid
          simp [hdistinct.1, or_comm]
        · simp [hpid, Ne.symm hpid]
  rw [tablesOf, hfold]
  simp

end

/-! ## The walk -/

/-- The loop reports what a walk over the links visits, as far as the snapshot knows it. -/
theorem walkLoop_eq (tables : Tables) (out : List ProcessInfo) (seen : Finset UInt32)
    (queue : List UInt32) :
    walkLoop tables out seen queue =
      out ++ (tables.graph.walk seen queue).flatMap fun pid => (tables.byPid[pid]?).toList := by
  fun_induction walkLoop tables out seen queue with
  | case1 => simp
  | case2 out seen pid queue hseen ih => rw [ih, BreadthFirst.Graph.walk_of_mem hseen]
  | case3 out seen pid queue hnew ih =>
      rw [ih, pushChildren_eq, BreadthFirst.Graph.walk_of_not_mem hnew, List.flatMap_cons,
        List.append_assoc]
      rfl

/-- A process is the parent of another in a snapshot. -/
def Child (snapshot : List ProcessEntry) (parent child : UInt32) : Prop :=
  ∃ entry ∈ snapshot, entry.parentProcessId = parent ∧ entry.processId = child

/-- The processes below a root, as they are reported. -/
structure Descendants (snapshot : List ProcessEntry) (root : UInt32) (out : List ProcessInfo) :
    Prop where
  nodup : (out.map (·.pid)).Nodup
  /-- The reachable processes of the snapshot, and no others. -/
  mem_iff : ∀ info, info ∈ out ↔
    ∃ entry ∈ snapshot, processInfo entry = info ∧
      Relation.ReflTransGen (Child snapshot) root entry.processId
  root_first : ∀ entry ∈ snapshot, entry.processId = root →
    out.head? = some (processInfo entry)
  /-- The distance from the root never falls. -/
  ordered : out.Pairwise fun info later => ∀ n,
    BreadthFirst.Within (Child snapshot) root n later.pid →
      BreadthFirst.Within (Child snapshot) root n info.pid
  /-- The root comes first, then the children of each process in the order of the processes, and
  among themselves in the order of the snapshot. -/
  queued : let visited := root :: (out.map (·.pid)).erase root
    visited = BreadthFirst.firsts ∅ (root :: visited.flatMap (childPids snapshot))

section

variable {snapshot : List ProcessEntry} {root : UInt32}

theorem step_graph (snapshot : List ProcessEntry) :
    (tablesOf snapshot).graph.Step = Child snapshot := by
  ext parent child
  have hchildren : (tablesOf snapshot).graph.successors parent = childPids snapshot parent :=
    childPids_tablesOf snapshot parent
  rw [BreadthFirst.Graph.Step, hchildren]
  simp [childPids, Child, and_assoc]

/-- The ids that the walk visits. -/
def visited (snapshot : List ProcessEntry) (root : UInt32) : List UInt32 :=
  (tablesOf snapshot).graph.walk ∅ [root]

theorem nodup_visited (snapshot : List ProcessEntry) (root : UInt32) :
    (visited snapshot root).Nodup :=
  BreadthFirst.Graph.nodup_walk _ _

theorem mem_visited {pid : UInt32} :
    pid ∈ visited snapshot root ↔ Relation.ReflTransGen (Child snapshot) root pid := by
  rw [visited, BreadthFirst.Graph.mem_walk_iff, step_graph]
  simp

theorem visited_eq_cons (snapshot : List ProcessEntry) (root : UInt32) :
    ∃ rest, visited snapshot root = root :: rest := by
  rw [visited, BreadthFirst.Graph.walk_of_not_mem (by simp)]
  exact ⟨_, rfl⟩

theorem visited_eq_firsts (snapshot : List ProcessEntry) (root : UInt32) :
    visited snapshot root = BreadthFirst.firsts ∅
      (root :: (visited snapshot root).flatMap (childPids snapshot)) := by
  have hchildren : (tablesOf snapshot).graph.successors = childPids snapshot := by
    funext pid
    exact childPids_tablesOf snapshot pid
  have hwalk := (tablesOf snapshot).graph.walk_eq_firsts ∅ [root]
  rw [hchildren] at hwalk
  exact hwalk

/-- Every visited process is in the snapshot, or it is the root. -/
theorem known_of_mem_visited {pid : UInt32} (hpid : pid ∈ visited snapshot root)
    (hroot : pid ≠ root) : pid ∈ snapshot.map (·.processId) := by
  rcases (mem_visited.mp hpid).cases_tail with heq | ⟨parent, -, entry, hentry, -, rfl⟩
  · exact absurd heq hroot
  · exact List.mem_map_of_mem hentry

/-- What is reported of a list of visited processes. -/
def reported (snapshot : List ProcessEntry) (pids : List UInt32) : List ProcessInfo :=
  pids.flatMap fun pid => ((tablesOf snapshot).byPid[pid]?).toList

theorem enumerateDescendants_eq (snapshot : List ProcessEntry) (root : UInt32) :
    enumerateDescendants (.ok snapshot) root =
      .ok (reported snapshot (visited snapshot root)) := by
  have hloop : walkLoop (tablesOf snapshot) [] ∅ [root] =
      reported snapshot (visited snapshot root) := by
    rw [walkLoop_eq, List.nil_append]
    rfl
  unfold enumerateDescendants
  cases snapshot with
  | nil =>
      have hnone : ∀ pids, reported [] pids = [] := by simp [reported, tablesOf]
      rw [hnone]
      rfl
  | cons entry snapshot =>
      rw [← hloop]
      rfl

variable (hdistinct : (snapshot.map (·.processId)).Nodup)

include hdistinct

theorem mem_reported {pids : List UInt32} {info : ProcessInfo} :
    info ∈ reported snapshot pids ↔
      ∃ entry ∈ snapshot, processInfo entry = info ∧ entry.processId ∈ pids := by
  simp only [reported, List.mem_flatMap, Option.mem_toList, byPid_tablesOf hdistinct]
  constructor
  · rintro ⟨pid, hpid, entry, hentry, rfl, hinfo⟩
    exact ⟨entry, hentry, hinfo, hpid⟩
  · rintro ⟨entry, hentry, hinfo, hpid⟩
    exact ⟨entry.processId, hpid, entry, hentry, rfl, hinfo⟩

theorem map_reported (pids : List UInt32) :
    (reported snapshot pids).map (·.pid) =
      pids.filter (· ∈ snapshot.map (·.processId)) := by
  induction pids with
  | nil => rfl
  | cons pid pids ih =>
      rw [reported, List.flatMap_cons, List.map_append, List.filter_cons]
      have hrest : ((pids.flatMap fun pid => ((tablesOf snapshot).byPid[pid]?).toList).map
          (·.pid)) = pids.filter (· ∈ snapshot.map (·.processId)) := ih
      rw [hrest]
      rcases hfound : (tablesOf snapshot).byPid[pid]? with _ | info
      · have hunknown : pid ∉ snapshot.map (·.processId) := by
          intro hmem
          obtain ⟨entry, hentry, hpid⟩ := List.mem_map.mp hmem
          have hsome := (byPid_tablesOf hdistinct).mpr ⟨entry, hentry, hpid, rfl⟩
          rw [hfound] at hsome
          cases hsome
        simp [hunknown]
      · obtain ⟨entry, hentry, rfl, rfl⟩ := (byPid_tablesOf hdistinct).mp hfound
        have hknown : entry.processId ∈ snapshot.map (·.processId) :=
          List.mem_map_of_mem hentry
        simp [hknown]

/-- With the root in front, the reported processes are the visited ones. -/
theorem cons_reported_eq_visited :
    root :: ((reported snapshot (visited snapshot root)).map (·.pid)).erase root =
      visited snapshot root := by
  rw [map_reported hdistinct]
  obtain ⟨rest, hvisited⟩ := visited_eq_cons snapshot root
  have hnodup := nodup_visited snapshot root
  rw [hvisited, List.nodup_cons] at hnodup
  have hrest : rest.filter (· ∈ snapshot.map (·.processId)) = rest := by
    rw [List.filter_eq_self]
    intro pid hpid
    have hroot : pid ≠ root := fun heq => hnodup.1 (heq ▸ hpid)
    exact decide_eq_true (known_of_mem_visited (hvisited ▸ List.mem_cons_of_mem _ hpid) hroot)
  rw [hvisited, List.filter_cons, hrest]
  split
  · rw [List.erase_cons_head]
  · rw [List.erase_of_not_mem hnodup.1]

/-- The walk of the processes ends, and reports the descendants of the root. -/
theorem enumerateDescendants_exact (root : UInt32) :
    ∃ out, enumerateDescendants (.ok snapshot) root = .ok out ∧ Descendants snapshot root out := by
  refine ⟨_, enumerateDescendants_eq snapshot root, ?_⟩
  have hsublist : ((reported snapshot (visited snapshot root)).map (·.pid)).Sublist
      (visited snapshot root) := by
    rw [map_reported hdistinct]
    exact List.filter_sublist
  constructor
  · exact (nodup_visited snapshot root).sublist hsublist
  · intro info
    rw [mem_reported hdistinct]
    simp only [mem_visited]
  · intro entry hentry hroot
    obtain ⟨rest, hvisited⟩ := visited_eq_cons snapshot root
    have hfound := (byPid_tablesOf hdistinct).mpr ⟨entry, hentry, hroot, rfl⟩
    rw [hvisited, reported, List.flatMap_cons, hfound]
    rfl
  · have hwalk := (tablesOf snapshot).graph.pairwise_walk root
    rw [step_graph] at hwalk
    exact List.pairwise_map.mp (hwalk.sublist hsublist)
  · rw [cons_reported_eq_visited hdistinct]
    exact visited_eq_firsts snapshot root

end

/-- Two processes that are each other's parents, and a child of a process that is gone. -/
theorem enumerateDescendants_cycle :
    let snapshot : List ProcessEntry := [⟨4, 8, []⟩, ⟨8, 4, []⟩, ⟨12, 16, []⟩]
    (snapshot.map (·.processId)).Nodup ∧
      ∃ out, enumerateDescendants (.ok snapshot) 4 = .ok out ∧ Descendants snapshot 4 out :=
  ⟨by decide, enumerateDescendants_exact (by decide) 4⟩

end Ngsm.Win32
