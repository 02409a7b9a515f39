import Mathlib.Order.Bounds.Basic
import Mathlib.Logic.Function.Iterate
import WidthTrace.Proofs.CallGraph.Cycles
import WidthTrace.Proofs.CallGraph.Reachability

/-!
# Reachable routines and orphans

The reachable routines are the least set that holds the entry points and that no call or
tail call leads out of, in whatever order transfers are recorded and entry points declared,
and in whatever order the entry points are tried. The orphans are the remaining routines
of the graph.
-/

namespace WidthTrace

/-! ## The work of collecting -/

theorem CallGraph.length_group (pairs : List (Address × Address)) (a : Address) :
    ((group pairs).getD a []).length = pairs.countP fun pair => pair.1 = a := by
  induction pairs with
  | nil => rfl
  | cons pair rest ih =>
      have grouped : (group (pair :: rest)).getD a [] =
          if pair.1 = a then pair.2 :: (group rest).getD pair.1 []
          else (group rest).getD a [] :=
        AddressMap.getD_insert _ _ _ _ _
      rw [grouped, List.countP_cons]
      by_cases same : pair.1 = a
      · subst same
        simp [ih]
      · simp [same, ih]

namespace Address

/-- One turn of collecting: the first address of the agenda is dropped if it was seen, and otherwise
it is seen and what it leads to is put on the agenda. -/
def turn (next : Address → List Address) :
    List Address × AddressSet → List Address × AddressSet
  | ([], seen) => ([], seen)
  | (a :: rest, seen) => if a ∈ seen then (rest, seen) else (next a ++ rest, seen.insert a)

/-- The pairs that start at an address not seen before are those that start at `a`, and those that
still do so once `a` is seen. -/
theorem countP_insert {seen : AddressSet} {a : Address} (fresh : a ∉ seen)
    (pairs : List (Address × Address)) :
    (pairs.countP fun pair => pair.1 ∉ seen) =
      (pairs.countP fun pair => pair.1 = a) + pairs.countP fun pair => pair.1 ∉ seen.insert a := by
  induction pairs with
  | nil => rfl
  | cons pair rest ih =>
      have split : (if pair.1 ∉ seen then 1 else 0) =
          (if pair.1 = a then 1 else 0) + if pair.1 ∉ seen.insert a then 1 else 0 := by
        by_cases same : pair.1 = a
        · simp [same, fresh]
        · simp [same, Ne.symm same]
      simp only [List.countP_cons, decide_eq_true_eq, ih, split]
      omega

/-- Collecting along pairs ends after at most one turn for each address on the agenda and for each
pair that starts at an address not seen before. -/
theorem exists_turns (pairs : List (Address × Address)) (agenda : List Address)
    (seen : AddressSet) :
    ∃ count ≤ agenda.length + pairs.countP (fun pair => pair.1 ∉ seen),
      (turn fun a => (CallGraph.group pairs).getD a [])^[count] (agenda, seen) =
        ([], collect (fun a => (CallGraph.group pairs).getD a []) agenda seen) := by
  induction agenda, seen using collect.induct fun a => (CallGraph.group pairs).getD a [] with
  | case1 seen =>
      rw [collect]
      exact ⟨0, Nat.zero_le _, rfl⟩
  | case2 seen first rest known ih =>
      obtain ⟨count, few, ends⟩ := ih
      rw [collect, if_pos known]
      refine ⟨count + 1, ?_, ?_⟩
      · rw [List.length_cons]
        omega
      · rw [Function.iterate_succ_apply, turn, if_pos known, ends]
  | case3 seen first rest fresh ih =>
      obtain ⟨count, few, ends⟩ := ih
      rw [collect, if_neg fresh]
      refine ⟨count + 1, ?_, ?_⟩
      · rw [List.length_append, CallGraph.length_group] at few
        have paidByPairs := countP_insert fresh pairs
        rw [List.length_cons, paidByPairs]
        omega
      · rw [Function.iterate_succ_apply, turn, if_neg fresh, ends]

end Address

/-! ## Graphs as they are built -/

namespace CallGraph

/-- What a call graph is told. -/
inductive Addition where
  | transfer (transfer : Transfer)
  | entry (entry : Address)
deriving DecidableEq

def extend (graph : CallGraph) : Addition → CallGraph
  | .transfer transfer => graph.add transfer
  | .entry entry => graph.declare entry

/-- The graph after transfers and entry points have been added in any order. -/
def build (additions : List Addition) : CallGraph :=
  additions.foldl extend empty

variable {graph : CallGraph} {additions : List Addition} {a b : Address}

theorem build_concat (additions : List Addition) (addition : Addition) :
    build (additions ++ [addition]) = (build additions).extend addition :=
  List.foldl_concat _ _ _ _

theorem mem_transfers_build {transfer : Transfer} :
    transfer ∈ (build additions).transfers ↔ .transfer transfer ∈ additions := by
  induction additions using List.reverseRecOn with
  | nil => simp [build, empty]
  | append_singleton additions addition ih =>
      rw [build_concat, List.mem_append, List.mem_singleton, ← ih]
      cases addition with
      | transfer other => simp [extend, add]
      | entry entry => simp [extend, transfers_declare]

theorem mem_entries_build : a ∈ (build additions).entries ↔ .entry a ∈ additions := by
  induction additions using List.reverseRecOn with
  | nil => simp [build, empty]
  | append_singleton additions addition ih =>
      rw [build_concat, List.mem_append, List.mem_singleton, ← ih]
      cases addition with
      | transfer transfer => simp [extend, add]
      | entry entry => simp [extend, mem_entries_declare]

theorem calls_build : (build additions).Calls a b ↔
    ∃ edge, .transfer edge ∈ additions ∧ edge.isRoutineEdge = true ∧
      edge.routine = a ∧ edge.target = b := by
  simp only [Calls, mem_routineEdges, mem_transfers_build, and_assoc]

/-- The nodes are the ends of the calls and tail calls that were added. -/
theorem mem_nodes_build : a ∈ (build additions).nodes ↔
    ∃ edge, .transfer edge ∈ additions ∧ edge.isRoutineEdge = true ∧
      (edge.routine = a ∨ edge.target = a) := by
  rw [mem_nodes]
  constructor
  · rintro (⟨b, calls⟩ | ⟨b, calls⟩)
    · obtain ⟨edge, recorded, isEdge, routine, _⟩ := calls_build.mp calls
      exact ⟨edge, recorded, isEdge, .inl routine⟩
    · obtain ⟨edge, recorded, isEdge, _, target⟩ := calls_build.mp calls
      exact ⟨edge, recorded, isEdge, .inr target⟩
  · rintro ⟨edge, recorded, isEdge, routine | target⟩
    · exact .inl ⟨edge.target, calls_build.mpr ⟨edge, recorded, isEdge, routine, rfl⟩⟩
    · exact .inr ⟨edge.routine, calls_build.mpr ⟨edge, recorded, isEdge, rfl, target⟩⟩

/-! ## The reachable routines and the others -/

/-- The set holds every declared entry point, and the target of every call or tail call that a
routine in it makes. -/
def Closed (additions : List Addition) (set : Set Address) : Prop :=
  (∀ entry, .entry entry ∈ additions → entry ∈ set) ∧
    ∀ edge, .transfer edge ∈ additions → edge.isRoutineEdge = true →
      edge.routine ∈ set → edge.target ∈ set

theorem isLeast_reachable (additions : List Addition) :
    IsLeast {set | Closed additions set} {a | a ∈ (build additions).reachable} := by
  constructor
  · constructor
    · intro entry declared
      exact mem_reachable.mpr ⟨entry, mem_entries_build.mpr declared, .refl⟩
    · intro edge recorded isEdge reached
      exact reachable_of_calls reached (calls_build.mpr ⟨edge, recorded, isEdge, rfl, rfl⟩)
  · rintro set ⟨entries, edges⟩ a reached
    obtain ⟨entry, declared, leads⟩ := mem_reachable.mp reached
    induction leads with
    | refl => exact entries entry (mem_entries_build.mp declared)
    | tail before calls ih =>
        obtain ⟨edge, recorded, isEdge, rfl, rfl⟩ := calls_build.mp calls
        exact edges edge recorded isEdge (ih (mem_reachable.mpr ⟨entry, declared, before⟩))

theorem ordered_reachable (graph : CallGraph) :
    graph.reachable.Pairwise fun a b => compare a b = .lt :=
  Std.TreeSet.ordered_toList

/-- Neither the order in which the entry points are tried nor their repetition matters. -/
theorem reach_eq_reachable {roots : List Address} (same : ∀ a, a ∈ roots ↔ a ∈ graph.entries) :
    (graph.reach roots).toList = graph.reachable := by
  refine Std.TreeSet.ordered_toList.eq_of_mem_iff graph.ordered_reachable ?_
  intro a
  simp only [Std.TreeSet.mem_toList, mem_reach, mem_reachable, same]

theorem orphans_eq_filter (declared : graph.entries ≠ []) :
    graph.orphans = graph.nodes.filter fun a => !decide (a ∈ graph.reachable) := by
  rw [orphans, List.isEmpty_eq_false_iff.mpr declared, if_neg Bool.false_ne_true]
  refine List.filter_congr fun a _ => congrArg (!·) ?_
  rw [Bool.eq_iff_iff, Std.TreeSet.contains_iff_mem, decide_eq_true_eq, reachable,
    Std.TreeSet.mem_toList]

theorem disjoint_orphans_reachable (declared : graph.entries ≠ []) :
    graph.orphans.Disjoint graph.reachable := by
  intro a orphan reached
  rw [orphans_eq_filter declared, List.mem_filter, Bool.not_eq_true', decide_eq_false_iff_not]
    at orphan
  exact orphan.2 reached

/-- The reachable nodes and the orphans are the nodes, each of them once. -/
theorem reachable_append_orphans_perm (declared : graph.entries ≠ []) :
    (graph.nodes.filter (· ∈ graph.reachable) ++ graph.orphans).Perm graph.nodes := by
  rw [orphans_eq_filter declared]
  exact List.filter_append_perm _ _

/-- The turns in which the reachable routines are collected are at most as many as the entry points
and the calls and tail calls together. -/
theorem exists_turns_reachable (graph : CallGraph) :
    ∃ count ≤ graph.entries.length + graph.routineEdges.length,
      ∃ found, (Address.turn fun a => graph.successors.getD a [])^[count] (graph.entries, ∅) =
        ([], found) ∧ graph.reachable = found.toList := by
  obtain ⟨count, few, ends⟩ := Address.exists_turns
    (graph.routineEdges.map fun edge => (edge.routine, edge.target)) graph.entries ∅
  refine ⟨count, few.trans (Nat.add_le_add_left ?_ _), _, ends, rfl⟩
  refine (List.countP_le_length).trans ?_
  rw [List.length_map]

/--
However transfers and entry points are added to a graph, its reachable routines are found in at
most as many turns as it has entry points and edges; they are the least set that holds the entry
points and the targets of the calls and tail calls of its members, whichever order the entry points
are tried in. If there is an entry point, each node of the graph is either reachable or an orphan,
and no reachable routine calls an orphan.
-/
theorem reachable_is_least_and_orphans_are_the_rest (additions : List Addition) :
    let graph := build additions
    (∃ count ≤ graph.entries.length + graph.routineEdges.length,
      ∃ found, (Address.turn fun a => graph.successors.getD a [])^[count] (graph.entries, ∅) =
        ([], found) ∧ graph.reachable = found.toList) ∧
    IsLeast {set | Closed additions set} {a | a ∈ graph.reachable} ∧
    (∀ roots : List Address, (∀ a, a ∈ roots ↔ .entry a ∈ additions) →
      (graph.reach roots).toList = graph.reachable) ∧
    (∀ a, a ∈ graph.nodes ↔ ∃ edge, .transfer edge ∈ additions ∧ edge.isRoutineEdge = true ∧
      (edge.routine = a ∨ edge.target = a)) ∧
    ((∃ entry, .entry entry ∈ additions) →
      (graph.nodes.filter (· ∈ graph.reachable) ++ graph.orphans).Perm graph.nodes ∧
      graph.orphans.Disjoint graph.reachable ∧
      ∀ edge, .transfer edge ∈ additions → edge.isRoutineEdge = true →
        edge.routine ∈ graph.reachable → edge.target ∉ graph.orphans) := by
  intro graph
  refine ⟨exists_turns_reachable graph, isLeast_reachable additions, ?order,
    fun a => mem_nodes_build, ?rest⟩
  case order =>
    intro roots same
    exact reach_eq_reachable fun a => (same a).trans mem_entries_build.symm
  case rest =>
    rintro ⟨entry, added⟩
    have declared : graph.entries ≠ [] := List.ne_nil_of_mem (mem_entries_build.mpr added)
    refine ⟨reachable_append_orphans_perm declared, disjoint_orphans_reachable declared, ?targets⟩
    intro edge recorded isEdge reached orphan
    have called : edge.target ∈ graph.reachable :=
      reachable_of_calls reached (calls_build.mpr ⟨edge, recorded, isEdge, rfl, rfl⟩)
    exact disjoint_orphans_reachable declared orphan called

/-- The entry point calls a routine, from which only a plain jump leads to two routines that call
each other. -/
def islandAdditions : List Addition :=
  [.transfer (callBetween 0xA000 0xB000), .transfer (callBetween 0x8000 0x9000),
    .entry (Address.ofNat 0x8000),
    .transfer ⟨Address.ofNat 0x9000, Address.ofNat 0xA000, .jump, Address.ofNat 0x9000, false⟩,
    .transfer (callBetween 0xB000 0xA000)]

theorem orphans_of_islandAdditions :
    let graph := build islandAdditions
    Address.ofNat 0x9000 ∈ graph.reachable ∧ Address.ofNat 0x9000 ∉ graph.orphans ∧
    Address.ofNat 0xA000 ∈ graph.orphans ∧ Address.ofNat 0xB000 ∈ graph.orphans := by
  intro graph
  obtain ⟨_, least, _, nodes, rest⟩ := reachable_is_least_and_orphans_are_the_rest islandAdditions
  obtain ⟨split, apart, targets⟩ := rest ⟨Address.ofNat 0x8000, by decide⟩
  have entered : Address.ofNat 0x8000 ∈ graph.reachable := least.1.1 _ (by decide)
  have mainland :
      Closed islandAdditions {a | a ∈ [Address.ofNat 0x8000, Address.ofNat 0x9000]} := by
    constructor
    · intro entry added
      have only : entry = Address.ofNat 0x8000 := by simpa [islandAdditions] using added
      rw [only]
      exact List.mem_cons_self
    · intro edge added
      simp only [islandAdditions, List.mem_cons, Addition.transfer.injEq, reduceCtorEq, false_or,
        List.not_mem_nil, or_false] at added
      rcases added with rfl | rfl | rfl | rfl
      · decide
      · decide
      · decide
      · decide
  have orphan : ∀ a, a ∉ [Address.ofNat 0x8000, Address.ofNat 0x9000] → a ∈ graph.nodes →
      a ∈ graph.orphans := by
    intro a outside listed
    refine (List.mem_append.mp (split.mem_iff.mpr listed)).resolve_left fun reached => ?_
    exact outside (least.2 mainland (of_decide_eq_true (List.mem_filter.mp reached).2))
  refine ⟨?_, targets (callBetween 0x8000 0x9000) (by decide) rfl entered, ?_, ?_⟩
  · exact least.1.2 (callBetween 0x8000 0x9000) (by decide) rfl entered
  · exact orphan _ (by decide) ((nodes _).mpr ⟨callBetween 0xA000 0xB000, by decide, rfl, .inl rfl⟩)
  · exact orphan _ (by decide) ((nodes _).mpr ⟨callBetween 0xA000 0xB000, by decide, rfl, .inr rfl⟩)

end CallGraph

end WidthTrace
