import WidthTrace.CallGraph.Basic

/-!
# Searching the call graph

`collect` gathers everything that a list of addresses leads to. From it come the
routines reachable from the entry points, and the orphans, which are not.
-/

namespace WidthTrace

namespace Address

/-- Adds to `seen` what the agenda leads to by steps of `next` that avoid it. -/
def collect (next : Address → List Address) (agenda : List Address) (seen : AddressSet) :
    AddressSet :=
  match agenda with
  | [] => seen
  | a :: rest =>
      if a ∈ seen then collect next rest seen
      else collect next (next a ++ rest) (seen.insert a)
termination_by (seen.room, agenda.length)
decreasing_by
  · exact Prod.Lex.right _ (Nat.lt_succ_self _)
  · exact Prod.Lex.left _ _ (AddressSet.room_insert_lt (by assumption))

end Address

namespace CallGraph

/-- Groups pairs of addresses by their first member. -/
def group (pairs : List (Address × Address)) : AddressMap (List Address) :=
  pairs.foldr (fun pair map => map.insert pair.1 (pair.2 :: map.getD pair.1 [])) ∅

theorem mem_group {pairs : List (Address × Address)} {a b : Address} :
    b ∈ (group pairs).getD a [] ↔ (a, b) ∈ pairs := by
  induction pairs with
  | nil => simp [group]
  | cons pair rest ih =>
      obtain ⟨first, second⟩ := pair
      simp only [group, List.foldr_cons] at ih ⊢
      rw [Std.TreeMap.getD_insert, List.mem_cons, Prod.mk.injEq]
      by_cases same : first = a
      · subst same
        simp [ih]
      · rw [if_neg (by simpa using same), ih]
        simp [Ne.symm same]

/-- The routines that each routine calls. -/
def successors (graph : CallGraph) : AddressMap (List Address) :=
  group (graph.routineEdges.map fun edge => (edge.routine, edge.target))

theorem mem_successors {graph : CallGraph} {a b : Address} :
    b ∈ graph.successors.getD a [] ↔ graph.Calls a b := by
  simp [successors, mem_group, Calls]

/-- To follow the successors is to follow calls. -/
theorem successors_eq_calls (graph : CallGraph) :
    (fun a b => b ∈ graph.successors.getD a []) = graph.Calls := by
  funext a b
  exact propext mem_successors

/-- Each calling routine with the routines that it calls, both in address order. -/
def adjacency (graph : CallGraph) : List (Address × List Address) :=
  graph.successors.toList.map fun (routine, targets) => (routine, Address.sorted targets)

/-- Everything that a list of routines leads to, themselves included. -/
def reach (graph : CallGraph) (roots : List Address) : AddressSet :=
  let successors := graph.successors
  Address.collect (fun a => successors.getD a []) roots ∅

/-- The routines that the entry points lead to, themselves included. -/
def reachable (graph : CallGraph) : List Address :=
  (graph.reach graph.entries).toList

/-- The nodes that no entry point leads to; there are none while no entry point is declared. -/
def orphans (graph : CallGraph) : List Address :=
  if graph.entries.isEmpty then []
  else
    let reached := graph.reach graph.entries
    graph.nodes.filter fun a => !reached.contains a

end CallGraph

end WidthTrace
