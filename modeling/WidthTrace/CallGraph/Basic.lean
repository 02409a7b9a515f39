import WidthTrace.Address.Collection
import WidthTrace.Transfer

/-!
# Call graphs

The graph is the list of recorded transfers together with the declared entry
points. Its nodes are routines, named by their first address; its edges are the
calls and tail calls, which lead from the routine that makes them to their target.
Every view is read off the recorded transfers, and transfers with equal sort keys
keep the order in which they were recorded.
-/

namespace WidthTrace

/-- `entries` lists each declared entry point once, in the order of first declaration; `leaves` is
as of the last call of `markLeaves`. -/
structure CallGraph where
  transfers : Array Transfer
  entries : List Address
  leaves : List Address

namespace CallGraph

def empty : CallGraph := ⟨#[], [], []⟩

instance : Inhabited CallGraph := ⟨empty⟩

def add (graph : CallGraph) (transfer : Transfer) : CallGraph :=
  { graph with transfers := graph.transfers.push transfer }

/-- Declares an entry point. -/
def declare (graph : CallGraph) (entry : Address) : CallGraph :=
  if entry ∈ graph.entries then graph
  else { graph with entries := graph.entries ++ [entry] }

def isEntry (graph : CallGraph) (a : Address) : Bool :=
  graph.entries.contains a

/-- Some recorded call leads to the address. -/
def isCallTarget (graph : CallGraph) (a : Address) : Bool :=
  graph.transfers.any fun transfer => transfer.kind == .call && transfer.target == a

/-- The transfers of every kind that lead to an address, in recorded order. -/
def transfersTo (graph : CallGraph) (a : Address) : List Transfer :=
  graph.transfers.toList.filter fun transfer => transfer.target == a

/-- The calls and tail calls in recorded order. -/
def routineEdges (graph : CallGraph) : List Transfer :=
  graph.transfers.toList.filter Transfer.isRoutineEdge

/-- The calls and tail calls that a routine makes, in recorded order. -/
def edgesFrom (graph : CallGraph) (routine : Address) : List Transfer :=
  graph.routineEdges.filter fun edge => edge.routine == routine

/-- The routine `a` calls the routine `b`, possibly by a tail call. -/
def Calls (graph : CallGraph) (a b : Address) : Prop :=
  ∃ edge ∈ graph.routineEdges, edge.routine = a ∧ edge.target = b

/-- The routines that make calls. -/
def callers (graph : CallGraph) : List Address :=
  Address.sorted (graph.routineEdges.map Transfer.routine)

/-- The routines that are called. -/
def callees (graph : CallGraph) : List Address :=
  Address.sorted (graph.routineEdges.map Transfer.target)

/-- Every routine at either end of an edge. -/
def nodes (graph : CallGraph) : List Address :=
  Address.sorted
    (graph.routineEdges.map Transfer.routine ++ graph.routineEdges.map Transfer.target)

/-- Notes which routines are called and make no calls themselves. -/
def markLeaves (graph : CallGraph) : CallGraph :=
  let callers := Std.TreeSet.ofList (graph.routineEdges.map Transfer.routine)
  { graph with leaves := graph.callees.filter fun routine => !callers.contains routine }

/-- By routine, then by source, then by target. -/
def edgeOrder (a b : Transfer) : Ordering :=
  (compare a.routine b.routine).then
    ((compare a.source b.source).then (compare a.target b.target))

/-- By source, then by target. -/
def siteOrder (a b : Transfer) : Ordering :=
  (compare a.source b.source).then (compare a.target b.target)

/-- The edges in the order of `edgeOrder`. -/
def edges (graph : CallGraph) : List Transfer :=
  graph.routineEdges.mergeSort fun a b => (edgeOrder a b).isLE

/-- The calls and jumps between banks in the order of `siteOrder`. -/
def crossBank (graph : CallGraph) : List Transfer :=
  (graph.transfers.toList.filter Transfer.crossesBank).mergeSort fun a b => (siteOrder a b).isLE

structure Stats where
  transfers : Nat
  callers : Nat
  targets : Nat
  entries : Nat
  leaves : Nat
deriving DecidableEq, Repr

/-- How many transfers, calling routines, transfer targets, entry points and leaves there are. -/
def stats (graph : CallGraph) : Stats where
  transfers := graph.transfers.size
  callers := graph.callers.length
  targets := (Address.sorted (graph.transfers.toList.map Transfer.target)).length
  entries := graph.entries.length
  leaves := graph.leaves.length

theorem mem_entries_declare {graph : CallGraph} {entry a : Address} :
    a ∈ (graph.declare entry).entries ↔ a ∈ graph.entries ∨ a = entry := by
  unfold declare
  split
  · constructor
    · exact Or.inl
    · rintro (member | rfl) <;> assumption
  · simp

theorem transfers_declare (graph : CallGraph) (entry : Address) :
    (graph.declare entry).transfers = graph.transfers := by
  unfold declare
  split <;> rfl

theorem isEntry_iff {graph : CallGraph} {a : Address} :
    graph.isEntry a = true ↔ a ∈ graph.entries :=
  List.contains_iff_mem

theorem isEntry_declare {graph : CallGraph} {entry a : Address} :
    (graph.declare entry).isEntry a = true ↔ graph.isEntry a = true ∨ a = entry := by
  rw [isEntry_iff, isEntry_iff, mem_entries_declare]

theorem isCallTarget_iff {graph : CallGraph} {a : Address} :
    graph.isCallTarget a = true ↔
      ∃ transfer ∈ graph.transfers, transfer.kind = .call ∧ transfer.target = a := by
  simp [isCallTarget, ← Array.any_toList]

theorem mem_nodes {graph : CallGraph} {a : Address} :
    a ∈ graph.nodes ↔ (∃ b, graph.Calls a b) ∨ ∃ b, graph.Calls b a := by
  simp only [nodes, Address.mem_sorted, List.mem_append, List.mem_map, Calls]
  constructor
  · rintro (⟨edge, member, rfl⟩ | ⟨edge, member, rfl⟩)
    · exact .inl ⟨edge.target, edge, member, rfl, rfl⟩
    · exact .inr ⟨edge.routine, edge, member, rfl, rfl⟩
  · rintro (⟨_, edge, member, rfl, _⟩ | ⟨_, edge, member, _, rfl⟩)
    · exact .inl ⟨edge, member, rfl⟩
    · exact .inr ⟨edge, member, rfl⟩

end CallGraph

end WidthTrace
