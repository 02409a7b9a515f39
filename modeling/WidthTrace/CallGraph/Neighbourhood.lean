import WidthTrace.CallGraph.Search
import WidthTrace.Queue

/-!
# Neighbourhoods in the call graph

The part of a call graph within a number of calls of some roots. One breadth-first
survey finds it. Routines wait in a queue, each with its level, which is the number
of calls that led to it from a root. A routine whose turn comes is noted with the
edges out of it, unless its level is beyond the depth or it was noted before. The
roots are noted whether or not the graph knows them.
-/

namespace WidthTrace

/-- `waiting` holds routines with their levels, oldest first; `edges` are those out of the routines
noted so far. -/
structure Survey where
  waiting : Queue (Address × Nat)
  nodes : AddressSet
  edges : Array Transfer

namespace Survey

/-- The survey that is to start at each of the roots. -/
def start (roots : List Address) : Survey :=
  ⟨Queue.empty.pushAll (roots.map (·, 0)), ∅, #[]⟩

instance : Inhabited Survey := ⟨start []⟩

/-- Notes a routine with the edges out of it, whose targets wait at the next level. -/
def note (edgesOf : Address → List Transfer) (survey : Survey) (a : Address) (level : Nat) :
    Survey :=
  let edges := edgesOf a
  { waiting := survey.waiting.pushAll (edges.map fun edge => (edge.target, level + 1))
    nodes := survey.nodes.insert a
    edges := survey.edges ++ edges }

/-- Deals with a routine whose turn has come. -/
def visit (edgesOf : Address → List Transfer) (depth : Nat) (survey : Survey) (a : Address)
    (level : Nat) : Survey :=
  if depth < level ∨ a ∈ survey.nodes then survey else survey.note edgesOf a level

/-- Takes up the routine that has waited longest. -/
def step (edgesOf : Address → List Transfer) (depth : Nat) (survey : Survey) : Survey :=
  match survey.waiting.pop? with
  | some ((a, level), waiting) => { survey with waiting }.visit edgesOf depth a level
  | none => survey

def isDone (survey : Survey) : Bool :=
  survey.waiting.pop?.isNone

/-- Steps decrease this pair lexicographically. -/
def measure (survey : Survey) : Nat × Nat :=
  (survey.nodes.room, survey.waiting.length)

abbrev Smaller (a b : Survey) : Prop :=
  Prod.Lex (· < ·) (· < ·) a.measure b.measure

theorem step_smaller (edgesOf : Address → List Transfer) (depth : Nat) {survey : Survey}
    (busy : survey.isDone = false) : (survey.step edgesOf depth).Smaller survey := by
  unfold step
  split
  · rename_i a level waiting popped
    unfold visit
    split
    · simp only [Smaller, measure, Queue.length_of_pop? popped]
      exact Prod.Lex.right _ (Nat.lt_succ_self _)
    · rename_i noted
      exact Prod.Lex.left _ _ (AddressSet.room_insert_lt (not_or.mp noted).2)
  · rename_i nothing
    simp [isDone, nothing] at busy

/-- Steps until nothing waits. -/
def run (edgesOf : Address → List Transfer) (depth : Nat) (survey : Survey) : Survey :=
  if survey.isDone then survey else run edgesOf depth (survey.step edgesOf depth)
termination_by survey.measure
decreasing_by exact step_smaller edgesOf depth (Bool.eq_false_iff.mpr ‹_›)

end Survey

namespace CallGraph

/-- The edges out of each routine, in recorded order. -/
def edgeMap (graph : CallGraph) : AddressMap (List Transfer) :=
  graph.routineEdges.foldr
    (fun edge map => map.insert edge.routine (edge :: map.getD edge.routine [])) ∅

theorem getD_edgeMap (graph : CallGraph) (a : Address) :
    graph.edgeMap.getD a [] = graph.edgesFrom a := by
  unfold edgeMap edgesFrom
  induction graph.routineEdges with
  | nil => rfl
  | cons edge rest ih =>
      rw [List.foldr_cons, Std.TreeMap.getD_insert, List.filter_cons]
      by_cases same : edge.routine = a
      · subst same
        simp [ih]
      · rw [if_neg (by simpa using same), ih, if_neg (by simpa using same)]

/-- Drops an element that equals the one before it. -/
def dropRepeats {α : Type} [DecidableEq α] : List α → List α
  | [] => []
  | [a] => [a]
  | a :: b :: rest => if a = b then dropRepeats (b :: rest) else a :: dropRepeats (b :: rest)

structure Neighbourhood where
  nodes : List Address
  edges : List Transfer

/-- The routines within `depth` calls of the roots, and the edges between them in the order of
`edgeOrder`. An edge equal to the one before it is left out. -/
def neighbourhood (graph : CallGraph) (roots : List Address) (depth : Nat) : Neighbourhood :=
  let edgeMap := graph.edgeMap
  let survey := (Survey.start roots).run (fun a => edgeMap.getD a []) depth
  let inside := survey.edges.toList.filter fun edge =>
    survey.nodes.contains edge.routine && survey.nodes.contains edge.target
  ⟨survey.nodes.toList, dropRepeats (inside.mergeSort fun a b => (edgeOrder a b).isLE)⟩

end CallGraph

end WidthTrace
