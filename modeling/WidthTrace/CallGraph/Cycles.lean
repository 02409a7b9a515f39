import WidthTrace.CallGraph.Search

/-!
# Cycles of the call graph

Two routines belong to one group if each leads to the other. One depth-first
search finds the groups. It ranks each routine as it enters it, and holds it
until its whole group has been found. The link of a routine is the lowest rank of
a held routine that it is known to lead to. A routine whose link is still its own
rank when it is left was entered before the rest of its group, which is all that
is held since then.
-/

namespace WidthTrace

/-- A routine that the search has entered, with the successors that it has not yet followed. -/
structure Frame where
  node : Address
  rest : List Address

/-- `path` is the way from a root to the routine at hand, innermost first; `held` lists the routines
whose groups are not complete, latest first; `components` are the groups of several found. -/
structure LinkSearch where
  roots : List Address
  path : List Frame
  held : List Address
  isHeld : AddressSet
  rank : AddressMap Nat
  link : AddressMap Nat
  entered : Nat
  components : List (List Address)

namespace LinkSearch

/-- The search that is to try each of the roots. -/
def start (roots : List Address) : LinkSearch :=
  ⟨roots, [], [], ∅, ∅, ∅, 0, []⟩

instance : Inhabited LinkSearch := ⟨start []⟩

def rankOf (search : LinkSearch) (a : Address) : Nat :=
  search.rank.getD a 0

def linkOf (search : LinkSearch) (a : Address) : Nat :=
  search.link.getD a 0

/-- Enters a routine, which is linked to itself at first. -/
def enter (next : Address → List Address) (search : LinkSearch) (a : Address) : LinkSearch :=
  { search with
    path := ⟨a, next a⟩ :: search.path
    held := a :: search.held
    isHeld := search.isHeld.insert a
    rank := search.rank.insert a search.entered
    link := search.link.insert a search.entered
    entered := search.entered + 1 }

/-- Links a routine to a rank if that is lower. -/
def lower (search : LinkSearch) (a : Address) (rank : Nat) : LinkSearch :=
  { search with link := search.link.insert a (min (search.linkOf a) rank) }

/-- Follows the step from the routine `a` at hand to its successor `b`. -/
def follow (next : Address → List Address) (search : LinkSearch) (a b : Address) : LinkSearch :=
  if b ∉ search.rank then search.enter next b
  else if b ∈ search.isHeld then search.lower a (search.rankOf b)
  else search

/-- What is held since `a` was entered. -/
def heldSince (search : LinkSearch) (a : Address) : List Address :=
  a :: search.held.takeWhile (· != a)

/-- Lets go of everything held since `a` was entered, which is the group of `a`. -/
def release (search : LinkSearch) (a : Address) : LinkSearch :=
  let group := search.heldSince a
  { search with
    held := (search.held.dropWhile (· != a)).tail
    isHeld := group.foldl Std.TreeSet.erase search.isHeld
    components :=
      if 2 ≤ group.length then Address.sorted group :: search.components
      else search.components }

/-- Leaves the routine `a` at hand for the one that it was entered from, which takes over its
link. -/
def leave (search : LinkSearch) (a : Address) (path : List Frame) : LinkSearch :=
  let search := { search with path }
  let search := match path with
    | [] => search
    | parent :: _ => search.lower parent.node (search.linkOf a)
  if search.linkOf a = search.rankOf a then search.release a else search

/-- Follows one successor of the routine at hand, or leaves it if there is none; with no routine at
hand, tries the next root. -/
def step (next : Address → List Address) (search : LinkSearch) : LinkSearch :=
  match search.path with
  | ⟨a, b :: rest⟩ :: path => { search with path := ⟨a, rest⟩ :: path }.follow next a b
  | ⟨a, []⟩ :: path => search.leave a path
  | [] =>
      match search.roots with
      | [] => search
      | a :: roots =>
          let search := { search with roots }
          if a ∈ search.rank then search else search.enter next a

def isDone (search : LinkSearch) : Bool :=
  search.path.isEmpty && search.roots.isEmpty

/-- The steps that can be taken without entering a routine. -/
def workload (search : LinkSearch) : Nat :=
  search.path.foldr (fun frame load => frame.rest.length + 1 + load) search.roots.length

/-- Steps decrease this pair lexicographically. -/
def measure (search : LinkSearch) : Nat × Nat :=
  (search.rank.room, search.workload)

abbrev Smaller (a b : LinkSearch) : Prop :=
  Prod.Lex (· < ·) (· < ·) a.measure b.measure

theorem enter_smaller (next : Address → List Address) {search : LinkSearch} {a : Address}
    (fresh : a ∉ search.rank) {before : LinkSearch} (same : search.rank = before.rank) :
    (search.enter next a).Smaller before := by
  apply Prod.Lex.left
  rw [← same]
  exact AddressMap.room_insert_lt fresh _

theorem leave_smaller {search : LinkSearch} {a : Address} {path : List Frame}
    (present : search.path = ⟨a, []⟩ :: path) : (search.leave a path).Smaller search := by
  have kept : (search.leave a path).measure = (search.rank.room,
      path.foldr (fun frame load => frame.rest.length + 1 + load) search.roots.length) := by
    unfold leave
    cases path with
    | nil =>
        dsimp only
        split <;> rfl
    | cons parent path =>
        dsimp only
        split <;> rfl
  rw [Smaller, kept, measure, workload, present]
  exact Prod.Lex.right _ (by simp)

theorem step_smaller (next : Address → List Address) {search : LinkSearch}
    (busy : search.isDone = false) : (search.step next).Smaller search := by
  unfold step
  split
  · rename_i a b rest path present
    unfold follow
    have fewer : workload { search with path := ⟨a, rest⟩ :: path } < search.workload := by
      simp [workload, present]
    split
    · exact enter_smaller next (by assumption) rfl
    · split
      · exact Prod.Lex.right _ fewer
      · exact Prod.Lex.right _ fewer
  · exact leave_smaller (by assumption)
  · rename_i noPath
    split
    · rename_i noRoots
      simp [isDone, noPath, noRoots] at busy
    · rename_i a roots present
      dsimp only
      split
      · exact Prod.Lex.right _ (by simp [workload, noPath, present])
      · exact enter_smaller next (by assumption) rfl

/-- Steps until every root has been tried. -/
def run (next : Address → List Address) (search : LinkSearch) : LinkSearch :=
  if search.isDone then search else run next (search.step next)
termination_by search.measure
decreasing_by exact step_smaller next (Bool.eq_false_iff.mpr ‹_›)

end LinkSearch

namespace CallGraph

/-- The groups of at least two routines that all lead to each other. Groups and their members are in
address order. -/
def cycles (graph : CallGraph) : List (List Address) :=
  let successors := graph.successors
  let search := LinkSearch.start graph.nodes
  (search.run fun a => successors.getD a []).components.mergeSort fun a b => (compare a b).isLE

end CallGraph

end WidthTrace
