import WidthTrace.CallGraph.Neighbourhood
import WidthTrace.Proofs.CallGraph.Cycles
import WidthTrace.Proofs.CallGraph.Reachability

/-!
# Correctness of the neighbourhoods

The routines wait in the order of their levels: first some at one level, then some at
the next. Hence a routine that is within a number of calls of the roots has been noted
before the survey goes on to higher levels, and the survey notes exactly the routines
within the depth.
-/

namespace WidthTrace

namespace CallGraph

/-- A path of so many calls leads from `a` to a routine. -/
inductive Path (graph : CallGraph) (a : Address) : Nat → Address → Prop where
  | here : Path graph a 0 a
  | call {length : Nat} {b c : Address} (leads : Path graph a length b) (calls : graph.Calls b c) :
      Path graph a (length + 1) c

/-- A path of at most `bound` calls leads from one of the roots to `a`. -/
def Near (graph : CallGraph) (roots : List Address) (bound : Nat) (a : Address) : Prop :=
  ∃ root ∈ roots, ∃ length ≤ bound, graph.Path root length a

variable {graph : CallGraph} {roots : List Address} {bound : Nat} {a b : Address}

theorem near_zero_iff : graph.Near roots 0 a ↔ a ∈ roots := by
  constructor
  · rintro ⟨root, listed, length, short, leads⟩
    obtain rfl := Nat.le_zero.mp short
    cases leads
    exact listed
  · intro listed
    exact ⟨a, listed, 0, Nat.le_refl 0, .here⟩

theorem Near.mono {further : Nat} (near : graph.Near roots bound a) (le : bound ≤ further) :
    graph.Near roots further a := by
  obtain ⟨root, listed, length, short, leads⟩ := near
  exact ⟨root, listed, length, short.trans le, leads⟩

theorem Near.call (near : graph.Near roots bound a) (calls : graph.Calls a b) :
    graph.Near roots (bound + 1) b := by
  obtain ⟨root, listed, length, short, leads⟩ := near
  exact ⟨root, listed, length + 1, Nat.succ_le_succ short, .call leads calls⟩

/-- Within one call more are the routines that were within the bound, and those that they call. -/
theorem Near.cases_succ (near : graph.Near roots (bound + 1) b) :
    graph.Near roots bound b ∨ ∃ a, graph.Near roots bound a ∧ graph.Calls a b := by
  obtain ⟨root, listed, length, short, leads⟩ := near
  cases leads with
  | here => exact .inl ⟨b, listed, 0, Nat.zero_le _, .here⟩
  | @call length a _ before calls =>
      exact .inr ⟨a, ⟨root, listed, length, Nat.le_of_succ_le_succ short, before⟩, calls⟩

theorem mem_edgesFrom {edge : Transfer} :
    edge ∈ graph.edgesFrom a ↔ edge ∈ graph.routineEdges ∧ edge.routine = a := by
  rw [edgesFrom, List.mem_filter, beq_iff_eq]

theorem calls_iff_mem_targets : graph.Calls a b ↔ b ∈ (graph.edgesFrom a).map Transfer.target := by
  rw [List.mem_map]
  constructor
  · rintro ⟨edge, listed, routine, target⟩
    exact ⟨edge, mem_edgesFrom.mpr ⟨listed, routine⟩, target⟩
  · rintro ⟨edge, out, target⟩
    obtain ⟨listed, routine⟩ := mem_edgesFrom.mp out
    exact ⟨edge, listed, routine, target⟩

end CallGraph

/-! ## The survey -/

namespace Survey

/-- The survey has come to a level, where `now` wait, and behind them `later` at the next one. -/
structure AtLevel (graph : CallGraph) (roots : List Address) (depth level : Nat)
    (now later : List Address) (survey : Survey) : Prop where
  waiting : survey.waiting.toList = now.map (·, level) ++ later.map (·, level + 1)
  near : ∀ a ∈ now, graph.Near roots level a
  far : ∀ a ∈ later, graph.Near roots (level + 1) a
  noted : ∀ a ∈ survey.nodes, graph.Near roots depth a
  covered : ∀ a, graph.Near roots level a → graph.Near roots depth a →
    a ∈ survey.nodes ∨ level ≤ depth ∧ a ∈ now
  frontier : ∀ a ∈ survey.nodes, ∀ b, graph.Calls a b → graph.Near roots level b ∨ b ∈ later
  edges : ∀ edge, edge ∈ survey.edges ↔ edge ∈ graph.routineEdges ∧ edge.routine ∈ survey.nodes

namespace AtLevel

variable {graph : CallGraph} {roots now later : List Address} {depth level : Nat} {survey : Survey}
  {a : Address}

theorem start : AtLevel graph roots depth 0 roots [] (start roots) where
  waiting := by simp [Survey.start]
  near _ listed := CallGraph.near_zero_iff.mpr listed
  far _ listed := absurd listed List.not_mem_nil
  noted _ inside := absurd inside Std.TreeSet.not_mem_emptyc
  covered _ root _ := .inr ⟨Nat.zero_le _, CallGraph.near_zero_iff.mp root⟩
  frontier _ inside := absurd inside Std.TreeSet.not_mem_emptyc
  edges edge := by simp [Survey.start]

/-- Once nothing waits at the level, the survey stands at the next one. The routine that makes the
last call of a path is noted by then, so that what it calls waits or is closer. -/
theorem next (stands : AtLevel graph roots depth level [] later survey) :
    AtLevel graph roots depth (level + 1) later [] survey where
  waiting := by
    rw [stands.waiting]
    simp
  near := stands.far
  far _ listed := absurd listed List.not_mem_nil
  noted := stands.noted
  covered b close within := by
    have noted : ∀ c, graph.Near roots level c → graph.Near roots depth c → c ∈ survey.nodes := by
      intro c at_level at_depth
      exact (stands.covered c at_level at_depth).resolve_right fun waits =>
        List.not_mem_nil waits.2
    rcases Nat.lt_or_ge level depth with below | beyond
    · rcases close.cases_succ with closer | ⟨c, before, calls⟩
      · exact .inl (noted b closer within)
      · have inside := noted c before (before.mono below.le)
        rcases stands.frontier c inside b calls with closer | waits
        · exact .inl (noted b closer within)
        · exact .inr ⟨below, waits⟩
    · exact .inl (noted b (within.mono beyond) within)
  frontier b inside c calls := by
    rcases stands.frontier b inside c calls with close | waits
    · exact .inl (close.mono (Nat.le_succ level))
    · exact .inl (stands.far c waits)
  edges := stands.edges

/-- A routine whose turn has come may be passed over if it is beyond the depth or noted. -/
theorem pass {waiting : Queue (Address × Nat)}
    (stands : AtLevel graph roots depth level (a :: now) later survey)
    (rest : waiting.toList = now.map (·, level) ++ later.map (·, level + 1))
    (needless : depth < level ∨ a ∈ survey.nodes) :
    AtLevel graph roots depth level now later { survey with waiting } where
  waiting := rest
  near b listed := stands.near b (List.mem_cons_of_mem _ listed)
  far := stands.far
  noted := stands.noted
  covered b close within := by
    rcases stands.covered b close within with inside | ⟨short, waits⟩
    · exact .inl inside
    · rcases List.mem_cons.mp waits with rfl | waits
      · exact .inl (needless.resolve_left short.not_gt)
      · exact .inr ⟨short, waits⟩
  frontier := stands.frontier
  edges := stands.edges

/-- A routine within the depth may be noted when its turn has come. -/
theorem note {waiting : Queue (Address × Nat)}
    (stands : AtLevel graph roots depth level (a :: now) later survey)
    (rest : waiting.toList = now.map (·, level) ++ later.map (·, level + 1))
    (short : level ≤ depth) :
    AtLevel graph roots depth level now (later ++ (graph.edgesFrom a).map Transfer.target)
      ({ survey with waiting }.note graph.edgesFrom a level) where
  waiting := by
    simp [Survey.note, rest]
  near b listed := stands.near b (List.mem_cons_of_mem _ listed)
  far b listed := by
    rcases List.mem_append.mp listed with waits | target
    · exact stands.far b waits
    · exact (stands.near a List.mem_cons_self).call (CallGraph.calls_iff_mem_targets.mpr target)
  noted b inside := by
    rcases AddressSet.mem_insert.mp inside with rfl | before
    · exact (stands.near a List.mem_cons_self).mono short
    · exact stands.noted b before
  covered b close within := by
    simp only [Survey.note, AddressSet.mem_insert]
    rcases stands.covered b close within with inside | ⟨_, waits⟩
    · exact .inl (.inr inside)
    · rcases List.mem_cons.mp waits with rfl | waits
      · exact .inl (.inl rfl)
      · exact .inr ⟨short, waits⟩
  frontier b inside c calls := by
    rcases AddressSet.mem_insert.mp inside with rfl | before
    · exact .inr (List.mem_append_right _ (CallGraph.calls_iff_mem_targets.mp calls))
    · exact (stands.frontier b before c calls).imp_right (List.mem_append_left _)
  edges edge := by
    have grown : edge ∈ survey.edges ++ graph.edgesFrom a ↔
        edge ∈ survey.edges ∨ edge ∈ graph.edgesFrom a := by
      rw [← Array.mem_toList_iff, Array.toList_appendList, List.mem_append, Array.mem_toList_iff]
    simp only [Survey.note, grown, stands.edges, AddressSet.mem_insert, CallGraph.mem_edgesFrom]
    constructor
    · rintro (⟨listed, inside⟩ | ⟨listed, rfl⟩)
      · exact ⟨listed, .inr inside⟩
      · exact ⟨listed, .inl rfl⟩
    · rintro ⟨listed, rfl | inside⟩
      · exact .inr ⟨listed, rfl⟩
      · exact .inl ⟨listed, inside⟩

/-- A step takes up the first routine that waits at the level. -/
theorem visit (stands : AtLevel graph roots depth level (a :: now) later survey) :
    ∃ after, AtLevel graph roots depth level now after (survey.step graph.edgesFrom depth) := by
  have listed := stands.waiting
  cases popped : survey.waiting.pop? with
  | none =>
      rw [Queue.pop?_eq_none_iff.mp popped] at listed
      cases listed
  | some head =>
      obtain ⟨first, waiting⟩ := head
      rw [Queue.toList_of_pop? popped] at listed
      obtain ⟨rfl, rest⟩ := List.cons.inj listed
      simp only [Survey.step, popped, Survey.visit]
      split
      · rename_i needless
        exact ⟨later, stands.pass rest needless⟩
      · rename_i needed
        exact ⟨_, stands.note rest (not_lt.mp (not_or.mp needed).1)⟩

theorem step (stands : AtLevel graph roots depth level now later survey)
    (busy : survey.isDone = false) :
    ∃ level now later, AtLevel graph roots depth level now later
      (survey.step graph.edgesFrom depth) := by
  cases now with
  | cons a now =>
      obtain ⟨after, visited⟩ := stands.visit
      exact ⟨level, now, after, visited⟩
  | nil =>
      cases later with
      | cons a later =>
          obtain ⟨after, visited⟩ := stands.next.visit
          exact ⟨level + 1, later, after, visited⟩
      | nil =>
          rw [isDone, Queue.pop?_eq_none_iff.mpr stands.waiting] at busy
          cases busy

/-- In the end nothing waits, at whatever level. -/
theorem run (stands : AtLevel graph roots depth level now later survey) :
    ∃ level, AtLevel graph roots depth level [] [] (survey.run graph.edgesFrom depth) := by
  induction survey using run.induct graph.edgesFrom depth generalizing level now later with
  | case1 survey done =>
      rw [Survey.run, if_pos done]
      have nothing := stands.waiting
      rw [Queue.pop?_eq_none_iff.mp (Option.isNone_iff_eq_none.mp done)] at nothing
      obtain ⟨noneNow, noneLater⟩ := List.append_eq_nil_iff.mp nothing.symm
      rw [List.map_eq_nil_iff] at noneNow noneLater
      subst noneNow noneLater
      exact ⟨level, stands⟩
  | case2 survey busy ih =>
      rw [Survey.run, if_neg busy]
      obtain ⟨_, _, _, stepped⟩ := stands.step (Bool.eq_false_iff.mpr busy)
      exact ih stepped

/-- A survey for which nothing waits may be taken to stand at any higher level. -/
theorem higher (stands : AtLevel graph roots depth level [] [] survey) (more : Nat) :
    AtLevel graph roots depth (level + more) [] [] survey := by
  induction more with
  | zero => exact stands
  | succ more ih => exact ih.next

theorem mem_nodes (stands : AtLevel graph roots depth level [] [] survey) :
    a ∈ survey.nodes ↔ graph.Near roots depth a := by
  constructor
  · exact stands.noted a
  · intro near
    have close := near.mono (Nat.le_add_left depth level)
    exact ((stands.higher depth).covered a close near).resolve_right fun waits =>
      List.not_mem_nil waits.2

end AtLevel

variable {graph : CallGraph} {roots : List Address} {depth : Nat}

theorem mem_nodes_run {a : Address} :
    a ∈ ((start roots).run graph.edgesFrom depth).nodes ↔ graph.Near roots depth a := by
  have begun : AtLevel graph roots depth 0 roots [] (start roots) := .start
  obtain ⟨_, stands⟩ := begun.run
  exact stands.mem_nodes

theorem mem_edges_run {edge : Transfer} :
    edge ∈ ((start roots).run graph.edgesFrom depth).edges ↔
      edge ∈ graph.routineEdges ∧ graph.Near roots depth edge.routine := by
  have begun : AtLevel graph roots depth 0 roots [] (start roots) := .start
  obtain ⟨_, stands⟩ := begun.run
  rw [stands.edges, stands.mem_nodes]

end Survey

/-! ## The neighbourhood -/

namespace CallGraph

theorem edgeOrder_eq_compareLex :
    edgeOrder = compareLex (compareOn Transfer.routine)
      (compareLex (compareOn Transfer.source) (compareOn Transfer.target)) := by
  funext a b
  rw [edgeOrder, compareLex, compareLex, compareOn, compareOn, compareOn]

instance transCmp_edgeOrder : Std.TransCmp edgeOrder := by
  rw [edgeOrder_eq_compareLex]
  infer_instance

theorem dropRepeats_sublist {α : Type} [DecidableEq α] (members : List α) :
    (dropRepeats members).Sublist members := by
  induction members using dropRepeats.induct with
  | case1 => exact .refl _
  | case2 a => exact .refl _
  | case3 a rest ih =>
      rw [dropRepeats, if_pos rfl]
      exact ih.cons a
  | case4 a b rest different ih =>
      rw [dropRepeats, if_neg different]
      exact ih.cons_cons a

theorem mem_dropRepeats {α : Type} [DecidableEq α] {members : List α} {a : α} :
    a ∈ dropRepeats members ↔ a ∈ members := by
  induction members using dropRepeats.induct with
  | case1 => exact Iff.rfl
  | case2 b => exact Iff.rfl
  | case3 b rest ih =>
      rw [dropRepeats, if_pos rfl, ih, List.mem_cons (b := b) (l := b :: rest)]
      simp
  | case4 b c rest different ih =>
      rw [dropRepeats, if_neg different, List.mem_cons, ih, List.mem_cons (l := c :: rest)]

variable (graph : CallGraph) (roots : List Address) (depth : Nat)

/-- The survey by which the neighbourhood of some roots is found. -/
def surveyed : Survey :=
  (Survey.start roots).run graph.edgesFrom depth

theorem neighbourhood_eq :
    graph.neighbourhood roots depth =
      let survey := graph.surveyed roots depth
      let inside := survey.edges.toList.filter fun edge =>
        survey.nodes.contains edge.routine && survey.nodes.contains edge.target
      ⟨survey.nodes.toList, dropRepeats (inside.mergeSort fun a b => (edgeOrder a b).isLE)⟩ := by
  have same : (fun a => graph.edgeMap.getD a []) = graph.edgesFrom :=
    funext graph.getD_edgeMap
  rw [neighbourhood, same, surveyed]

variable {graph roots depth}

theorem mem_nodes_neighbourhood {a : Address} :
    a ∈ (graph.neighbourhood roots depth).nodes ↔ graph.Near roots depth a := by
  rw [neighbourhood_eq]
  exact Std.TreeSet.mem_toList.trans Survey.mem_nodes_run

theorem mem_edges_neighbourhood {edge : Transfer} :
    edge ∈ (graph.neighbourhood roots depth).edges ↔ edge ∈ graph.routineEdges ∧
      graph.Near roots depth edge.routine ∧ graph.Near roots depth edge.target := by
  rw [neighbourhood_eq]
  simp only [mem_dropRepeats, List.mem_mergeSort, List.mem_filter, Bool.and_eq_true,
    Std.TreeSet.contains_iff_mem, Array.mem_toList_iff, surveyed, Survey.mem_edges_run,
    Survey.mem_nodes_run]
  constructor
  · rintro ⟨⟨listed, routine⟩, _, target⟩
    exact ⟨listed, routine, target⟩
  · rintro ⟨listed, routine, target⟩
    exact ⟨⟨listed, routine⟩, routine, target⟩

theorem ordered_nodes_neighbourhood :
    (graph.neighbourhood roots depth).nodes.Pairwise fun a b => compare a b = .lt := by
  rw [neighbourhood_eq]
  exact Std.TreeSet.ordered_toList

theorem ordered_edges_neighbourhood :
    (graph.neighbourhood roots depth).edges.Pairwise fun a b => (edgeOrder a b).isLE = true := by
  rw [neighbourhood_eq]
  exact (pairwise_mergeSort_isLE edgeOrder _).sublist (dropRepeats_sublist _)

/--
Whatever transfers are recorded, the routines of a neighbourhood are exactly those that a path of
at most `depth` calls leads to from one of the roots, in address order and each of them once. Its
edges are exactly the recorded calls and tail calls between these routines, in the order of the
routines that make them, then of their sources, then of their targets.
-/
theorem neighbourhood_is_within_depth (transfers : List Transfer) (roots : List Address)
    (depth : Nat) :
    let graph := record transfers
    let part := graph.neighbourhood roots depth
    (∀ a, a ∈ part.nodes ↔ ∃ root ∈ roots, ∃ length ≤ depth, graph.Path root length a) ∧
    (part.nodes.Pairwise fun a b => compare a b = .lt) ∧
    (∀ edge, edge ∈ part.edges ↔ edge ∈ transfers ∧ edge.isRoutineEdge = true ∧
      edge.routine ∈ part.nodes ∧ edge.target ∈ part.nodes) ∧
    part.edges.Pairwise fun a b => (edgeOrder a b).isLE = true := by
  intro graph part
  refine ⟨?nodes, ordered_nodes_neighbourhood, ?edges, ordered_edges_neighbourhood⟩
  case nodes =>
    intro a
    exact mem_nodes_neighbourhood
  case edges =>
    intro edge
    have recorded : edge ∈ graph.transfers ↔ edge ∈ transfers := by
      rw [← Array.mem_toList_iff, transfers_record]
    rw [mem_edges_neighbourhood, mem_routineEdges, recorded, and_assoc,
      ← mem_nodes_neighbourhood, ← mem_nodes_neighbourhood]

theorem neighbourhood_of_pairTransfers :
    let part := (record pairTransfers).neighbourhood
      [Address.ofNat 0x8000, Address.ofNat 0xB000, Address.ofNat 0x8000] 1
    Address.ofNat 0x9000 ∈ part.nodes ∧ Address.ofNat 0xB000 ∈ part.nodes ∧
    Address.ofNat 0xA000 ∉ part.nodes ∧ callBetween 0x9000 0x8000 ∈ part.edges ∧
    callBetween 0x9000 0xA000 ∉ part.edges := by
  intro part
  obtain ⟨nodes, _, edges, _⟩ := neighbourhood_is_within_depth pairTransfers
    [Address.ofNat 0x8000, Address.ofNat 0xB000, Address.ofNat 0x8000] 1
  have root : Address.ofNat 0x8000 ∈ part.nodes :=
    (nodes _).mpr ⟨_, by decide, 0, Nat.zero_le 1, .here⟩
  have called : Address.ofNat 0x9000 ∈ part.nodes :=
    (nodes _).mpr ⟨Address.ofNat 0x8000, by decide, 1, Nat.le_refl 1,
      .call .here (calls_record.mpr (by decide))⟩
  have beyond : Address.ofNat 0xA000 ∉ part.nodes := by
    intro inside
    obtain ⟨root, listed, length, short, leads⟩ := (nodes _).mp inside
    cases leads with
    | here => exact absurd listed (by decide)
    | call before calls =>
        obtain rfl := Nat.le_zero.mp (Nat.le_of_succ_le_succ short)
        cases before
        obtain ⟨edge, recorded, _, rfl, target⟩ := calls_record.mp calls
        have outside : ∀ edge ∈ pairTransfers, edge.target = Address.ofNat 0xA000 →
            edge.routine ∉ [Address.ofNat 0x8000, Address.ofNat 0xB000, Address.ofNat 0x8000] := by
          decide
        exact outside edge recorded target listed
  refine ⟨called, ?_, beyond, ?_, ?_⟩
  · exact (nodes _).mpr ⟨_, by decide, 0, Nat.zero_le 1, .here⟩
  · exact (edges _).mpr ⟨by decide, rfl, called, root⟩
  · intro inside
    exact beyond ((edges _).mp inside).2.2.2

end CallGraph

end WidthTrace
