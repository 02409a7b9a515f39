import Mathlib.Data.List.Destutter
import Mathlib.Data.List.Duplicate
import WidthTrace.Proofs.CallGraph.Indexes

/-!
# Repeated edges in a neighbourhood

A neighbourhood leaves out an edge that equals the one before it. Its edges are sorted by routine,
source and target; edges that agree in these stand as they were recorded, whatever their kinds.
Hence an edge that is recorded again is left out, unless another edge of the same rank was recorded
in between: then it is listed again.
-/

namespace WidthTrace

namespace CallGraph

/-! ## Dropping repeats -/

/-- If neighbours differ, something else stands between two occurrences of a member. -/
theorem exists_between {α : Type} {members : List α} {a : α} (chain : members.IsChain (· ≠ ·))
    (twice : [a, a].Sublist members) : ∃ b, b ≠ a ∧ [a, b, a].Sublist members := by
  induction members with
  | nil => cases twice
  | cons c rest ih =>
      cases twice with
      | cons _ later =>
          obtain ⟨b, different, within⟩ := ih chain.tail later
          exact ⟨b, different, within.cons c⟩
      | cons_cons _ later =>
          cases rest with
          | nil => cases later
          | cons b tail =>
              have different : a ≠ b := (List.isChain_cons_cons.mp chain).1
              have again : a ∈ tail :=
                (List.mem_cons.mp (List.singleton_sublist.mp later)).resolve_left different
              exact ⟨b, different.symm,
                ((List.singleton_sublist.mpr again).cons_cons b).cons_cons a⟩

section

variable {α : Type} [DecidableEq α] {members part : List α} {a : α}

theorem dropRepeats_eq_destutter (members : List α) :
    dropRepeats members = members.destutter (· ≠ ·) := by
  induction members using dropRepeats.induct with
  | case1 => rfl
  | case2 a => rfl
  | case3 a rest ih =>
      rw [dropRepeats, if_pos rfl, ih, List.destutter_cons_cons, if_neg (not_not.mpr rfl),
        List.destutter_cons']
  | case4 a b rest different ih =>
      rw [dropRepeats, if_neg different, ih, List.destutter_cons_cons, if_pos different,
        List.destutter_cons']

theorem isChain_dropRepeats (members : List α) : (dropRepeats members).IsChain (· ≠ ·) := by
  rw [dropRepeats_eq_destutter]
  exact List.isChain_destutter _ _

/-- What remains contains every part of the list without equal neighbours. -/
theorem sublist_dropRepeats (chain : part.IsChain (· ≠ ·)) (within : part.Sublist members) :
    part.Sublist (dropRepeats members) := by
  induction members using dropRepeats.induct generalizing part with
  | case1 => exact within
  | case2 a => exact within
  | case3 a rest ih =>
      rw [dropRepeats, if_pos rfl]
      cases within with
      | cons _ later => exact ih chain later
      | cons_cons _ later =>
          cases later with
          | cons _ later => exact ih chain (later.cons_cons a)
          | cons_cons _ _ => exact absurd rfl (List.isChain_cons_cons.mp chain).1
  | case4 a b rest different ih =>
      rw [dropRepeats, if_neg different]
      cases within with
      | cons _ later => exact (ih chain later).cons a
      | cons_cons _ later => exact (ih chain.tail later).cons_cons a

theorem duplicate_dropRepeats_iff :
    List.Duplicate a (dropRepeats members) ↔ ∃ b, b ≠ a ∧ [a, b, a].Sublist members := by
  rw [List.duplicate_iff_sublist]
  constructor
  · intro twice
    obtain ⟨b, different, within⟩ := exists_between (isChain_dropRepeats members) twice
    exact ⟨b, different, within.trans (dropRepeats_sublist members)⟩
  · rintro ⟨b, different, within⟩
    have chain : [a, b, a].IsChain (· ≠ ·) :=
      .cons_cons different.symm (.cons_cons different (.singleton a))
    have ends : [a, a].Sublist [a, b, a] := ((List.Sublist.refl [a]).cons b).cons_cons a
    exact ends.trans (sublist_dropRepeats chain within)

end

end CallGraph

/-! ## The order of the surveyed edges -/

namespace Survey

variable {graph : CallGraph} {survey : Survey} {depth level : Nat} {a : Address}

/-- The edges of each noted routine stand as they were recorded, and there are no others. -/
def KeepsOrder (graph : CallGraph) (survey : Survey) : Prop :=
  ∀ a, (survey.edges.toList.filter fun edge => edge.routine == a) =
    if a ∈ survey.nodes then graph.edgesFrom a else []

theorem mem_nodes_note {edgesOf : Address → List Transfer} {b : Address} :
    b ∈ (survey.note edgesOf a level).nodes ↔ a = b ∨ b ∈ survey.nodes :=
  AddressSet.mem_insert

theorem keepsOrder_start (roots : List Address) : KeepsOrder graph (start roots) :=
  fun _ => (if_neg Std.TreeSet.not_mem_emptyc).symm

theorem KeepsOrder.note (ordered : KeepsOrder graph survey) (fresh : a ∉ survey.nodes) :
    KeepsOrder graph (survey.note graph.edgesFrom a level) := by
  intro b
  have grown : (survey.note graph.edgesFrom a level).edges.toList =
      survey.edges.toList ++ graph.edgesFrom a :=
    Array.toList_appendList
  rw [grown, List.filter_append, ordered b]
  by_cases same : a = b
  · subst same
    have all : ∀ edge ∈ graph.edgesFrom a, (edge.routine == a) = true := fun edge out =>
      beq_iff_eq.mpr (CallGraph.mem_edgesFrom.mp out).2
    rw [if_neg fresh, if_pos (mem_nodes_note.mpr (.inl rfl)), List.nil_append,
      List.filter_eq_self.mpr all]
  · have none : ∀ edge ∈ graph.edgesFrom a, ¬(edge.routine == b) = true := fun edge out here =>
      same ((CallGraph.mem_edgesFrom.mp out).2.symm.trans (beq_iff_eq.mp here))
    have unchanged := or_iff_right (b := b ∈ survey.nodes) same
    rw [List.filter_eq_nil_iff.mpr none, List.append_nil]
    exact if_congr (mem_nodes_note.trans unchanged).symm rfl rfl

theorem KeepsOrder.step (ordered : KeepsOrder graph survey) :
    KeepsOrder graph (survey.step graph.edgesFrom depth) := by
  unfold Survey.step
  split
  · unfold visit
    split
    · exact ordered
    · rename_i needed
      exact KeepsOrder.note ordered (not_or.mp needed).2
  · exact ordered

theorem KeepsOrder.run (ordered : KeepsOrder graph survey) :
    KeepsOrder graph (survey.run graph.edgesFrom depth) := by
  induction survey using run.induct graph.edgesFrom depth with
  | case1 survey done =>
      rw [Survey.run, if_pos done]
      exact ordered
  | case2 survey busy ih =>
      rw [Survey.run, if_neg busy]
      exact ih ordered.step

/-- The edges between noted routines. -/
def inside (survey : Survey) : List Transfer :=
  survey.edges.toList.filter fun edge =>
    survey.nodes.contains edge.routine && survey.nodes.contains edge.target

end Survey

namespace CallGraph

theorem target_of_edgeOrder {a b : Transfer} (level : edgeOrder a b = .eq) :
    b.target = a.target := by
  rw [edgeOrder, Ordering.then_eq_eq, Ordering.then_eq_eq] at level
  exact (Std.LawfulEqCmp.eq_of_compare level.2.2).symm

/-- Edges that rank with an edge inside stand as they were recorded. -/
theorem rankedWith_inside {graph : CallGraph} {survey : Survey} {edge : Transfer}
    (ordered : survey.KeepsOrder graph) (kept : edge ∈ survey.inside) :
    rankedWith edgeOrder edge survey.inside = rankedWith edgeOrder edge graph.routineEdges := by
  have both := (List.mem_filter.mp kept).2
  have sameRoutine : ∀ other : Transfer, edgeOrder edge other = .eq →
      (other.routine == edge.routine) = true :=
    fun other level => beq_iff_eq.mpr (routine_of_edgeOrder level)
  calc rankedWith edgeOrder edge survey.inside
    _ = rankedWith edgeOrder edge survey.edges.toList := by
        apply rankedWith_filter
        intro other _ level
        rw [routine_of_edgeOrder level, target_of_edgeOrder level]
        exact both
    _ = rankedWith edgeOrder edge
          (survey.edges.toList.filter fun other => other.routine == edge.routine) :=
        (rankedWith_filter fun other _ => sameRoutine other).symm
    _ = rankedWith edgeOrder edge (graph.edgesFrom edge.routine) := by
        rw [Bool.and_eq_true, Std.TreeSet.contains_iff_mem] at both
        rw [ordered, if_pos both.1]
    _ = rankedWith edgeOrder edge graph.routineEdges :=
        rankedWith_filter fun other _ => sameRoutine other

/-! ## Repeated edges -/

/-- Between two records of the edge stands another edge of the same routine, source and target. -/
def Interleaved (recorded : List Transfer) (edge : Transfer) : Prop :=
  ∃ twin, twin ≠ edge ∧ edgeOrder edge twin = .eq ∧ [edge, twin, edge].Sublist recorded

theorem Interleaved.mem {recorded : List Transfer} {edge : Transfer}
    (interleaved : Interleaved recorded edge) : edge ∈ recorded := by
  obtain ⟨_, _, _, between⟩ := interleaved
  exact between.subset List.mem_cons_self

variable {graph : CallGraph} {roots : List Address} {depth : Nat} {edge : Transfer}

theorem edges_neighbourhood (graph : CallGraph) (roots : List Address) (depth : Nat) :
    (graph.neighbourhood roots depth).edges =
      dropRepeats ((graph.surveyed roots depth).inside.mergeSort
        fun a b => (edgeOrder a b).isLE) := by
  rw [neighbourhood_eq]
  rfl

theorem duplicate_iff_of_mem (listed : edge ∈ (graph.neighbourhood roots depth).edges) :
    List.Duplicate edge (graph.neighbourhood roots depth).edges ↔
      Interleaved graph.routineEdges edge := by
  have sorted := isStableSort_mergeSort edgeOrder (graph.surveyed roots depth).inside
  rw [edges_neighbourhood, mem_dropRepeats, sorted.perm.mem_iff] at listed
  have ordered : (graph.surveyed roots depth).KeepsOrder graph :=
    (Survey.keepsOrder_start roots).run
  rw [edges_neighbourhood, duplicate_dropRepeats_iff, Interleaved]
  refine exists_congr fun twin => and_congr_right fun _ => ?_
  rw [sorted.between_iff]
  refine and_congr_right fun level => ?_
  rw [← between_rankedWith_iff level, rankedWith_inside ordered listed,
    between_rankedWith_iff level]

theorem duplicate_edges_iff :
    List.Duplicate edge (graph.neighbourhood roots depth).edges ↔
      Interleaved graph.routineEdges edge ∧
        graph.Near roots depth edge.routine ∧ graph.Near roots depth edge.target := by
  constructor
  · intro twice
    exact ⟨(duplicate_iff_of_mem twice.mem).mp twice, (mem_edges_neighbourhood.mp twice.mem).2⟩
  · rintro ⟨interleaved, near⟩
    have listed := mem_edges_neighbourhood.mpr ⟨interleaved.mem, near⟩
    exact (duplicate_iff_of_mem listed).mpr interleaved

/-- The edges that a root makes belong to every neighbourhood of it that allows a call. -/
theorem mem_edges_of_root (recorded : edge ∈ graph.routineEdges) (root : edge.routine ∈ roots)
    (positive : 1 ≤ depth) : edge ∈ (graph.neighbourhood roots depth).edges :=
  mem_edges_neighbourhood.mpr ⟨recorded, ⟨_, root, 0, Nat.zero_le _, .here⟩,
    ⟨_, root, 1, positive, .call .here (calls_of_mem recorded)⟩⟩

/--
Whatever transfers are recorded, the edges listed more than once in a neighbourhood are exactly
those between its routines that were recorded, then another edge of the same routine, source and
target, and then the edge again. Every edge is listed once exactly if this happens to none of them,
and in particular if recorded edges of the same routine, source and target are equal. In any case
an edge differs from the next one.
-/
theorem edges_repeat_iff_interleaved (transfers : List Transfer) (roots : List Address)
    (depth : Nat) :
    let recorded := transfers.filter Transfer.isRoutineEdge
    let part := (record transfers).neighbourhood roots depth
    (∀ edge, List.Duplicate edge part.edges ↔
      Interleaved recorded edge ∧ edge.routine ∈ part.nodes ∧ edge.target ∈ part.nodes) ∧
    (part.edges.Nodup ↔ ∀ edge, Interleaved recorded edge →
      ¬(edge.routine ∈ part.nodes ∧ edge.target ∈ part.nodes)) ∧
    ((∀ first ∈ recorded, ∀ second ∈ recorded, edgeOrder first second = .eq → first = second) →
      part.edges.Nodup) ∧
    part.edges.IsChain (· ≠ ·) := by
  intro recorded part
  have repeated : ∀ edge, List.Duplicate edge part.edges ↔
      Interleaved recorded edge ∧ edge.routine ∈ part.nodes ∧ edge.target ∈ part.nodes := by
    intro edge
    rw [duplicate_edges_iff, routineEdges_record, mem_nodes_neighbourhood,
      mem_nodes_neighbourhood]
  have once : part.edges.Nodup ↔ ∀ edge, Interleaved recorded edge →
      ¬(edge.routine ∈ part.nodes ∧ edge.target ∈ part.nodes) := by
    simp only [List.nodup_iff_forall_not_duplicate, repeated, not_and]
  refine ⟨repeated, once, ?exact, ?chain⟩
  case exact =>
    intro equal
    refine once.mpr ?_
    intro edge interleaved
    have member : edge ∈ recorded := interleaved.mem
    obtain ⟨twin, different, level, between⟩ := interleaved
    have twinMember : twin ∈ recorded := between.subset (by simp)
    exact absurd (equal edge member twin twinMember level).symm different
  case chain =>
    rw [edges_neighbourhood]
    exact isChain_dropRepeats _

/-- Calls that are all recorded twice over are still listed once. -/
theorem edges_of_repeatedTransfers :
    let part := (record (pairTransfers ++ pairTransfers)).neighbourhood [Address.ofNat 0x8000] 1
    callBetween 0x8000 0x9000 ∈ part.edges ∧ part.edges.Nodup := by
  intro part
  have recorded : callBetween 0x8000 0x9000 ∈
      (record (pairTransfers ++ pairTransfers)).routineEdges := by
    rw [routineEdges_record]
    decide
  obtain ⟨_, _, once, _⟩ :=
    edges_repeat_iff_interleaved (pairTransfers ++ pairTransfers) [Address.ofNat 0x8000] 1
  exact ⟨mem_edges_of_root recorded List.mem_cons_self (Nat.le_refl 1), once (by decide +kernel)⟩

/-- A call, a jump of the same routine to the same target, and the call again. -/
def interleavedTransfers : List Transfer :=
  [callBetween 0x8000 0x9000,
    { callBetween 0x8000 0x9000 with kind := .jump, tailCall := true },
    callBetween 0x8000 0x9000]

theorem edge_can_be_listed_twice :
    ¬((record interleavedTransfers).neighbourhood [Address.ofNat 0x8000] 1).edges.Nodup := by
  have recorded : callBetween 0x8000 0x9000 ∈ (record interleavedTransfers).routineEdges := by
    rw [routineEdges_record]
    decide
  have interleaved :
      Interleaved (record interleavedTransfers).routineEdges (callBetween 0x8000 0x9000) := by
    rw [routineEdges_record]
    exact ⟨_, by decide, by decide, List.Sublist.refl interleavedTransfers⟩
  have listed := mem_edges_of_root recorded (List.mem_singleton_self _) (Nat.le_refl 1)
  rw [List.nodup_iff_forall_not_duplicate]
  intro once
  exact once _ ((duplicate_iff_of_mem listed).mpr interleaved)

end CallGraph

end WidthTrace
