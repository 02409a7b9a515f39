import Mathlib.Data.List.Permutation
import WidthTrace.CallGraph.Indexes
import WidthTrace.Proofs.CallGraph.Neighbourhood
import WidthTrace.Proofs.Sorting.Stable

/-!
# Views from indexes

The views of a call graph are the same when they are read off its indexes, in whatever order
the buckets are met. A bucket holds what was recorded under its key, as recorded. Transfers
that rank alike in a view have the same key, so they come from one bucket and stand as they
were recorded; and a sorted list depends on nothing else.
-/

namespace WidthTrace.CallGraph

variable {buckets : Buckets} {key : Transfer → Address} {transfers : List Transfer}

/-! ## What the buckets hold -/

/-- Every bucket holds the transfers that have its key, in their order. -/
def Buckets.Sorts (buckets : Buckets) (key : Transfer → Address) (transfers : List Transfer) :
    Prop :=
  ∀ a, buckets.getD a [] = transfers.filter fun transfer => key transfer == a

theorem Buckets.sorts_empty : Buckets.Sorts ∅ key [] :=
  fun _ => Std.TreeMap.getD_emptyc

theorem Buckets.Sorts.add (sorts : buckets.Sorts key transfers) (transfer : Transfer) :
    (buckets.add (key transfer) transfer).Sorts key (transfers ++ [transfer]) := by
  intro a
  rw [Buckets.add, AddressMap.getD_insert, List.filter_append, ← sorts a]
  split
  · next same =>
      rw [List.filter_cons_of_pos (by rw [same, beq_self_eq_true]), same, List.filter_nil]
  · next different =>
      rw [List.filter_cons_of_neg (by rwa [beq_iff_eq]), List.filter_nil, List.append_nil]

theorem Buckets.Sorts.eq_bucket (sorts : buckets.Sorts key transfers) {a : Address}
    {bucket : List Transfer} (found : buckets[a]? = some bucket) :
    bucket = transfers.filter fun transfer => key transfer == a := by
  rw [← sorts a, Std.TreeMap.getD_eq_getD_getElem?, found, Option.getD_some]

namespace Indexes

theorem ofList_concat (transfers : List Transfer) (transfer : Transfer) :
    ofList (transfers ++ [transfer]) = (ofList transfers).add transfer :=
  List.foldl_concat ..

theorem sorts_byTarget (transfers : List Transfer) :
    (ofList transfers).byTarget.Sorts Transfer.target transfers := by
  induction transfers using List.reverseRecOn with
  | nil => exact Buckets.sorts_empty
  | append_singleton transfers transfer ih =>
      rw [ofList_concat]
      exact ih.add transfer

theorem sorts_byRoutine (transfers : List Transfer) :
    (ofList transfers).byRoutine.Sorts Transfer.routine
      (transfers.filter Transfer.isRoutineEdge) := by
  induction transfers using List.reverseRecOn with
  | nil => exact Buckets.sorts_empty
  | append_singleton transfers transfer ih =>
      rw [ofList_concat, add, List.filter_append]
      by_cases edge : transfer.isRoutineEdge = true
      · rw [if_pos edge, List.filter_cons_of_pos edge, List.filter_nil]
        exact ih.add transfer
      · rw [if_neg edge, List.filter_cons_of_neg edge, List.filter_nil, List.append_nil]
        exact ih

end Indexes

/-! ## What a visit of the buckets meets -/

namespace Visit

variable {visit : Visit}

theorem Meets.mem_iff (meets : visit.Meets buckets) {a : Address} {bucket : List Transfer} :
    (a, bucket) ∈ visit ↔ buckets[a]? = some bucket :=
  (List.Perm.mem_iff meets).trans Std.TreeMap.mem_toList_iff_getElem?_eq_some

theorem Meets.distinct (meets : visit.Meets buckets) :
    visit.Pairwise fun first second => first.1 ≠ second.1 := by
  refine (List.Perm.pairwise_iff (fun different => different.symm) meets).mpr ?_
  refine Std.TreeMap.distinct_keys_toList.imp ?_
  intro first second different same
  exact different (Std.LawfulEqCmp.compare_eq_iff_eq.mpr same)

/-- A choice among the transfers of one key is met as it was recorded. -/
theorem Meets.filter_transfers (meets : visit.Meets buckets) (sorts : buckets.Sorts key transfers)
    {chosen : Transfer → Bool} {a : Address}
    (keyed : ∀ transfer, chosen transfer = true → key transfer = a) :
    visit.transfers.filter chosen = transfers.filter chosen := by
  have elsewhere : ∀ entry ∈ visit, entry.1 ≠ a → entry.2.filter chosen = [] := by
    rintro ⟨b, bucket⟩ met different
    rw [sorts.eq_bucket (meets.mem_iff.mp met), List.filter_filter, List.filter_eq_nil_iff]
    intro transfer _ both
    rw [Bool.and_eq_true, beq_iff_eq] at both
    exact different (both.2.symm.trans (keyed transfer both.1))
  have inBucket : (transfers.filter fun transfer => key transfer == a).filter chosen =
      transfers.filter chosen := by
    rw [List.filter_filter]
    refine List.filter_congr ?_
    intro transfer _
    rw [Bool.eq_iff_iff, Bool.and_eq_true, beq_iff_eq, and_iff_left_iff_imp]
    exact keyed transfer
  rw [Visit.transfers, List.filter_flatMap, ← inBucket]
  cases found : buckets[a]? with
  | some bucket =>
      obtain ⟨before, after, rfl⟩ := List.append_of_mem (meets.mem_iff.mpr found)
      have distinct := meets.distinct
      rw [List.pairwise_append, List.pairwise_cons] at distinct
      have nothingBefore : before.flatMap (fun entry => entry.2.filter chosen) = [] := by
        rw [List.flatMap_eq_nil_iff]
        intro entry met
        exact elsewhere entry (List.mem_append_left _ met)
          (distinct.2.2 entry met _ List.mem_cons_self)
      have nothingAfter : after.flatMap (fun entry => entry.2.filter chosen) = [] := by
        rw [List.flatMap_eq_nil_iff]
        intro entry met
        exact elsewhere entry (List.mem_append_right _ (List.mem_cons_of_mem _ met))
          (distinct.2.1.1 entry met).symm
      rw [List.flatMap_append, List.flatMap_cons, nothingBefore, nothingAfter, List.nil_append,
        List.append_nil, sorts.eq_bucket found]
  | none =>
      have empty : (transfers.filter fun transfer => key transfer == a) = [] := by
        rw [← sorts a, Std.TreeMap.getD_eq_getD_getElem?, found, Option.getD_none]
      rw [empty, List.filter_nil, List.flatMap_eq_nil_iff]
      rintro ⟨b, bucket⟩ met
      refine elsewhere _ met ?_
      rintro rfl
      rw [meets.mem_iff, found] at met
      cases met

end Visit

/-! ## The views -/

theorem siteOrder_eq_compareLex :
    siteOrder = compareLex (compareOn Transfer.source) (compareOn Transfer.target) := by
  funext a b
  rw [siteOrder, compareLex, compareOn, compareOn]

instance transCmp_siteOrder : Std.TransCmp siteOrder := by
  rw [siteOrder_eq_compareLex]
  infer_instance

/-- Edges that rank alike are made by one routine. -/
theorem routine_of_edgeOrder {a b : Transfer} (level : edgeOrder a b = .eq) :
    b.routine = a.routine := by
  rw [edgeOrder, Ordering.then_eq_eq] at level
  exact (Std.LawfulEqCmp.eq_of_compare level.1).symm

/-- Transfers that rank alike by their sites have one target. -/
theorem target_of_siteOrder {a b : Transfer} (level : siteOrder a b = .eq) :
    b.target = a.target := by
  rw [siteOrder, Ordering.then_eq_eq] at level
  exact (Std.LawfulEqCmp.eq_of_compare level.2).symm

theorem routineEdges_record (transfers : List Transfer) :
    (record transfers).routineEdges = transfers.filter Transfer.isRoutineEdge := by
  rw [routineEdges, transfers_record]

theorem edges_record (transfers : List Transfer) :
    (record transfers).edges = (transfers.filter Transfer.isRoutineEdge).mergeSort
      fun a b => (edgeOrder a b).isLE := by
  rw [edges, routineEdges_record]

theorem crossBank_record (transfers : List Transfer) :
    (record transfers).crossBank = (transfers.filter Transfer.crossesBank).mergeSort
      fun a b => (siteOrder a b).isLE := by
  rw [crossBank, transfers_record]

namespace Visit

variable {visit : Visit}

theorem Meets.edges_eq (meets : visit.Meets (Indexes.ofList transfers).byRoutine) :
    visit.edges = (record transfers).edges := by
  rw [edges_record, Visit.edges]
  apply mergeSort_eq_of_rankedWith_eq
  intro a
  refine meets.filter_transfers (Indexes.sorts_byRoutine transfers) (a := a.routine) ?_
  intro b level
  exact routine_of_edgeOrder (beq_iff_eq.mp level)

theorem Meets.crossBank_eq (meets : visit.Meets (Indexes.ofList transfers).byTarget) :
    visit.crossBank = (record transfers).crossBank := by
  rw [crossBank_record, Visit.crossBank]
  apply mergeSort_eq_of_rankedWith_eq
  intro a
  rw [rankedWith, rankedWith, List.filter_filter, List.filter_filter]
  refine meets.filter_transfers (Indexes.sorts_byTarget transfers) (a := a.target) ?_
  intro b both
  rw [Bool.and_eq_true] at both
  exact target_of_siteOrder (beq_iff_eq.mp both.1)

end Visit

theorem transfersTo_ofList (transfers : List Transfer) (a : Address) :
    (Indexes.ofList transfers).transfersTo a = (record transfers).transfersTo a := by
  rw [Indexes.transfersTo, transfersTo, transfers_record]
  exact Indexes.sorts_byTarget transfers a

theorem edgesFrom_ofList (transfers : List Transfer) (a : Address) :
    (Indexes.ofList transfers).edgesFrom a = (record transfers).edgesFrom a := by
  rw [Indexes.edgesFrom, edgesFrom, routineEdges_record]
  exact Indexes.sorts_byRoutine transfers a

/--
Whatever transfers are recorded, and in whatever order the buckets of the two indexes are met: the
edges, sorted, are the recorded calls and tail calls in the one stable order by routine, source and
target, and the transfers between banks are the recorded ones in the one stable order by source and
target. What leads to an address, and what a routine calls, are the recorded transfers with that
target and the recorded edges of that routine, as they were recorded. All four are the views of the
graph itself.
-/
theorem views_ignore_the_order_of_buckets (transfers : List Transfer) (routines targets : Visit)
    (meetsRoutines : routines.Meets (Indexes.ofList transfers).byRoutine)
    (meetsTargets : targets.Meets (Indexes.ofList transfers).byTarget) :
    let graph := record transfers
    let indexes := Indexes.ofList transfers
    (∀ sorted, IsStableSort edgeOrder (transfers.filter Transfer.isRoutineEdge) sorted ↔
      sorted = routines.edges) ∧
    (∀ sorted, IsStableSort siteOrder (transfers.filter Transfer.crossesBank) sorted ↔
      sorted = targets.crossBank) ∧
    (∀ a, indexes.transfersTo a = transfers.filter fun transfer => transfer.target == a) ∧
    (∀ routine, indexes.edgesFrom routine = transfers.filter fun transfer =>
      transfer.isRoutineEdge && transfer.routine == routine) ∧
    routines.edges = graph.edges ∧ targets.crossBank = graph.crossBank ∧
    indexes.transfersTo = graph.transfersTo ∧ indexes.edgesFrom = graph.edgesFrom := by
  intro graph indexes
  refine ⟨?edges, ?crossBank, Indexes.sorts_byTarget transfers, ?edgesFrom, meetsRoutines.edges_eq,
    meetsTargets.crossBank_eq, funext (transfersTo_ofList transfers),
    funext (edgesFrom_ofList transfers)⟩
  case edges =>
    intro sorted
    rw [meetsRoutines.edges_eq, edges_record, isStableSort_iff]
  case crossBank =>
    intro sorted
    rw [meetsTargets.crossBank_eq, crossBank_record, isStableSort_iff]
  case edgesFrom =>
    intro routine
    rw [Indexes.edgesFrom, Indexes.sorts_byRoutine transfers routine, List.filter_filter]
    refine List.filter_congr ?_
    intro transfer _
    exact Bool.and_comm _ _

/-- Between two transfers that rank alike, a call is recorded that ranks before both. -/
def twinTransfers : List Transfer :=
  [⟨⟨1, 0x9002⟩, ⟨0, 0x8000⟩, .jump, ⟨1, 0x9000⟩, true⟩,
    ⟨⟨0, 0x8001⟩, ⟨1, 0x9000⟩, .call, ⟨0, 0x8000⟩, false⟩,
    ⟨⟨1, 0x9002⟩, ⟨0, 0x8000⟩, .call, ⟨1, 0x9000⟩, false⟩]

theorem twins_keep_their_order :
    let indexes := Indexes.ofList twinTransfers
    let routines : Visit := indexes.byRoutine.toList.reverse
    let targets : Visit := indexes.byTarget.toList.reverse
    routines.Meets indexes.byRoutine ∧ targets.Meets indexes.byTarget ∧
    routines.transfers.map Transfer.kind = [.jump, .call, .call] ∧
    routines.edges.map Transfer.kind = [.call, .jump, .call] ∧
    targets.crossBank.map Transfer.kind = [.call, .jump, .call] ∧
    indexes.transfersTo ⟨0, 0x8000⟩ = indexes.edgesFrom ⟨1, 0x9000⟩ := by
  intro indexes routines targets
  have meetsRoutines : routines.Meets indexes.byRoutine := List.reverse_perm _
  have meetsTargets : targets.Meets indexes.byTarget := List.reverse_perm _
  obtain ⟨_, _, leading, made, edges, crossBank, _, _⟩ :=
    views_ignore_the_order_of_buckets twinTransfers routines targets meetsRoutines meetsTargets
  refine ⟨meetsRoutines, meetsTargets, ?_, ?_, ?_, ?_⟩
  · decide +kernel
  · rw [edges]
    cbv
  · rw [crossBank]
    cbv
  · rw [leading, made]
    decide +kernel

end WidthTrace.CallGraph
