import WidthTrace.Proofs.CallGraph.LinkSearch.Run

/-!
# Correctness of the cycles

The cycles of a call graph are the classes of at least two routines that lead to
each other by recorded calls and tail calls. They depend on which transfers have been
recorded, not on the order or on repetitions.
-/

namespace WidthTrace.CallGraph

/-- Calls lead from each of two routines to the other. -/
def Companions (graph : CallGraph) (a b : Address) : Prop :=
  Relation.ReflTransGen graph.Calls a b ∧ Relation.ReflTransGen graph.Calls b a

/-- The graph after recording transfers. -/
def record (transfers : List Transfer) : CallGraph :=
  transfers.foldl add empty

/-- The search by which the cycles of a graph are found. -/
theorem cycles_eq (graph : CallGraph) :
    graph.cycles = ((LinkSearch.start graph.nodes).run fun a =>
      graph.successors.getD a []).components.mergeSort fun a b => (compare a b).isLE := rfl

theorem leads_successors (graph : CallGraph) :
    LinkSearch.Leads (fun a => graph.successors.getD a []) =
      Relation.ReflTransGen graph.Calls := by
  rw [LinkSearch.Leads, successors_eq_calls]

theorem successors_covered (graph : CallGraph) (a b : Address)
    (following : b ∈ graph.successors.getD a []) : a ∈ graph.nodes :=
  mem_nodes.mpr (.inl ⟨b, mem_successors.mp following⟩)

/-- The cycles are the sorted lists of several routines that hold all companions of each member. -/
theorem mem_cycles {graph : CallGraph} {group : List Address} :
    group ∈ graph.cycles ↔ (group.Pairwise fun a b => compare a b = .lt) ∧ 2 ≤ group.length ∧
      ∀ a ∈ group, ∀ b, b ∈ group ↔ graph.Companions a b := by
  rw [cycles_eq, List.mem_mergeSort, LinkSearch.mem_components_run graph.successors_covered]
  simp only [Companions, ← leads_successors]
  constructor
  · rintro ⟨ordered, several, full⟩
    exact ⟨ordered, several, full⟩
  · rintro ⟨ordered, several, full⟩
    exact ⟨ordered, several, full⟩

theorem sorted_cycles (graph : CallGraph) :
    graph.cycles.Pairwise fun a b => compare a b = .lt :=
  pairwise_mergeSort_compare (LinkSearch.nodup_components_run _ _)

/-- No routine is listed twice, neither in one cycle nor in two. -/
theorem nodup_flatten_cycles (graph : CallGraph) : graph.cycles.flatten.Nodup := by
  refine List.nodup_flatten.mpr ⟨?_, ?_⟩
  · intro group listed
    exact (mem_cycles.mp listed).1.nodup
  · refine (sorted_cycles graph).nodup.imp_of_mem ?_
    intro first second one other different a inFirst inSecond
    obtain ⟨firstOrdered, _, firstFull⟩ := mem_cycles.mp one
    obtain ⟨secondOrdered, _, secondFull⟩ := mem_cycles.mp other
    apply different
    refine firstOrdered.eq_of_mem_iff secondOrdered ?_
    intro b
    rw [firstFull a inFirst, secondFull a inSecond]

/-- Two routines are listed together exactly if they lead to each other. -/
theorem exists_cycle_iff {graph : CallGraph} {a b : Address} (different : a ≠ b) :
    (∃ group ∈ graph.cycles, a ∈ group ∧ b ∈ group) ↔ graph.Companions a b := by
  constructor
  · rintro ⟨group, listed, first, second⟩
    obtain ⟨_, _, full⟩ := mem_cycles.mp listed
    exact (full a first b).mp second
  · intro companions
    have ⟨there, back⟩ := companions
    rw [← leads_successors] at there back
    obtain ⟨group, found, first⟩ :=
      LinkSearch.exists_mem_components_run graph.successors_covered different.symm there back
    have listed : group ∈ graph.cycles := by
      rwa [cycles_eq, List.mem_mergeSort]
    obtain ⟨_, _, full⟩ := mem_cycles.mp listed
    exact ⟨group, listed, first, (full a first b).mpr companions⟩

/-- Every listed routine has a companion other than itself. -/
theorem exists_companion {graph : CallGraph} {a : Address}
    (listed : a ∈ graph.cycles.flatten) : ∃ b, b ≠ a ∧ graph.Companions a b := by
  obtain ⟨group, known, inside⟩ := List.mem_flatten.mp listed
  obtain ⟨ordered, several, full⟩ := mem_cycles.mp known
  obtain ⟨b, member, different⟩ := Address.exists_mem_ne ordered several a
  exact ⟨b, different, (full a inside b).mp member⟩

/-! ## Independence of the recorded order -/

theorem transfers_record (transfers : List Transfer) :
    (record transfers).transfers.toList = transfers := by
  have grow (graph : CallGraph) : (transfers.foldl add graph).transfers.toList =
      graph.transfers.toList ++ transfers := by
    induction transfers generalizing graph with
    | nil => simp
    | cons transfer rest ih =>
        rw [List.foldl_cons, ih]
        simp [add]
  rw [record, grow]
  simp [empty]

theorem calls_record {transfers : List Transfer} {a b : Address} :
    (record transfers).Calls a b ↔
      ∃ transfer ∈ transfers, transfer.isRoutineEdge = true ∧
        transfer.routine = a ∧ transfer.target = b := by
  simp [Calls, routineEdges, transfers_record, and_assoc]

theorem cycles_congr {first second : CallGraph} (same : first.Calls = second.Calls) :
    first.cycles = second.cycles := by
  refine (sorted_cycles first).eq_of_mem_iff (sorted_cycles second) ?_
  intro group
  simp only [mem_cycles, Companions, same]

/-! ## The main result -/

/--
Whatever transfers are recorded, the search ends after finitely many steps, and its components in
order are the cycles: two different routines are listed together exactly if calls lead from each to
the other, each of them once; groups and their list are sorted; a routine with no companion but
itself is not listed, even if it calls itself; and neither order nor repetition of the transfers
matters.
-/
theorem cycles_are_components (transfers : List Transfer) :
    (∀ a b, a ≠ b →
      ((∃ group ∈ (record transfers).cycles, a ∈ group ∧ b ∈ group) ↔
        (record transfers).Companions a b)) ∧
    (∀ a b, a ≠ b → (record transfers).Companions a b →
      (record transfers).cycles.flatten.count a = 1) ∧
    (∀ group, group ∈ (record transfers).cycles ↔
      (group.Pairwise fun a b => compare a b = .lt) ∧ 2 ≤ group.length ∧
        ∀ a ∈ group, ∀ b, b ∈ group ↔ (record transfers).Companions a b) ∧
    ((record transfers).cycles.Pairwise fun first second => compare first second = .lt) ∧
    (∀ a, (∀ b, (record transfers).Companions a b → b = a) →
      ∀ group ∈ (record transfers).cycles, a ∉ group) ∧
    (∀ others : List Transfer, (∀ transfer, transfer ∈ others ↔ transfer ∈ transfers) →
      (record others).cycles = (record transfers).cycles) ∧
    ∃ count, ∃ last : LinkSearch,
      last = (LinkSearch.step fun a => (record transfers).successors.getD a [])^[count]
        (LinkSearch.start (record transfers).nodes) ∧
      last.isDone = true ∧
      (record transfers).cycles = last.components.mergeSort fun a b => (compare a b).isLE := by
  refine ⟨?together, ?once, ?groups, sorted_cycles _, ?alone, ?others, ?ends⟩
  case together =>
    intro a b different
    exact exists_cycle_iff different
  case once =>
    intro a b different companions
    obtain ⟨group, listed, inside, _⟩ := (exists_cycle_iff different).mpr companions
    exact List.count_eq_one_of_mem (nodup_flatten_cycles _)
      (List.mem_flatten.mpr ⟨group, listed, inside⟩)
  case groups =>
    intro group
    exact mem_cycles
  case alone =>
    intro a alone group listed inside
    obtain ⟨b, different, companions⟩ :=
      exists_companion (List.mem_flatten.mpr ⟨group, listed, inside⟩)
    exact different (alone b companions)
  case others =>
    intro others same
    apply cycles_congr
    funext a b
    simp only [calls_record, same]
  case ends =>
    obtain ⟨count, final⟩ := LinkSearch.exists_run_eq_iterate
      (fun a => (record transfers).successors.getD a []) (LinkSearch.start (record transfers).nodes)
    refine ⟨count, _, rfl, ?_, ?_⟩
    · rw [← final]
      exact LinkSearch.isDone_run _ _
    · rw [← final, cycles_eq]

/-- A call from one routine to another. -/
def callBetween (routine target : Nat) : Transfer :=
  ⟨Address.ofNat routine, Address.ofNat target, .call, Address.ofNat routine, false⟩

/-- Two routines call each other; one of them calls a third, which calls itself. -/
def pairTransfers : List Transfer :=
  [callBetween 0x8000 0x9000, callBetween 0x9000 0x8000, callBetween 0x9000 0xA000,
    callBetween 0xA000 0xA000]

theorem pair_listed_in_pairTransfers :
    (∃ group ∈ (record pairTransfers).cycles,
      Address.ofNat 0x8000 ∈ group ∧ Address.ofNat 0x9000 ∈ group) ∧
    (record pairTransfers).cycles.flatten.count (Address.ofNat 0x8000) = 1 ∧
    (∀ group ∈ (record pairTransfers).cycles, Address.ofNat 0xA000 ∉ group) ∧
    (record (pairTransfers ++ pairTransfers.reverse)).cycles = (record pairTransfers).cycles := by
  have different : Address.ofNat 0x8000 ≠ Address.ofNat 0x9000 := by decide
  have companions :
      (record pairTransfers).Companions (Address.ofNat 0x8000) (Address.ofNat 0x9000) :=
    ⟨.single (calls_record.mpr (by decide)), .single (calls_record.mpr (by decide))⟩
  have alone : ∀ b, (record pairTransfers).Companions (Address.ofNat 0xA000) b →
      b = Address.ofNat 0xA000 := by
    rintro b ⟨there, -⟩
    induction there with
    | refl => rfl
    | tail _ call ih =>
        obtain ⟨transfer, member, _, routine, target⟩ := calls_record.mp call
        have onlyItself : ∀ transfer ∈ pairTransfers, transfer.routine = Address.ofNat 0xA000 →
            transfer.target = Address.ofNat 0xA000 := by decide
        rw [← target]
        exact onlyItself transfer member (routine.trans ih)
  obtain ⟨together, once, _, _, unlisted, others, _⟩ := cycles_are_components pairTransfers
  refine ⟨(together _ _ different).mpr companions, once _ _ different companions,
    unlisted _ alone, others _ ?_⟩
  intro transfer
  rw [List.mem_append, List.mem_reverse, or_self]

end WidthTrace.CallGraph
