import WidthTrace.Proofs.CallGraph.Reachability
import WidthTrace.Proofs.Trace.Attribution

/-!
# Entry points lead to every routine

A path is followed on behalf of an entry point, or of a routine that was called on
behalf of another one. Hence calls lead from the entry points to every routine that
a trace names, however the graph grows meanwhile, and a trace has no orphans.
-/

namespace WidthTrace

namespace CallGraph

theorem reachable_declare {graph : CallGraph} {a : Address} (entry : Address)
    (reached : a ∈ graph.reachable) : a ∈ (graph.declare entry).reachable := by
  refine reachable_mono (fun _ declared => mem_entries_declare.mpr (.inl declared)) ?_ reached
  intro b c calls
  unfold declare
  split
  · exact calls
  · exact calls

theorem reachable_add {graph : CallGraph} {a : Address} (transfer : Transfer)
    (reached : a ∈ graph.reachable) : a ∈ (graph.add transfer).reachable := by
  have calls : ∀ b c, graph.Calls b c → (graph.add transfer).Calls b c := by
    rintro b c ⟨edge, listed, ends⟩
    obtain ⟨recorded, leads⟩ := mem_routineEdges.mp listed
    exact ⟨edge, mem_routineEdges.mpr ⟨Array.mem_push_of_mem _ recorded, leads⟩, ends⟩
  have entries : ∀ entry ∈ graph.entries, entry ∈ (graph.add transfer).entries :=
    fun _ declared => declared
  exact reachable_mono entries calls reached

end CallGraph

namespace Trace

/-- If the routines that make transfers are reachable, so are all that start at an entry point or at
the target of a call. -/
theorem IsStart.reachable {trace : Trace} {routine : Address} (starts : trace.IsStart routine)
    (sources : ∀ transfer ∈ trace.graph.transfers, transfer.routine ∈ trace.graph.reachable) :
    routine ∈ trace.graph.reachable := by
  rcases starts with declared | called
  · exact CallGraph.mem_reachable.mpr ⟨routine, CallGraph.isEntry_iff.mp declared, .refl⟩
  · obtain ⟨call, recorded, isCall, rfl⟩ := CallGraph.isCallTarget_iff.mp called
    refine CallGraph.reachable_of_calls (sources call recorded) (CallGraph.calls_of_mem ?_)
    exact CallGraph.mem_routineEdges.mpr ⟨recorded, by rw [Transfer.isRoutineEdge, isCall]⟩

theorem Reachable.routine_of_transfer {image : Image} {seeds : List Seed} {trace : Trace}
    (reached : Reachable image seeds trace) :
    ∀ transfer ∈ trace.graph.transfers, transfer.routine ∈ trace.graph.reachable := by
  induction reached with
  | empty =>
      intro transfer recorded
      exact absurd recorded (Array.not_mem_empty transfer)
  | enter entry state before ih =>
      intro transfer recorded
      rw [transfers_enter] at recorded
      exact CallGraph.reachable_declare entry (ih transfer recorded)
  | @step seeds trace before ih =>
      refine step_preserves image (motive := fun next =>
        ∀ transfer ∈ next.graph.transfers, transfer.routine ∈ next.graph.reachable) ih ?_
      intro next advance
      rcases graph_advance advance with same | ⟨arrival, _, latest, present, noted, grown⟩
      · rw [same]
        exact ih
      · rw [grown]
        intro transfer recorded
        apply CallGraph.reachable_add
        rcases Array.mem_push.mp recorded with earlier | rfl
        · exact ih transfer earlier
        · obtain ⟨_, _, rfl⟩ := Option.map_eq_some_iff.mp noted
          have underway := mem_outstanding_of_current present
          have ownStarts : trace.IsStart arrival.routine :=
            (before.attributed.arrivals arrival underway).starts
          exact ownStarts.reachable ih

theorem Reachable.ends_of_routineEdge {image : Image} {seeds : List Seed} {trace : Trace}
    (reached : Reachable image seeds trace) :
    ∀ edge ∈ trace.graph.routineEdges,
      edge.routine ∈ trace.graph.reachable ∧ edge.target ∈ trace.graph.reachable := by
  intro edge listed
  have source := reached.routine_of_transfer edge (CallGraph.mem_routineEdges.mp listed).1
  exact ⟨source, CallGraph.reachable_of_calls source (CallGraph.calls_of_mem listed)⟩

theorem Reachable.node_reachable {image : Image} {seeds : List Seed} {trace : Trace}
    (reached : Reachable image seeds trace) {a : Address} (listed : a ∈ trace.graph.nodes) :
    a ∈ trace.graph.reachable := by
  rcases CallGraph.mem_nodes.mp listed with ⟨_, edge, isEdge, rfl, _⟩ | ⟨_, edge, isEdge, _, rfl⟩
  · exact (reached.ends_of_routineEdge edge isEdge).1
  · exact (reached.ends_of_routineEdge edge isEdge).2

/-- Returns are recorded for routines that start at an entry point or at the target of a call. -/
theorem Reachable.isStart_of_returns {image : Image} {seeds : List Seed} {trace : Trace}
    (reached : Reachable image seeds trace) {routine : Address}
    (recorded : trace.returnsOf routine ≠ []) : trace.IsStart routine := by
  obtain ⟨ret, listed⟩ := List.exists_mem_of_ne_nil _ recorded
  obtain ⟨member, own⟩ := List.mem_filter.mp listed
  rw [← beq_iff_eq.mp own]
  exact (reached.attributed.returns ret (Array.mem_toList_iff.mp member)).starts

/-- At every moment of a trace, the entry points lead by calls and tail calls to each routine that a
path is followed for, that a transfer or return is recorded for, or that is at an end of a routine
edge. In the end there are no orphans, and whatever returns are recorded for is a declared entry
point or the target of a recorded call. -/
theorem entries_lead_to_every_routine {image : Image} {seeds : List Seed} {trace : Trace}
    (reached : Reachable image seeds trace) :
    (∀ arrival ∈ trace.outstanding, arrival.routine ∈ trace.graph.reachable) ∧
    (∀ transfer ∈ trace.graph.transfers, transfer.routine ∈ trace.graph.reachable) ∧
    (∀ routine, trace.returnsOf routine ≠ [] → routine ∈ trace.graph.reachable) ∧
    (∀ edge ∈ trace.graph.routineEdges,
      edge.routine ∈ trace.graph.reachable ∧ edge.target ∈ trace.graph.reachable) ∧
    (trace.finish image).graph.orphans = [] ∧
    ∀ routine, (trace.finish image).returnsOf routine ≠ [] →
      (trace.finish image).graph.isEntry routine = true ∨
        (trace.finish image).graph.isCallTarget routine = true := by
  refine ⟨?paths, reached.routine_of_transfer, ?returns, reached.ends_of_routineEdge, ?orphans,
    ?starts⟩
  case paths =>
    intro arrival waiting
    exact (reached.attributed.arrivals arrival waiting).starts.reachable reached.routine_of_transfer
  case returns =>
    intro routine recorded
    exact (reached.isStart_of_returns recorded).reachable reached.routine_of_transfer
  case orphans =>
    have nodes : ∀ a ∈ (trace.run image).graph.nodes, a ∈ (trace.run image).graph.reachable :=
      fun a listed => reached.run.node_reachable listed
    exact CallGraph.orphans_eq_nil nodes
  case starts =>
    intro routine recorded
    exact reached.run.isStart_of_returns recorded

/-- A routine that calls a second one, which calls a third and then jumps to it. -/
def relayImage : Image :=
  ⟨⟨#[0x20, 0x04, 0x80, 0x60, 0x20, 0x0A, 0x80, 0x4C, 0x0A, 0x80, 0x60]⟩, .loRom⟩

theorem third_routine_of_relayImage_is_reachable :
    let trace := history relayImage [.explore ⟨0, 0x8000⟩ .native8]
    (⟨0, 0x800A⟩ : Address) ∈ trace.graph.reachable ∧
    (∃ edge ∈ trace.graph.routineEdges, edge.tailCall = true ∧
      edge.routine ∈ trace.graph.reachable ∧ edge.target ∈ trace.graph.reachable) ∧
    (trace.finish relayImage).graph.orphans = [] ∧
    ((trace.finish relayImage).graph.isEntry ⟨0, 0x800A⟩ = true ∨
      (trace.finish relayImage).graph.isCallTarget ⟨0, 0x800A⟩ = true) := by
  intro trace
  have stepped : trace = (step relayImage)^[11] (empty.enter ⟨0, 0x8000⟩ .native8) :=
    run_eq_iterate (by decide +kernel)
  have idle : trace.isIdle = true := isIdle_run relayImage _
  have returned : trace.returnsOf ⟨0, 0x800A⟩ ≠ [] := by
    rw [stepped]
    decide +kernel
  have jumps : ∃ edge ∈ trace.graph.routineEdges, edge.tailCall = true := by
    rw [stepped]
    decide +kernel
  obtain ⟨edge, listed, flagged⟩ := jumps
  obtain ⟨_, _, returns, edges, orphans, starts⟩ := entries_lead_to_every_routine
    (reachable_history relayImage [.explore ⟨0, 0x8000⟩ .native8])
  refine ⟨returns _ returned, ⟨edge, listed, flagged, edges edge listed⟩, orphans, starts _ ?_⟩
  rw [finish_eq_conclude, run_of_isIdle relayImage idle]
  exact returned

end Trace

end WidthTrace
