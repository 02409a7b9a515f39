import Mathlib.Data.List.Nodup
import WidthTrace.Proofs.Trace.History

/-!
# The entry points of a trace

Following paths declares no entry point. Hence the entry points are the addresses
of the seeds, each of them listed once.
-/

namespace WidthTrace.Trace

theorem entries_advance {image : Image} {trace next : Trace} (advance : Advance image trace next) :
    next.graph.entries = trace.graph.entries := by
  rcases graph_advance advance with same | ⟨_, _, transfer, _, _, recorded⟩
  · rw [same]
  · rw [recorded]
    rfl

theorem entries_run (image : Image) (trace : Trace) :
    (trace.run image).graph.entries = trace.graph.entries := by
  refine run_preserves image
    (motive := fun next => next.graph.entries = trace.graph.entries) ?_ rfl
  intro next before
  exact step_preserves image before fun _ advance => (entries_advance advance).trans before

theorem mem_entries_explore {image : Image} {trace : Trace} {entry a : Address}
    {state : CpuState} :
    a ∈ (trace.explore image entry state).graph.entries ↔
      a ∈ trace.graph.entries ∨ a = entry := by
  rw [explore, entries_run]
  exact CallGraph.mem_entries_declare

/-- The entry points are the addresses of the seeds. -/
theorem Reachable.mem_entries {image : Image} {declared : List Seed} {trace : Trace}
    (reached : Reachable image declared trace) {a : Address} :
    a ∈ trace.graph.entries ↔ ∃ state, (a, state) ∈ declared := by
  refine Reachable.invariant
    (motive := fun declared trace => a ∈ trace.graph.entries ↔ ∃ state, (a, state) ∈ declared)
    ?initial ?enter ?advance reached
  case initial => exact iff_of_false List.not_mem_nil fun ⟨_, member⟩ => List.not_mem_nil member
  case enter =>
    intro declared trace entry state holds
    rw [Trace.enter, CallGraph.mem_entries_declare, holds]
    simp [exists_or]
  case advance =>
    intro _ trace next holds advance
    rw [entries_advance advance]
    exact holds

theorem Reachable.nodup_entries {image : Image} {declared : List Seed} {trace : Trace}
    (reached : Reachable image declared trace) : trace.graph.entries.Nodup := by
  refine Reachable.invariant (motive := fun _ trace => trace.graph.entries.Nodup)
    List.nodup_nil ?enter ?advance reached
  case enter =>
    intro _ trace entry state distinct
    rw [Trace.enter, CallGraph.declare]
    split
    · exact distinct
    · rename_i missing
      exact distinct.append (List.nodup_singleton entry) (List.disjoint_singleton.mpr missing)
  case advance =>
    intro _ trace next distinct advance
    rw [entries_advance advance]
    exact distinct

end WidthTrace.Trace
