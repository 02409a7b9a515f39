import WidthTrace.Proofs.Trace.FixedPoint
import WidthTrace.Proofs.Trace.Recorded

/-!
# Finished traces

A trace is finished by running it to its end and reporting the entry points that
were not reached. What was kept, recorded and reported by then stays as it is, so
that a finished trace is still a fixed point.
-/

namespace WidthTrace.Trace

/-- The reports of entry points that were not reached. -/
def unreached (trace : Trace) : List Finding :=
  (trace.graph.entries.filter fun entry => !trace.visited.contains entry).map
    Finding.unreachedEntry

/-- What is added to a trace that has been run to its end. -/
def conclude (trace : Trace) : Trace :=
  { trace with
    graph := trace.graph.markLeaves
    findings := trace.findings ++ trace.unreached }

theorem finish_eq_conclude (image : Image) (trace : Trace) :
    trace.finish image = (trace.run image).conclude := rfl

/-- The reports of a run are still there once it is concluded. -/
theorem mem_findings_conclude {trace : Trace} {finding : Finding}
    (found : finding ∈ trace.findings) : finding ∈ trace.conclude.findings := by
  rw [conclude, ← Array.mem_toList_iff, Array.toList_appendList]
  exact List.mem_append_left _ (Array.mem_toList_iff.mpr found)

/-- A declared entry point is traced or reported. -/
theorem unreachedEntry_mem_conclude {trace : Trace} {entry : Address}
    (declared : trace.graph.isEntry entry = true) (missing : trace.visited[entry]? = none) :
    Finding.unreachedEntry entry ∈ trace.conclude.findings := by
  rw [conclude, ← Array.mem_toList_iff, Array.toList_appendList]
  refine List.mem_append_right _ (List.mem_map_of_mem (List.mem_filter.mpr ⟨?_, ?_⟩))
  · exact CallGraph.isEntry_iff.mp declared
  · rw [Std.TreeMap.contains_eq_isSome_getElem?, missing]
    rfl

/-- The trace after a sequence of requests, finished. -/
def finished (image : Image) (requests : List Request) : Trace :=
  (history image requests).finish image

/-- Finishing a trace takes a finite number of steps and a conclusion. -/
theorem finished_eq_iterate {image : Image} {requests : List Request} {count : Nat}
    (ends : ((step image)^[count] (history image requests)).isIdle = true) :
    finished image requests = ((step image)^[count] (history image requests)).conclude := by
  rw [finished, finish_eq_conclude, run_eq_iterate ends]

/-- Exploring a single entry point takes a finite number of steps and a conclusion. -/
theorem finished_explore {image : Image} {entry : Address} {state : CpuState} {count : Nat}
    (ends : ((step image)^[count] (empty.enter entry state)).isIdle = true) :
    finished image [.explore entry state] =
      ((step image)^[count] (empty.enter entry state)).conclude := by
  have explored : history image [.explore entry state] =
      (step image)^[count] (empty.enter entry state) := run_eq_iterate ends
  rw [finished, explored, finish_eq_conclude, run_of_isIdle image ends]

theorem reachable_run_history (image : Image) (requests : List Request) :
    Reachable image (seeds requests) ((history image requests).run image) :=
  (reachable_history image requests).run

theorem recorded_finished (image : Image) (requests : List Request) :
    Recorded image (finished image requests) :=
  (reachable_run_history image requests).recorded.congr rfl rfl rfl

theorem decodes_finished {image : Image} {requests : List Request} {address : Address}
    {kept : CpuState} (known : (finished image requests).visited[address]? = some kept) :
    ∃ instruction, Instruction.decode? image address kept = some instruction :=
  (reachable_run_history image requests).decodes known

/-- What is brought to a readable address was traced there. -/
theorem known_finished {image : Image} {requests : List Request} {address : Address}
    {state : CpuState}
    (brought : Brought image (seeds requests) (finished image requests).visited address state)
    (readable : (image.byte? address).isSome = true) :
    ∃ kept, (finished image requests).visited[address]? = some kept :=
  AddressMap.mem_iff_exists.mp
    ((reachable_run_history image requests).mem_visited (isIdle_run image _) brought readable)

/-- Where a state is brought that contradicts the kept one, a mismatch is reported. -/
theorem mismatch_finished {image : Image} {requests : List Request} {address : Address}
    {kept state : CpuState} (known : (finished image requests).visited[address]? = some kept)
    (brought : Brought image (seeds requests) (finished image requests).visited address state)
    (contradicts : kept.Contradicts state) :
    ∃ finding ∈ (finished image requests).findings,
      finding.kind = .stateMismatch ∧ finding.address = address := by
  have reported := ((reachable_run_history image requests).mismatchesAt_ne_nil_iff
    (isIdle_run image _) known).mpr ⟨state, brought, contradicts⟩
  obtain ⟨finding, found, mismatch⟩ := exists_mismatch_iff.mpr reported
  exact ⟨finding, mem_findings_conclude found, mismatch⟩

end WidthTrace.Trace
