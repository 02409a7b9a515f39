import WidthTrace.Proofs.Trace.Entries
import WidthTrace.Proofs.Trace.FixedPoint
import WidthTrace.Proofs.Trace.Recorded

/-!
# Results are only added to

Whatever a trace is asked to do, the states that it keeps, the transfers, returns
and reports that it has recorded, and its entry points stay as they are, and in
their order. New ones come after them, and a new state is kept only at an address
that shows a byte.
-/

namespace WidthTrace.Trace

/-- The later trace holds what the earlier one holds, with everything new after it. -/
structure ContinuedBy (earlier later : Trace) : Prop where
  visited : AddressMap.Extends earlier.visited later.visited
  transfers : earlier.graph.transfers.toList <+: later.graph.transfers.toList
  entries : earlier.graph.entries <+: later.graph.entries
  returns : earlier.returns.toList <+: later.returns.toList
  findings : earlier.findings.toList <+: later.findings.toList

namespace ContinuedBy

theorem refl (trace : Trace) : trace.ContinuedBy trace :=
  ⟨.refl _, List.prefix_rfl, List.prefix_rfl, List.prefix_rfl, List.prefix_rfl⟩

theorem trans {first second third : Trace} (early : first.ContinuedBy second)
    (late : second.ContinuedBy third) : first.ContinuedBy third where
  visited := early.visited.trans late.visited
  transfers := early.transfers.trans late.transfers
  entries := early.entries.trans late.entries
  returns := early.returns.trans late.returns
  findings := early.findings.trans late.findings

theorem returnsOf {earlier later : Trace} (continued : earlier.ContinuedBy later)
    (routine : Address) : earlier.returnsOf routine <+: later.returnsOf routine :=
  continued.returns.filter _

theorem isReported {earlier later : Trace} (continued : earlier.ContinuedBy later)
    {address : Address} (reported : earlier.isReported address = true) :
    later.isReported address = true := by
  rw [isReported_iff] at reported ⊢
  exact (continued.findings.filter _).ne_nil reported

end ContinuedBy

theorem continuedBy_enter (trace : Trace) (entry : Address) (state : CpuState) :
    trace.ContinuedBy (trace.enter entry state) where
  visited := .refl _
  transfers := by
    rw [transfers_enter]
  entries := by
    rw [Trace.enter, CallGraph.declare]
    split
    · exact List.prefix_rfl
    · exact List.prefix_append _ _
  returns := List.prefix_rfl
  findings := List.prefix_rfl

/-- An advance adds at most one state, one transfer and one return, and the reports that come with
them. -/
theorem continuedBy_advance {image : Image} {trace next : Trace}
    (advance : Advance image trace next) : trace.ContinuedBy next where
  visited := extends_advance advance
  transfers := by
    rcases graph_advance advance with same | ⟨_, _, transfer, _, _, recorded⟩
    · rw [same]
    · rw [recorded, CallGraph.add, Array.toList_push]
      exact List.prefix_append _ _
  entries := by
    rw [entries_advance advance]
  returns := by
    cases advance with
    | take free popped => exact List.prefix_rfl
    | meet present known =>
        rw [returns_meet]
        exact List.prefix_rfl
    | stop present fresh unreadable => exact List.prefix_rfl
    | execute present fresh decoded =>
        rw [returns_execute]
        split
        · rw [Array.toList_push]
          exact List.prefix_append _ _
        · exact List.prefix_rfl
  findings := by
    cases advance with
    | take free popped => exact List.prefix_rfl
    | meet present known =>
        rw [findings_meet]
        split
        · exact List.prefix_rfl
        · rw [Array.toList_push]
          exact List.prefix_append _ _
    | stop present fresh unreadable => exact List.prefix_rfl
    | execute present fresh decoded =>
        rw [findings_execute]
        split
        · rw [Array.toList_appendList]
          exact List.prefix_append _ _
        · exact List.prefix_rfl

theorem continuedBy_run (image : Image) (trace : Trace) : trace.ContinuedBy (trace.run image) := by
  refine run_preserves image (motive := trace.ContinuedBy) ?_ (.refl trace)
  intro next before
  exact step_preserves image before fun _ advance => before.trans (continuedBy_advance advance)

theorem continuedBy_explore (image : Image) (trace : Trace) (entry : Address) (state : CpuState) :
    trace.ContinuedBy (trace.explore image entry state) :=
  (continuedBy_enter trace entry state).trans (continuedBy_run image _)

theorem continuedBy_perform (image : Image) (trace : Trace) (request : Request) :
    trace.ContinuedBy (trace.perform image request) := by
  cases request with
  | enter entry state => exact continuedBy_enter trace entry state
  | explore entry state => exact continuedBy_explore image trace entry state
  | run => exact continuedBy_run image trace

theorem continuedBy_requests (image : Image) (trace : Trace) (further : List Request) :
    trace.ContinuedBy (further.foldl (perform image) trace) := by
  induction further generalizing trace with
  | nil => exact .refl trace
  | cons request rest ih => exact (continuedBy_perform image trace request).trans (ih _)

/-- Whatever is requested of a trace, at any moment: the states that it keeps stay the same, its
transfers, its reports, the returns of each routine and its entry points are the first ones of the
later trace, and the addresses with a reported mismatch still have one. States are kept only at
addresses that show a byte. -/
theorem later_results_extend_earlier {image : Image} {seeds : List Seed} {trace : Trace}
    (reached : Reachable image seeds trace) (further : List Request) :
    let later := further.foldl (perform image) trace
    (∀ (address : Address) (kept : CpuState), trace.visited[address]? = some kept →
      later.visited[address]? = some kept) ∧
    trace.graph.transfers.toList <+: later.graph.transfers.toList ∧
    trace.findings.toList <+: later.findings.toList ∧
    (∀ routine, trace.returnsOf routine <+: later.returnsOf routine) ∧
    trace.graph.entries <+: later.graph.entries ∧
    (∀ address, trace.isReported address = true → later.isReported address = true) ∧
    ∀ address ∈ later.visited, (image.byte? address).isSome = true := by
  intro later
  have continued : trace.ContinuedBy later := continuedBy_requests image trace further
  refine ⟨continued.visited, continued.transfers, continued.findings, continued.returnsOf,
    continued.entries, fun _ => continued.isReported, ?readable⟩
  intro address member
  obtain ⟨kept, known⟩ := AddressMap.mem_iff_exists.mp member
  exact (reached.requests further).readable known

/-- An instruction that does nothing, and a return. -/
def returnImage : Image :=
  ⟨⟨#[0xEA, 0x60]⟩, .loRom⟩

/-- The return is met again with words, after it was traced with bytes. -/
def bytesThenWords : List Request :=
  [.explore ⟨0, 0x8000⟩ .native8, .explore ⟨0, 0x8001⟩ (.ofWidths (.known .word) (.known .word))]

theorem history_bytesThenWords :
    history returnImage bytesThenWords = (step returnImage)^[2]
      (((step returnImage)^[3] (empty.enter ⟨0, 0x8000⟩ .native8)).enter ⟨0, 0x8001⟩
        (.ofWidths (.known .word) (.known .word))) := by
  have first : run returnImage (empty.enter ⟨0, 0x8000⟩ .native8) =
      (step returnImage)^[3] (empty.enter ⟨0, 0x8000⟩ .native8) :=
    run_eq_iterate (by decide +kernel)
  change run _ (enter (run _ _) _ _) = _
  rw [first]
  exact run_eq_iterate (by decide +kernel)

theorem results_kept_in_returnImage :
    let trace := history returnImage bytesThenWords
    let later := [Request.explore ⟨0, 0x8000⟩ .unknown, .run].foldl (perform returnImage) trace
    later.visited[(⟨0, 0x8001⟩ : Address)]? = some .native8 ∧
      later.isReported ⟨0, 0x8001⟩ = true ∧
      (∃ ret ∈ later.returnsOf ⟨0, 0x8000⟩, ret.address = ⟨0, 0x8001⟩) ∧
      (returnImage.byte? ⟨0, 0x8001⟩).isSome = true := by
  intro trace later
  have explored : trace = _ := history_bytesThenWords
  have known : trace.visited[(⟨0, 0x8001⟩ : Address)]? = some .native8 := by
    rw [explored]
    decide +kernel
  have reported : trace.isReported ⟨0, 0x8001⟩ = true := by
    rw [explored]
    decide +kernel
  have returned : ∃ ret ∈ trace.returnsOf ⟨0, 0x8000⟩, ret.address = ⟨0, 0x8001⟩ := by
    rw [explored]
    decide +kernel
  obtain ⟨ret, recorded, here⟩ := returned
  obtain ⟨kept, _, _, returns, _, mismatches, readable⟩ := later_results_extend_earlier
    (reachable_history returnImage bytesThenWords) [.explore ⟨0, 0x8000⟩ .unknown, .run]
  exact ⟨kept _ _ known, mismatches _ reported, ⟨ret, (returns _).subset recorded, here⟩,
    readable _ (AddressMap.mem_iff_exists.mpr ⟨_, kept _ _ known⟩)⟩

end WidthTrace.Trace
