import WidthTrace.Proofs.Hook.Contract
import WidthTrace.Proofs.Trace.Attribution

/-!
# States that contradict the exit contract of a hook

The exit contract of a hook is judged at the returns of the routine that starts at
the hook. A return that several routines lead to is recorded for only one of them,
the one on whose behalf it was traced first. It is judged by the contracts of that
routine, and the other routines may be left without a finding.
-/

namespace WidthTrace

namespace Hook

theorem exitViolation_mem {hook : Hook} {trace : Trace} {expected : CpuState} {ret : Return}
    (contract : hook.exit = some expected) (recorded : ret ∈ trace.returnsOf hook.address)
    (contradicts : expected.Contradicts ret.state) :
    Finding.exitViolation hook ret.address expected ret.state ∈ hook.exitFindings trace := by
  have contradiction : Finding.exitViolation hook ret.address expected ret.state ∈
      (hook.exitFindings trace).filter Finding.isError := by
    rw [errors_exitFindings, contract]
    exact List.mem_map.mpr ⟨ret, List.mem_filter.mpr ⟨recorded, decide_eq_true contradicts⟩, rfl⟩
  exact List.mem_of_mem_filter contradiction

theorem missingReturns_mem {hook : Hook} {trace : Trace} {expected : CpuState}
    (contract : hook.exit = some expected) (none : trace.returnsOf hook.address = []) :
    Finding.missingReturns hook ∈ hook.exitFindings trace := by
  rw [exitFindings, contract]
  dsimp only
  rw [none]
  exact List.mem_singleton_self _

end Hook

namespace Trace

theorem mem_contractFindings_of_exit {trace : Trace} {hooks : List Hook} {hook : Hook}
    (listed : hook ∈ hooks) (validated : hook.isValidated = true) {kept : CpuState}
    (known : trace.visited[hook.address]? = some kept) {finding : Finding}
    (found : finding ∈ hook.exitFindings trace) : finding ∈ trace.contractFindings hooks := by
  refine mem_contractFindings listed validated ?_
  rw [Hook.contractFindings, stateAt?, known]
  exact List.mem_append_right _ found

/-- A return at the address is judged by the exit contracts of a routine: each validated hook at the
start of the routine whose contract contradicts the state is accused. -/
def Judges (trace : Trace) (hooks : List Hook) (routine address : Address) (state : CpuState) :
    Prop :=
  ∀ hook ∈ hooks, hook.isValidated = true → hook.address = routine →
    ∀ expected, hook.exit = some expected → expected.Contradicts state →
      Finding.exitViolation hook address expected state ∈ trace.contractFindings hooks

/-- A traced return is recorded for some routine. -/
theorem exists_return_of_traced {image : Image} {requests : List Request} {address : Address}
    {kept : CpuState} {instruction : Instruction}
    (traced : Traced image (finished image requests).visited address kept instruction)
    (returns : instruction.effect = .returns) :
    ∃ routine, ⟨routine, address, instruction.after image kept⟩ ∈
      (finished image requests).returns := by
  have exits := ((recorded_finished image requests).mem_exits address _).mpr
    ⟨kept, instruction, traced, returns, rfl⟩
  obtain ⟨⟨routine, _, _⟩, recorded, same⟩ := List.mem_map.mp exits
  cases same
  exact ⟨routine, Array.mem_toList_iff.mp recorded⟩

/-- A recorded return is judged by the exit contracts of the routine that it is recorded for. -/
theorem judges_of_mem_returns {image : Image} {requests : List Request} {ret : Return}
    (recorded : ret ∈ (finished image requests).returns) (hooks : List Hook) :
    (finished image requests).Judges hooks ret.routine ret.address ret.state := by
  intro hook listed validated here expected contract contradicts
  have traced : ∃ kept, (finished image requests).visited[ret.address]? = some kept := by
    obtain ⟨kept, _, traced, _⟩ :=
      ((recorded_finished image requests).mem_exits ret.address ret.state).mp
        (List.mem_map_of_mem (Array.mem_toList_iff.mpr recorded))
    exact ⟨kept, traced.known⟩
  obtain ⟨kept, known⟩ := traced
  obtain ⟨first, start⟩ := (belongs_of_mem_returns recorded).within.start_known known
  rw [← here] at start
  refine mem_contractFindings_of_exit listed validated start
    (Hook.exitViolation_mem contract ?_ contradicts)
  exact List.mem_filter.mpr ⟨Array.mem_toList_iff.mpr recorded, beq_iff_eq.mpr here.symm⟩

/-- Let a return be within the routine of a validated hook and its state contradict the exit contract.
It is reported as a violation if no other routine leads to it. In any case it is reported so, or the
hook is reported to have no recorded return, or the hook has other returns while this one is recorded
for another routine that leads to it and judged by the exit contracts there. -/
theorem contradicted_exit_is_judged (image : Image) (requests : List Request)
    {hooks : List Hook} {hook : Hook} {expected kept : CpuState} {address : Address}
    {instruction : Instruction} (listed : hook ∈ hooks) (validated : hook.isValidated = true)
    (contract : hook.exit = some expected)
    (within : Within image (finished image requests).visited hook.address address)
    (traced : Traced image (finished image requests).visited address kept instruction)
    (returns : instruction.effect = .returns)
    (contradicts : expected.Contradicts (instruction.after image kept)) :
    let trace := finished image requests
    let state := instruction.after image kept
    ((∀ routine, Belongs image trace routine address → routine = hook.address) →
      Finding.exitViolation hook address expected state ∈ trace.contractFindings hooks) ∧
    (Finding.exitViolation hook address expected state ∈ trace.contractFindings hooks ∨
      Finding.missingReturns hook ∈ trace.contractFindings hooks ∨
      trace.returnsOf hook.address ≠ [] ∧
        ∃ routine, routine ≠ hook.address ∧ ⟨routine, address, state⟩ ∈ trace.returns ∧
          Belongs image trace routine address ∧ trace.Judges hooks routine address state) := by
  intro trace state
  obtain ⟨routine, recorded⟩ := exists_return_of_traced traced returns
  have belongs : Belongs image trace routine address := belongs_of_mem_returns recorded
  have judged : trace.Judges hooks routine address state := judges_of_mem_returns recorded hooks
  refine ⟨?alone, ?shared⟩
  case alone =>
    intro only
    exact judged hook listed validated (only _ belongs).symm expected contract contradicts
  case shared =>
    by_cases own : routine = hook.address
    · exact .inl (judged hook listed validated own.symm expected contract contradicts)
    · by_cases none : trace.returnsOf hook.address = []
      · obtain ⟨first, start⟩ := within.start_known traced.known
        exact .inr (.inl (mem_contractFindings_of_exit listed validated start
          (Hook.missingReturns_mem contract none)))
      · exact .inr (.inr ⟨none, routine, own, recorded, belongs, judged⟩)

/-! ## Runs on a shared return -/

/-- A routine that selects bytes and returns, and a second one that branches to that return or selects
words and returns by itself. -/
def sharedReturnImage : Image :=
  ⟨⟨#[0xE2, 0x30, 0x60, 0xF0, 0xFD, 0xC2, 0x20, 0x60]⟩, .loRom⟩

/-- A hook that promises to return with an accumulator of one word. -/
def wordExitHook (address : Address) : Hook :=
  { Hook.plain "wide" address .jsl with exit := some (.ofWidths (.known .word) .unknown) }

/-- Both routines are followed, the one that comes first in the image first. -/
def bothRoutines : List Request :=
  [.enter ⟨0, 0x8000⟩ .native8, .enter ⟨0, 0x8003⟩ .native8]

theorem finished_bothRoutines :
    finished sharedReturnImage bothRoutines =
      ((step sharedReturnImage)^[9] (history sharedReturnImage bothRoutines)).conclude :=
  finished_eq_iterate (by decide +kernel)

theorem traced_sharedReturn :
    Traced sharedReturnImage (finished sharedReturnImage bothRoutines).visited ⟨0, 0x8002⟩
      .native8 ⟨⟨0, 0x8002⟩, ⟨0x60⟩, 0⟩ := by
  rw [finished_bothRoutines]
  decide +kernel

/-- The second routine branches to the return of the first one. -/
theorem within_sharedReturn :
    Within sharedReturnImage (finished sharedReturnImage bothRoutines).visited ⟨0, 0x8003⟩
      ⟨0, 0x8002⟩ := by
  have traced : Traced sharedReturnImage (finished sharedReturnImage bothRoutines).visited
      ⟨0, 0x8003⟩ .native8 ⟨⟨0, 0x8003⟩, ⟨0xF0⟩, 1⟩ := by
    rw [finished_bothRoutines]
    decide +kernel
  have handover : Instruction.Handover sharedReturnImage ⟨⟨0, 0x8003⟩, ⟨0xF0⟩, 1⟩ .native8 .branch
      ⟨0, 0x8002⟩ .native8 := .branch (.inl rfl) (by decide +kernel)
  exact .step .start traced handover nofun

/-- A return within the routine of a hook contradicts the exit contract, and neither this nor the
lack of returns is reported. -/
theorem contradicted_exit_can_be_overlooked :
    ∃ expected kept instruction,
      let hook := wordExitHook ⟨0, 0x8003⟩
      let trace := finished sharedReturnImage bothRoutines
      hook.isValidated = true ∧ hook.exit = some expected ∧
      Within sharedReturnImage trace.visited hook.address ⟨0, 0x8002⟩ ∧
      Traced sharedReturnImage trace.visited ⟨0, 0x8002⟩ kept instruction ∧
      instruction.effect = .returns ∧
      expected.Contradicts (instruction.after sharedReturnImage kept) ∧
      ∀ finding ∈ trace.contractFindings [hook],
        finding.kind ≠ .missingReturnState ∧
          (finding.kind = .contractViolation → finding.address ≠ ⟨0, 0x8002⟩) := by
  refine ⟨_, _, _, rfl, rfl, within_sharedReturn, traced_sharedReturn, rfl, by decide, ?_⟩
  rw [finished_bothRoutines]
  decide +kernel

/-- Only the return of the first routine is followed, as a routine of its own. -/
def returnAlone : List Request :=
  [.enter ⟨0, 0x8002⟩ .native8]

theorem finished_returnAlone :
    finished sharedReturnImage returnAlone =
      ((step sharedReturnImage)^[2] (history sharedReturnImage returnAlone)).conclude :=
  finished_eq_iterate (by decide +kernel)

theorem belongs_returnAlone {routine address : Address}
    (belongs : Belongs sharedReturnImage (finished sharedReturnImage returnAlone) routine address) :
    routine = ⟨0, 0x8002⟩ := by
  have entries : (finished sharedReturnImage returnAlone).graph.entries = [⟨0, 0x8002⟩] := by
    rw [finished_returnAlone]
    decide +kernel
  have transfers : (finished sharedReturnImage returnAlone).graph.transfers = #[] := by
    rw [finished_returnAlone]
    decide +kernel
  rcases belongs.starts with declared | called
  · rw [CallGraph.isEntry_iff, entries] at declared
    exact List.mem_singleton.mp declared
  · obtain ⟨call, recorded, _⟩ := CallGraph.isCallTarget_iff.mp called
    rw [transfers] at recorded
    exact absurd recorded (Array.not_mem_empty call)

theorem contradicted_exits_judged_in_sharedReturnImage :
    Finding.exitViolation (wordExitHook ⟨0, 0x8002⟩) ⟨0, 0x8002⟩
        (.ofWidths (.known .word) .unknown)
        ⟨.known .byte, .known .byte, false, [⟨⟨0, 0x8002⟩, .rts, -2, -2⟩]⟩ ∈
      (finished sharedReturnImage returnAlone).contractFindings [wordExitHook ⟨0, 0x8002⟩] ∧
    ∃ routine, routine ≠ ⟨0, 0x8003⟩ ∧
      Belongs sharedReturnImage (finished sharedReturnImage bothRoutines) routine ⟨0, 0x8002⟩ := by
  have listed (address : Address) : wordExitHook address ∈ [wordExitHook address] :=
    List.mem_singleton_self _
  have contradicts : (CpuState.ofWidths (.known .word) .unknown).Contradicts
      (Instruction.after sharedReturnImage ⟨⟨0, 0x8002⟩, ⟨0x60⟩, 0⟩ .native8) := by decide
  have traced : Traced sharedReturnImage (finished sharedReturnImage returnAlone).visited
      ⟨0, 0x8002⟩ .native8 ⟨⟨0, 0x8002⟩, ⟨0x60⟩, 0⟩ := by
    rw [finished_returnAlone]
    decide +kernel
  obtain ⟨alone, _⟩ := contradicted_exit_is_judged sharedReturnImage returnAlone
    (listed ⟨0, 0x8002⟩) rfl rfl .start traced rfl contradicts
  obtain ⟨_, shared⟩ := contradicted_exit_is_judged sharedReturnImage bothRoutines
    (listed ⟨0, 0x8003⟩) rfl rfl within_sharedReturn traced_sharedReturn rfl contradicts
  refine ⟨alone fun routine => belongs_returnAlone, ?_⟩
  rcases shared with violation | missing | ⟨_, routine, other, _, belongs, _⟩
  · refine absurd violation ?_
    rw [finished_bothRoutines]
    decide +kernel
  · refine absurd missing ?_
    rw [finished_bothRoutines]
    decide +kernel
  · exact ⟨routine, other, belongs⟩

end Trace

end WidthTrace
