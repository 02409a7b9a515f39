import WidthTrace.Proofs.Instruction.Handover

/-!
# What instructions make of the mode

The mode of a state is its widths and its emulation bit. The stack history has no
influence on it: states of one mode decode the same instructions, and hand on
states of one mode to the same places.
-/

namespace WidthTrace

namespace CpuState

/-- A state without its stack history. -/
def mode (state : CpuState) : Width × Width × Bool :=
  (state.m, state.x, state.emulation)

variable {a b : CpuState}

theorem mode_eq_iff : a.mode = b.mode ↔ a.m = b.m ∧ a.x = b.x ∧ a.emulation = b.emulation := by
  simp only [mode, Prod.mk.injEq]

theorem width_of_mode (same : a.mode = b.mode) (flag : WidthFlag) : a.width flag = b.width flag := by
  obtain ⟨m, x, _⟩ := mode_eq_iff.mp same
  cases flag with
  | m => exact m
  | x => exact x

theorem compatible_of_mode (same : a.mode = b.mode) : a.compatible b = true := by
  rw [compatible_eq_true_iff]
  intro flag
  rw [width_of_mode same]
  cases b.width flag <;> simp [Width.conflicts]

theorem operandSizes_of_mode (same : a.mode = b.mode) : a.operandSizes = b.operandSizes := by
  obtain ⟨m, x, emulation⟩ := mode_eq_iff.mp same
  simp only [operandSizes, m, x, emulation]

theorem mode_selectSize (same : a.mode = b.mode) (mask : UInt8) (size : RegisterSize) :
    (a.selectSize mask size).mode = (b.selectSize mask size).mode := by
  obtain ⟨m, x, emulation⟩ := mode_eq_iff.mp same
  simp only [mode, selectSize, m, x, emulation]

theorem mode_restoreFlags (same : a.mode = b.mode) :
    a.restoreFlags.mode = b.restoreFlags.mode := by
  obtain ⟨_, _, emulation⟩ := mode_eq_iff.mp same
  simp only [mode, restoreFlags, emulation]

end CpuState

namespace Instruction

theorem decode?_of_mode {a b : CpuState} (same : a.mode = b.mode) (image : Image)
    (address : Address) : decode? image address a = decode? image address b := by
  rw [decode?, decode?, CpuState.operandSizes_of_mode same]

theorem mode_recordStack (instruction : Instruction) (state : CpuState) :
    (instruction.recordStack state).mode = state.mode := by
  unfold recordStack
  split <;> rfl

/-- An instruction changes the mode in the same way whatever the history. -/
theorem mode_after {a b : CpuState} (same : a.mode = b.mode) (image : Image)
    (instruction : Instruction) :
    (instruction.after image a).mode = (instruction.after image b).mode := by
  have recorded : (instruction.recordStack a).mode = (instruction.recordStack b).mode := by
    rw [mode_recordStack, mode_recordStack, same]
  unfold after
  cases instruction.effect with
  | clearFlags | setFlags =>
      dsimp only
      split
      · exact CpuState.mode_selectSize same _ _
      · exact same
  | restoreFlags => exact CpuState.mode_restoreFlags recorded
  | exchangeMode => rfl
  | push | pull | call => exact recorded
  | returns =>
      dsimp only
      split
      · exact CpuState.mode_restoreFlags recorded
      · exact recorded
  | plain | branch | branchAlways | jump | interrupt | halt => exact same

/-- Under a state of the same mode, an edge leads to the same place with the same mode. -/
theorem Handover.of_mode {image : Image} {instruction : Instruction} {a b handed : CpuState}
    {edge : EdgeKind} {target : Address} (same : a.mode = b.mode)
    (handover : instruction.Handover image a edge target handed) :
    ∃ other, instruction.Handover image b edge target other ∧ other.mode = handed.mode := by
  cases handover with
  | fallthrough goesOn => exact ⟨_, .fallthrough goesOn, (mode_after same image instruction).symm⟩
  | branch branches known => exact ⟨b, .branch branches known, same.symm⟩
  | jump jumps known => exact ⟨b, .jump jumps known, same.symm⟩
  | call calls known => exact ⟨_, .call calls known, (mode_after same image instruction).symm⟩

end Instruction

end WidthTrace
