import WidthTrace.Proofs.Instruction.Handover

/-!
# Stack movements along the edges of an instruction

An instruction makes at most one movement of the stack pointer. It is appended
to the history that is handed on, except along a call, where the history starts
anew.
-/

namespace WidthTrace.Instruction

/-- The movement of the stack pointer that the instruction makes under a state. -/
def movement? (instruction : Instruction) (state : CpuState) : Option StackOp :=
  (StackMnemonic.ofOpcode? instruction.opcode).map fun mnemonic =>
    ⟨instruction.address, mnemonic, state.stackDelta mnemonic,
      state.depth + state.stackDelta mnemonic⟩

/-- The effects of the instructions that move the stack pointer. -/
theorem effect_of_ofOpcode? {opcode : Opcode} {mnemonic : StackMnemonic}
    (moves : StackMnemonic.ofOpcode? opcode = some mnemonic) :
    opcode.effect = .push ∨ opcode.effect = .pull ∨ opcode.effect = .call ∨
      opcode.effect = .returns ∨ opcode.effect = .restoreFlags := by
  unfold StackMnemonic.ofOpcode? at moves
  unfold Opcode.effect
  split at moves <;> simp_all

theorem movement?_eq_none {instruction : Instruction} (state : CpuState)
    (still : ¬(instruction.effect = .push ∨ instruction.effect = .pull ∨
      instruction.effect = .call ∨ instruction.effect = .returns ∨
      instruction.effect = .restoreFlags)) :
    instruction.movement? state = none := by
  unfold movement?
  cases moves : StackMnemonic.ofOpcode? instruction.opcode with
  | none => rfl
  | some mnemonic => exact absurd (effect_of_ofOpcode? moves) still

theorem stackOps_recordStack (instruction : Instruction) (state : CpuState) :
    (instruction.recordStack state).stackOps =
      state.stackOps ++ (instruction.movement? state).toList := by
  unfold recordStack movement?
  cases StackMnemonic.ofOpcode? instruction.opcode with
  | none => exact (List.append_nil _).symm
  | some mnemonic => exact CpuState.stackOps_record state instruction.address mnemonic

theorem stackOps_after (image : Image) (instruction : Instruction) (state : CpuState) :
    (instruction.after image state).stackOps =
      state.stackOps ++ (instruction.movement? state).toList := by
  have recorded := stackOps_recordStack instruction state
  unfold after
  cases effect : instruction.effect with
  | push | pull | call | restoreFlags => exact recorded
  | returns =>
      dsimp only
      split
      · exact recorded
      · exact recorded
  | clearFlags | setFlags =>
      rw [movement?_eq_none state (by simp [effect]), Option.toList_none, List.append_nil]
      dsimp only
      split <;> rfl
  | exchangeMode =>
      rw [movement?_eq_none state (by simp [effect]), Option.toList_none, List.append_nil]
      rfl
  | plain | branch | branchAlways | jump | interrupt | halt =>
      rw [movement?_eq_none state (by simp [effect]), Option.toList_none, List.append_nil]

/-- Along every edge but a call, the history grows by the movement of the instruction. -/
theorem Handover.stackOps {image : Image} {instruction : Instruction} {state : CpuState}
    {edge : EdgeKind} {target : Address} {handed : CpuState}
    (handover : Handover image instruction state edge target handed) (inside : edge ≠ .call) :
    handed.stackOps = state.stackOps ++ (instruction.movement? state).toList := by
  cases handover with
  | fallthrough goesOn => exact stackOps_after image instruction state
  | branch branches known =>
      have still : instruction.movement? state = none := by
        apply movement?_eq_none
        rcases branches with branches | branches
        · simp [branches]
        · simp [branches]
      rw [still, Option.toList_none, List.append_nil]
  | jump jumps known =>
      have still : instruction.movement? state = none := by
        apply movement?_eq_none
        simp [jumps]
      rw [still, Option.toList_none, List.append_nil]
  | call calls known => exact absurd rfl inside

/-- A call hands on an empty history. -/
theorem Handover.stackOps_of_call {image : Image} {instruction : Instruction} {state : CpuState}
    {target : Address} {handed : CpuState}
    (handover : Handover image instruction state .call target handed) : handed.stackOps = [] := by
  cases handover
  rfl

end WidthTrace.Instruction
