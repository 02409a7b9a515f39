import WidthTrace.Proofs.Trace.OperandSizes
import WidthTrace.Proofs.Trace.StackHistory

/-!
# Registers on the stack and in operands

A push or pull of a register moves the stack pointer by the size that the governing width gives,
and an immediate operand of the register is sized by the width and the emulation bit. The two
sizes differ exactly for a word in emulation mode. The state that both come from is the one kept at
the address of the instruction, whatever the path that led to the recorded movement.
-/

namespace WidthTrace

theorem RegisterSize.bytes_inj {a b : RegisterSize} : a.bytes = b.bytes ↔ a = b := by
  cases a <;> cases b <;> decide

/-- The mode of the immediate operands that are as long as a register. -/
def WidthFlag.immediateMode : WidthFlag → AddressingMode
  | .m => .immediateM
  | .x => .immediateX

namespace CpuState

/-- The size of the governed registers while operands are decoded. -/
def operandSize (state : CpuState) : WidthFlag → RegisterSize
  | .m => state.operandSizes.1
  | .x => state.operandSizes.2

/-- The governed registers hold a word, which emulation mode narrows in operands. -/
def NarrowsOperands (state : CpuState) (flag : WidthFlag) : Prop :=
  state.emulation = true ∧ state.width flag = .known .word

instance (state : CpuState) (flag : WidthFlag) : Decidable (state.NarrowsOperands flag) :=
  inferInstanceAs (Decidable (_ ∧ _))

variable {state : CpuState} {flag : WidthFlag} {mnemonic : StackMnemonic}

theorem operandSize_eq (state : CpuState) (flag : WidthFlag) :
    state.operandSize flag = if state.emulation then .byte else (state.width flag).resolve := by
  cases flag with
  | m => exact apply_ite Prod.fst _ _ _
  | x => exact apply_ite Prod.snd _ _ _

theorem operandSize_eq_resolve_iff :
    state.operandSize flag = (state.width flag).resolve ↔ ¬state.NarrowsOperands flag := by
  rw [operandSize_eq, NarrowsOperands]
  cases state.emulation with
  | false => simp
  | true =>
      cases state.width flag with
      | unknown => decide
      | known size => cases size <;> decide

/-- A register moves the stack pointer by its own size. -/
theorem natAbs_stackDelta (governed : mnemonic.governingFlag? = some flag) :
    (state.stackDelta mnemonic).natAbs = (state.width flag).resolve.bytes := by
  have once := StackMnemonic.natAbs_baseDelta_of_governed governed
  rw [stackDelta, governed]
  dsimp only
  cases width : state.width flag with
  | unknown => exact once
  | known size =>
      cases size with
      | byte => exact once
      | word => exact (Int.natAbs_mul 2 _).trans (congrArg (2 * ·) once)

theorem natAbs_stackDelta_eq_iff (governed : mnemonic.governingFlag? = some flag) :
    (state.stackDelta mnemonic).natAbs = (state.operandSize flag).bytes ↔
      ¬state.NarrowsOperands flag := by
  rw [natAbs_stackDelta governed, RegisterSize.bytes_inj, eq_comm, operandSize_eq_resolve_iff]

end CpuState

theorem Instruction.operandLength_of_immediate {image : Image} {address : Address}
    {state : CpuState} {instruction : Instruction} {flag : WidthFlag}
    (decoded : decode? image address state = some instruction)
    (immediate : instruction.opcode.mode = flag.immediateMode) :
    instruction.operandLength = (state.operandSize flag).bytes := by
  obtain ⟨byte, _, rfl⟩ := Option.map_eq_some_iff.mp decoded
  dsimp only at immediate ⊢
  rw [immediate]
  cases flag with
  | m => rfl
  | x => rfl

namespace Trace

/--
Let no seed have a history, and let a push or pull of a register be recorded in a state that a
reachable trace holds. A state is kept at its address, and the governing width of that state gives
the size of the movement. The size that the same state gives to immediate operands of the register
is equal to it, unless the state is in emulation mode and the width is a word. If no seed is in
emulation mode, the two are always equal.
-/
theorem movements_agree_with_operand_sizes {image : Image} {seeds : List Seed} {trace : Trace}
    {state : CpuState} {op : StackOp} {flag : WidthFlag} (reached : Reachable image seeds trace)
    (fresh : ∀ seed ∈ seeds, seed.2.history = []) (held : trace.Holds state)
    (listed : op ∈ state.stackOps) (governed : op.mnemonic.governingFlag? = some flag) :
    ∃ kept, trace.visited[op.address]? = some kept ∧
      op.delta.natAbs = (kept.width flag).resolve.bytes ∧
      (op.delta.natAbs = (kept.operandSize flag).bytes ↔ ¬kept.NarrowsOperands flag) ∧
      ((∀ seed ∈ seeds, seed.2.emulation = false) →
        op.delta.natAbs = (kept.operandSize flag).bytes) ∧
      ∀ code address instruction, Instruction.decode? code address kept = some instruction →
        instruction.opcode.mode = flag.immediateMode →
          instruction.operandLength = (kept.operandSize flag).bytes := by
  obtain ⟨kept, instruction, traced, moves⟩ := reached.made fresh held op listed
  rw [Instruction.delta_of_movement? moves]
  have agrees : (kept.stackDelta op.mnemonic).natAbs = (kept.operandSize flag).bytes ↔
      ¬kept.NarrowsOperands flag :=
    CpuState.natAbs_stackDelta_eq_iff governed
  refine ⟨kept, traced.known, CpuState.natAbs_stackDelta governed, agrees, ?native, ?decoded⟩
  case native =>
    intro declared
    apply agrees.mpr
    rintro ⟨emulated, _⟩
    have native := reached.native_of_known declared traced.known
    exact Bool.false_ne_true (native.symm.trans emulated)
  case decoded =>
    intro code address instruction
    exact Instruction.operandLength_of_immediate

/-- A routine that selects words for the accumulator, pushes it, and returns. -/
def wordPushImage : Image :=
  ⟨⟨#[0xC2, 0x20, 0x48, 0x60]⟩, .loRom⟩

/-- The state at the return of the routine. -/
def afterWordPush (emulation : Bool) : CpuState :=
  ⟨.known .word, .known .byte, emulation,
    [⟨⟨0, 0x8003⟩, .rts, -2, 0⟩, ⟨⟨0, 0x8002⟩, .pha, 2, 2⟩]⟩

def wordPushRequests (emulation : Bool) : List Request :=
  [.explore ⟨0, 0x8000⟩ { CpuState.native8 with emulation := emulation }]

theorem history_wordPush (emulation : Bool) :
    history wordPushImage (wordPushRequests emulation) =
      (step wordPushImage)^[4]
        (empty.enter ⟨0, 0x8000⟩ { CpuState.native8 with emulation := emulation }) :=
  run_eq_iterate (by cases emulation <;> decide +kernel)

theorem holds_afterWordPush (emulation : Bool) :
    (history wordPushImage (wordPushRequests emulation)).Holds (afterWordPush emulation) := by
  have recorded : ⟨⟨0, 0x8000⟩, ⟨0, 0x8003⟩, afterWordPush emulation⟩ ∈
      (history wordPushImage (wordPushRequests emulation)).returns := by
    rw [history_wordPush]
    cases emulation <;> decide +kernel
  exact .returned recorded

theorem movement_in_wordPushImage :
    ∃ kept, (history wordPushImage (wordPushRequests false)).visited[(⟨0, 0x8002⟩ : Address)]? =
        some kept ∧
      (afterWordPush false).stackOps.head?.map StackOp.delta = some 2 ∧
      (kept.operandSize .m).bytes = 2 := by
  have fresh : ∀ seed ∈ seeds (wordPushRequests false), seed.2.history = [] := by decide
  have native : ∀ seed ∈ seeds (wordPushRequests false), seed.2.emulation = false := by decide
  have listed : ⟨⟨0, 0x8002⟩, .pha, 2, 2⟩ ∈ (afterWordPush false).stackOps := by decide
  have governed : StackMnemonic.pha.governingFlag? = some .m := rfl
  obtain ⟨kept, known, _, _, same, _⟩ :=
    movements_agree_with_operand_sizes (reachable_history wordPushImage (wordPushRequests false))
      fresh (holds_afterWordPush false) listed governed
  exact ⟨kept, known, rfl, (same native).symm⟩

/-- In emulation mode a word is pushed where operands are decoded as bytes. -/
theorem movement_can_exceed_operand_size :
    (∀ seed ∈ seeds (wordPushRequests true), seed.2.history = []) ∧
    ∃ state, (history wordPushImage (wordPushRequests true)).Holds state ∧
      ∃ op ∈ state.stackOps, op.mnemonic.governingFlag? = some .m ∧
        ∃ kept, (history wordPushImage (wordPushRequests true)).visited[op.address]? = some kept ∧
          op.delta.natAbs = 2 ∧ (kept.operandSize .m).bytes = 1 := by
  have fresh : ∀ seed ∈ seeds (wordPushRequests true), seed.2.history = [] := by decide
  have known : (history wordPushImage (wordPushRequests true)).visited[(⟨0, 0x8002⟩ : Address)]? =
      some ⟨.known .word, .known .byte, true, []⟩ := by
    rw [history_wordPush]
    decide +kernel
  exact ⟨fresh, afterWordPush true, holds_afterWordPush true, ⟨⟨0, 0x8002⟩, .pha, 2, 2⟩, by decide,
    rfl, _, known, rfl, rfl⟩

end Trace

end WidthTrace
