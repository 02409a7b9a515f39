import WidthTrace.Instruction.Basic
import WidthTrace.Transfer

/-!
# What an instruction hands on

Executing an instruction under a state leads to at most two arrivals: the
following instruction with the state afterwards, unless the instruction ends its
block, and the destination of its transfer with the state that crosses over.
-/

namespace WidthTrace.Instruction

/-- The state with the instruction's movement of the stack pointer recorded. -/
def recordStack (instruction : Instruction) (state : CpuState) : CpuState :=
  match StackMnemonic.ofOpcode? instruction.opcode with
  | some mnemonic => state.record instruction.address mnemonic
  | none => state

/-- The state after the instruction. -/
def after (image : Image) (instruction : Instruction) (state : CpuState) : CpuState :=
  match instruction.effect with
  | .clearFlags =>
      match instruction.operandByte? image 0 with
      | some mask => state.clearFlags mask
      | none => state
  | .setFlags =>
      match instruction.operandByte? image 0 with
      | some mask => state.setFlags mask
      | none => state
  | .restoreFlags => (instruction.recordStack state).restoreFlags
  | .exchangeMode => state.exchangeMode
  | .push | .pull | .call => instruction.recordStack state
  | .returns =>
      let returned := instruction.recordStack state
      if StackMnemonic.ofOpcode? instruction.opcode = some .rti then returned.restoreFlags
      else returned
  | _ => state

/-- The kind and destination of the instruction's transfer, where it is named in the code. -/
def transfer? (image : Image) (instruction : Instruction) : Option (TransferKind × Address) :=
  match instruction.effect with
  | .call => (instruction.controlTarget? image).map (TransferKind.call, ·)
  | .jump => (instruction.controlTarget? image).map (TransferKind.jump, ·)
  | .branch | .branchAlways => (instruction.branchTarget? image).map (TransferKind.branch, ·)
  | _ => none

/-- The state that crosses over with a transfer: a call starts a stack history of its own. -/
def carried (kind : TransferKind) (state : CpuState) : CpuState :=
  match kind with
  | .call => state.enterRoutine
  | .jump | .branch => state

/-- Where execution goes on without a transfer, and with what state. -/
def continuation? (image : Image) (instruction : Instruction) (state : CpuState) :
    Option (Address × CpuState) :=
  if instruction.effect.endsBlock then none
  else some (instruction.next, instruction.after image state)

/-- Every place that the instruction leads to, with the state that it brings there. -/
def arrivals (image : Image) (instruction : Instruction) (state : CpuState) :
    List (Address × CpuState) :=
  (instruction.continuation? image state).toList ++
    (instruction.transfer? image).toList.map fun (kind, target) => (target, carried kind state)

end WidthTrace.Instruction
