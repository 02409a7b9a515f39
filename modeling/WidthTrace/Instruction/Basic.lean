import WidthTrace.Cartridge.Image
import WidthTrace.Cpu.State
import WidthTrace.Opcode.Effect

/-!
# Decoded instructions

Decoding needs the opcode byte alone; the number of operand bytes follows from
the widths of the state. Operand bytes are read in the instruction's own bank,
which wraps, and any of them may be missing from the image.
-/

namespace WidthTrace

structure Instruction where
  address : Address
  opcode : Opcode
  operandLength : Nat
deriving DecidableEq, Repr

namespace Instruction

/-- The instruction at an address, sized for the widths of a state. -/
def decode? (image : Image) (address : Address) (state : CpuState) : Option Instruction :=
  (image.byte? address).map fun byte =>
    let opcode : Opcode := ⟨byte⟩
    let (m, x) := state.operandSizes
    ⟨address, opcode, opcode.mode.operandLength m x⟩

def effect (instruction : Instruction) : Effect :=
  instruction.opcode.effect

def size (instruction : Instruction) : Nat :=
  1 + instruction.operandLength

/-- The address after the instruction in the same bank. -/
def next (instruction : Instruction) : Address :=
  instruction.address.advance (UInt16.ofNat instruction.size)

def operandByte? (image : Image) (instruction : Instruction) (index : Nat) : Option UInt8 :=
  image.byte? (instruction.address.advance (UInt16.ofNat (1 + index)))

def operandWord? (image : Image) (instruction : Instruction) : Option UInt16 := do
  let low ← instruction.operandByte? image 0
  let high ← instruction.operandByte? image 1
  return low.toUInt16 + high.toUInt16 * 0x100

def operandLong? (image : Image) (instruction : Instruction) : Option Address := do
  let low ← instruction.operandByte? image 0
  let middle ← instruction.operandByte? image 1
  let bank ← instruction.operandByte? image 2
  return .ofBytes low middle bank

/-- The signed distance that one or two operand bytes encode. -/
def distance? (image : Image) (instruction : Instruction) : Option Int :=
  match instruction.operandLength with
  | 1 => (instruction.operandByte? image 0).map fun byte => byte.toInt8.toInt
  | 2 => (instruction.operandWord? image).map fun word => word.toInt16.toInt
  | _ => none

/-- The address at the encoded distance from the following instruction. -/
def branchTarget? (image : Image) (instruction : Instruction) : Option Address :=
  (instruction.distance? image).map instruction.next.displace

/-- The destination of a call or jump that names it directly. -/
def controlTarget? (image : Image) (instruction : Instruction) : Option Address :=
  match instruction.opcode.targetForm? with
  | some .absolute => (instruction.operandWord? image).map instruction.address.withOffset
  | some .long => instruction.operandLong? image
  | some .indirect | none => none

theorem address_of_decode? {image : Image} {address : Address} {state : CpuState}
    {instruction : Instruction} (decoded : decode? image address state = some instruction) :
    instruction.address = address := by
  obtain ⟨_, _, rfl⟩ := Option.map_eq_some_iff.mp decoded
  rfl

theorem isSome_decode? (image : Image) (address : Address) (state : CpuState) :
    (decode? image address state).isSome = (image.byte? address).isSome := by
  simp [decode?]

theorem decode?_eq_none_iff {image : Image} {address : Address} {state : CpuState} :
    decode? image address state = none ↔ image.byte? address = none := by
  simp [decode?]

theorem bank_next (instruction : Instruction) : instruction.next.bank = instruction.address.bank :=
  rfl

end Instruction

end WidthTrace
