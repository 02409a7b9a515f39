import WidthTrace.Cpu.Width

/-!
# Addressing modes

The mode of an opcode fixes how many operand bytes follow it. Only the two modes
`immediateM` and `immediateX` depend on the register widths.
-/

namespace WidthTrace

inductive AddressingMode where
  | implied
  | immediateByte
  | immediateWord
  | immediateM
  | immediateX
  | relativeByte
  | relativeWord
  | direct
  | directX
  | directY
  | directIndirect
  | directIndexedIndirect
  | directIndirectY
  | directIndirectLong
  | directIndirectLongY
  | stackRelative
  | stackRelativeIndirectY
  | absolute
  | absoluteX
  | absoluteY
  | long
  | longX
  | absoluteIndirect
  | absoluteIndexedIndirect
  | absoluteIndirectLong
  | blockMove
deriving DecidableEq, Repr

namespace AddressingMode

/-- The number of operand bytes when the accumulator has size `m` and the index registers `x`. -/
def operandLength (mode : AddressingMode) (m x : RegisterSize) : Nat :=
  match mode with
  | .implied => 0
  | .immediateM => m.bytes
  | .immediateX => x.bytes
  | .immediateByte | .relativeByte | .direct | .directX | .directY | .directIndirect
  | .directIndexedIndirect | .directIndirectY | .directIndirectLong | .directIndirectLongY
  | .stackRelative | .stackRelativeIndirectY => 1
  | .immediateWord | .relativeWord | .absolute | .absoluteX | .absoluteY | .absoluteIndirect
  | .absoluteIndexedIndirect | .absoluteIndirectLong | .blockMove => 2
  | .long | .longX => 3

/-- The operand is a distance from the following instruction. -/
def isRelative : AddressingMode → Bool
  | .relativeByte | .relativeWord => true
  | _ => false

/-- The operand names a pointer, so that the destination is not part of the code. -/
def isIndirect : AddressingMode → Bool
  | .absoluteIndirect | .absoluteIndexedIndirect | .absoluteIndirectLong => true
  | _ => false

end AddressingMode

end WidthTrace
