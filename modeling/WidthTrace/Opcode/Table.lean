import WidthTrace.Opcode.AddressingMode

/-!
# The opcode table

The mnemonic and the addressing mode of each of the 256 opcodes, in their numeric order.
-/

namespace WidthTrace

/-- The first byte of an instruction. -/
structure Opcode where
  byte : UInt8
deriving DecidableEq, Repr

namespace Opcode

structure Entry where
  mnemonic : String
  mode : AddressingMode
deriving DecidableEq, Repr

set_option maxRecDepth 2000 in
/-- Blank lines stand between the sixteen rows of the opcode matrix. -/
def table : Array Entry := #[
  ⟨"BRK", .immediateByte⟩, ⟨"ORA", .directIndexedIndirect⟩, ⟨"COP", .immediateByte⟩,
  ⟨"ORA", .stackRelative⟩, ⟨"TSB", .direct⟩, ⟨"ORA", .direct⟩, ⟨"ASL", .direct⟩,
  ⟨"ORA", .directIndirectLong⟩, ⟨"PHP", .implied⟩, ⟨"ORA", .immediateM⟩, ⟨"ASL", .implied⟩,
  ⟨"PHD", .implied⟩, ⟨"TSB", .absolute⟩, ⟨"ORA", .absolute⟩, ⟨"ASL", .absolute⟩, ⟨"ORA", .long⟩,

  ⟨"BPL", .relativeByte⟩, ⟨"ORA", .directIndirectY⟩, ⟨"ORA", .directIndirect⟩,
  ⟨"ORA", .stackRelativeIndirectY⟩, ⟨"TRB", .direct⟩, ⟨"ORA", .directX⟩, ⟨"ASL", .directX⟩,
  ⟨"ORA", .directIndirectLongY⟩, ⟨"CLC", .implied⟩, ⟨"ORA", .absoluteY⟩, ⟨"INC", .implied⟩,
  ⟨"TCS", .implied⟩, ⟨"TRB", .absolute⟩, ⟨"ORA", .absoluteX⟩, ⟨"ASL", .absoluteX⟩,
  ⟨"ORA", .longX⟩,

  ⟨"JSR", .absolute⟩, ⟨"AND", .directIndexedIndirect⟩, ⟨"JSL", .long⟩, ⟨"AND", .stackRelative⟩,
  ⟨"BIT", .direct⟩, ⟨"AND", .direct⟩, ⟨"ROL", .direct⟩, ⟨"AND", .directIndirectLong⟩,
  ⟨"PLP", .implied⟩, ⟨"AND", .immediateM⟩, ⟨"ROL", .implied⟩, ⟨"PLD", .implied⟩,
  ⟨"BIT", .absolute⟩, ⟨"AND", .absolute⟩, ⟨"ROL", .absolute⟩, ⟨"AND", .long⟩,

  ⟨"BMI", .relativeByte⟩, ⟨"AND", .directIndirectY⟩, ⟨"AND", .directIndirect⟩,
  ⟨"AND", .stackRelativeIndirectY⟩, ⟨"BIT", .directX⟩, ⟨"AND", .directX⟩, ⟨"ROL", .directX⟩,
  ⟨"AND", .directIndirectLongY⟩, ⟨"SEC", .implied⟩, ⟨"AND", .absoluteY⟩, ⟨"DEC", .implied⟩,
  ⟨"TSC", .implied⟩, ⟨"BIT", .absoluteX⟩, ⟨"AND", .absoluteX⟩, ⟨"ROL", .absoluteX⟩,
  ⟨"AND", .longX⟩,

  ⟨"RTI", .implied⟩, ⟨"EOR", .directIndexedIndirect⟩, ⟨"WDM", .immediateByte⟩,
  ⟨"EOR", .stackRelative⟩, ⟨"MVP", .blockMove⟩, ⟨"EOR", .direct⟩, ⟨"LSR", .direct⟩,
  ⟨"EOR", .directIndirectLong⟩, ⟨"PHA", .implied⟩, ⟨"EOR", .immediateM⟩, ⟨"LSR", .implied⟩,
  ⟨"PHK", .implied⟩, ⟨"JMP", .absolute⟩, ⟨"EOR", .absolute⟩, ⟨"LSR", .absolute⟩, ⟨"EOR", .long⟩,

  ⟨"BVC", .relativeByte⟩, ⟨"EOR", .directIndirectY⟩, ⟨"EOR", .directIndirect⟩,
  ⟨"EOR", .stackRelativeIndirectY⟩, ⟨"MVN", .blockMove⟩, ⟨"EOR", .directX⟩, ⟨"LSR", .directX⟩,
  ⟨"EOR", .directIndirectLongY⟩, ⟨"CLI", .implied⟩, ⟨"EOR", .absoluteY⟩, ⟨"PHY", .implied⟩,
  ⟨"TCD", .implied⟩, ⟨"JML", .long⟩, ⟨"EOR", .absoluteX⟩, ⟨"LSR", .absoluteX⟩, ⟨"EOR", .longX⟩,

  ⟨"RTS", .implied⟩, ⟨"ADC", .directIndexedIndirect⟩, ⟨"PER", .relativeWord⟩,
  ⟨"ADC", .stackRelative⟩, ⟨"STZ", .direct⟩, ⟨"ADC", .direct⟩, ⟨"ROR", .direct⟩,
  ⟨"ADC", .directIndirectLong⟩, ⟨"PLA", .implied⟩, ⟨"ADC", .immediateM⟩, ⟨"ROR", .implied⟩,
  ⟨"RTL", .implied⟩, ⟨"JMP", .absoluteIndirect⟩, ⟨"ADC", .absolute⟩, ⟨"ROR", .absolute⟩,
  ⟨"ADC", .long⟩,

  ⟨"BVS", .relativeByte⟩, ⟨"ADC", .directIndirectY⟩, ⟨"ADC", .directIndirect⟩,
  ⟨"ADC", .stackRelativeIndirectY⟩, ⟨"STZ", .directX⟩, ⟨"ADC", .directX⟩, ⟨"ROR", .directX⟩,
  ⟨"ADC", .directIndirectLongY⟩, ⟨"SEI", .implied⟩, ⟨"ADC", .absoluteY⟩, ⟨"PLY", .implied⟩,
  ⟨"TDC", .implied⟩, ⟨"JMP", .absoluteIndexedIndirect⟩, ⟨"ADC", .absoluteX⟩, ⟨"ROR", .absoluteX⟩,
  ⟨"ADC", .longX⟩,

  ⟨"BRA", .relativeByte⟩, ⟨"STA", .directIndexedIndirect⟩, ⟨"BRL", .relativeWord⟩,
  ⟨"STA", .stackRelative⟩, ⟨"STY", .direct⟩, ⟨"STA", .direct⟩, ⟨"STX", .direct⟩,
  ⟨"STA", .directIndirectLong⟩, ⟨"DEY", .implied⟩, ⟨"BIT", .immediateM⟩, ⟨"TXA", .implied⟩,
  ⟨"PHB", .implied⟩, ⟨"STY", .absolute⟩, ⟨"STA", .absolute⟩, ⟨"STX", .absolute⟩, ⟨"STA", .long⟩,

  ⟨"BCC", .relativeByte⟩, ⟨"STA", .directIndirectY⟩, ⟨"STA", .directIndirect⟩,
  ⟨"STA", .stackRelativeIndirectY⟩, ⟨"STY", .directX⟩, ⟨"STA", .directX⟩, ⟨"STX", .directY⟩,
  ⟨"STA", .directIndirectLongY⟩, ⟨"TYA", .implied⟩, ⟨"STA", .absoluteY⟩, ⟨"TXS", .implied⟩,
  ⟨"TXY", .implied⟩, ⟨"STZ", .absolute⟩, ⟨"STA", .absoluteX⟩, ⟨"STZ", .absoluteX⟩,
  ⟨"STA", .longX⟩,

  ⟨"LDY", .immediateX⟩, ⟨"LDA", .directIndexedIndirect⟩, ⟨"LDX", .immediateX⟩,
  ⟨"LDA", .stackRelative⟩, ⟨"LDY", .direct⟩, ⟨"LDA", .direct⟩, ⟨"LDX", .direct⟩,
  ⟨"LDA", .directIndirectLong⟩, ⟨"TAY", .implied⟩, ⟨"LDA", .immediateM⟩, ⟨"TAX", .implied⟩,
  ⟨"PLB", .implied⟩, ⟨"LDY", .absolute⟩, ⟨"LDA", .absolute⟩, ⟨"LDX", .absolute⟩, ⟨"LDA", .long⟩,

  ⟨"BCS", .relativeByte⟩, ⟨"LDA", .directIndirectY⟩, ⟨"LDA", .directIndirect⟩,
  ⟨"LDA", .stackRelativeIndirectY⟩, ⟨"LDY", .directX⟩, ⟨"LDA", .directX⟩, ⟨"LDX", .directY⟩,
  ⟨"LDA", .directIndirectLongY⟩, ⟨"CLV", .implied⟩, ⟨"LDA", .absoluteY⟩, ⟨"TSX", .implied⟩,
  ⟨"TYX", .implied⟩, ⟨"LDY", .absoluteX⟩, ⟨"LDA", .absoluteX⟩, ⟨"LDX", .absoluteY⟩,
  ⟨"LDA", .longX⟩,

  ⟨"CPY", .immediateX⟩, ⟨"CMP", .directIndexedIndirect⟩, ⟨"REP", .immediateByte⟩,
  ⟨"CMP", .stackRelative⟩, ⟨"CPY", .direct⟩, ⟨"CMP", .direct⟩, ⟨"DEC", .direct⟩,
  ⟨"CMP", .directIndirectLong⟩, ⟨"INY", .implied⟩, ⟨"CMP", .immediateM⟩, ⟨"DEX", .implied⟩,
  ⟨"WAI", .implied⟩, ⟨"CPY", .absolute⟩, ⟨"CMP", .absolute⟩, ⟨"DEC", .absolute⟩, ⟨"CMP", .long⟩,

  ⟨"BNE", .relativeByte⟩, ⟨"CMP", .directIndirectY⟩, ⟨"CMP", .directIndirect⟩,
  ⟨"CMP", .stackRelativeIndirectY⟩, ⟨"PEI", .direct⟩, ⟨"CMP", .directX⟩, ⟨"DEC", .directX⟩,
  ⟨"CMP", .directIndirectLongY⟩, ⟨"CLD", .implied⟩, ⟨"CMP", .absoluteY⟩, ⟨"PHX", .implied⟩,
  ⟨"STP", .implied⟩, ⟨"JML", .absoluteIndirectLong⟩, ⟨"CMP", .absoluteX⟩, ⟨"DEC", .absoluteX⟩,
  ⟨"CMP", .longX⟩,

  ⟨"CPX", .immediateX⟩, ⟨"SBC", .directIndexedIndirect⟩, ⟨"SEP", .immediateByte⟩,
  ⟨"SBC", .stackRelative⟩, ⟨"CPX", .direct⟩, ⟨"SBC", .direct⟩, ⟨"INC", .direct⟩,
  ⟨"SBC", .directIndirectLong⟩, ⟨"INX", .implied⟩, ⟨"SBC", .immediateM⟩, ⟨"NOP", .implied⟩,
  ⟨"XBA", .implied⟩, ⟨"CPX", .absolute⟩, ⟨"SBC", .absolute⟩, ⟨"INC", .absolute⟩, ⟨"SBC", .long⟩,

  ⟨"BEQ", .relativeByte⟩, ⟨"SBC", .directIndirectY⟩, ⟨"SBC", .directIndirect⟩,
  ⟨"SBC", .stackRelativeIndirectY⟩, ⟨"PEA", .immediateWord⟩, ⟨"SBC", .directX⟩,
  ⟨"INC", .directX⟩, ⟨"SBC", .directIndirectLongY⟩, ⟨"SED", .implied⟩, ⟨"SBC", .absoluteY⟩,
  ⟨"PLX", .implied⟩, ⟨"XCE", .implied⟩, ⟨"JSR", .absoluteIndexedIndirect⟩, ⟨"SBC", .absoluteX⟩,
  ⟨"INC", .absoluteX⟩, ⟨"SBC", .longX⟩]

set_option maxRecDepth 2000 in
theorem size_table : table.size = 256 := rfl

def entry (op : Opcode) : Entry :=
  have : op.byte.toNat < table.size := size_table ▸ op.byte.toNat_lt
  table[op.byte.toNat]

def mnemonic (op : Opcode) : String :=
  op.entry.mnemonic

def mode (op : Opcode) : AddressingMode :=
  op.entry.mode

/-- The opcodes that the processor leaves undefined; they carry one operand byte. -/
def isReserved (op : Opcode) : Bool :=
  op.byte == 0x42

end Opcode

end WidthTrace
