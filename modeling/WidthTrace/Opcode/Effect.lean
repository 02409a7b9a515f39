import WidthTrace.Opcode.Table

/-!
# Effects of opcodes

What an opcode does to the flow of control, to the widths or to the stack, and
how a call or jump names its destination.
-/

namespace WidthTrace

inductive Effect where
  | plain
  | branch
  | branchAlways
  | jump
  | call
  | returns
  | clearFlags
  | setFlags
  | restoreFlags
  | exchangeMode
  | push
  | pull
  | interrupt
  | halt
deriving DecidableEq, Repr

namespace Effect

def changesWidths : Effect → Bool
  | .clearFlags | .setFlags | .restoreFlags | .exchangeMode => true
  | _ => false

/-- Execution never goes on to the following instruction. -/
def endsBlock : Effect → Bool
  | .branchAlways | .jump | .returns | .halt => true
  | _ => false

end Effect

/-- How a call or jump names its destination. -/
inductive TargetForm where
  | absolute
  | long
  | indirect
deriving DecidableEq, Repr

namespace Opcode

def effect (op : Opcode) : Effect :=
  match op.byte with
  | 0x10 | 0x30 | 0x50 | 0x70 | 0x90 | 0xB0 | 0xD0 | 0xF0 => .branch
  | 0x80 | 0x82 => .branchAlways
  | 0x4C | 0x5C | 0x6C | 0x7C | 0xDC => .jump
  | 0x20 | 0x22 | 0xFC => .call
  | 0x40 | 0x60 | 0x6B => .returns
  | 0xC2 => .clearFlags
  | 0xE2 => .setFlags
  | 0x28 => .restoreFlags
  | 0xFB => .exchangeMode
  | 0x08 | 0x0B | 0x48 | 0x4B | 0x5A | 0x62 | 0x8B | 0xD4 | 0xDA | 0xF4 => .push
  | 0x2B | 0x68 | 0x7A | 0xAB | 0xFA => .pull
  | 0x00 | 0x02 => .interrupt
  | 0xDB => .halt
  | _ => .plain

/-- The destination form of a call or jump. -/
def targetForm? (op : Opcode) : Option TargetForm :=
  match op.effect with
  | .call | .jump =>
      match op.mode with
      | .absolute => some .absolute
      | .long => some .long
      | mode => if mode.isIndirect then some .indirect else none
  | _ => none

end Opcode

end WidthTrace
