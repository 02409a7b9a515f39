import WidthTrace.Opcode.Table

/-!
# Instructions that move the stack pointer

Each moves it by a fixed number of bytes, except that a push or pull of a
register moves it by twice as much while the governing width flag selects words.
-/

namespace WidthTrace

inductive StackMnemonic where
  | pha
  | phx
  | phy
  | php
  | phb
  | phd
  | phk
  | pea
  | pei
  | per
  | pla
  | plx
  | ply
  | plp
  | plb
  | pld
  | jsr
  | jsl
  | rts
  | rtl
  | rti
deriving DecidableEq, Repr

namespace StackMnemonic

def ofOpcode? (op : Opcode) : Option StackMnemonic :=
  match op.byte with
  | 0x48 => some .pha
  | 0xDA => some .phx
  | 0x5A => some .phy
  | 0x08 => some .php
  | 0x8B => some .phb
  | 0x0B => some .phd
  | 0x4B => some .phk
  | 0xF4 => some .pea
  | 0xD4 => some .pei
  | 0x62 => some .per
  | 0x68 => some .pla
  | 0xFA => some .plx
  | 0x7A => some .ply
  | 0x28 => some .plp
  | 0xAB => some .plb
  | 0x2B => some .pld
  | 0x20 | 0xFC => some .jsr
  | 0x22 => some .jsl
  | 0x60 => some .rts
  | 0x6B => some .rtl
  | 0x40 => some .rti
  | _ => none

/-- The bytes pushed, or pulled if negative, while the registers hold one byte. -/
def baseDelta : StackMnemonic → Int
  | .pha | .phx | .phy | .php | .phb | .phk => 1
  | .phd | .pea | .pei | .per | .jsr => 2
  | .jsl => 3
  | .pla | .plx | .ply | .plp | .plb => -1
  | .pld | .rts => -2
  | .rtl => -3
  | .rti => -4

/-- The flag that doubles the movement when it selects words. -/
def governingFlag? : StackMnemonic → Option WidthFlag
  | .pha | .pla => some .m
  | .phx | .phy | .plx | .ply => some .x
  | _ => none

/-- The movement belongs to the passage between two routines. -/
def isCallOrReturn : StackMnemonic → Bool
  | .jsr | .jsl | .rts | .rtl | .rti => true
  | _ => false

def name : StackMnemonic → String
  | .pha => "PHA"
  | .phx => "PHX"
  | .phy => "PHY"
  | .php => "PHP"
  | .phb => "PHB"
  | .phd => "PHD"
  | .phk => "PHK"
  | .pea => "PEA"
  | .pei => "PEI"
  | .per => "PER"
  | .pla => "PLA"
  | .plx => "PLX"
  | .ply => "PLY"
  | .plp => "PLP"
  | .plb => "PLB"
  | .pld => "PLD"
  | .jsr => "JSR"
  | .jsl => "JSL"
  | .rts => "RTS"
  | .rtl => "RTL"
  | .rti => "RTI"

/-- Every mnemonic, in the order of the type. -/
def all : List StackMnemonic :=
  [.pha, .phx, .phy, .php, .phb, .phd, .phk, .pea, .pei, .per, .pla, .plx, .ply, .plp, .plb, .pld,
    .jsr, .jsl, .rts, .rtl, .rti]

/-- The mnemonic of a given name. -/
def ofName? (text : String) : Option StackMnemonic :=
  all.find? fun mnemonic => mnemonic.name == text

end StackMnemonic

/-- A push and the pull that undoes it. -/
structure StackPair where
  push : StackMnemonic
  pull : StackMnemonic
deriving DecidableEq, Repr

namespace StackPair

/-- The pairs whose counts have to agree inside a routine, in the order of their checks. -/
def all : List StackPair :=
  [⟨.phb, .plb⟩, ⟨.phd, .pld⟩, ⟨.php, .plp⟩, ⟨.pha, .pla⟩, ⟨.phx, .plx⟩, ⟨.phy, .ply⟩]

def text (pair : StackPair) : String :=
  s!"{pair.push.name}/{pair.pull.name}"

theorem baseDelta_pull_of_mem_all {pair : StackPair} (member : pair ∈ all) :
    pair.pull.baseDelta = -pair.push.baseDelta := by
  revert pair
  decide

end StackPair

end WidthTrace
