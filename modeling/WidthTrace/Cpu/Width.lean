/-!
# Register widths

The accumulator and the index registers hold one or two bytes, as two flags of
the status register say. A traced width is either known or unknown, and an
unknown width contradicts nothing.
-/

namespace WidthTrace

inductive RegisterSize where
  | byte
  | word
deriving DecidableEq, Inhabited, Repr

namespace RegisterSize

def bytes : RegisterSize → Nat
  | .byte => 1
  | .word => 2

def bits (size : RegisterSize) : Nat :=
  8 * size.bytes

/-- A number of bits that no register has. -/
structure InvalidBits where
  bits : Nat
deriving DecidableEq, Repr

def InvalidBits.message (error : InvalidBits) : String :=
  s!"invalid register width: {error.bits} bits (expected 8 or 16)"

def ofBits : Nat → Except InvalidBits RegisterSize
  | 8 => .ok .byte
  | 16 => .ok .word
  | bits => .error ⟨bits⟩

end RegisterSize

/-- What is known of a register's width. -/
inductive Width where
  | known (size : RegisterSize)
  | unknown
deriving DecidableEq, Inhabited, Repr

namespace Width

def isKnown : Width → Bool
  | .known _ => true
  | .unknown => false

/-- Both widths are known and they differ. -/
def conflicts : Width → Width → Bool
  | .known a, .known b => a != b
  | _, _ => false

/-- The size used to decode operands, which is one byte for an unknown width. -/
def resolve : Width → RegisterSize
  | .known size => size
  | .unknown => .byte

/-- The form used in state summaries. -/
def short : Width → String
  | .known size => toString size.bits
  | .unknown => "?"

/-- The form used in messages. -/
def text : Width → String
  | .known size => s!"{size.bits}-bit"
  | .unknown => "unknown"

theorem conflicts_eq_true_iff {a b : Width} :
    a.conflicts b = true ↔ a.isKnown = true ∧ b.isKnown = true ∧ a ≠ b := by
  cases a <;> cases b <;> simp [conflicts, isKnown]

end Width

/-- The status flags that hold the widths: `m` the accumulator's, `x` the index registers'. -/
inductive WidthFlag where
  | m
  | x
deriving DecidableEq, Repr

namespace WidthFlag

/-- Both flags, in the order in which they are reported. -/
def all : List WidthFlag := [.m, .x]

/-- The flag's bit in the status register; a set bit means one byte. -/
def mask : WidthFlag → UInt8
  | .m => 0x20
  | .x => 0x10

def isIn (flag : WidthFlag) (mask : UInt8) : Bool :=
  mask &&& flag.mask != 0

def name : WidthFlag → String
  | .m => "M"
  | .x => "X"

end WidthFlag

end WidthTrace
