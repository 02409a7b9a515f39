import WidthTrace.Address
import WidthTrace.Stack.Mnemonic

/-!
# Traced processor states

A state holds the two widths, the emulation bit, and every movement of the stack
pointer since the routine was entered. Only the widths take part when two states
are compared for agreement; the history of the stack is carried for the checks
made at returns.
-/

namespace WidthTrace

/-- One movement of the stack pointer and the depth that it led to. -/
structure StackOp where
  address : Address
  mnemonic : StackMnemonic
  delta : Int
  depth : Int
deriving DecidableEq, Repr

namespace StackOp

def text (op : StackOp) : String :=
  s!"{op.mnemonic.name}@{op.address.text}({Text.Numeral.signed op.delta})"

end StackOp

/-- `history` lists the movements of the stack pointer with the latest one first. -/
structure CpuState where
  m : Width
  x : Width
  emulation : Bool
  history : List StackOp
deriving DecidableEq, Repr

namespace CpuState

/-- The state with the given widths in native mode at the start of a routine. -/
def ofWidths (m x : Width) : CpuState :=
  ⟨m, x, false, []⟩

def native8 : CpuState :=
  ofWidths (.known .byte) (.known .byte)

def unknown : CpuState :=
  ofWidths .unknown .unknown

instance : Inhabited CpuState := ⟨native8⟩

def width (state : CpuState) : WidthFlag → Width
  | .m => state.m
  | .x => state.x

def withWidth (state : CpuState) (flag : WidthFlag) (width : Width) : CpuState :=
  match flag with
  | .m => { state with m := width }
  | .x => { state with x := width }

/-- The flags on which two states contradict each other. -/
def conflicts (a b : CpuState) : List WidthFlag :=
  WidthFlag.all.filter fun flag => (a.width flag).conflicts (b.width flag)

def compatible (a b : CpuState) : Bool :=
  (a.conflicts b).isEmpty

/-- The sizes of the accumulator and of the index registers while operands are decoded. -/
def operandSizes (state : CpuState) : RegisterSize × RegisterSize :=
  if state.emulation then (.byte, .byte) else (state.m.resolve, state.x.resolve)

/-- Bytes on the stack since the routine was entered. -/
def depth (state : CpuState) : Int :=
  match state.history with
  | [] => 0
  | op :: _ => op.depth

/-- How far an instruction moves the stack pointer: twice as far for a register known to hold a
word. -/
def stackDelta (state : CpuState) (mnemonic : StackMnemonic) : Int :=
  match mnemonic.governingFlag? with
  | some flag => if state.width flag = .known .word then 2 * mnemonic.baseDelta
      else mnemonic.baseDelta
  | none => mnemonic.baseDelta

def record (state : CpuState) (address : Address) (mnemonic : StackMnemonic) : CpuState :=
  let delta := state.stackDelta mnemonic
  { state with history := ⟨address, mnemonic, delta, state.depth + delta⟩ :: state.history }

/-- Every flag in the mask selects the given size. -/
def selectSize (state : CpuState) (mask : UInt8) (size : RegisterSize) : CpuState :=
  { state with
    m := if WidthFlag.m.isIn mask then .known size else state.m
    x := if WidthFlag.x.isIn mask then .known size else state.x }

/-- Cleared flags select words. -/
def clearFlags (state : CpuState) (mask : UInt8) : CpuState :=
  state.selectSize mask .word

/-- Set flags select bytes. -/
def setFlags (state : CpuState) (mask : UInt8) : CpuState :=
  state.selectSize mask .byte

/-- The flags come from the stack, where their values are not known. -/
def restoreFlags (state : CpuState) : CpuState :=
  { state with m := .unknown, x := .unknown }

/-- Exchanging the mode is taken to end in native mode with one-byte registers. -/
def exchangeMode (state : CpuState) : CpuState :=
  { state with m := .known .byte, x := .known .byte, emulation := false }

/-- The state at the start of a called routine. -/
def enterRoutine (state : CpuState) : CpuState :=
  { state with history := [] }

/-- The movements of the stack pointer, earliest first. -/
def stackOps (state : CpuState) : List StackOp :=
  state.history.reverse

/-- The movements made inside the routine, earliest first. -/
def localOps (state : CpuState) : List StackOp :=
  state.stackOps.filter fun op => !op.mnemonic.isCallOrReturn

def text (state : CpuState) : String :=
  s!"M={state.m.short} X={state.x.short} stk={state.depth}"

theorem depth_record (state : CpuState) (address : Address) (mnemonic : StackMnemonic) :
    (state.record address mnemonic).depth = state.depth + state.stackDelta mnemonic := rfl

theorem stackOps_record (state : CpuState) (address : Address) (mnemonic : StackMnemonic) :
    (state.record address mnemonic).stackOps =
      state.stackOps ++ [⟨address, mnemonic, state.stackDelta mnemonic,
        state.depth + state.stackDelta mnemonic⟩] := by
  simp [record, stackOps]

theorem mem_conflicts {a b : CpuState} {flag : WidthFlag} :
    flag ∈ a.conflicts b ↔ (a.width flag).conflicts (b.width flag) = true := by
  cases flag <;> simp [conflicts, WidthFlag.all]

theorem compatible_eq_true_iff {a b : CpuState} :
    a.compatible b = true ↔ ∀ flag, (a.width flag).conflicts (b.width flag) = false := by
  simp only [compatible, List.isEmpty_iff, List.eq_nil_iff_forall_not_mem, mem_conflicts,
    Bool.not_eq_true]

end CpuState

end WidthTrace
