import WidthTrace.Address

/-!
# Transfers of control

A transfer goes from one instruction to a destination and belongs to the routine
that the instruction was traced for. Calls, and jumps that serve as calls, lead
from routine to routine.
-/

namespace WidthTrace

inductive TransferKind where
  | call
  | jump
  | branch
deriving DecidableEq, Repr

def TransferKind.text : TransferKind → String
  | .call => "call"
  | .jump => "jump"
  | .branch => "branch"

structure Transfer where
  source : Address
  target : Address
  kind : TransferKind
  routine : Address
  /-- A jump to the start of another routine. -/
  tailCall : Bool
deriving DecidableEq, Repr

namespace Transfer

/-- A call or jump into another bank. -/
def crossesBank (transfer : Transfer) : Bool :=
  transfer.kind != .branch && transfer.source.crossesBank transfer.target

/-- A call, or a jump that serves as one. -/
def isRoutineEdge (transfer : Transfer) : Bool :=
  match transfer.kind with
  | .call => true
  | .jump => transfer.tailCall
  | .branch => false

end Transfer

end WidthTrace
