import WidthTrace.Address.Collection
import WidthTrace.CallGraph.Basic
import WidthTrace.Instruction.Flow
import WidthTrace.Queue
import WidthTrace.Stack.Balance

/-!
# Tracing widths through code

A trace follows code from its entry points. Every address keeps the state of the
first path that reaches it; a later path that reaches it stops there, and is
reported if its widths contradict that state. Each path belongs to the routine
that it was entered for, to which its returns and transfers are attributed.

A trace advances one arrival at a time: either the path in progress goes on, or
the oldest pending path is taken up. Transfers start new paths at the end of the
queue.
-/

namespace WidthTrace

/-- A path that has come to an address with a state, on behalf of a routine. -/
structure Arrival where
  address : Address
  state : CpuState
  routine : Address
deriving DecidableEq

/-- A traced return instruction and the state after it. -/
structure Return where
  routine : Address
  address : Address
  state : CpuState
deriving DecidableEq

/-- `visited` holds the state in which each address was first reached, `current` the path in
progress. -/
structure Trace where
  visited : AddressMap CpuState
  current : Option Arrival
  pending : Queue Arrival
  graph : CallGraph
  returns : Array Return
  findings : Array Finding

namespace Trace

def empty : Trace := ⟨∅, none, .empty, .empty, #[], #[]⟩

instance : Inhabited Trace := ⟨empty⟩

/-- Declares an entry point, which starts a path as a routine of its own. -/
def enter (trace : Trace) (entry : Address) (state : CpuState) : Trace :=
  { trace with
    graph := trace.graph.declare entry
    pending := trace.pending.push ⟨entry, state, entry⟩ }

/-- A mismatch at the address has been reported. -/
def isReported (trace : Trace) (address : Address) : Bool :=
  trace.findings.any fun
    | .stateMismatch reported _ _ => reported == address
    | _ => false

/-- Compares an arrival with the state kept at its address; each address is reported once. -/
def meet (trace : Trace) (arrival : Arrival) (kept : CpuState) : Trace :=
  if kept.compatible arrival.state || trace.isReported arrival.address then trace
  else
    { trace with
      findings := trace.findings.push (.stateMismatch arrival.address kept arrival.state) }

/-- Records the transfer that an instruction makes, and starts a path at its target. -/
def follow (image : Image) (trace : Trace) (instruction : Instruction) (arrival : Arrival) :
    Trace :=
  match instruction.transfer? image with
  | none => trace
  | some (kind, target) =>
      let tailCall :=
        kind == .jump && (trace.graph.isEntry target || trace.graph.isCallTarget target)
      let routine := if kind = .call then target else arrival.routine
      { trace with
        graph := trace.graph.add ⟨arrival.address, target, kind, arrival.routine, tailCall⟩
        pending := trace.pending.push ⟨target, Instruction.carried kind arrival.state, routine⟩ }

/-- Records a return with the state after it, and what that state says of the stack. -/
def leave (image : Image) (trace : Trace) (instruction : Instruction) (arrival : Arrival) : Trace :=
  if instruction.effect = .returns then
    let state := instruction.after image arrival.state
    { trace with
      returns := trace.returns.push ⟨arrival.routine, arrival.address, state⟩
      findings := trace.findings ++ state.balanceFindings arrival.address }
  else trace

/-- Traces an instruction at an address reached for the first time. -/
def execute (image : Image) (trace : Trace) (instruction : Instruction) (arrival : Arrival) :
    Trace :=
  let trace := { trace with visited := trace.visited.insert arrival.address arrival.state }
  let trace := trace.leave image instruction arrival
  let trace := trace.follow image instruction arrival
  { trace with
    current := (instruction.continuation? image arrival.state).map fun (address, state) =>
      ⟨address, state, arrival.routine⟩ }

/-- Deals with one arrival, which ends its path unless an instruction is traced that goes on. -/
def arrive (image : Image) (trace : Trace) (arrival : Arrival) : Trace :=
  let trace := { trace with current := none }
  match trace.visited[arrival.address]? with
  | some kept => trace.meet arrival kept
  | none =>
      match Instruction.decode? image arrival.address arrival.state with
      | some instruction => trace.execute image instruction arrival
      | none => trace

/-- No path is left to be followed. -/
def isIdle (trace : Trace) : Bool :=
  trace.current.isNone && trace.pending.pop?.isNone

/-- Goes on with the path in progress, or else takes up the oldest pending one. -/
def step (image : Image) (trace : Trace) : Trace :=
  match trace.current with
  | some arrival => trace.arrive image arrival
  | none =>
      match trace.pending.pop? with
      | some (arrival, pending) => { trace with current := some arrival, pending }
      | none => trace

end Trace

end WidthTrace
