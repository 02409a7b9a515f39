import WidthTrace.Hook.Basic
import WidthTrace.Trace.Run

/-!
# Contracts of hooks

A finished trace is compared with the contract of each hook. The entry contract
is checked where traced calls and jumps enter the hook, or at the hook itself if
there are none; the exit contract is checked at the returns traced for the hook.
-/

namespace WidthTrace.Hook

/-- The traced calls and jumps that lead to the hook, in address order, with the states there. -/
def sites (hook : Hook) (trace : Trace) : List (Address × CpuState) :=
  let transfers := (trace.graph.transfersTo hook.address).filter fun transfer =>
    transfer.kind != .branch
  (Address.sorted (transfers.map Transfer.source)).filterMap fun source =>
    (trace.stateAt? source).map (source, ·)

/-- Where the entry contract is checked, given the state kept at the hook. -/
def checkpoints (hook : Hook) (trace : Trace) (kept : CpuState) : List (Address × CpuState) :=
  match hook.sites trace with
  | [] => [(hook.address, kept)]
  | sites => sites

def entryFindings (hook : Hook) (trace : Trace) (kept : CpuState) : List Finding :=
  match hook.entry with
  | none => []
  | some expected =>
      (hook.checkpoints trace kept).filterMap fun (site, actual) =>
        if expected.compatible actual then none
        else some (.entryViolation hook site expected actual)

def unknownFindings (hook : Hook) (kept : CpuState) : List Finding :=
  (WidthFlag.all.filter fun flag => !(kept.width flag).isKnown).map fun flag =>
    .unknownAtEntry hook flag kept

/-- What one return says of the exit contract. -/
def returnFindings (hook : Hook) (expected : CpuState) (ret : Return) : List Finding :=
  let violation :=
    if expected.compatible ret.state then []
    else [Finding.exitViolation hook ret.address expected ret.state]
  let unknown := WidthFlag.all.filter fun flag =>
    (expected.width flag).isKnown && !(ret.state.width flag).isKnown
  violation ++ unknown.map fun flag => .unknownAtExit hook ret.address flag ret.state

def exitFindings (hook : Hook) (trace : Trace) : List Finding :=
  match hook.exit with
  | none => []
  | some expected =>
      match trace.returnsOf hook.address with
      | [] => [.missingReturns hook]
      | returns => returns.flatMap (hook.returnFindings expected)

/-- What a trace says of one hook. A hook that was not traced is mentioned unless it is an entry
point, which the trace itself reports. -/
def contractFindings (hook : Hook) (trace : Trace) : List Finding :=
  match trace.stateAt? hook.address with
  | none => if trace.graph.isEntry hook.address then [] else [.unreachedHook hook]
  | some kept =>
      hook.entryFindings trace kept ++ hook.unknownFindings kept ++ hook.exitFindings trace

end WidthTrace.Hook

namespace WidthTrace.Trace

/-- What a trace says of the hooks that are to be validated, hook by hook. -/
def contractFindings (trace : Trace) (hooks : List Hook) : List Finding :=
  (hooks.filter Hook.isValidated).flatMap fun hook => hook.contractFindings trace

end WidthTrace.Trace
