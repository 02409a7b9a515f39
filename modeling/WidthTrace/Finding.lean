import WidthTrace.Cpu.State
import WidthTrace.Diagnostic
import WidthTrace.Hook.Basic
import WidthTrace.Transfer

/-!
# Findings

What the checks find, as data. A finding knows nothing of symbols: only its
message depends on how addresses are named, and it is written when the finding
becomes a diagnostic.
-/

namespace WidthTrace

inductive Finding where
  /-- A path reaches a traced address with a width that contradicts the one traced there. -/
  | stateMismatch (address : Address) (expected actual : CpuState)
  /-- The movements inside the routine do not cancel at a return. -/
  | stackImbalance (address : Address) (ops : List StackOp)
  /-- A register is pushed and pulled a different number of times before a return. -/
  | unbalancedPair (address : Address) (pair : StackPair) (pushes pulls : Nat)
  /-- A declared entry point was not traced. -/
  | unreachedEntry (address : Address)
  /-- A hook that is no entry point was not traced. -/
  | unreachedHook (hook : Hook)
  /-- A state that enters a hook contradicts its contract. -/
  | entryViolation (hook : Hook) (site : Address) (expected actual : CpuState)
  | unknownAtEntry (hook : Hook) (flag : WidthFlag) (actual : CpuState)
  /-- A contract on exits has no return to be checked at. -/
  | missingReturns (hook : Hook)
  /-- A state that leaves a hook contradicts its contract. -/
  | exitViolation (hook : Hook) (site : Address) (expected actual : CpuState)
  | unknownAtExit (hook : Hook) (site : Address) (flag : WidthFlag) (actual : CpuState)
  /-- The `first` routine and the `rest` all call each other. -/
  | recursion (first : Address) (rest : List Address)
  | crossBank (transfer : Transfer)
  /-- A hook is entered with contradicting widths in two images. -/
  | drift (hook : Hook) (flag : WidthFlag) (baseline patched : CpuState)
deriving DecidableEq

namespace Finding

def severity : Finding → Severity
  | .entryViolation .. | .exitViolation .. => .error
  | .crossBank .. => .info
  | _ => .warning

def kind : Finding → DiagnosticKind
  | .stateMismatch .. => .stateMismatch
  | .stackImbalance .. => .stackImbalance
  | .unbalancedPair .. => .unbalancedPair
  | .unreachedEntry .. | .unreachedHook .. => .unreachedEntry
  | .entryViolation .. | .exitViolation .. => .contractViolation
  | .unknownAtEntry .. | .unknownAtExit .. => .unknownWidth
  | .missingReturns .. => .missingReturnState
  | .recursion .. => .recursion
  | .crossBank .. => .crossBank
  | .drift .. => .stateDrift

def address : Finding → Address
  | .stateMismatch address _ _ | .stackImbalance address _ | .unbalancedPair address _ _ _
  | .unreachedEntry address => address
  | .unreachedHook hook | .unknownAtEntry hook _ _ | .missingReturns hook | .drift hook _ _ _ =>
      hook.address
  | .entryViolation _ site _ _ | .exitViolation _ site _ _ | .unknownAtExit _ site _ _ => site
  | .recursion first _ => first
  | .crossBank transfer => transfer.source

def source : Finding → Option SourceLocation
  | .unreachedHook hook | .entryViolation hook _ _ _ | .unknownAtEntry hook _ _
  | .missingReturns hook | .exitViolation hook _ _ _ | .unknownAtExit hook _ _ _
  | .drift hook _ _ _ => hook.source
  | _ => none

/-- The bytes by which the movements of the stack pointer fail to cancel. -/
def balance (ops : List StackOp) : Int :=
  ops.foldr (fun op total => op.delta + total) 0

/-- At most this many of the latest movements are shown. -/
def shownOps : Nat := 10

def bankText (bank : UInt8) : String :=
  "$" ++ Text.Numeral.paddedHex 2 bank.toNat

/-- The values that go with a finding. -/
def context : Finding → Context
  | .stateMismatch _ expected actual =>
      .ofList [("expected", expected.text), ("actual", actual.text)]
  | .stackImbalance _ ops =>
      .ofList [("balance", toString (balance ops)),
        ("operations", ", ".intercalate ((ops.drop (ops.length - shownOps)).map StackOp.text))]
  | .unbalancedPair _ pair pushes pulls =>
      .ofList [("pair", pair.text), ("pushes", toString pushes), ("pulls", toString pulls)]
  | .entryViolation hook _ expected actual | .exitViolation hook _ expected actual =>
      .ofList [("hook", hook.address.text), ("expected", expected.text), ("actual", actual.text)]
  | .unknownAtEntry _ _ actual => .ofList [("entry_state", actual.text)]
  | .unknownAtExit _ _ _ actual => .ofList [("exit_state", actual.text)]
  | .recursion _ rest => .ofList [("routines", toString (rest.length + 1))]
  | .crossBank transfer =>
      .ofList [("from_bank", bankText transfer.source.bank),
        ("to_bank", bankText transfer.target.bank)]
  | .drift _ _ baseline patched =>
      .ofList [("baseline", baseline.text), ("patched", patched.text)]
  | .unreachedEntry _ | .unreachedHook _ | .missingReturns _ => .ofList []

/-- Names each contradicted flag with the width expected and the width met; `noun` follows the
flag. -/
def conflictText (noun : String) (expected actual : CpuState) : String :=
  "; ".intercalate ((expected.conflicts actual).map fun flag =>
    s!"{flag.name} {noun}: expected {(expected.width flag).text}, got {(actual.width flag).text}")

/-- The message, in which `name` renders the addresses that symbols may name. -/
def message (name : Address → String) : Finding → String
  | .stateMismatch address expected actual =>
      s!"State mismatch at {name address}: " ++ conflictText "flag mismatch" expected actual
  | .stackImbalance address ops =>
      s!"Stack imbalance at return {name address}: depth={balance ops}"
  | .unbalancedPair address pair pushes pulls =>
      s!"Unbalanced {pair.text} at return {name address}: pushes={pushes}, pulls={pulls}"
  | .unreachedEntry address => s!"Entry point {name address} was never visited"
  | .unreachedHook hook =>
      s!"Hook '{hook.name}' at {hook.address.text} was not reached during analysis"
  | .entryViolation hook _ expected actual =>
      s!"Hook '{hook.name}' entry state mismatch: " ++ conflictText "flag" expected actual
  | .unknownAtEntry hook flag _ =>
      s!"Hook '{hook.name}': {flag.name} flag unknown at entry - may cause width mismatch"
  | .missingReturns hook =>
      s!"Hook '{hook.name}' has no recorded return states for exit check"
  | .exitViolation hook site expected actual =>
      s!"Hook '{hook.name}' exit state mismatch at {site.text}: " ++
        conflictText "flag" expected actual
  | .unknownAtExit hook site flag _ =>
      s!"Hook '{hook.name}': {flag.name} flag unknown at exit {site.text}"
  | .recursion first rest =>
      "Recursive call cycle: " ++ " -> ".intercalate ((first :: rest).map name)
  | .crossBank transfer =>
      s!"Cross-bank {transfer.kind.text} from {name transfer.source} to {name transfer.target}"
  | .drift hook flag baseline patched =>
      s!"Hook '{hook.name}' {flag.name} width changed: " ++
        s!"{(baseline.width flag).text} -> {(patched.width flag).text}"

def diagnostic (name : Address → String) (finding : Finding) : Diagnostic where
  severity := finding.severity
  kind := finding.kind
  address := finding.address
  message := finding.message name
  source := finding.source
  context := finding.context

end Finding

end WidthTrace
