import Std.Data.TreeMap
import WidthTrace.Address
import WidthTrace.SourceLocation

/-!
# Diagnostics

What a report shows of a finding: its severity and kind, where it is, a message,
the source location if there is one, and values by name for tools to render.
-/

namespace WidthTrace

inductive Severity where
  | error
  | warning
  | info
deriving DecidableEq, Repr

def Severity.text : Severity → String
  | .error => "error"
  | .warning => "warning"
  | .info => "info"

inductive DiagnosticKind where
  | stateMismatch
  | stackImbalance
  | unbalancedPair
  | contractViolation
  | unknownWidth
  | unreachedEntry
  | missingReturnState
  | recursion
  | crossBank
  | stateDrift
deriving DecidableEq, Repr

/-- Every kind, in the order of the type. -/
def DiagnosticKind.all : List DiagnosticKind :=
  [.stateMismatch, .stackImbalance, .unbalancedPair, .contractViolation, .unknownWidth,
    .unreachedEntry, .missingReturnState, .recursion, .crossBank, .stateDrift]

/-- Values by name, in the order of their names; a later value for a name wins. -/
abbrev Context := Std.TreeMap String String

def Context.ofList (values : List (String × String)) : Context :=
  values.foldl (fun context (key, value) => context.insert key value) ∅

structure Diagnostic where
  severity : Severity
  kind : DiagnosticKind
  address : Address
  message : String
  source : Option SourceLocation
  context : Context

namespace Diagnostic

def isError (diagnostic : Diagnostic) : Bool :=
  diagnostic.severity == .error

def isWarning (diagnostic : Diagnostic) : Bool :=
  diagnostic.severity == .warning

/-- One line for a terminal, with the source location in parentheses at its end. -/
def text (diagnostic : Diagnostic) : String :=
  let line := s!"[{diagnostic.severity.text}] {diagnostic.address.text}: {diagnostic.message}"
  match diagnostic.source with
  | some source => line ++ " (" ++ source.text ++ ")"
  | none => line

end Diagnostic

end WidthTrace
