import WidthTrace.Analysis.Config
import WidthTrace.CallGraph.Cycles
import WidthTrace.Hook.Contract
import WidthTrace.Hook.Discovery
import WidthTrace.Manifest.Basic

/-!
# Analysing an image

An analysis traces the roots one after the other, then every hook that is not
data and was not reached by then, and reports what the trace, the contracts and
the shape of the call graph show, in this order.
-/

namespace WidthTrace

structure Report where
  trace : Trace
  findings : List Finding
  hooks : List Hook
  critical : List Hook
  symbols : SymbolTable

namespace Trace

/-- Traces a list of entry points one after the other. -/
def exploreAll (image : Image) (trace : Trace) (state : CpuState) (entries : List Address) :
    Trace :=
  entries.foldl (fun trace entry => trace.explore image entry state) trace

/-- Traces a hook from its contract's entry state, unless it is data or was reached already. -/
def exploreHook (image : Image) (state : CpuState) (trace : Trace) (hook : Hook) : Trace :=
  if hook.kind = .data || trace.visited.contains hook.address then trace
  else trace.explore image hook.address (hook.entry.getD state)

end Trace

/-- The cycles of the graph, then its transfers between banks. -/
def CallGraph.findings (graph : CallGraph) : List Finding :=
  let recursions := graph.cycles.filterMap fun
    | [] => none
    | first :: rest => some (Finding.recursion first rest)
  recursions ++ graph.crossBank.map Finding.crossBank

namespace Report

/-- The hooks and the critical addresses of an analysis. Without a manifest, hooks may be
discovered. -/
def contracts (image : Image) (config : Config) (symbols : SymbolTable)
    (manifest : Option Manifest) : List Hook × List Hook :=
  match manifest with
  | some manifest => (manifest.hooks, manifest.critical)
  | none => (if config.detect then Hook.discover image symbols else [], [])

/-- The trace of the roots and then of the hooks. -/
def traceOf (image : Image) (config : Config) (hooks : List Hook) : Trace :=
  let rooted := Trace.empty.exploreAll image config.state (config.roots image)
  (hooks.foldl (Trace.exploreHook image config.state) rooted).finish image

def ofImage (image : Image) (config : Config) (symbols : SymbolTable)
    (manifest : Option Manifest) : Report :=
  let (hooks, critical) := contracts image config symbols manifest
  let trace := traceOf image config hooks
  let findings :=
    trace.findings.toList ++ trace.contractFindings (hooks ++ critical) ++ trace.graph.findings
  ⟨trace, findings, hooks, critical, symbols⟩

/-- The findings in the words of the report's symbols. -/
def diagnostics (report : Report) : List Diagnostic :=
  report.findings.map (Finding.diagnostic report.symbols.render)

def errors (report : Report) : List Diagnostic :=
  report.diagnostics.filter Diagnostic.isError

def warnings (report : Report) : List Diagnostic :=
  report.diagnostics.filter Diagnostic.isWarning

def ofKind (report : Report) (kind : DiagnosticKind) : List Diagnostic :=
  report.diagnostics.filter fun diagnostic => diagnostic.kind == kind

/-- No finding is an error. -/
def success (report : Report) : Bool :=
  report.errors.isEmpty

end Report

end WidthTrace
