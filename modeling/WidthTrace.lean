import WidthTrace.Analysis.Drift
import WidthTrace.Analysis.Files
import WidthTrace.CallGraph.Neighbourhood
import WidthTrace.Proofs.Trace.History
import WidthTrace.Proofs.Instruction.Handover
import WidthTrace.Proofs.Trace.Visited
import WidthTrace.Proofs.Trace.FixedPoint
import WidthTrace.Proofs.Instruction.StackMovement
import WidthTrace.Proofs.Trace.Provenance
import WidthTrace.Proofs.Trace.Termination
import WidthTrace.Proofs.CallGraph.LinkSearch.Invariant
import WidthTrace.Proofs.CallGraph.LinkSearch.Release
import WidthTrace.Proofs.CallGraph.LinkSearch.Run
import WidthTrace.Proofs.CallGraph.Cycles
import WidthTrace.Proofs.Trace.Recorded
import WidthTrace.Proofs.Trace.Finish
import WidthTrace.Proofs.Hook.Contract
import WidthTrace.Proofs.Hook.Entry
import WidthTrace.Proofs.Instruction.Mode
import WidthTrace.Proofs.Trace.SeedOrder
import WidthTrace.Proofs.Instruction.Extent
import WidthTrace.Proofs.Trace.DecodedBytes
import WidthTrace.Proofs.Trace.Transfers
import WidthTrace.Proofs.Trace.Returns
import WidthTrace.Proofs.Trace.Attribution
import WidthTrace.Proofs.Hook.Exit
import WidthTrace.Proofs.Trace.TailCalls
import WidthTrace.Proofs.CallGraph.Reachability
import WidthTrace.Proofs.Trace.Anchors
import WidthTrace.Proofs.Trace.Banks
import WidthTrace.Proofs.Trace.OperandSizes
import WidthTrace.Proofs.Trace.Origins
import WidthTrace.Proofs.Trace.TailCallPaths
import WidthTrace.Proofs.Trace.Entries
import WidthTrace.Proofs.Trace.Growth
import WidthTrace.Proofs.Analysis.Exploration
import WidthTrace.Proofs.Trace.Replay
import WidthTrace.Proofs.Analysis.Findings
import WidthTrace.Proofs.Analysis.HookSeeds
import WidthTrace.Proofs.Analysis.Unreached
import WidthTrace.Proofs.CallGraph.Neighbourhood
import WidthTrace.Proofs.CallGraph.Orphans
import WidthTrace.Proofs.Stack.Balance
import WidthTrace.Proofs.Analysis.Wording
import WidthTrace.Proofs.Stack.Nesting
import WidthTrace.Proofs.Cartridge.Mapping
import WidthTrace.Proofs.Hook.Discovery
import WidthTrace.Proofs.Analysis.Detection
import WidthTrace.Proofs.Sorting.Stable
import WidthTrace.Proofs.CallGraph.Indexes
import WidthTrace.Proofs.Manifest.Notation
import WidthTrace.Proofs.SourceLocation
import WidthTrace.Proofs.Stack.Depth
import WidthTrace.Proofs.Trace.StackHistory
import WidthTrace.Proofs.CallGraph.RepeatedEdges
import WidthTrace.Proofs.Trace.RegisterMovements
