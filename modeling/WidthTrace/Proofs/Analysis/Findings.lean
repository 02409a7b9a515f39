import WidthTrace.Proofs.Analysis.Exploration

/-!
# The findings of a report

A report lists what the trace of all hooks found, then the entry points that were
not reached, then what the contracts and the call graph show. The parts report
different kinds of findings: only a trace reports contradicting states, and only
its conclusion and the contracts report what was not reached.
-/

namespace WidthTrace

namespace Trace

/-- The kinds of findings that following paths can lead to. -/
def pathKinds : List DiagnosticKind :=
  [.stateMismatch, .stackImbalance, .unbalancedPair]

theorem Reachable.kind_mem_pathKinds {image : Image} {declared : List Seed} {trace : Trace}
    (reached : Reachable image declared trace) {finding : Finding}
    (found : finding ∈ trace.findings) : finding.kind ∈ pathKinds := by
  refine Reachable.invariant
    (motive := fun _ trace => ∀ finding ∈ trace.findings, finding.kind ∈ pathKinds)
    ?initial ?enter ?advance reached finding found
  case initial =>
    intro finding found
    cases Array.not_mem_empty _ found
  case enter =>
    intro _ _ _ _ holds
    exact holds
  case advance =>
    intro _ trace next holds advance finding found
    cases advance with
    | take free popped => exact holds finding found
    | meet present known =>
        rw [findings_meet] at found
        split at found
        · exact holds finding found
        · rcases Array.mem_push.mp found with before | rfl
          · exact holds finding before
          · exact List.mem_cons_self
    | stop present fresh unreadable => exact holds finding found
    | execute present fresh decoded =>
        rw [findings_execute] at found
        split at found
        · rw [← Array.mem_toList_iff, Array.toList_appendList, List.mem_append] at found
          rcases found with before | balance
          · exact holds finding (Array.mem_toList_iff.mp before)
          · rcases kind_of_mem_balanceFindings balance with kind | kind <;> rw [kind] <;> decide
        · exact holds finding found

end Trace

namespace Hook

/-- The kinds of findings about the contract of a traced hook. -/
def contractKinds : List DiagnosticKind :=
  [.contractViolation, .unknownWidth, .missingReturnState]

theorem kind_of_mem_entryFindings {hook : Hook} {trace : Trace} {kept : CpuState}
    {finding : Finding} (found : finding ∈ hook.entryFindings trace kept) :
    finding.kind ∈ contractKinds := by
  unfold entryFindings at found
  split at found
  · cases found
  · obtain ⟨_, _, reported⟩ := List.mem_filterMap.mp found
    cases (Option.ite_none_left_eq_some.mp reported).2
    exact List.mem_cons_self

theorem kind_of_mem_unknownFindings {hook : Hook} {kept : CpuState} {finding : Finding}
    (found : finding ∈ hook.unknownFindings kept) : finding.kind ∈ contractKinds := by
  obtain ⟨flag, _, rfl⟩ := List.mem_map.mp found
  exact List.mem_cons_of_mem _ List.mem_cons_self

theorem kind_of_mem_returnFindings {hook : Hook} {expected : CpuState} {ret : Return}
    {finding : Finding} (found : finding ∈ hook.returnFindings expected ret) :
    finding.kind ∈ contractKinds := by
  rcases List.mem_append.mp found with violation | unknown
  · rw [List.mem_ite_nil_left, List.mem_singleton] at violation
    rw [violation.2]
    exact List.mem_cons_self
  · obtain ⟨flag, _, rfl⟩ := List.mem_map.mp unknown
    exact List.mem_cons_of_mem _ List.mem_cons_self

theorem kind_of_mem_exitFindings {hook : Hook} {trace : Trace} {finding : Finding}
    (found : finding ∈ hook.exitFindings trace) : finding.kind ∈ contractKinds := by
  unfold exitFindings at found
  split at found
  · cases found
  · split at found
    · cases List.mem_singleton.mp found
      exact List.mem_cons_of_mem _ (List.mem_cons_of_mem _ List.mem_cons_self)
    · obtain ⟨ret, _, reported⟩ := List.mem_flatMap.mp found
      exact kind_of_mem_returnFindings reported

/-- What is found for a hook is about its contract, unless all that is found is that the hook was
not reached. -/
theorem contractFindings_cases (hook : Hook) (trace : Trace) :
    (hook.address ∈ trace.visited ∧
        ∀ finding ∈ hook.contractFindings trace, finding.kind ∈ contractKinds) ∨
      hook.address ∉ trace.visited ∧
        hook.contractFindings trace =
          if trace.graph.isEntry hook.address then [] else [.unreachedHook hook] := by
  unfold contractFindings Trace.stateAt?
  cases known : trace.visited[hook.address]? with
  | none => exact .inr ⟨by simpa using known, rfl⟩
  | some kept =>
      refine .inl ⟨AddressMap.mem_iff_exists.mpr ⟨kept, known⟩, fun finding found => ?_⟩
      rw [List.mem_append, List.mem_append] at found
      rcases found with (entry | unknown) | exit
      · exact kind_of_mem_entryFindings entry
      · exact kind_of_mem_unknownFindings unknown
      · exact kind_of_mem_exitFindings exit

end Hook

namespace CallGraph

/-- The kinds of findings about the shape of a call graph. -/
def shapeKinds : List DiagnosticKind :=
  [.recursion, .crossBank]

theorem kind_mem_shapeKinds {graph : CallGraph} {finding : Finding}
    (found : finding ∈ graph.findings) : finding.kind ∈ shapeKinds := by
  rcases List.mem_append.mp found with cycle | transfer
  · obtain ⟨routines, _, reported⟩ := List.mem_filterMap.mp cycle
    cases routines with
    | nil => cases reported
    | cons first rest =>
        cases reported
        exact List.mem_cons_self
  · obtain ⟨_, _, rfl⟩ := List.mem_map.mp transfer
    exact List.mem_cons_of_mem _ List.mem_cons_self

end CallGraph

namespace Report

/-- The findings of a report, part by part. -/
theorem findings_ofImage (image : Image) (config : Config) (symbols : SymbolTable)
    (manifest : Option Manifest) :
    let report := ofImage image config symbols manifest
    let trace := explored image config report.hooks
    report.findings = trace.findings.toList ++ trace.unreached ++
      report.trace.contractFindings (report.hooks ++ report.critical) ++
      report.trace.graph.findings := by
  intro report trace
  have concluded : report.trace.findings.toList = trace.findings.toList ++ trace.unreached := by
    change (traceOf image config report.hooks).findings.toList = _
    rw [traceOf_eq_conclude, Trace.conclude, Array.toList_appendList]
  rw [← concluded]
  rfl

/-- Only the trace reports what following paths can lead to. -/
theorem mem_findings_iff_of_path {image : Image} {config : Config} {symbols : SymbolTable}
    {manifest : Option Manifest} {finding : Finding} (path : finding.kind ∈ Trace.pathKinds) :
    let report := ofImage image config symbols manifest
    finding ∈ report.findings ↔ finding ∈ (explored image config report.hooks).findings := by
  intro report
  have parts : report.findings = _ := findings_ofImage image config symbols manifest
  rw [parts]
  constructor
  · intro found
    have unreachedKind : DiagnosticKind.unreachedEntry ∉ Trace.pathKinds := by decide
    have contractApart : ∀ kind ∈ Hook.contractKinds, kind ∉ Trace.pathKinds := by decide
    have shapeApart : ∀ kind ∈ CallGraph.shapeKinds, kind ∉ Trace.pathKinds := by decide
    rw [List.mem_append, List.mem_append, List.mem_append] at found
    rcases found with ((traced | unreached) | contract) | shape
    · exact Array.mem_toList_iff.mp traced
    · obtain ⟨entry, _, rfl⟩ := List.mem_map.mp unreached
      exact absurd path unreachedKind
    · obtain ⟨hook, _, reported⟩ := List.mem_flatMap.mp contract
      rcases hook.contractFindings_cases report.trace with ⟨_, kinds⟩ | ⟨_, missed⟩
      · exact absurd path (contractApart _ (kinds finding reported))
      · rw [missed, List.mem_ite_nil_left, List.mem_singleton] at reported
        rw [reported.2] at path
        exact absurd path unreachedKind
    · exact absurd path (shapeApart _ (CallGraph.kind_mem_shapeKinds shape))
  · intro traced
    exact List.mem_append_left _ (List.mem_append_left _
      (List.mem_append_left _ (Array.mem_toList_iff.mpr traced)))

end Report

end WidthTrace
