import WidthTrace.Proofs.Analysis.Findings

/-!
# Declarations that were not reached

A declared address that no path reaches is reported by the conclusion of the trace
if it is an entry point, and by the contracts that name it otherwise. Whether a
hook has become an entry point was decided when its turn came, and each entry
point is listed once. Hence no such address is left out, and none is reported by
both.
-/

namespace WidthTrace

namespace Finding

/-- The finding reports that an address was not reached. -/
def isUnreached (a : Address) (finding : Finding) : Bool :=
  finding.address == a && finding.kind == .unreachedEntry

theorem isUnreached_iff {a : Address} {finding : Finding} :
    finding.isUnreached a = true ↔ finding.address = a ∧ finding.kind = .unreachedEntry := by
  rw [isUnreached, Bool.and_eq_true, beq_iff_eq, beq_iff_eq]

theorem filter_isUnreached_of_kinds {kinds : List DiagnosticKind} {findings : List Finding}
    (known : ∀ finding ∈ findings, finding.kind ∈ kinds)
    (other : DiagnosticKind.unreachedEntry ∉ kinds) (a : Address) :
    findings.filter (isUnreached a) = [] := by
  rw [List.filter_eq_nil_iff]
  intro finding found reported
  exact ne_of_mem_of_not_mem (known finding found) other (isUnreached_iff.mp reported).2

end Finding

namespace Trace

/-- The conclusion of a trace reports an entry point once if it was not reached. -/
theorem filter_isUnreached_unreached {trace : Trace} (distinct : trace.graph.entries.Nodup)
    (a : Address) :
    trace.unreached.filter (Finding.isUnreached a) =
      if a ∉ trace.visited ∧ trace.graph.isEntry a = true then [.unreachedEntry a] else [] := by
  have named : Finding.isUnreached a ∘ Finding.unreachedEntry = (· == a) := by
    funext entry
    simp [Finding.isUnreached, Finding.address, Finding.kind]
  have listed : a ∈ trace.graph.entries.filter (fun entry => !trace.visited.contains entry) ↔
      a ∉ trace.visited ∧ trace.graph.isEntry a = true := by
    rw [List.mem_filter, CallGraph.isEntry_iff, Bool.not_eq_true', ← Bool.not_eq_true,
      Std.TreeMap.contains_iff_mem, and_comm]
  rw [unreached, List.filter_map, named, List.filter_beq, (distinct.filter _).count]
  simp only [listed]
  split <;> rfl

end Trace

namespace Hook

/-- Nothing says that an address was not reached if it was, or if it is an entry point. -/
theorem filter_isUnreached_of_silent {trace : Trace} {a : Address}
    (silent : a ∈ trace.visited ∨ trace.graph.isEntry a = true) (hook : Hook) :
    (hook.contractFindings trace).filter (Finding.isUnreached a) = [] := by
  rcases hook.contractFindings_cases trace with ⟨_, kinds⟩ | ⟨missed, found⟩
  · exact Finding.filter_isUnreached_of_kinds kinds (by decide) a
  · rw [List.filter_eq_nil_iff]
    intro finding member reported
    rw [found, List.mem_ite_nil_left, List.mem_singleton] at member
    obtain ⟨undeclared, rfl⟩ := member
    cases (Finding.isUnreached_iff.mp reported).1
    exact silent.elim missed undeclared

/-- A hook at an address that was not reached and is no entry point is reported. -/
theorem filter_isUnreached_of_missed {trace : Trace} {a : Address} (missed : a ∉ trace.visited)
    (undeclared : trace.graph.isEntry a = false) (hook : Hook) :
    (hook.contractFindings trace).filter (Finding.isUnreached a) =
      if hook.address = a then [.unreachedHook hook] else [] := by
  rcases hook.contractFindings_cases trace with ⟨traced, kinds⟩ | ⟨_, found⟩
  · rw [Finding.filter_isUnreached_of_kinds kinds (by decide) a, if_neg]
    rintro rfl
    exact missed traced
  · by_cases here : hook.address = a
    · have reports : Finding.isUnreached a (.unreachedHook hook) = true :=
        Finding.isUnreached_iff.mpr ⟨here, rfl⟩
      rw [found, here, undeclared, if_neg Bool.false_ne_true, if_pos rfl,
        List.filter_cons_of_pos reports, List.filter_nil]
    · rw [if_neg here, List.filter_eq_nil_iff]
      intro finding member reported
      rw [found, List.mem_ite_nil_left, List.mem_singleton] at member
      cases member.2
      exact here (Finding.isUnreached_iff.mp reported).1

end Hook

/-- The contracts report the validated hooks at an address that was not reached and is no entry
point. -/
theorem Trace.filter_isUnreached_contractFindings (trace : Trace) (hooks : List Hook)
    (a : Address) :
    (trace.contractFindings hooks).filter (Finding.isUnreached a) =
      if a ∈ trace.visited ∨ trace.graph.isEntry a = true then []
      else (hooks.filter fun hook => hook.address == a && hook.isValidated).map
        .unreachedHook := by
  rw [contractFindings, List.filter_flatMap]
  split
  · rename_i silent
    rw [List.flatMap_eq_nil_iff]
    exact fun hook _ => Hook.filter_isUnreached_of_silent silent hook
  · rename_i missed
    rw [not_or, Bool.not_eq_true] at missed
    rw [← List.filter_filter]
    induction hooks.filter Hook.isValidated with
    | nil => rfl
    | cons hook rest ih =>
        rw [List.flatMap_cons, ih, Hook.filter_isUnreached_of_missed missed.1 missed.2,
          List.filter_cons]
        by_cases here : hook.address = a <;> simp [here]

namespace Report

open Trace

/-- Some hook at the address is code, and the address was not reached by the roots and the hooks
before it. -/
def IsSeeded (image : Image) (config : Config) (hooks : List Hook) (a : Address) : Prop :=
  ∃ before hook after, hooks = before ++ hook :: after ∧ hook.kind ≠ .data ∧ hook.address = a ∧
    a ∉ (explored image config before).visited

variable {image : Image} {config : Config} {hooks : List Hook} {a : Address}

theorem IsSeeded.concat (seeded : IsSeeded image config hooks a) (hook : Hook) :
    IsSeeded image config (hooks ++ [hook]) a := by
  obtain ⟨before, other, after, rfl, code, here, fresh⟩ := seeded
  exact ⟨before, other, after ++ [hook], by simp, code, here, fresh⟩

theorem mem_entries_rooted : a ∈ (rooted image config).graph.entries ↔ a ∈ config.roots image := by
  rw [(reachable_rooted image config).mem_entries, seedsOf]
  simp

/-- A hook that was explored is an entry point from then on. -/
theorem IsSeeded.mem_entries (seeded : IsSeeded image config hooks a) :
    a ∈ (explored image config hooks).graph.entries := by
  obtain ⟨before, hook, after, rfl, code, rfl, fresh⟩ := seeded
  rw [← List.singleton_append, ← List.append_assoc]
  apply (continuedBy_explored image config (before ++ [hook]) after).entries.subset
  rw [explored_concat]
  rcases exploreHook_cases image config.state (explored image config before) hook with
    ⟨data | traced, _⟩ | ⟨_, explores⟩
  · exact absurd data code
  · exact absurd traced fresh
  · rw [explores, mem_entries_explore]
    exact .inr rfl

/-- The entry points of an analysis are its roots and the hooks that were explored. -/
theorem mem_entries_explored :
    a ∈ (explored image config hooks).graph.entries ↔
      a ∈ config.roots image ∨ IsSeeded image config hooks a := by
  constructor
  · intro declared
    induction hooks using List.reverseRecOn with
    | nil => exact .inl (mem_entries_rooted.mp declared)
    | append_singleton hooks hook ih =>
        rw [explored_concat] at declared
        rcases exploreHook_cases image config.state (explored image config hooks) hook with
          ⟨_, passed⟩ | ⟨⟨code, fresh⟩, explores⟩
        · rw [passed] at declared
          exact (ih declared).imp_right fun seeded => seeded.concat hook
        · rw [explores, mem_entries_explore] at declared
          rcases declared with earlier | rfl
          · exact (ih earlier).imp_right fun seeded => seeded.concat hook
          · exact .inr ⟨hooks, hook, [], rfl, code, rfl, fresh⟩
  · rintro (root | seeded)
    · have declared := mem_entries_rooted.mpr root
      exact (continuedBy_explored image config [] hooks).entries.subset declared
    · exact seeded.mem_entries

/-- The reports of an entry point or a hook at an address that was not reached. -/
def unreachedAt (report : Report) (a : Address) : List Diagnostic :=
  (report.ofKind .unreachedEntry).filter fun diagnostic => diagnostic.address == a

theorem unreachedAt_eq (report : Report) (a : Address) :
    report.unreachedAt a =
      (report.findings.filter (Finding.isUnreached a)).map
        (Finding.diagnostic report.symbols.render) := by
  rw [unreachedAt, ofKind, List.filter_filter, diagnostics, List.filter_map]
  rfl

/-- At an address that was traced nothing is reported as not reached. At any other address there is
exactly one report if it is an entry point, and otherwise one for each validated hook or critical
address that names it. The entry points are the roots and the hooks that are code and whose address
was not reached by the roots and the hooks before them. The roots are the configured entry points
or, without any, what the vectors point to if they are allowed. -/
theorem unreached_declarations_are_reported_once (image : Image) (config : Config)
    (symbols : SymbolTable) (manifest : Option Manifest) (a : Address) :
    let report := ofImage image config symbols manifest
    report.unreachedAt a =
      (if a ∈ report.trace.visited then []
      else if report.trace.graph.isEntry a = true then [Finding.unreachedEntry a]
      else ((report.hooks ++ report.critical).filter fun hook =>
        hook.address == a && hook.isValidated).map .unreachedHook).map
          (Finding.diagnostic report.symbols.render) ∧
    (report.trace.graph.isEntry a = true ↔
      a ∈ config.roots image ∨ IsSeeded image config report.hooks a) ∧
    (a ∈ config.roots image ↔ a ∈ config.entries ∨
      config.entries = [] ∧ config.vectors = true ∧ ∃ vector, image.vector? vector = some a) := by
  intro report
  have concluded : report.trace = (explored image config report.hooks).conclude :=
    traceOf_eq_conclude image config report.hooks
  obtain ⟨declared, reached⟩ := reachable_explored image config report.hooks
  refine ⟨?reports, ?entries, Config.mem_roots⟩
  case reports =>
    have paths : (explored image config report.hooks).findings.toList.filter
        (Finding.isUnreached a) = [] :=
      Finding.filter_isUnreached_of_kinds
        (fun _ found => reached.kind_mem_pathKinds (Array.mem_toList_iff.mp found)) (by decide) a
    have shape : report.trace.graph.findings.filter (Finding.isUnreached a) = [] :=
      Finding.filter_isUnreached_of_kinds (fun _ => CallGraph.kind_mem_shapeKinds) (by decide) a
    have entries : (explored image config report.hooks).unreached.filter (Finding.isUnreached a) =
        if a ∉ report.trace.visited ∧ report.trace.graph.isEntry a = true then [.unreachedEntry a]
        else [] := by
      rw [concluded]
      exact filter_isUnreached_unreached reached.nodup_entries a
    have contracts := filter_isUnreached_contractFindings report.trace
      (report.hooks ++ report.critical) a
    have parts : report.findings = _ := findings_ofImage image config symbols manifest
    rw [unreachedAt_eq, parts, List.filter_append, List.filter_append, List.filter_append, paths,
      entries, contracts, shape, List.nil_append, List.append_nil]
    refine congrArg (List.map _) ?_
    by_cases traced : a ∈ report.trace.visited
    · simp [traced]
    · by_cases entry : report.trace.graph.isEntry a = true
      · simp [traced, entry]
      · simp [traced, entry]
  case entries =>
    rw [concluded, CallGraph.isEntry_iff]
    exact mem_entries_explored

end Report

end WidthTrace
