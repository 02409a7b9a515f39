import WidthTrace.Proofs.Analysis.Findings

/-!
# Hooks as entry points

A hook is explored only if its address was not traced before, and at a time when
nothing else is left to follow. Its own arrival is then the next one, and is kept
without being compared with anything. Every state that is compared later was
brought by a root or by a traced instruction.
-/

namespace WidthTrace

namespace Trace

variable {image : Image} {seeds : List Seed} {trace next : Trace}

/-- A declared entry point that was not traced before is the next one to be traced, if it shows a
byte. -/
theorem explore_of_fresh (idle : trace.isIdle = true) {entry : Address}
    (fresh : trace.visited[entry]? = none) (state : CpuState) :
    trace.explore image entry state =
      match Instruction.decode? image entry state with
      | some instruction =>
          ({ trace with graph := trace.graph.declare entry }.ended.execute image instruction
            ⟨entry, state, entry⟩).run image
      | none => { trace with graph := trace.graph.declare entry } := by
  obtain ⟨free, drained⟩ := isIdle_iff.mp idle
  obtain ⟨visited, current, pending, graph, returns, findings⟩ := trace
  cases free
  cases Queue.eq_empty_of_toList drained
  rw [explore, ← run_step, step_of_popped image rfl rfl, ← run_step]
  cases decoded : Instruction.decode? image entry state with
  | some instruction =>
      rw [step_of_decoded rfl fresh decoded]
      rfl
  | none =>
      rw [step_of_unreadable rfl fresh decoded, run_of_isIdle image]
      · rfl
      · exact isIdle_iff.mpr ⟨rfl, rfl⟩

/-- The state of a readable entry point that was not traced before is kept. -/
theorem known_explore (idle : trace.isIdle = true) {entry : Address}
    (fresh : trace.visited[entry]? = none) (readable : (image.byte? entry).isSome = true)
    (state : CpuState) : (trace.explore image entry state).visited[entry]? = some state := by
  have decodes := Instruction.isSome_decode? image entry state
  rw [readable, Option.isSome_iff_exists] at decodes
  obtain ⟨instruction, decoded⟩ := decodes
  rw [explore_of_fresh idle fresh, decoded]
  exact (continuedBy_run image _).visited _ _ (known_execute image _ instruction _)

/-- Exploring an address that was not traced before compares its own state with nothing, whether
or not it is one of the seeds. -/
theorem Sourced.explore (sourced : Sourced image seeds trace) (idle : trace.isIdle = true)
    {entry : Address} (fresh : trace.visited[entry]? = none) (state : CpuState) :
    Sourced image seeds (trace.explore image entry state) := by
  have declared : Sourced image seeds { trace with graph := trace.graph.declare entry } :=
    ⟨sourced.outstanding, sourced.mismatches⟩
  rw [explore_of_fresh idle fresh]
  cases decoded : Instruction.decode? image entry state with
  | some instruction => exact (declared.execute fresh decoded).run
  | none => exact declared

end Trace

namespace Report

open Trace

/-- Exploring hooks compares no state but those that roots and traced instructions brought. -/
theorem sourced_explored (image : Image) (config : Config) (hooks : List Hook) :
    Sourced image (seedsOf config.state (config.roots image)) (explored image config hooks) := by
  have both := explored_preserves
    (motive := fun trace => trace.isIdle = true ∧
      Sourced image (seedsOf config.state (config.roots image)) trace)
    ⟨isIdle_rooted image config, (reachable_rooted image config).sourced⟩
    (fun trace hook before _ fresh =>
      ⟨isIdle_run image _, before.2.explore before.1 (Std.TreeMap.getElem?_eq_none fresh) _⟩)
    hooks
  exact both.2

/-- When the turn of a hook comes that is code at an address that shows a byte, either the address
was traced before and the hook changes nothing, or the hook is explored and its own state is the one
that the report keeps there. Every reported mismatch compares a kept state with one that was brought
by a root or by a traced instruction. -/
theorem hook_seeds_cause_no_mismatch (image : Image) (config : Config) (symbols : SymbolTable)
    (manifest : Option Manifest) :
    let report := ofImage image config symbols manifest
    (∀ before hook after, report.hooks = before ++ hook :: after → hook.kind ≠ .data →
      (image.byte? hook.address).isSome = true →
      let trace := explored image config before
      let seed := hook.entry.getD config.state
      hook.address ∈ trace.visited ∧ explored image config (before ++ [hook]) = trace ∨
        hook.address ∉ trace.visited ∧
          explored image config (before ++ [hook]) = trace.explore image hook.address seed ∧
          report.trace.stateAt? hook.address = some seed) ∧
    ∀ diagnostic ∈ report.diagnostics, diagnostic.kind = .stateMismatch →
      ∃ address kept actual,
        diagnostic =
          Finding.diagnostic report.symbols.render (.stateMismatch address kept actual) ∧
        report.trace.visited[address]? = some kept ∧ kept.Contradicts actual ∧
        Brought image (seedsOf config.state (config.roots image)) report.trace.visited address
          actual := by
  intro report
  have concluded : report.trace = (explored image config report.hooks).conclude :=
    traceOf_eq_conclude image config report.hooks
  rw [concluded]
  refine ⟨?seeding, ?mismatches⟩
  case seeding =>
    intro before hook after listed code readable trace seed
    rw [explored_concat]
    rcases exploreHook_cases image config.state trace hook with
      ⟨data | traced, passed⟩ | ⟨⟨_, fresh⟩, seeded⟩
    · exact absurd data code
    · exact .inl ⟨traced, passed⟩
    · refine .inr ⟨fresh, seeded, ?_⟩
      have kept := known_explore (isIdle_explored image config before)
        (Std.TreeMap.getElem?_eq_none fresh) readable seed
      have continued := continuedBy_explored image config (before ++ [hook]) after
      rw [explored_concat, seeded, List.append_assoc, List.singleton_append, ← listed] at continued
      exact continued.visited _ _ kept
  case mismatches =>
    intro diagnostic listed mismatch
    obtain ⟨finding, found, rfl⟩ := List.mem_map.mp listed
    have kind : finding.kind = .stateMismatch := mismatch
    have path : finding.kind ∈ pathKinds := by
      rw [kind]
      exact List.mem_cons_self
    obtain ⟨kept, actual, same, known, contradicts, brought⟩ :=
      (sourced_explored image config report.hooks).mismatches finding.address finding
        (mem_mismatchesAt.mpr ⟨(mem_findings_iff_of_path path).mp found, kind, rfl⟩)
    refine ⟨finding.address, kept, actual, ?_, known, contradicts, brought⟩
    rw [← same]

/-- A return, and a routine behind it that calls it. -/
def callBackImage : Image :=
  ⟨⟨#[0x60, 0x20, 0x00, 0x80, 0x60]⟩, .loRom⟩

/-- An analysis of hooks alone. -/
def hooksAlone : Config :=
  { Config.default with vectors := false }

/-- The return is declared with words, its caller without a contract. -/
def wideReturn : Hook :=
  { Hook.plain "wide" ⟨0, 0x8000⟩ .jsr with
    entry := some (.ofWidths (.known .word) (.known .word)) }

def narrowCaller : Hook :=
  Hook.plain "caller" ⟨0, 0x8001⟩ .jsr

theorem explored_callBackImage :
    explored callBackImage hooksAlone [wideReturn, narrowCaller] =
      (step callBackImage)^[8] (((step callBackImage)^[2] (empty.enter ⟨0, 0x8000⟩
        (.ofWidths (.known .word) (.known .word)))).enter ⟨0, 0x8001⟩ .native8) := by
  have first : explored callBackImage hooksAlone [wideReturn] =
      (step callBackImage)^[2] (empty.enter ⟨0, 0x8000⟩
        (.ofWidths (.known .word) (.known .word))) :=
    run_eq_iterate (by decide +kernel)
  change exploreHook _ _ (explored callBackImage hooksAlone [wideReturn]) _ = _
  rw [first, exploreHook, if_neg (by decide +kernel)]
  exact run_eq_iterate (by decide +kernel)

theorem hook_seeds_of_callBackImage :
    let report := ofImage callBackImage hooksAlone .empty
      (some (.ofHooks [wideReturn, narrowCaller]))
    report.trace.stateAt? ⟨0, 0x8000⟩ = some (.ofWidths (.known .word) (.known .word)) ∧
      ∃ kept actual, kept.Contradicts actual ∧
        Finding.diagnostic report.symbols.render (.stateMismatch ⟨0, 0x8000⟩ kept actual) ∈
          report.diagnostics ∧
        Brought callBackImage [] report.trace.visited ⟨0, 0x8000⟩ actual := by
  intro report
  have mismatch : ∃ finding ∈ (explored callBackImage hooksAlone report.hooks).findings,
      finding.kind = .stateMismatch ∧ finding.address = ⟨0, 0x8000⟩ := by
    rw [show explored _ _ report.hooks = _ from explored_callBackImage]
    decide +kernel
  obtain ⟨finding, found, kind, here⟩ := mismatch
  have path : finding.kind ∈ pathKinds := by
    rw [kind]
    exact List.mem_cons_self
  have listed : Finding.diagnostic report.symbols.render finding ∈ report.diagnostics :=
    List.mem_map_of_mem ((mem_findings_iff_of_path path).mpr found)
  obtain ⟨seeding, mismatches⟩ := hook_seeds_cause_no_mismatch callBackImage hooksAlone .empty
    (some (.ofHooks [wideReturn, narrowCaller]))
  refine ⟨?seeded, ?compared⟩
  case seeded =>
    rcases seeding [] wideReturn [narrowCaller] rfl (by decide) (by decide +kernel) with
      ⟨traced, _⟩ | ⟨_, _, kept⟩
    · exact absurd traced (by decide +kernel)
    · exact kept
  case compared =>
    obtain ⟨address, kept, actual, same, _, contradicts, brought⟩ := mismatches _ listed kind
    have at8000 : address = ⟨0, 0x8000⟩ := (congrArg Diagnostic.address same).symm.trans here
    rw [same, at8000] at listed
    rw [at8000] at brought
    exact ⟨kept, actual, contradicts, listed, brought⟩

end Report

end WidthTrace
