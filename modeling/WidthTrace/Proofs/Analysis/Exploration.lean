import WidthTrace.Analysis.Report
import WidthTrace.Proofs.Trace.Finish
import WidthTrace.Proofs.Trace.Growth

/-!
# The explorations of an analysis

An analysis explores its roots one after the other, and then its hooks, of which it
passes over those that are data or were reached before. Nothing is left to follow
after any of them, so that in the end only the conclusion is missing.
-/

namespace WidthTrace

namespace Trace

variable {image : Image} {trace : Trace}

theorem isIdle_exploreAll (idle : trace.isIdle = true) (state : CpuState)
    (entries : List Address) : (trace.exploreAll image state entries).isIdle = true := by
  rw [exploreAll]
  induction entries generalizing trace with
  | nil => exact idle
  | cons entry rest ih => exact ih (isIdle_run image _)

theorem exploreAll_append (image : Image) (trace : Trace) (state : CpuState)
    (first second : List Address) :
    trace.exploreAll image state (first ++ second) =
      (trace.exploreAll image state first).exploreAll image state second :=
  List.foldl_append

/-- The seeds of entry points that are all declared with one state. -/
def seedsOf (state : CpuState) (entries : List Address) : List Seed :=
  entries.map (·, state)

/-- Exploring entry points one after the other is a history of a trace. -/
theorem exploreAll_eq_history (image : Image) (state : CpuState) (entries : List Address) :
    empty.exploreAll image state entries =
      history image (entries.map fun entry => .explore entry state) := by
  rw [exploreAll, history, List.foldl_map]
  rfl

theorem seeds_explore (state : CpuState) (entries : List Address) :
    seeds (entries.map fun entry => .explore entry state) = seedsOf state entries := by
  rw [seeds, List.filterMap_map, seedsOf, ← List.filterMap_eq_map]
  rfl

/-- A hook is passed over, or its address was not traced before and is explored. -/
theorem exploreHook_cases (image : Image) (state : CpuState) (trace : Trace) (hook : Hook) :
    (hook.kind = .data ∨ hook.address ∈ trace.visited) ∧
        trace.exploreHook image state hook = trace ∨
      (hook.kind ≠ .data ∧ hook.address ∉ trace.visited) ∧
        trace.exploreHook image state hook =
          trace.explore image hook.address (hook.entry.getD state) := by
  simp only [exploreHook, ← not_or, Bool.or_eq_true, decide_eq_true_eq,
    Std.TreeMap.contains_iff_mem]
  split
  · rename_i passed
    exact .inl ⟨passed, rfl⟩
  · rename_i seeded
    exact .inr ⟨seeded, rfl⟩

end Trace

namespace Report

open Trace

/-- The trace of the roots. -/
def rooted (image : Image) (config : Config) : Trace :=
  empty.exploreAll image config.state (config.roots image)

/-- The trace of the roots and then of some hooks. -/
def explored (image : Image) (config : Config) (hooks : List Hook) : Trace :=
  hooks.foldl (exploreHook image config.state) (rooted image config)

variable {image : Image} {config : Config}

theorem reachable_rooted (image : Image) (config : Config) :
    Reachable image (seedsOf config.state (config.roots image)) (rooted image config) := by
  rw [rooted, exploreAll_eq_history, ← seeds_explore]
  exact reachable_history image _

theorem isIdle_rooted (image : Image) (config : Config) : (rooted image config).isIdle = true :=
  isIdle_exploreAll rfl config.state _

theorem explored_concat (image : Image) (config : Config) (hooks : List Hook) (hook : Hook) :
    explored image config (hooks ++ [hook]) =
      (explored image config hooks).exploreHook image config.state hook := by
  rw [explored, List.foldl_append]
  rfl

/-- What holds of the trace of the roots, and is kept when a hook that was not reached is explored,
holds after any hooks. -/
theorem explored_preserves {motive : Trace → Prop} (roots : motive (rooted image config))
    (explore : ∀ (trace : Trace) (hook : Hook), motive trace → hook.kind ≠ .data →
      hook.address ∉ trace.visited →
      motive (trace.explore image hook.address (hook.entry.getD config.state)))
    (hooks : List Hook) : motive (explored image config hooks) := by
  induction hooks using List.reverseRecOn with
  | nil => exact roots
  | append_singleton hooks hook ih =>
      rw [explored_concat]
      rcases exploreHook_cases image config.state (explored image config hooks) hook with
        ⟨_, passed⟩ | ⟨⟨code, fresh⟩, seeded⟩
      · rwa [passed]
      · rw [seeded]
        exact explore _ hook ih code fresh

theorem isIdle_explored (image : Image) (config : Config) (hooks : List Hook) :
    (explored image config hooks).isIdle = true :=
  explored_preserves (motive := fun trace => trace.isIdle = true) (isIdle_rooted image config)
    (fun _ _ _ _ _ => isIdle_run image _) hooks

theorem reachable_explored (image : Image) (config : Config) (hooks : List Hook) :
    ∃ declared, Reachable image declared (explored image config hooks) := by
  refine explored_preserves (motive := fun trace => ∃ declared, Reachable image declared trace)
    ⟨_, reachable_rooted image config⟩ ?_ hooks
  rintro trace hook ⟨declared, reached⟩ _ _
  exact ⟨_, (Reachable.enter _ _ reached).run⟩

theorem continuedBy_explored (image : Image) (config : Config) (before after : List Hook) :
    (explored image config before).ContinuedBy (explored image config (before ++ after)) := by
  induction after using List.reverseRecOn with
  | nil =>
      rw [List.append_nil]
      exact .refl _
  | append_singleton after hook ih =>
      rw [← List.append_assoc, explored_concat]
      generalize explored image config (before ++ after) = trace at ih ⊢
      rcases exploreHook_cases image config.state trace hook with ⟨_, passed⟩ | ⟨_, seeded⟩
      · rwa [passed]
      · rw [seeded]
        exact ih.trans (continuedBy_explore image _ _ _)

/-- The last hook leaves nothing to follow, so that finishing the trace only concludes it. -/
theorem traceOf_eq_conclude (image : Image) (config : Config) (hooks : List Hook) :
    traceOf image config hooks = (explored image config hooks).conclude := by
  change (explored image config hooks).finish image = _
  rw [finish_eq_conclude, run_of_isIdle image (isIdle_explored image config hooks)]

end Report

end WidthTrace
