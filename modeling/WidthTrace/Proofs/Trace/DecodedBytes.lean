import WidthTrace.Analysis.Drift
import WidthTrace.Proofs.Instruction.Extent
import WidthTrace.Proofs.Trace.Finish
import WidthTrace.Proofs.Trace.Growth

/-!
# Dependence on decoded bytes

A trace reads an image only inside the extents of the instructions that it comes to
trace. Two images of one shape that agree there are traced in lockstep: each step
does the same in both, because the instruction that it executes, if any, is among
those that are traced in the end.
-/

namespace WidthTrace.Trace

variable {first second : Image}

/-- The images agree on the bytes of every instruction that is traced in the first one. -/
def AgreesOnTraced (first second : Image) (visited : AddressMap CpuState) : Prop :=
  ∀ (address : Address) (kept : CpuState) (instruction : Instruction),
    Traced first visited address kept instruction →
      Image.AgreesAt first second instruction.extent

/-- Checks the instruction at every kept state. -/
def agreesOnTraced (first second : Image) (visited : AddressMap CpuState) : Bool :=
  visited.toList.all fun (address, kept) =>
    (Instruction.decode? first address kept).all fun instruction =>
      Image.AgreesAt first second instruction.extent

theorem agreesOnTraced_iff {visited : AddressMap CpuState} :
    agreesOnTraced first second visited = true ↔ AgreesOnTraced first second visited := by
  simp only [agreesOnTraced, List.all_eq_true, Option.all_eq_true, Prod.forall, decide_eq_true_eq,
    Std.TreeMap.mem_toList_iff_getElem?_eq_some]
  constructor
  · intro checked address kept instruction traced
    exact checked address kept traced.known instruction traced.decoded
  · intro agrees address kept known instruction decoded
    exact agrees address kept instruction ⟨known, decoded⟩

instance (first second : Image) (visited : AddressMap CpuState) :
    Decidable (AgreesOnTraced first second visited) :=
  decidable_of_iff _ agreesOnTraced_iff

theorem AgreesOnTraced.mono {old new : AddressMap CpuState}
    (agrees : AgreesOnTraced first second new) (extended : AddressMap.Extends old new) :
    AgreesOnTraced first second old :=
  fun address kept instruction traced =>
    agrees address kept instruction ⟨extended address kept traced.known, traced.decoded⟩

/-! ## Both images in lockstep -/

theorem execute_congr {instruction : Instruction}
    (same : Instruction.SameOperand first second instruction) (sized : instruction.WellSized)
    (trace : Trace) (arrival : Arrival) :
    trace.execute second instruction arrival = trace.execute first instruction arrival := by
  simp only [execute, leave, follow, same.after sized, same.transfer? sized,
    same.continuation? sized]

/-- A step does the same in both images if they agree on what is traced after it. -/
theorem step_congr (shape : Image.SameShape first second) {trace : Trace}
    (agrees : AgreesOnTraced first second (trace.step first).visited) :
    trace.step second = trace.step first := by
  cases present : trace.current with
  | none => simp only [step, present]
  | some arrival =>
      cases fresh : trace.visited[arrival.address]? with
      | some kept => rw [step_of_known first present fresh, step_of_known second present fresh]
      | none =>
          have traced : ∀ instruction,
              Instruction.decode? first arrival.address arrival.state = some instruction →
                Image.AgreesAt first second instruction.extent := by
            intro instruction decoded
            refine agrees arrival.address arrival.state instruction ?_
            rw [step_of_decoded present fresh decoded]
            exact traced_execute trace.ended decoded
          have alike := Instruction.decode?_of_agreesAt shape traced
          cases decoded : Instruction.decode? first arrival.address arrival.state with
          | none =>
              rw [decoded] at alike
              rw [step_of_unreadable present fresh decoded,
                step_of_unreadable present fresh alike]
          | some instruction =>
              rw [decoded] at alike
              rw [step_of_decoded present fresh decoded, step_of_decoded present fresh alike]
              exact execute_congr (Instruction.sameOperand_of_agreesAt shape (traced _ decoded))
                (Instruction.wellSized_of_decode? decoded) _ _

theorem run_congr (shape : Image.SameShape first second) {trace : Trace}
    (agrees : AgreesOnTraced first second (trace.run first).visited) :
    trace.run second = trace.run first := by
  induction trace using run.induct first with
  | case1 trace idle => rw [run_of_isIdle first idle, run_of_isIdle second idle]
  | case2 trace busy ih =>
      rw [← run_step] at agrees
      have stepped := step_congr shape (agrees.mono (continuedBy_run first _).visited)
      rw [← run_step second, stepped, ih agrees, run_step]

theorem perform_congr (shape : Image.SameShape first second) {trace : Trace} {request : Request}
    (agrees : AgreesOnTraced first second (trace.perform first request).visited) :
    trace.perform second request = trace.perform first request := by
  cases request with
  | enter entry state => rfl
  | explore entry state => exact run_congr shape agrees
  | run => exact run_congr shape agrees

theorem history_congr (shape : Image.SameShape first second) {requests : List Request}
    (agrees : AgreesOnTraced first second (history first requests).visited) :
    history second requests = history first requests := by
  induction requests using List.reverseRecOn with
  | nil => rfl
  | append_singleton requests request ih =>
      rw [history_concat] at agrees
      have before := agrees.mono (continuedBy_perform first _ request).visited
      rw [history_concat, history_concat, ih before, perform_congr shape agrees]

theorem finished_eq_conclude (image : Image) (requests : List Request) :
    finished image requests = (history image (requests ++ [.run])).conclude := by
  rw [history_concat]
  rfl

theorem finished_congr (shape : Image.SameShape first second) {requests : List Request}
    (agrees : AgreesOnTraced first second (finished first requests).visited) :
    finished second requests = finished first requests := by
  rw [finished_eq_conclude] at agrees
  rw [finished_eq_conclude, finished_eq_conclude, history_congr shape agrees]

end WidthTrace.Trace

namespace WidthTrace.Drift

open Trace

/-- Each configured entry point is entered with the configured state. -/
def requests (config : Config) : List Request :=
  config.entries.map fun entry => .enter entry config.state

theorem traceOf_eq_finished (image : Image) {config : Config} (given : config.entries ≠ []) :
    traceOf image config = finished image (requests config) := by
  rw [traceOf, Config.roots_of_entries image given, finished, history, requests, List.foldl_map]
  rfl

/-- A trace does not drift from itself. -/
theorem hookFindings_self (trace : Trace) (hook : Hook) : hookFindings trace trace hook = [] := by
  unfold hookFindings
  cases trace.stateAt? hook.address with
  | none => rfl
  | some state =>
      have agrees : state.conflicts state = [] :=
        List.isEmpty_iff.mp (CpuState.compatible_self state)
      dsimp only
      rw [agrees, List.map_nil]

theorem findings_eq_nil_of_traceOf_eq {first second : Image} (hooks : List Hook) {config : Config}
    (same : traceOf second config = traceOf first config) :
    findings first second hooks config = [] := by
  rw [findings, same, List.flatMap_eq_nil_iff]
  intro hook _
  exact hookFindings_self (traceOf first config) hook

end WidthTrace.Drift

namespace WidthTrace.Trace

/-- Take two images of one shape that agree on the bytes of every instruction that a sequence of
requests traces in the first, opcode and operand, as far as they show any. The same requests give
the same trace of the second, as well when both are finished. In particular no hook drifts between
them if the entry points are configured. -/
theorem trace_depends_on_decoded_bytes {first second : Image}
    (shape : Image.SameShape first second) :
    (∀ requests, AgreesOnTraced first second (history first requests).visited →
      history second requests = history first requests) ∧
    (∀ requests, AgreesOnTraced first second (finished first requests).visited →
      finished second requests = finished first requests) ∧
    ∀ hooks config, config.entries ≠ [] →
      AgreesOnTraced first second (Drift.traceOf first config).visited →
      Drift.findings first second hooks config = [] := by
  refine ⟨fun _ => history_congr shape, fun _ => finished_congr shape, ?drift⟩
  intro hooks config given agrees
  rw [Drift.traceOf_eq_finished first given] at agrees
  apply Drift.findings_eq_nil_of_traceOf_eq
  rw [Drift.traceOf_eq_finished first given, Drift.traceOf_eq_finished second given,
    finished_congr shape agrees]

/-- A branch over a byte that is never decoded. -/
def skipImage (skipped : UInt8) : Image :=
  ⟨⟨#[0x80, 0x01, skipped, 0x60]⟩, .loRom⟩

theorem undecoded_byte_of_skipImage_has_no_influence :
    (skipImage 0x00).byte? ⟨0, 0x8002⟩ ≠ (skipImage 0xFF).byte? ⟨0, 0x8002⟩ ∧
      history (skipImage 0xFF) [.explore ⟨0, 0x8000⟩ .native8] =
        history (skipImage 0x00) [.explore ⟨0, 0x8000⟩ .native8] ∧
      Drift.findings (skipImage 0x00) (skipImage 0xFF) [Hook.plain "return" ⟨0, 0x8003⟩ .jsl]
        { Config.default with entries := [⟨0, 0x8000⟩] } = [] := by
  have shape : Image.SameShape (skipImage 0x00) (skipImage 0xFF) := ⟨rfl, rfl⟩
  have ran : run (skipImage 0x00) (empty.enter ⟨0, 0x8000⟩ .native8) =
      (step (skipImage 0x00))^[4] (empty.enter ⟨0, 0x8000⟩ .native8) :=
    run_eq_iterate (by decide +kernel)
  have agrees : AgreesOnTraced (skipImage 0x00) (skipImage 0xFF)
      (run (skipImage 0x00) (empty.enter ⟨0, 0x8000⟩ .native8)).visited := by
    rw [ran]
    decide +kernel
  obtain ⟨alike, _, drift⟩ := trace_depends_on_decoded_bytes shape
  refine ⟨by decide +kernel, alike _ agrees, drift _ _ (List.cons_ne_nil _ _) agrees⟩

end WidthTrace.Trace
