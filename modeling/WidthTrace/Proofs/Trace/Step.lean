import Mathlib.Logic.Function.Iterate
import WidthTrace.Trace.Run

/-!
# What a step of a trace does

A step that is not idle takes up a pending path, or deals with the arrival of the
path in progress in one of three ways: it meets the state kept at the address, it
stops at an address that shows no byte, or it executes an instruction. Each of
the four is described once, by the fields that it changes.
-/

namespace WidthTrace.Trace

/-- The arrivals that paths have come to and that have not been dealt with. -/
def outstanding (trace : Trace) : List Arrival :=
  trace.current.toList ++ trace.pending.toList

theorem mem_outstanding_iff {trace : Trace} {arrival other : Arrival}
    (present : trace.current = some arrival) :
    other ∈ trace.outstanding ↔ other = arrival ∨ other ∈ trace.pending.toList := by
  rw [outstanding, present]
  exact List.mem_cons

theorem mem_outstanding_of_current {trace : Trace} {arrival : Arrival}
    (present : trace.current = some arrival) : arrival ∈ trace.outstanding :=
  (mem_outstanding_iff present).mpr (.inl rfl)

theorem outstanding_enter (trace : Trace) (entry : Address) (state : CpuState) :
    (trace.enter entry state).outstanding = trace.outstanding ++ [⟨entry, state, entry⟩] := by
  rw [outstanding, outstanding, enter, Queue.toList_push, List.append_assoc]

/-- The trace with the path in progress given up. -/
def ended (trace : Trace) : Trace :=
  { trace with current := none }

/-- The four ways in which a trace goes on. -/
inductive Advance (image : Image) (trace : Trace) : Trace → Prop where
  | take {arrival : Arrival} {pending : Queue Arrival} (free : trace.current = none)
      (popped : trace.pending.pop? = some (arrival, pending)) :
      Advance image trace { trace with current := some arrival, pending }
  | meet {arrival : Arrival} {kept : CpuState} (present : trace.current = some arrival)
      (known : trace.visited[arrival.address]? = some kept) :
      Advance image trace (trace.ended.meet arrival kept)
  | stop {arrival : Arrival} (present : trace.current = some arrival)
      (fresh : trace.visited[arrival.address]? = none)
      (unreadable : Instruction.decode? image arrival.address arrival.state = none) :
      Advance image trace trace.ended
  | execute {arrival : Arrival} {instruction : Instruction}
      (present : trace.current = some arrival)
      (fresh : trace.visited[arrival.address]? = none)
      (decoded :
        Instruction.decode? image arrival.address arrival.state = some instruction) :
      Advance image trace (trace.ended.execute image instruction arrival)

theorem step_of_popped (image : Image) {trace : Trace} {arrival : Arrival}
    {pending : Queue Arrival} (free : trace.current = none)
    (popped : trace.pending.pop? = some (arrival, pending)) :
    trace.step image = { trace with current := some arrival, pending } := by
  rw [step, free, popped]

theorem step_of_known (image : Image) {trace : Trace} {arrival : Arrival} {kept : CpuState}
    (present : trace.current = some arrival)
    (known : trace.visited[arrival.address]? = some kept) :
    trace.step image = trace.ended.meet arrival kept := by
  simp only [step, present, arrive, known]
  rfl

theorem step_of_unreadable {image : Image} {trace : Trace} {arrival : Arrival}
    (present : trace.current = some arrival) (fresh : trace.visited[arrival.address]? = none)
    (unreadable : Instruction.decode? image arrival.address arrival.state = none) :
    trace.step image = trace.ended := by
  simp only [step, present, arrive, fresh, unreadable]
  rfl

theorem step_of_decoded {image : Image} {trace : Trace} {arrival : Arrival}
    {instruction : Instruction} (present : trace.current = some arrival)
    (fresh : trace.visited[arrival.address]? = none)
    (decoded : Instruction.decode? image arrival.address arrival.state = some instruction) :
    trace.step image = trace.ended.execute image instruction arrival := by
  simp only [step, present, arrive, fresh, decoded]
  rfl

theorem advance_step (image : Image) {trace : Trace} (busy : trace.isIdle = false) :
    Advance image trace (trace.step image) := by
  cases present : trace.current with
  | some arrival =>
      cases known : trace.visited[arrival.address]? with
      | some kept =>
          rw [step_of_known image present known]
          exact .meet present known
      | none =>
          cases decoded : Instruction.decode? image arrival.address arrival.state with
          | some instruction =>
              rw [step_of_decoded present known decoded]
              exact .execute present known decoded
          | none =>
              rw [step_of_unreadable present known decoded]
              exact .stop present known decoded
  | none =>
      cases popped : trace.pending.pop? with
      | some item =>
          rw [step_of_popped image present popped]
          exact .take present popped
      | none => simp [isIdle, present, popped] at busy

theorem step_of_isIdle (image : Image) {trace : Trace} (idle : trace.isIdle = true) :
    trace.step image = trace := by
  simp only [isIdle, Bool.and_eq_true, Option.isNone_iff_eq_none] at idle
  rw [step, idle.1, idle.2]

/-- What every advance preserves, a step preserves. -/
theorem step_preserves (image : Image) {trace : Trace} {motive : Trace → Prop}
    (holds : motive trace)
    (advance : ∀ next, Advance image trace next → motive next) :
    motive (trace.step image) := by
  cases idle : trace.isIdle with
  | true => rwa [step_of_isIdle image idle]
  | false => exact advance _ (advance_step image idle)

/-- What every step preserves, a run preserves. -/
theorem run_preserves (image : Image) {motive : Trace → Prop}
    (step : ∀ trace, motive trace → motive (trace.step image))
    {trace : Trace} (holds : motive trace) : motive (trace.run image) := by
  induction trace using run.induct image with
  | case1 trace idle => rwa [run_of_isIdle image idle]
  | case2 trace busy ih =>
      rw [← run_step]
      exact ih (step trace holds)

theorem run_iterate_step (image : Image) (count : Nat) (trace : Trace) :
    ((step image)^[count] trace).run image = trace.run image := by
  induction count generalizing trace with
  | zero => rfl
  | succ count ih => rw [Function.iterate_succ_apply, ih, run_step]

/-- A run is as many steps as it takes to have no path left. -/
theorem run_eq_iterate {image : Image} {trace : Trace} {count : Nat}
    (ends : ((step image)^[count] trace).isIdle = true) :
    trace.run image = (step image)^[count] trace := by
  rw [← run_iterate_step image count, run_of_isIdle image ends]

theorem isIdle_iff {trace : Trace} :
    trace.isIdle = true ↔ trace.current = none ∧ trace.pending.toList = [] := by
  simp [isIdle, Queue.pop?_eq_none_iff]

/-- A path that is taken up stays outstanding. -/
theorem outstanding_take {trace : Trace} {arrival : Arrival} {pending : Queue Arrival}
    (free : trace.current = none) (popped : trace.pending.pop? = some (arrival, pending)) :
    { trace with current := some arrival, pending }.outstanding = trace.outstanding := by
  rw [outstanding, outstanding, free, Queue.toList_of_pop? popped]
  rfl

theorem outstanding_meet (trace : Trace) (arrival : Arrival) (kept : CpuState) :
    (trace.ended.meet arrival kept).outstanding = trace.pending.toList := by
  rw [outstanding, current_meet, pending_meet]
  rfl

theorem outstanding_of_isIdle {trace : Trace} (idle : trace.isIdle = true) :
    trace.outstanding = [] := by
  obtain ⟨free, drained⟩ := isIdle_iff.mp idle
  rw [outstanding, free, drained]
  rfl

/-! ## The fields after each advance -/

theorem graph_meet (trace : Trace) (arrival : Arrival) (kept : CpuState) :
    (trace.meet arrival kept).graph = trace.graph := by
  unfold meet
  split <;> rfl

theorem findings_meet (trace : Trace) (arrival : Arrival) (kept : CpuState) :
    (trace.meet arrival kept).findings =
      if kept.compatible arrival.state || trace.isReported arrival.address then trace.findings
      else trace.findings.push (.stateMismatch arrival.address kept arrival.state) := by
  unfold meet
  split <;> rfl

theorem returns_meet (trace : Trace) (arrival : Arrival) (kept : CpuState) :
    (trace.meet arrival kept).returns = trace.returns := by
  unfold meet
  split <;> rfl

/-- The transfer that an instruction records when it is executed. -/
def transferOf (image : Image) (trace : Trace) (instruction : Instruction) (arrival : Arrival) :
    Option Transfer :=
  (instruction.transfer? image).map fun (kind, target) =>
    ⟨arrival.address, target, kind, arrival.routine,
      kind == .jump && (trace.graph.isEntry target || trace.graph.isCallTarget target)⟩

/-- The path that the transfer of an instruction starts. -/
def launch (image : Image) (instruction : Instruction) (arrival : Arrival) : Option Arrival :=
  (instruction.transfer? image).map fun (kind, target) =>
    ⟨target, Instruction.carried kind arrival.state,
      if kind = .call then target else arrival.routine⟩

/-- The path in progress after an instruction. -/
def onward (image : Image) (instruction : Instruction) (arrival : Arrival) : Option Arrival :=
  (instruction.continuation? image arrival.state).map fun (address, state) =>
    ⟨address, state, arrival.routine⟩

theorem graph_leave (image : Image) (trace : Trace) (instruction : Instruction)
    (arrival : Arrival) : (trace.leave image instruction arrival).graph = trace.graph := by
  unfold leave
  split <;> rfl

theorem pending_leave (image : Image) (trace : Trace) (instruction : Instruction)
    (arrival : Arrival) : (trace.leave image instruction arrival).pending = trace.pending := by
  unfold leave
  split <;> rfl

theorem findings_follow (image : Image) (trace : Trace) (instruction : Instruction)
    (arrival : Arrival) :
    (trace.follow image instruction arrival).findings = trace.findings := by
  unfold follow
  split <;> rfl

theorem returns_follow (image : Image) (trace : Trace) (instruction : Instruction)
    (arrival : Arrival) :
    (trace.follow image instruction arrival).returns = trace.returns := by
  unfold follow
  split <;> rfl

theorem pending_follow (image : Image) (trace : Trace) (instruction : Instruction)
    (arrival : Arrival) :
    (trace.follow image instruction arrival).pending.toList =
      trace.pending.toList ++ (launch image instruction arrival).toList := by
  unfold follow launch
  cases instruction.transfer? image with
  | none => simp
  | some transfer => simp

theorem graph_follow (image : Image) (trace : Trace) (instruction : Instruction)
    (arrival : Arrival) :
    (trace.follow image instruction arrival).graph =
      (transferOf image trace instruction arrival).elim trace.graph trace.graph.add := by
  unfold follow transferOf
  cases instruction.transfer? image <;> rfl

theorem current_execute (image : Image) (trace : Trace) (instruction : Instruction)
    (arrival : Arrival) :
    (trace.execute image instruction arrival).current = onward image instruction arrival := rfl

theorem pending_execute (image : Image) (trace : Trace) (instruction : Instruction)
    (arrival : Arrival) :
    (trace.execute image instruction arrival).pending.toList =
      trace.pending.toList ++ (launch image instruction arrival).toList := by
  simp only [execute, pending_follow, pending_leave]

theorem graph_execute (image : Image) (trace : Trace) (instruction : Instruction)
    (arrival : Arrival) :
    (trace.execute image instruction arrival).graph =
      (transferOf image trace instruction arrival).elim trace.graph trace.graph.add := by
  simp only [execute, graph_follow, transferOf, graph_leave]

theorem transfers_execute (image : Image) (trace : Trace) (instruction : Instruction)
    (arrival : Arrival) :
    (trace.execute image instruction arrival).graph.transfers.toList =
      trace.graph.transfers.toList ++
        (transferOf image trace instruction arrival).toList := by
  rw [graph_execute]
  cases transferOf image trace instruction arrival with
  | none => simp
  | some transfer => simp [CallGraph.add]

theorem findings_execute (image : Image) (trace : Trace) (instruction : Instruction)
    (arrival : Arrival) :
    (trace.execute image instruction arrival).findings =
      if instruction.effect = .returns then
        trace.findings ++
          (instruction.after image arrival.state).balanceFindings arrival.address
      else trace.findings := by
  simp only [execute, findings_follow, leave]
  split <;> rfl

theorem returns_execute (image : Image) (trace : Trace) (instruction : Instruction)
    (arrival : Arrival) :
    (trace.execute image instruction arrival).returns =
      if instruction.effect = .returns then
        trace.returns.push ⟨arrival.routine, arrival.address,
          instruction.after image arrival.state⟩
      else trace.returns := by
  simp only [execute, returns_follow, leave]
  split <;> rfl

/-- An advance leaves the call graph as it is, or records the transfer of the instruction that it
executes. -/
theorem graph_advance {image : Image} {trace next : Trace} (advance : Advance image trace next) :
    next.graph = trace.graph ∨
      ∃ arrival instruction transfer, trace.current = some arrival ∧
        transferOf image trace instruction arrival = some transfer ∧
        next.graph = trace.graph.add transfer := by
  cases advance with
  | take free popped => exact .inl rfl
  | meet present known => exact .inl (graph_meet _ _ _)
  | stop present fresh unreadable => exact .inl rfl
  | @execute arrival instruction present fresh decoded =>
      rw [graph_execute]
      cases transferred : transferOf image trace.ended instruction arrival with
      | none => exact .inl rfl
      | some transfer => exact .inr ⟨arrival, instruction, transfer, present, transferred, rfl⟩

end WidthTrace.Trace
