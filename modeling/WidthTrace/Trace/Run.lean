import WidthTrace.Trace.Basic

/-!
# Running a trace to its end

A step either traces an address for the first time, of which there are finitely
many, or uses up an arrival without adding one. Hence every run ends.
-/

namespace WidthTrace.Trace

/-- The steps that the paths at hand can take without tracing anything new. -/
def workload (trace : Trace) : Nat :=
  2 * trace.pending.length + if trace.current.isSome then 1 else 0

/-- Steps decrease this pair lexicographically. -/
def measure (trace : Trace) : Nat × Nat :=
  (trace.visited.room, trace.workload)

abbrev Smaller (a b : Trace) : Prop :=
  Prod.Lex (· < ·) (· < ·) a.measure b.measure

theorem visited_follow (image : Image) (trace : Trace) (instruction : Instruction)
    (arrival : Arrival) : (trace.follow image instruction arrival).visited = trace.visited := by
  unfold follow
  split <;> rfl

theorem visited_leave (image : Image) (trace : Trace) (instruction : Instruction)
    (arrival : Arrival) : (trace.leave image instruction arrival).visited = trace.visited := by
  unfold leave
  split <;> rfl

theorem visited_execute (image : Image) (trace : Trace) (instruction : Instruction)
    (arrival : Arrival) :
    (trace.execute image instruction arrival).visited =
      trace.visited.insert arrival.address arrival.state := by
  simp only [execute, visited_follow, visited_leave]

theorem visited_meet (trace : Trace) (arrival : Arrival) (kept : CpuState) :
    (trace.meet arrival kept).visited = trace.visited := by
  unfold meet
  split <;> rfl

theorem pending_meet (trace : Trace) (arrival : Arrival) (kept : CpuState) :
    (trace.meet arrival kept).pending = trace.pending := by
  unfold meet
  split <;> rfl

theorem current_meet (trace : Trace) (arrival : Arrival) (kept : CpuState) :
    (trace.meet arrival kept).current = trace.current := by
  unfold meet
  split <;> rfl

theorem arrive_smaller (image : Image) {trace : Trace} {arrival : Arrival}
    (present : trace.current = some arrival) : (trace.arrive image arrival).Smaller trace := by
  unfold arrive
  dsimp only
  split
  · simp only [Smaller, measure, workload, visited_meet, pending_meet, current_meet, present]
    exact Prod.Lex.right _ (by simp)
  · rename_i missing
    have missing : arrival.address ∉ trace.visited := by simpa using missing
    split
    · apply Prod.Lex.left
      rw [visited_execute]
      exact AddressMap.room_insert_lt missing _
    · simp only [Smaller, measure, workload, present]
      exact Prod.Lex.right _ (by simp)

theorem step_smaller (image : Image) {trace : Trace} (busy : trace.isIdle = false) :
    (trace.step image).Smaller trace := by
  unfold step
  split
  · exact arrive_smaller image (by assumption)
  · rename_i ended
    split
    · rename_i arrival pending popped
      simp only [Smaller, measure, workload, ended, Queue.length_of_pop? popped]
      exact Prod.Lex.right _ (by simp; omega)
    · rename_i noPending
      simp [isIdle, ended, noPending] at busy

/-- Steps until no path is left. -/
def run (image : Image) (trace : Trace) : Trace :=
  if trace.isIdle then trace else run image (trace.step image)
termination_by trace.measure
decreasing_by exact step_smaller image (Bool.eq_false_iff.mpr ‹_›)

/-- Declares an entry point and follows every path from it. -/
def explore (image : Image) (trace : Trace) (entry : Address) (state : CpuState) : Trace :=
  (trace.enter entry state).run image

/-- Ends a trace: follows what is pending, marks the leaf routines, and reports the entry points
that were not reached. -/
def finish (image : Image) (trace : Trace) : Trace :=
  let trace := trace.run image
  let unreached := trace.graph.entries.filter fun entry => !trace.visited.contains entry
  { trace with
    graph := trace.graph.markLeaves
    findings := trace.findings ++ unreached.map Finding.unreachedEntry }

/-- The state in which an address was first reached. -/
def stateAt? (trace : Trace) (address : Address) : Option CpuState :=
  trace.visited[address]?

/-- The returns traced for a routine, in recorded order. -/
def returnsOf (trace : Trace) (routine : Address) : List Return :=
  trace.returns.toList.filter fun ret => ret.routine == routine

theorem run_of_isIdle (image : Image) {trace : Trace} (idle : trace.isIdle = true) :
    trace.run image = trace := by
  rw [run, if_pos idle]

theorem run_step (image : Image) (trace : Trace) :
    (trace.step image).run image = trace.run image := by
  cases idle : trace.isIdle with
  | false => rw [run.eq_def image trace, if_neg (by simp [idle])]
  | true =>
      simp only [isIdle, Bool.and_eq_true, Option.isNone_iff_eq_none] at idle
      rw [step, idle.1, idle.2]

theorem isIdle_run (image : Image) (trace : Trace) : (trace.run image).isIdle = true := by
  induction trace using run.induct image with
  | case1 trace idle => rwa [run_of_isIdle image idle]
  | case2 trace busy ih => rwa [run_step] at ih

end WidthTrace.Trace
