import WidthTrace.Proofs.Trace.Finish

/-!
# The routines that returns are attributed to

A path is followed on behalf of a routine: a declared entry point or the target of
a recorded call. It stays inside the routine as long as it goes on, branches or
jumps, and a call starts a path of its own. Hence every return is recorded for a
routine from whose start it can be reached without entering another one by a call.
-/

namespace WidthTrace.Trace

/-- Execution comes from `start` to an address over traced instructions of one routine: on to the
following instruction, also past a call, and along branches and jumps. -/
inductive Within (image : Image) (visited : AddressMap CpuState) (start : Address) :
    Address → Prop where
  | start : Within image visited start start
  | step {source target : Address} {kept handed : CpuState} {instruction : Instruction}
      {edge : EdgeKind} (before : Within image visited start source)
      (traced : Traced image visited source kept instruction)
      (handover : instruction.Handover image kept edge target handed) (inside : edge ≠ .call) :
      Within image visited start target

theorem Within.mono {image : Image} {old new : AddressMap CpuState} {start address : Address}
    (extended : AddressMap.Extends old new) (within : Within image old start address) :
    Within image new start address := by
  induction within with
  | start => exact .start
  | step before traced handover inside ih =>
      exact .step ih ⟨extended _ _ traced.known, traced.decoded⟩ handover inside

/-- If a traced address is within a routine, so is the start of the routine. -/
theorem Within.start_known {image : Image} {visited : AddressMap CpuState} {start address : Address}
    {kept : CpuState} (within : Within image visited start address)
    (known : visited[address]? = some kept) : ∃ first, visited[start]? = some first := by
  induction within generalizing kept with
  | start => exact ⟨kept, known⟩
  | step before traced handover inside ih => exact ih traced.known

/-- A routine starts at the address: it is a declared entry point or the target of a recorded
call. -/
def IsStart (trace : Trace) (routine : Address) : Prop :=
  trace.graph.isEntry routine = true ∨ trace.graph.isCallTarget routine = true

theorem IsStart.enter {trace : Trace} {routine : Address} (starts : trace.IsStart routine)
    (entry : Address) (state : CpuState) : (trace.enter entry state).IsStart routine := by
  rcases starts with declared | called
  · exact .inl (CallGraph.isEntry_declare.mpr (.inl declared))
  · right
    rw [CallGraph.isCallTarget, transfers_enter]
    exact called

theorem isStart_enter (trace : Trace) (entry : Address) (state : CpuState) :
    (trace.enter entry state).IsStart entry :=
  .inl (CallGraph.isEntry_declare.mpr (.inr rfl))

theorem IsStart.advance {image : Image} {trace next : Trace} (advance : Advance image trace next)
    {routine : Address} (starts : trace.IsStart routine) : next.IsStart routine := by
  rcases graph_advance advance with same | ⟨_, _, transfer, _, _, recorded⟩
  · rw [IsStart, same]
    exact starts
  · rw [IsStart, recorded]
    refine starts.imp id fun called => ?_
    obtain ⟨call, member, calls⟩ := CallGraph.isCallTarget_iff.mp called
    exact CallGraph.isCallTarget_iff.mpr ⟨call, Array.mem_push_of_mem _ member, calls⟩

/-- The address lies within the routine that starts at `routine`. -/
structure Belongs (image : Image) (trace : Trace) (routine address : Address) : Prop where
  starts : trace.IsStart routine
  within : Within image trace.visited routine address

theorem Belongs.advance {image : Image} {trace next : Trace} (advance : Advance image trace next)
    {routine address : Address} (belongs : Belongs image trace routine address) :
    Belongs image next routine address :=
  ⟨belongs.starts.advance advance, belongs.within.mono (extends_advance advance)⟩

/-- A path that starts after an instruction stays in the routine, or is the path of a routine that
the instruction calls. -/
theorem routine_of_mem_started {image : Image} {instruction : Instruction}
    {arrival started : Arrival}
    (member : started ∈ (onward image instruction arrival).toList ++
      (launch image instruction arrival).toList) :
    (started.routine = arrival.routine ∧ ∃ edge, edge ≠ .call ∧
        instruction.Handover image arrival.state edge started.address started.state) ∨
      (started.routine = started.address ∧
        instruction.transfer? image = some (.call, started.address)) := by
  rw [List.mem_append, Option.mem_toList, Option.mem_toList] at member
  rcases member with continued | launched
  · obtain ⟨⟨target, handed⟩, found, rfl⟩ := Option.map_eq_some_iff.mp continued
    exact .inl ⟨rfl, .fallthrough, nofun, Instruction.continuation?_eq_some_iff.mp found⟩
  · obtain ⟨⟨kind, target⟩, transferred, rfl⟩ := Option.map_eq_some_iff.mp launched
    cases kind with
    | call => exact .inr ⟨rfl, transferred⟩
    | jump =>
        exact .inl ⟨rfl, .jump, nofun, Instruction.handover_of_transfer? transferred arrival.state⟩
    | branch =>
        exact .inl
          ⟨rfl, .branch, nofun, Instruction.handover_of_transfer? transferred arrival.state⟩

/-- Once a call is executed, its target is the start of a routine. -/
theorem isStart_execute {image : Image} {trace : Trace} {instruction : Instruction}
    {target : Address} (arrival : Arrival)
    (calls : instruction.transfer? image = some (.call, target)) :
    (trace.execute image instruction arrival).IsStart target := by
  right
  rw [graph_execute, transferOf, calls]
  exact CallGraph.isCallTarget_iff.mpr ⟨_, Array.mem_push_self, rfl, rfl⟩

/-- Every outstanding arrival and every return lies within the routine that it is attributed to. -/
structure Attributed (image : Image) (trace : Trace) : Prop where
  arrivals : ∀ arrival ∈ trace.outstanding,
    Belongs image trace arrival.routine arrival.address
  returns : ∀ ret ∈ trace.returns, Belongs image trace ret.routine ret.address

theorem Attributed.enter {image : Image} {trace : Trace} (attributed : Attributed image trace)
    (entry : Address) (state : CpuState) : Attributed image (trace.enter entry state) where
  arrivals := by
    intro arrival waiting
    rw [outstanding_enter] at waiting
    rcases List.mem_append.mp waiting with before | new
    · have belongs := attributed.arrivals arrival before
      exact ⟨belongs.starts.enter entry state, belongs.within⟩
    · cases List.mem_singleton.mp new
      exact ⟨isStart_enter trace entry state, .start⟩
  returns := by
    intro ret recorded
    have belongs := attributed.returns ret recorded
    exact ⟨belongs.starts.enter entry state, belongs.within⟩

theorem Attributed.advance {image : Image} {trace next : Trace}
    (attributed : Attributed image trace) (advance : Advance image trace next) :
    Attributed image next := by
  have kept (arrival : Arrival) (waiting : arrival ∈ trace.outstanding) :
      Belongs image next arrival.routine arrival.address :=
    (attributed.arrivals arrival waiting).advance advance
  have recorded (ret : Return) (member : ret ∈ trace.returns) :
      Belongs image next ret.routine ret.address :=
    (attributed.returns ret member).advance advance
  cases advance with
  | take free popped =>
      refine ⟨fun arrival waiting => kept arrival ?_, recorded⟩
      rwa [outstanding_take free popped] at waiting
  | meet present known =>
      refine ⟨fun arrival waiting => kept arrival ?_, fun ret member => recorded ret ?_⟩
      · rw [outstanding_meet] at waiting
        exact List.mem_append_right _ waiting
      · rwa [returns_meet] at member
  | stop present fresh unreadable =>
      exact ⟨fun arrival waiting => kept arrival (List.mem_append_right _ waiting), recorded⟩
  | @execute arrival instruction present fresh decoded =>
      have here : Belongs image (trace.ended.execute image instruction arrival) arrival.routine
          arrival.address := kept arrival (mem_outstanding_of_current present)
      have traced := traced_execute trace.ended decoded
      constructor
      · intro started waiting
        rcases mem_outstanding_execute.mp waiting with before | member
        · exact kept started (List.mem_append_right _ before)
        · rcases routine_of_mem_started member with ⟨same, edge, inside, handover⟩ | ⟨own, calls⟩
          · rw [same]
            exact ⟨here.starts, .step here.within traced handover inside⟩
          · rw [own]
            exact ⟨isStart_execute arrival calls, .start⟩
      · intro ret member
        rw [returns_execute] at member
        split at member
        · rcases Array.mem_push.mp member with before | rfl
          · exact recorded ret before
          · exact here
        · exact recorded ret member

theorem Reachable.attributed {image : Image} {seeds : List Seed} {trace : Trace}
    (reached : Reachable image seeds trace) : Attributed image trace := by
  refine Reachable.invariant (motive := fun _ trace => Attributed image trace)
    ?initial ?enter ?advance reached
  case initial => exact ⟨nofun, nofun⟩
  case enter =>
    intro _ trace entry state attributed
    exact attributed.enter entry state
  case advance =>
    intro _ trace next attributed advance
    exact attributed.advance advance

theorem belongs_of_mem_returns {image : Image} {requests : List Request} {ret : Return}
    (recorded : ret ∈ (finished image requests).returns) :
    Belongs image (finished image requests) ret.routine ret.address := by
  have belongs := (reachable_run_history image requests).attributed.returns ret recorded
  exact ⟨belongs.starts, belongs.within⟩

end WidthTrace.Trace
