import WidthTrace.Proofs.Trace.Origins

/-!
# The paths of tail calls

The path that a tail call starts belongs to the routine of the jump, but leads into
another routine. When it is taken up, nothing is left to be traced at its target: the
path ends there and leaves no trace. Hence what is recorded for a routine lies in the
code that the routine comes to without calls and without tail calls.
-/

namespace WidthTrace.Trace

/-- A routine comes to an address over traced instructions and its own branches and jumps, without
entering another routine by a call or a tail call. -/
inductive OwnCode (image : Image) (trace : Trace) (start : Address) : Address → Prop where
  | start : OwnCode image trace start start
  | onward {address : Address} {kept : CpuState} {instruction : Instruction}
      (before : OwnCode image trace start address)
      (traced : Traced image trace.visited address kept instruction)
      (goesOn : instruction.effect.endsBlock = false) : OwnCode image trace start instruction.next
  | follow {transfer : Transfer} (before : OwnCode image trace start transfer.source)
      (recorded : transfer ∈ trace.graph.transfers) (own : transfer.routine = start)
      (inside : transfer.isRoutineEdge = false) : OwnCode image trace start transfer.target

/-- Every transfer and every return lies in the code of the routine that it is recorded for, and so
does the path in progress as long as there is something to be traced. -/
structure Owned (image : Image) (trace : Trace) : Prop where
  transfers : ∀ transfer ∈ trace.graph.transfers,
    OwnCode image trace transfer.routine transfer.source
  returns : ∀ ret ∈ trace.returns, OwnCode image trace ret.routine ret.address
  current : ∀ arrival, trace.current = some arrival →
    OwnCode image trace arrival.routine arrival.address ∨ Handled image trace arrival.address

section

variable {image : Image} {trace next : Trace}

theorem OwnCode.mono (extended : AddressMap.Extends trace.visited next.visited)
    (recorded : ∀ transfer ∈ trace.graph.transfers, transfer ∈ next.graph.transfers)
    {start address : Address} (own : OwnCode image trace start address) :
    OwnCode image next start address := by
  induction own with
  | start => exact .start
  | onward before traced goesOn ih =>
      exact .onward ih ⟨extended _ _ traced.known, traced.decoded⟩ goesOn
  | follow before listed own inside ih => exact .follow ih (recorded _ listed) own inside

theorem mem_transfers_advance (advance : Advance image trace next) :
    ∀ transfer ∈ trace.graph.transfers, transfer ∈ next.graph.transfers := by
  intro transfer recorded
  rcases graph_advance advance with same | ⟨_, _, latest, _, _, grown⟩
  · rwa [same]
  · rw [grown]
    exact Array.mem_push_of_mem _ recorded

theorem OwnCode.advance (advance : Advance image trace next) {start address : Address}
    (own : OwnCode image trace start address) : OwnCode image next start address :=
  own.mono (extends_advance advance) (mem_transfers_advance advance)

/-- The path of an origin starts in the code of its routine, or it is the path of a tail call. -/
theorem Owned.ownCode_of_origin (owned : Owned image trace) {origin : Origin}
    (recorded : ∀ transfer, origin = .transfer transfer → transfer ∈ trace.graph.transfers) :
    OwnCode image trace origin.routine origin.target ∨ origin.isTailCall = true := by
  cases origin with
  | entry address => exact .inl .start
  | transfer transfer =>
      have listed := recorded transfer rfl
      have before := owned.transfers transfer listed
      cases kind : transfer.kind with
      | call =>
          left
          rw [Origin.routine, if_pos kind]
          exact .start
      | jump =>
          cases tailCall : transfer.tailCall with
          | true => exact .inr tailCall
          | false =>
              left
              rw [Origin.routine, if_neg (by rw [kind]; exact nofun)]
              exact .follow before listed rfl (by rw [Transfer.isRoutineEdge, kind, tailCall])
      | branch =>
          left
          rw [Origin.routine, if_neg (by rw [kind]; exact nofun)]
          exact .follow before listed rfl (by rw [Transfer.isRoutineEdge, kind])

/-- When the path of a tail call is next, nothing is left to be traced at its target. -/
theorem Queued.handled_of_tailCall {seeds : List Seed} {origin : Origin} {later : List Origin}
    (queued : Queued image seeds trace (origin :: later)) (tailCall : origin.isTailCall = true)
    (free : trace.current = none) : Handled image trace origin.target := by
  rcases queued.ordered.preceded.1 tailCall with handled | ⟨arrival, present, _⟩
  · exact handled
  · rw [free] at present
    cases present

/-- An instruction is traced only where something is left to be traced. -/
theorem not_handled {arrival : Arrival} {instruction : Instruction}
    (fresh : trace.visited[arrival.address]? = none)
    (decoded : Instruction.decode? image arrival.address arrival.state = some instruction) :
    ¬Handled image trace arrival.address := by
  rintro (member | unreadable)
  · obtain ⟨kept, known⟩ := AddressMap.mem_iff_exists.mp member
    rw [fresh] at known
    cases known
  · rw [Instruction.decode?_eq_none_iff.mpr unreadable] at decoded
    cases decoded

/-- The path that is taken up starts in the code of its routine, unless a tail call started it and
nothing is left to be traced. -/
theorem Owned.of_popped (owned : Owned image trace) {seeds : List Seed} {origins : List Origin}
    (queued : Queued image seeds trace origins) (free : trace.current = none) {arrival : Arrival}
    {pending : Queue Arrival} (popped : trace.pending.pop? = some (arrival, pending)) :
    OwnCode image trace arrival.routine arrival.address ∨ Handled image trace arrival.address := by
  obtain ⟨origin, later, rfl, address, routine⟩ := exists_origin_of_pop? queued.places popped
  rw [address, routine]
  have recorded : ∀ transfer, origin = .transfer transfer → transfer ∈ trace.graph.transfers := by
    rintro transfer rfl
    exact queued.ordered.recorded transfer List.mem_cons_self
  exact (owned.ownCode_of_origin recorded).imp_right fun tailCall =>
    queued.handled_of_tailCall tailCall free

theorem Owned.enter (owned : Owned image trace) (entry : Address) (state : CpuState) :
    Owned image (trace.enter entry state) := by
  have own {start address : Address} (before : OwnCode image trace start address) :
      OwnCode image (trace.enter entry state) start address := by
    have extended : AddressMap.Extends trace.visited (trace.enter entry state).visited := .refl _
    refine before.mono extended fun transfer recorded => ?_
    rwa [transfers_enter]
  refine ⟨fun transfer recorded => ?_, fun ret recorded => own (owned.returns ret recorded),
    fun arrival present => (owned.current arrival present).imp_left own⟩
  rw [transfers_enter] at recorded
  exact own (owned.transfers transfer recorded)

/-- The path in progress is not that of a tail call if an instruction is traced, so that what the
instruction records, and the path that goes on behind it, lie in the code of the routine. -/
theorem Owned.execute (owned : Owned image trace) {arrival : Arrival} {instruction : Instruction}
    (present : trace.current = some arrival) (fresh : trace.visited[arrival.address]? = none)
    (decoded : Instruction.decode? image arrival.address arrival.state = some instruction) :
    Owned image (trace.ended.execute image instruction arrival) := by
  have advance : Advance image trace (trace.ended.execute image instruction arrival) :=
    .execute present fresh decoded
  have ownBefore : OwnCode image trace arrival.routine arrival.address :=
    (owned.current arrival present).resolve_right (not_handled fresh decoded)
  have here : OwnCode image (trace.ended.execute image instruction arrival) arrival.routine
      arrival.address := ownBefore.advance advance
  constructor
  case transfers =>
    intro transfer recorded
    rw [graph_execute] at recorded
    cases noted : transferOf image trace.ended instruction arrival with
    | none =>
        rw [noted] at recorded
        exact (owned.transfers transfer recorded).advance advance
    | some latest =>
        rw [noted] at recorded
        rcases Array.mem_push.mp recorded with before | rfl
        · exact (owned.transfers transfer before).advance advance
        · obtain ⟨_, _, rfl⟩ := Option.map_eq_some_iff.mp noted
          exact here
  case returns =>
    intro ret recorded
    rw [returns_execute] at recorded
    split at recorded
    · rcases Array.mem_push.mp recorded with before | rfl
      · exact (owned.returns ret before).advance advance
      · exact here
    · exact (owned.returns ret recorded).advance advance
  case current =>
    intro started continued
    left
    rw [current_execute] at continued
    obtain ⟨⟨target, state⟩, found, rfl⟩ := Option.map_eq_some_iff.mp continued
    cases Instruction.continuation?_eq_some_iff.mp found with
    | fallthrough goesOn =>
        exact .onward here (traced_execute trace.ended decoded) goesOn

theorem Owned.advance (owned : Owned image trace) {seeds : List Seed} {origins : List Origin}
    (queued : Queued image seeds trace origins) (advance : Advance image trace next) :
    Owned image next := by
  have transfers (transfer : Transfer) (recorded : transfer ∈ trace.graph.transfers) :
      OwnCode image next transfer.routine transfer.source :=
    (owned.transfers transfer recorded).advance advance
  have returns (ret : Return) (recorded : ret ∈ trace.returns) :
      OwnCode image next ret.routine ret.address :=
    (owned.returns ret recorded).advance advance
  cases advance with
  | take free popped =>
      refine ⟨transfers, returns, fun arrival present => ?_⟩
      cases present
      exact (owned.of_popped queued free popped).imp_left (·.advance (.take free popped))
  | meet present known =>
      refine ⟨?_, ?_, ?_⟩
      · rwa [graph_meet]
      · rwa [returns_meet]
      · rw [current_meet]
        exact nofun
  | stop present fresh unreadable => exact ⟨transfers, returns, nofun⟩
  | execute present fresh decoded => exact owned.execute present fresh decoded

theorem Reachable.owned {seeds : List Seed} (reached : Reachable image seeds trace) :
    Owned image trace := by
  induction reached with
  | empty => exact ⟨nofun, nofun, nofun⟩
  | enter entry state before ih => exact ih.enter entry state
  | step before ih =>
      obtain ⟨origins, queued⟩ := before.queued
      exact step_preserves image ih fun next advance => ih.advance queued advance

/-- A path ends where nothing is left to be traced, without a trace of it. -/
theorem step_of_handled {arrival : Arrival} (present : trace.current = some arrival)
    (handled : Handled image trace arrival.address) :
    (trace.step image).current = none ∧ (trace.step image).pending = trace.pending ∧
      (trace.step image).visited = trace.visited ∧ (trace.step image).graph = trace.graph ∧
      (trace.step image).returns = trace.returns := by
  cases known : trace.visited[arrival.address]? with
  | some kept =>
      rw [step_of_known image present known]
      exact ⟨current_meet _ _ _, pending_meet _ _ _, visited_meet _ _ _, graph_meet _ _ _,
        returns_meet _ _ _⟩
  | none =>
      cases decoded : Instruction.decode? image arrival.address arrival.state with
      | none =>
          rw [step_of_unreadable present known decoded]
          exact ⟨rfl, rfl, rfl, rfl, rfl⟩
      | some instruction => exact absurd handled (not_handled known decoded)

theorem Reachable.kind_of_tailCall {seeds : List Seed} (reached : Reachable image seeds trace) :
    ∀ transfer ∈ trace.graph.transfers, transfer.tailCall = true → transfer.kind = .jump := by
  refine reached.invariant (motive := fun _ trace => ∀ transfer ∈ trace.graph.transfers,
    transfer.tailCall = true → transfer.kind = .jump) nofun ?enter ?advance
  case enter =>
    intro _ trace entry state holds
    rwa [transfers_enter]
  case advance =>
    intro _ trace next holds advance
    rcases graph_advance advance with same | ⟨arrival, instruction, latest, _, noted, grown⟩
    · rwa [same]
    · rw [grown]
      intro transfer recorded tailCall
      rcases Array.mem_push.mp recorded with before | rfl
      · exact holds transfer before tailCall
      · exact (tailCall_of_transferOf noted tailCall).1

end

/-- Every trace that can come about has a list of the origins of its pending paths. Whenever the
path of a tail call is next, its target was traced or shows no byte. The path is taken up there for
the routine of the jump and ends at once: no state is kept, no transfer and no return is recorded,
and no path is started. Hence every recorded transfer and return lies in the code that its routine
comes to without calls and tail calls. -/
theorem tailCall_paths_trace_nothing {image : Image} {seeds : List Seed} {trace : Trace}
    (reached : Reachable image seeds trace) :
    (∃ origins, Queued image seeds trace origins ∧
      trace.pending.toList.map Arrival.place = origins.map Origin.place) ∧
    (∀ jump later, Queued image seeds trace (.transfer jump :: later) → jump.tailCall = true →
      trace.current = none →
      jump ∈ trace.graph.transfers ∧ jump.kind = .jump ∧
      ∃ arrival pending, trace.pending.pop? = some (arrival, pending) ∧
        arrival.address = jump.target ∧ arrival.routine = jump.routine ∧
        (jump.target ∈ trace.visited ∨ image.byte? jump.target = none) ∧
        (trace.step image).current = some arrival ∧
        let dealt := (trace.step image).step image
        dealt.current = none ∧ dealt.pending = pending ∧ dealt.visited = trace.visited ∧
          dealt.graph = trace.graph ∧ dealt.returns = trace.returns) ∧
    (∀ transfer ∈ trace.graph.transfers, OwnCode image trace transfer.routine transfer.source) ∧
    ∀ ret ∈ trace.returns, OwnCode image trace ret.routine ret.address := by
  refine ⟨?origins, ?next, reached.owned.transfers, reached.owned.returns⟩
  case origins =>
    obtain ⟨origins, queued⟩ := reached.queued
    exact ⟨origins, queued, queued.places⟩
  case next =>
    intro jump later queued tailCall free
    have recorded := queued.ordered.recorded jump List.mem_cons_self
    have kind := reached.kind_of_tailCall jump recorded tailCall
    have handled := queued.handled_of_tailCall tailCall free
    obtain ⟨arrival, pending, popped, address, routine⟩ := queued.pop?
    rw [Origin.routine, if_neg (by rw [kind]; exact nofun)] at routine
    refine ⟨recorded, kind, arrival, pending, popped, address, routine, handled, ?_⟩
    rw [step_of_popped image free popped]
    have there : Handled image { trace with current := some arrival, pending } arrival.address := by
      rw [address]
      exact handled
    exact ⟨rfl, step_of_handled rfl there⟩

/-- A routine that calls a second one and then jumps to it. -/
def callAndJumpImage : Image :=
  ⟨⟨#[0x20, 0x06, 0x80, 0x4C, 0x06, 0x80, 0x60]⟩, .loRom⟩

/-- When the path of the jump is next, the path of the call has traced the return. -/
theorem tailCall_path_of_callAndJumpImage :
    let trace := (step callAndJumpImage)^[5] (empty.enter ⟨0, 0x8000⟩ .native8)
    let jump : Transfer := ⟨⟨0, 0x8003⟩, ⟨0, 0x8006⟩, .jump, ⟨0, 0x8000⟩, true⟩
    jump ∈ trace.graph.transfers ∧
    (∃ arrival pending, trace.pending.pop? = some (arrival, pending) ∧
      arrival.address = ⟨0, 0x8006⟩ ∧ arrival.routine = ⟨0, 0x8000⟩) ∧
    ((step callAndJumpImage)^[2] trace).returns = trace.returns ∧
    trace.returns ≠ #[] ∧
    ∀ ret ∈ trace.returns, OwnCode callAndJumpImage trace ret.routine ret.address := by
  intro trace jump
  have before : Queued callAndJumpImage _ _ _ := Queued.empty.enter ⟨0, 0x8000⟩ .native8
  have stepped := before.step.step.step.step.step
  have queued : Queued callAndJumpImage [(⟨0, 0x8000⟩, .native8)] trace [.transfer jump] := by
    refine Eq.subst (motive := fun origins => Queued callAndJumpImage _ trace origins) ?_ stepped
    decide +kernel
  have free : trace.current = none := by decide +kernel
  obtain ⟨_, next, _, returns⟩ := tailCall_paths_trace_nothing queued.reachable
  obtain ⟨recorded, _, arrival, pending, popped, address, routine, _, _, dealt⟩ :=
    next jump [] queued rfl free
  exact ⟨recorded, ⟨arrival, pending, popped, address, routine⟩, dealt.2.2.2.2, by decide +kernel,
    returns⟩

end WidthTrace.Trace
