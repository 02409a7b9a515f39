import Mathlib.Data.Set.Card
import WidthTrace.Proofs.Trace.Visited

/-!
# How long a trace runs and what it takes up

Every instruction that is traced uses up a readable address that was not traced
before, and starts at most one path. This bounds the steps of a run. Every path
that is started is either a seed or belongs to one recorded transfer, so that
once nothing is pending, as many paths were taken up as there are of both.
-/

namespace WidthTrace.Trace

/-- The addresses that show a byte and have not been traced. -/
def untraced (image : Image) (visited : AddressMap CpuState) : Set Address :=
  {address | (image.byte? address).isSome = true ∧ address ∉ visited}

theorem finite_addresses (addresses : Set Address) : addresses.Finite :=
  have := Address.finite
  Set.toFinite addresses

/-- A bound on the steps that are left to a trace. -/
noncomputable def weight (image : Image) (trace : Trace) : Nat :=
  3 * (untraced image trace.visited).ncard + trace.workload

/-! ## The length of a run -/

theorem not_mem_visited {visited : AddressMap CpuState} {address : Address}
    (fresh : visited[address]? = none) : address ∉ visited := by
  rw [Std.TreeMap.mem_iff_isSome_getElem?, fresh]
  exact Bool.false_ne_true

theorem ncard_untraced_insert_lt {image : Image} {visited : AddressMap CpuState}
    {address : Address} (fresh : address ∉ visited)
    (readable : (image.byte? address).isSome = true) (state : CpuState) :
    (untraced image (visited.insert address state)).ncard < (untraced image visited).ncard := by
  apply Set.ncard_lt_ncard _ (finite_addresses _)
  constructor
  · rintro other ⟨shown, missing⟩
    refine ⟨shown, fun member => missing ?_⟩
    rw [Std.TreeMap.mem_insert]
    exact .inr member
  · intro included
    obtain ⟨_, missing⟩ := included ⟨readable, fresh⟩
    exact missing Std.TreeMap.mem_insert_self

theorem length_pending_execute (image : Image) (trace : Trace) (instruction : Instruction)
    (arrival : Arrival) :
    (trace.execute image instruction arrival).pending.length =
      trace.pending.length + (launch image instruction arrival).toList.length := by
  rw [← Queue.length_toList, pending_execute, List.length_append, Queue.length_toList]

theorem workload_of_current_eq_some (trace : Trace) {arrival : Arrival}
    (present : trace.current = some arrival) :
    trace.workload = 2 * trace.pending.length + 1 := by
  rw [workload, present]
  rfl

theorem workload_of_current_eq_none (trace : Trace) (free : trace.current = none) :
    trace.workload = 2 * trace.pending.length := by
  rw [workload, free]
  rfl

theorem workload_le (trace : Trace) : trace.workload ≤ 2 * trace.pending.length + 1 := by
  unfold workload
  split <;> omega

theorem weight_advance_lt {image : Image} {trace next : Trace}
    (advance : Advance image trace next) : weight image next < weight image trace := by
  unfold weight
  cases advance with
  | @take arrival pending free popped =>
      have before := workload_of_current_eq_none trace free
      have after := workload_of_current_eq_some
        { trace with current := some arrival, pending } rfl
      have shorter := Queue.length_of_pop? popped
      dsimp only at after ⊢
      omega
  | @meet arrival kept present known =>
      have before := workload_of_current_eq_some trace present
      have after := workload_of_current_eq_none _ (current_meet trace.ended arrival kept)
      rw [pending_meet] at after
      rw [visited_meet]
      dsimp only [ended] at after ⊢
      omega
  | stop present fresh unreadable =>
      have before := workload_of_current_eq_some trace present
      have after := workload_of_current_eq_none trace.ended rfl
      dsimp only [ended] at after ⊢
      omega
  | @execute arrival instruction present fresh decoded =>
      have fewer := ncard_untraced_insert_lt (not_mem_visited fresh)
        (isSome_byte?_of_decode? decoded) arrival.state
      have before := workload_of_current_eq_some trace present
      have after := workload_le (trace.ended.execute image instruction arrival)
      have launched := Option.length_toList_le (o := launch image instruction arrival)
      rw [length_pending_execute] at after
      rw [visited_execute]
      dsimp only [ended] at after ⊢
      omega

theorem exists_iterate_isIdle (image : Image) (trace : Trace) :
    ∃ count ≤ weight image trace, ((step image)^[count] trace).isIdle = true := by
  induction bound : weight image trace using Nat.strong_induction_on generalizing trace with
  | _ bound ih =>
      cases idle : trace.isIdle with
      | true => exact ⟨0, Nat.zero_le _, idle⟩
      | false =>
          have shorter := weight_advance_lt (advance_step image idle)
          obtain ⟨count, few, ends⟩ := ih _ (bound ▸ shorter) (trace.step image) rfl
          refine ⟨count + 1, ?_, ?_⟩
          · omega
          · rwa [Function.iterate_succ_apply]

/-- Dealing with an arrival either gives up its path and leaves what is traced as it is, or traces
its address, which shows a byte and was not traced before. -/
theorem step_of_current_eq_some (image : Image) {trace : Trace} {arrival : Arrival}
    (present : trace.current = some arrival) :
    ((trace.step image).current = none ∧ (trace.step image).visited = trace.visited) ∨
      ((image.byte? arrival.address).isSome = true ∧ arrival.address ∉ trace.visited ∧
        (trace.step image).visited = trace.visited.insert arrival.address arrival.state) := by
  have busy : trace.isIdle = false := by
    rw [isIdle, present]
    rfl
  generalize reached : trace.step image = next
  have advance := advance_step image busy
  rw [reached] at advance
  cases advance with
  | take free popped =>
      rw [present] at free
      cases free
  | meet found known => exact .inl ⟨current_meet _ _ _, visited_meet _ _ _⟩
  | stop found fresh unreadable => exact .inl ⟨rfl, rfl⟩
  | execute found fresh decoded =>
      cases present.symm.trans found
      exact .inr ⟨isSome_byte?_of_decode? decoded, not_mem_visited fresh,
        visited_execute _ _ _ _⟩

/-! ## The paths that a run takes up -/

/-- The pending paths that a step takes up. -/
def takes (trace : Trace) : Nat :=
  if trace.current.isNone && trace.pending.pop?.isSome then 1 else 0

/-- The pending paths that a run takes up. -/
def taken (image : Image) (trace : Trace) : Nat :=
  if trace.isIdle then 0 else trace.takes + taken image (trace.step image)
termination_by trace.measure
decreasing_by exact step_smaller image (Bool.eq_false_iff.mpr ‹_›)

/-- The pending paths that are taken up for a request. -/
def Request.taken (image : Image) (trace : Trace) : Request → Nat
  | .enter _ _ => 0
  | .explore entry state => (trace.enter entry state).taken image
  | .run => trace.taken image

/-- The pending paths that are taken up for a sequence of requests. -/
def takenFor (image : Image) (trace : Trace) : List Request → Nat
  | [] => 0
  | request :: rest => request.taken image trace + takenFor image (trace.perform image request) rest

theorem length_launch (image : Image) (trace : Trace) (instruction : Instruction)
    (arrival : Arrival) :
    (launch image instruction arrival).toList.length =
      (transferOf image trace instruction arrival).toList.length := by
  unfold launch transferOf
  cases instruction.transfer? image <;> rfl

theorem size_transfers_execute (image : Image) (trace : Trace) (instruction : Instruction)
    (arrival : Arrival) :
    (trace.execute image instruction arrival).graph.transfers.size =
      trace.graph.transfers.size +
        (transferOf image trace instruction arrival).toList.length := by
  rw [← Array.length_toList, transfers_execute, List.length_append, Array.length_toList]

/-- An advance takes up a path, or starts as many as it records transfers. -/
theorem ledger_advance {image : Image} {trace next : Trace} (advance : Advance image trace next) :
    trace.takes + next.pending.length + trace.graph.transfers.size =
      trace.pending.length + next.graph.transfers.size := by
  unfold takes
  cases advance with
  | take free popped =>
      rw [free, popped, Queue.length_of_pop? popped]
      simp
      omega
  | meet present known =>
      rw [present, pending_meet, graph_meet]
      exact congrArg (· + _) (Nat.zero_add _)
  | stop present fresh unreadable =>
      rw [present]
      exact congrArg (· + _) (Nat.zero_add _)
  | @execute arrival instruction present fresh decoded =>
      rw [present, length_pending_execute, size_transfers_execute,
        length_launch image trace.ended]
      simp [ended]
      omega

theorem ledger_run (image : Image) (trace : Trace) :
    trace.taken image + (trace.run image).pending.length + trace.graph.transfers.size =
      trace.pending.length + (trace.run image).graph.transfers.size := by
  induction trace using run.induct image with
  | case1 trace idle => rw [taken, if_pos idle, run_of_isIdle image idle, Nat.zero_add]
  | case2 trace busy ih =>
      have step := ledger_advance (advance_step image (Bool.eq_false_iff.mpr busy))
      rw [run_step] at ih
      rw [taken, if_neg busy]
      omega

theorem size_transfers_enter (trace : Trace) (entry : Address) (state : CpuState) :
    (trace.enter entry state).graph.transfers.size = trace.graph.transfers.size :=
  congrArg Array.size (trace.graph.transfers_declare entry)

theorem ledger_perform (image : Image) (trace : Trace) (request : Request) :
    request.taken image trace + (trace.perform image request).pending.length +
        trace.graph.transfers.size =
      trace.pending.length + request.seed?.toList.length +
        (trace.perform image request).graph.transfers.size := by
  cases request with
  | enter entry state =>
      have transfers := size_transfers_enter trace entry state
      have pending : (trace.enter entry state).pending.length = trace.pending.length + 1 :=
        Queue.length_push _ _
      simp only [Request.taken, Request.seed?, perform, Option.toList_some, List.length_singleton]
      omega
  | explore entry state =>
      have transfers := size_transfers_enter trace entry state
      have pending : (trace.enter entry state).pending.length = trace.pending.length + 1 :=
        Queue.length_push _ _
      have ran := ledger_run image (trace.enter entry state)
      simp only [Request.taken, Request.seed?, perform, explore, Option.toList_some,
        List.length_singleton]
      omega
  | run =>
      have ran := ledger_run image trace
      simp only [Request.taken, Request.seed?, perform, Option.toList_none, List.length_nil]
      omega

/-- Over any requests, what is taken up or still pending in the end was pending before, or
declared, or started by a recorded transfer. -/
theorem ledger_requests (image : Image) (requests : List Request) (trace : Trace) :
    takenFor image trace requests + (requests.foldl (perform image) trace).pending.length +
        trace.graph.transfers.size =
      trace.pending.length + (seeds requests).length +
        (requests.foldl (perform image) trace).graph.transfers.size := by
  induction requests generalizing trace with
  | nil => simp [takenFor, seeds]
  | cons request rest ih =>
      have now := ledger_perform image trace request
      have later := ih (trace.perform image request)
      have declared : (seeds (request :: rest)).length =
          request.seed?.toList.length + (seeds rest).length := by
        rw [seeds, List.filterMap_cons]
        cases request.seed? with
        | none => exact (Nat.zero_add _).symm
        | some seed => exact Nat.add_comm _ 1
      rw [takenFor, List.foldl_cons, declared]
      omega

/-- Every run ends after a number of steps that is bounded by the readable addresses not yet
traced and by the paths at hand: each arrival that is dealt with ends its path or traces a new
readable address, of which there are finitely many. Once requests leave nothing pending, the paths
taken up for them are as many as the seeds and the recorded transfers. -/
theorem run_ends_with_exact_work (image : Image) :
    (∀ trace : Trace,
      ∃ count ≤ 3 * (untraced image trace.visited).ncard + trace.workload,
        ((step image)^[count] trace).isIdle = true ∧
          trace.run image = (step image)^[count] trace) ∧
    (∀ (trace : Trace) (arrival : Arrival), trace.current = some arrival →
      ((trace.step image).current = none ∧ (trace.step image).visited = trace.visited) ∨
        ((image.byte? arrival.address).isSome = true ∧ arrival.address ∉ trace.visited ∧
          (trace.step image).visited = trace.visited.insert arrival.address arrival.state)) ∧
    {address | (image.byte? address).isSome = true}.Finite ∧
    ∀ requests : List Request, (history image requests).pending.toList = [] →
      takenFor image empty requests =
        (seeds requests).length + (history image requests).graph.transfers.size := by
  refine ⟨?ends, ?goesOn, finite_addresses _, ?exact⟩
  case ends =>
    intro trace
    obtain ⟨count, few, ends⟩ := exists_iterate_isIdle image trace
    exact ⟨count, few, ends, run_eq_iterate ends⟩
  case goesOn =>
    intro trace arrival present
    exact step_of_current_eq_some image present
  case exact =>
    intro requests drained
    have ledger := ledger_requests image requests empty
    have nothing : (history image requests).pending.length = 0 := by
      rw [← Queue.length_toList, drained]
      rfl
    rw [history] at nothing ⊢
    rw [nothing] at ledger
    have fresh : empty.pending.length = 0 ∧ empty.graph.transfers.size = 0 := ⟨rfl, rfl⟩
    omega

/-- A loop of two instructions that is closed by a backward branch. -/
def loopImage : Image :=
  ⟨⟨#[0xEA, 0x82, 0xFC, 0xFF]⟩, .loRom⟩

theorem paths_taken_in_loopImage :
    ((empty.enter ⟨0, 0x8000⟩ .native8).step loopImage).current =
        some ⟨⟨0, 0x8000⟩, .native8, ⟨0, 0x8000⟩⟩ ∧
      (((empty.enter ⟨0, 0x8000⟩ .native8).step loopImage).step loopImage).visited =
        ((empty.enter ⟨0, 0x8000⟩ .native8).step loopImage).visited.insert
          ⟨0, 0x8000⟩ .native8 ∧
      (history loopImage [.explore ⟨0, 0x8000⟩ .native8]).pending.toList = [] ∧
      takenFor loopImage empty [.explore ⟨0, 0x8000⟩ .native8] = 2 := by
  have present : ((empty.enter ⟨0, 0x8000⟩ .native8).step loopImage).current =
      some ⟨⟨0, 0x8000⟩, .native8, ⟨0, 0x8000⟩⟩ := rfl
  have goesOn :
      (((empty.enter ⟨0, 0x8000⟩ .native8).step loopImage).step loopImage).current ≠ none := by
    decide +kernel
  have stepped : history loopImage [.explore ⟨0, 0x8000⟩ .native8] =
      (step loopImage)^[6] (empty.enter ⟨0, 0x8000⟩ .native8) := by
    change run _ _ = _
    rw [← run_iterate_step loopImage 6, run_of_isIdle]
    decide +kernel
  have drained : (history loopImage [.explore ⟨0, 0x8000⟩ .native8]).pending.toList = [] := by
    rw [stepped]
    decide +kernel
  have recorded :
      (history loopImage [.explore ⟨0, 0x8000⟩ .native8]).graph.transfers.size = 1 := by
    rw [stepped]
    decide +kernel
  obtain ⟨_, arrivals, _, work⟩ := run_ends_with_exact_work loopImage
  have traced := (arrivals _ _ present).resolve_left fun ended => goesOn ended.1
  have counted := work _ drained
  rw [recorded] at counted
  exact ⟨present, traced.2.2, drained, counted⟩

end WidthTrace.Trace
