import WidthTrace.Proofs.Stack.Depth
import WidthTrace.Proofs.Trace.Provenance
import WidthTrace.Proofs.Trace.Recorded

/-!
# Stack histories in a trace

The states that a trace holds are those kept at addresses, those of the paths that have not been
dealt with, and those recorded at returns. If the seeds have no history, every movement in the
history of a held state was made by an instruction that was traced at its own address, and no
address occurs twice: a loop in the code is left at the second arrival at an address. Hence the
depths are bounded by the number of traced addresses, and no sum leaves the range of a signed
number of 32 bits.
-/

namespace WidthTrace

namespace Instruction

theorem address_of_movement? {instruction : Instruction} {state : CpuState} {op : StackOp}
    (moves : instruction.movement? state = some op) : op.address = instruction.address := by
  obtain ⟨_, _, rfl⟩ := Option.map_eq_some_iff.mp moves
  rfl

theorem delta_of_movement? {instruction : Instruction} {state : CpuState} {op : StackOp}
    (moves : instruction.movement? state = some op) :
    op.delta = state.stackDelta op.mnemonic := by
  obtain ⟨_, _, rfl⟩ := Option.map_eq_some_iff.mp moves
  rfl

theorem sublist_movement? (instruction : Instruction) (state : CpuState) :
    ((instruction.movement? state).toList.map StackOp.address).Sublist [instruction.address] := by
  cases moves : instruction.movement? state with
  | none => exact List.nil_sublist _
  | some op =>
      rw [Option.toList_some, List.map_singleton, address_of_movement? moves]

theorem recorded_recordStack (instruction : Instruction) {state : CpuState}
    (recorded : state.Recorded) : (instruction.recordStack state).Recorded := by
  unfold recordStack
  split
  · exact recorded.record _ _
  · exact recorded

/-- An instruction records a movement or changes the widths. -/
theorem recorded_after (image : Image) (instruction : Instruction) {state : CpuState}
    (recorded : state.Recorded) : (instruction.after image state).Recorded := by
  have moved := instruction.recorded_recordStack recorded
  unfold after
  cases instruction.effect with
  | clearFlags | setFlags =>
      dsimp only
      split
      · exact recorded.resize _ _ _
      · exact recorded
  | restoreFlags => exact moved.resize _ _ _
  | exchangeMode => exact recorded.resize _ _ _
  | push | pull | call => exact moved
  | returns =>
      dsimp only
      split
      · exact moved.resize _ _ _
      · exact moved
  | plain | branch | branchAlways | jump | interrupt | halt => exact recorded

end Instruction

namespace Trace

/-! ## The states of a trace -/

/-- The state is kept at an address, belongs to a path that has not been dealt with, or was
recorded at a return. -/
inductive Holds (trace : Trace) : CpuState → Prop
  | kept {address : Address} {state : CpuState} (known : trace.visited[address]? = some state) :
      Holds trace state
  | underway {arrival : Arrival} (waiting : arrival ∈ trace.outstanding) :
      Holds trace arrival.state
  | returned {ret : Return} (recorded : ret ∈ trace.returns) : Holds trace ret.state

variable {image : Image} {seeds : List Seed} {trace : Trace} {address : Address}
  {kept state : CpuState} {instruction : Instruction}

/-- A kept state was brought to its address. -/
theorem Reachable.brought_of_known (reached : Reachable image seeds trace)
    (known : trace.visited[address]? = some kept) :
    Brought image seeds trace.visited address kept := by
  obtain ⟨start, initial, hops, declared, walk, _⟩ := reached.rooted address kept known
  cases walk with
  | start known => exact .seed declared
  | hop walk decoded handover known => exact .handed walk.known decoded handover

/-- A recorded return holds the state after a traced instruction. -/
theorem Reachable.after_of_mem_returns (reached : Reachable image seeds trace) {ret : Return}
    (recorded : ret ∈ trace.returns) :
    ∃ kept instruction, Traced image trace.visited ret.address kept instruction ∧
      ret.state = instruction.after image kept := by
  have listed : (ret.address, ret.state) ∈ trace.exits :=
    List.mem_map_of_mem (Array.mem_toList_iff.mpr recorded)
  obtain ⟨kept, instruction, traced, _, same⟩ := (reached.recorded.mem_exits _ _).mp listed
  exact ⟨kept, instruction, traced, same⟩

/-- What holds of the seeds, after every traced instruction and at the start of every called
routine, holds of the states of the trace. -/
theorem Reachable.holds_inherits {motive : CpuState → Prop}
    (seeded : ∀ seed ∈ seeds, motive seed.2)
    (after : ∀ {address kept instruction}, Traced image trace.visited address kept instruction →
      motive kept → motive (instruction.after image kept))
    (entered : ∀ {state : CpuState}, motive state → motive state.enterRoutine)
    (reached : Reachable image seeds trace) (held : trace.Holds state) : motive state := by
  have handed : ∀ {source target : Address} {kept state : CpuState} {instruction : Instruction}
      {edge : EdgeKind}, trace.visited[source]? = some kept →
      Instruction.decode? image source kept = some instruction →
      instruction.Handover image kept edge target state → motive kept → motive state := by
    intro source target kept state instruction edge known decoded handover holds
    cases handover with
    | fallthrough goesOn => exact after ⟨known, decoded⟩ holds
    | branch branches known => exact holds
    | jump jumps known => exact holds
    | call calls _ => exact entered (after ⟨known, decoded⟩ holds)
  cases held with
  | kept known => exact reached.inherits (motive := fun _ => motive) seeded handed known
  | underway waiting =>
      exact reached.inherits_of_brought (motive := fun _ => motive) seeded handed
        (reached.outstanding_brought _ waiting)
  | returned recorded =>
      obtain ⟨kept, instruction, traced, same⟩ := reached.after_of_mem_returns recorded
      rw [same]
      exact after traced
        (reached.inherits (motive := fun _ => motive) seeded handed traced.known)

/-! ## The movements in a history -/

/-- The movement was made by the instruction traced at its address, under the state kept there. -/
def Made (image : Image) (visited : AddressMap CpuState) (op : StackOp) : Prop :=
  ∃ kept instruction, Traced image visited op.address kept instruction ∧
    instruction.movement? kept = some op

section

variable (reached : Reachable image seeds trace) (fresh : ∀ seed ∈ seeds, seed.2.history = [])
include reached fresh

theorem Reachable.made (held : trace.Holds state) :
    ∀ op ∈ state.stackOps, Made image trace.visited op := by
  refine reached.holds_inherits
    (motive := fun state => ∀ op ∈ state.stackOps, Made image trace.visited op)
    ?seeded ?after ?entered held
  case seeded =>
    intro seed declared op listed
    rw [CpuState.stackOps, fresh seed declared] at listed
    cases listed
  case after =>
    intro address kept instruction traced holds op listed
    rw [Instruction.stackOps_after, List.mem_append, Option.mem_toList] at listed
    rcases listed with earlier | last
    · exact holds op earlier
    · have here : op.address = address :=
        (Instruction.address_of_movement? last).trans
          (Instruction.address_of_decode? traced.decoded)
      rw [← here] at traced
      exact ⟨kept, instruction, traced, last⟩
  case entered =>
    intro state _ op listed
    cases listed

theorem Reachable.recorded_of_holds (held : trace.Holds state) : state.Recorded := by
  refine reached.holds_inherits ?seeded ?after ?entered held
  case seeded =>
    rintro ⟨entry, m, x, emulation, history⟩ declared
    obtain rfl : history = [] := fresh _ declared
    exact .start m x emulation
  case after =>
    intro address kept instruction traced recorded
    exact instruction.recorded_after image recorded
  case entered =>
    intro state _
    exact .start _ _ _

end

/-- Along a walk from a state without history, movements are made in the order of the walk, at most
one at an address. -/
theorem Walk.sublist_addresses {visited : AddressMap CpuState} {start : Address}
    {initial : CpuState} {hops : List Hop}
    (walk : Walk image visited start initial hops address state) (fresh : initial.history = []) :
    (state.stackOps.map StackOp.address).Sublist (hops.map Hop.address) := by
  induction walk with
  | start known =>
      rw [CpuState.stackOps, fresh]
      exact .refl _
  | @hop hops address target state handed instruction edge walk decoded handover known ih =>
      by_cases calls : edge = .call
      · subst calls
        rw [handover.stackOps_of_call]
        exact List.nil_sublist _
      · have last := instruction.sublist_movement? state
        rw [Instruction.address_of_decode? decoded] at last
        rw [handover.stackOps calls, List.map_append, List.map_append]
        exact ih.append last

section

variable (reached : Reachable image seeds trace) (fresh : ∀ seed ∈ seeds, seed.2.history = [])
include reached fresh

/-- An instruction adds its movement to those made at other addresses. -/
theorem Reachable.nodup_after (traced : Traced image trace.visited address kept instruction) :
    ((instruction.after image kept).stackOps.map StackOp.address).Nodup := by
  obtain ⟨start, initial, hops, declared, walk, distinct⟩ := reached.rooted _ _ traced.known
  have earlier := walk.sublist_addresses (fresh _ declared)
  have last := instruction.sublist_movement? kept
  rw [Instruction.address_of_decode? traced.decoded] at last
  rw [Instruction.stackOps_after, List.map_append]
  exact distinct.sublist (earlier.append last)

theorem Reachable.nodup_addresses (held : trace.Holds state) :
    (state.stackOps.map StackOp.address).Nodup := by
  have ofBrought : ∀ {address state}, Brought image seeds trace.visited address state →
      (state.stackOps.map StackOp.address).Nodup := by
    intro address state brought
    cases brought with
    | seed declared =>
        rw [CpuState.stackOps, fresh _ declared]
        exact List.nodup_nil
    | @handed source kept instruction edge _ _ known decoded handover =>
        have distinct := reached.nodup_after fresh ⟨known, decoded⟩
        by_cases calls : edge = .call
        · subst calls
          rw [handover.stackOps_of_call]
          exact List.nodup_nil
        · rw [handover.stackOps calls, ← Instruction.stackOps_after image]
          exact distinct
  cases held with
  | kept known => exact ofBrought (reached.brought_of_known known)
  | underway waiting => exact ofBrought (reached.outstanding_brought _ waiting)
  | returned recorded =>
      obtain ⟨kept, instruction, traced, same⟩ := reached.after_of_mem_returns recorded
      rw [same]
      exact reached.nodup_after fresh traced

end

/-! ## The range of the depths -/

/-- The number is at most four times the number of traced addresses. Since there are `2 ^ 24`
addresses, it is a signed number of 32 bits. -/
structure InRange (visited : AddressMap CpuState) (n : Int) : Prop where
  byTraced : n.natAbs ≤ 4 * visited.size
  absolute : n.natAbs ≤ 2 ^ 26
  atLeast : Int32.minValue.toInt ≤ n
  atMost : n ≤ Int32.maxValue.toInt

theorem inRange_of_le {visited : AddressMap CpuState} {n : Int}
    (byTraced : n.natAbs ≤ 4 * visited.size) : InRange visited n := by
  have all : visited.size ≤ 2 ^ 24 := visited.size_le_count
  have absolute : n.natAbs ≤ 2 ^ 26 := by omega
  have least : Int32.minValue.toInt = -(2 ^ 31) := rfl
  have greatest : Int32.maxValue.toInt = 2 ^ 31 - 1 := rfl
  refine ⟨byTraced, absolute, ?_, ?_⟩
  · omega
  · omega

section

variable (reached : Reachable image seeds trace) (fresh : ∀ seed ∈ seeds, seed.2.history = [])
include reached fresh

theorem Reachable.visited_of_mem_stackOps (held : trace.Holds state) {op : StackOp}
    (listed : op ∈ state.stackOps) : op.address ∈ trace.visited := by
  obtain ⟨kept, _, traced, _⟩ := reached.made fresh held op listed
  exact AddressMap.mem_iff_exists.mpr ⟨kept, traced.known⟩

theorem Reachable.length_stackOps_le (held : trace.Holds state) :
    state.stackOps.length ≤ trace.visited.size := by
  rw [← List.length_map (f := StackOp.address)]
  apply AddressMap.length_le_size (reached.nodup_addresses fresh held)
  intro a listed
  obtain ⟨op, member, rfl⟩ := List.mem_map.mp listed
  exact reached.visited_of_mem_stackOps fresh held member

/-- No sum over movements of one history leaves the range. -/
theorem Reachable.balance_inRange (held : trace.Holds state) {summed : List StackOp}
    (chosen : summed.Sublist state.stackOps) :
    InRange trace.visited (Finding.balance summed) := by
  have recorded := reached.recorded_of_holds fresh held
  apply inRange_of_le
  calc (Finding.balance summed).natAbs
    _ ≤ 4 * summed.length :=
        Finding.natAbs_balance_le fun op listed => recorded.natAbs_delta_le (chosen.subset listed)
    _ ≤ 4 * state.stackOps.length := Nat.mul_le_mul_left 4 chosen.length_le
    _ ≤ 4 * trace.visited.size := Nat.mul_le_mul_left 4 (reached.length_stackOps_le fresh held)

end

/--
Let no seed have a history. Then in every state that a reachable trace holds, the movements of the
history were made at distinct traced addresses; each notes the sum of the movements up to it, and
the depth is the sum of all. No depth leaves the range, and neither does a sum on the way to the
balance of the movements inside the routine.
-/
theorem depths_stay_in_range (reached : Reachable image seeds trace)
    (fresh : ∀ seed ∈ seeds, seed.2.history = []) (held : trace.Holds state) :
    (state.stackOps.map StackOp.address).Nodup ∧
    (∀ op ∈ state.stackOps, op.address ∈ trace.visited) ∧
    (∀ before op after, state.stackOps = before ++ op :: after →
      op.depth = Finding.balance (before ++ [op])) ∧
    state.depth = Finding.balance state.stackOps ∧
    (∀ op ∈ state.stackOps, InRange trace.visited op.depth) ∧
    InRange trace.visited state.depth ∧
    ∀ summed, summed <+: state.localOps → InRange trace.visited (Finding.balance summed) := by
  have recorded := reached.recorded_of_holds fresh held
  refine ⟨reached.nodup_addresses fresh held, ?traced, ?depths, recorded.depth_eq, ?ops, ?depth,
    ?balances⟩
  case traced =>
    intro op listed
    exact reached.visited_of_mem_stackOps fresh held listed
  case depths =>
    intro before op after split
    exact recorded.depth_of_split split
  case ops =>
    intro op listed
    obtain ⟨before, after, split⟩ := List.append_of_mem listed
    rw [recorded.depth_of_split split]
    apply reached.balance_inRange fresh held
    rw [split]
    exact (List.singleton_sublist.mpr List.mem_cons_self).append_left before
  case depth =>
    rw [recorded.depth_eq]
    exact reached.balance_inRange fresh held (.refl _)
  case balances =>
    intro summed first
    exact reached.balance_inRange fresh held (first.sublist.trans List.filter_sublist)

/-- A loop that pushes the accumulator in every round, and a return behind it. -/
def pushLoopImage : Image :=
  ⟨⟨#[0x48, 0xD0, 0xFD, 0x60]⟩, .loRom⟩

theorem depth_in_pushLoopImage :
    let trace := history pushLoopImage [.explore ⟨0, 0x8000⟩ .native8]
    let state : CpuState := ⟨.known .byte, .known .byte, false,
      [⟨⟨0, 0x8003⟩, .rts, -2, -1⟩, ⟨⟨0, 0x8000⟩, .pha, 1, 1⟩]⟩
    trace.Holds state ∧ trace.visited.size = 3 ∧ (state.stackOps.map StackOp.address).Nodup ∧
    state.depth = Finding.balance state.stackOps ∧ InRange trace.visited state.depth := by
  intro trace state
  have stepped : trace = (step pushLoopImage)^[6] (empty.enter ⟨0, 0x8000⟩ .native8) :=
    run_eq_iterate (by decide +kernel)
  have recorded : ⟨⟨0, 0x8000⟩, ⟨0, 0x8003⟩, state⟩ ∈ trace.returns := by
    rw [stepped]
    decide +kernel
  have held : trace.Holds state := .returned recorded
  have fresh : ∀ seed ∈ Trace.seeds [.explore ⟨0, 0x8000⟩ .native8], seed.2.history = [] := by
    decide
  obtain ⟨distinct, _, _, depth, _, inRange, _⟩ :=
    depths_stay_in_range (reachable_history pushLoopImage _) fresh held
  refine ⟨held, ?_, distinct, depth, inRange⟩
  rw [stepped]
  decide +kernel

end Trace

end WidthTrace
