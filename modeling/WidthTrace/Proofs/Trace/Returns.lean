import WidthTrace.Proofs.Instruction.Extent
import WidthTrace.Proofs.Trace.FixedPoint
import WidthTrace.Proofs.Trace.Recorded

/-!
# The returns of a trace

Executing a return leaves one entry in the list of its routine, and the stack is
judged by the state of that entry at the same time. Hence every traced return is
recorded exactly once, and what a trace says of the stack is exactly what the
recorded states say of it.
-/

namespace WidthTrace

/-- The opcodes that return from a routine, with their movements of the stack pointer. -/
def Opcode.returnTable : List (Opcode × StackMnemonic) :=
  [(⟨0x60⟩, .rts), (⟨0x6B⟩, .rtl), (⟨0x40⟩, .rti)]

theorem Opcode.exists_mem_returnTable {opcode : Opcode} (returns : opcode.effect = .returns) :
    ∃ mnemonic, (opcode, mnemonic) ∈ returnTable := by
  obtain ⟨byte⟩ := opcode
  unfold effect at returns
  split at returns <;> simp_all [returnTable]

theorem Opcode.of_mem_returnTable :
    ∀ entry ∈ returnTable,
      entry.1.effect = .returns ∧ StackMnemonic.ofOpcode? entry.1 = some entry.2 := by
  decide

/-- The state after a return: its movement is recorded, and a return from an interrupt takes both
widths from the stack. -/
def CpuState.returned (state : CpuState) (address : Address) (mnemonic : StackMnemonic) :
    CpuState :=
  if mnemonic = .rti then (state.record address mnemonic).restoreFlags
  else state.record address mnemonic

/-- The diagnostics of this kind judge the stack at a return. -/
def DiagnosticKind.judgesStack : DiagnosticKind → Bool
  | .stackImbalance | .unbalancedPair => true
  | _ => false

namespace Instruction

theorem after_of_mem_returnTable (image : Image) {instruction : Instruction}
    {mnemonic : StackMnemonic} (listed : (instruction.opcode, mnemonic) ∈ Opcode.returnTable)
    (state : CpuState) :
    instruction.after image state = state.returned instruction.address mnemonic := by
  obtain ⟨returns, moves⟩ := Opcode.of_mem_returnTable _ listed
  have returns : instruction.effect = .returns := returns
  simp only [after, returns, recordStack, moves, CpuState.returned, Option.some.injEq]

end Instruction

namespace Trace

/-! ## Recorded returns -/

theorem Reachable.nodup_exits {image : Image} {seeds : List Seed} {trace : Trace}
    (reached : Reachable image seeds trace) :
    (trace.returns.toList.map Return.address).Nodup := by
  have distinct := (log_exits image).nodup_map Prod.fst ?keyed ?single reached
  case keyed =>
    intro address kept instruction exit noted
    obtain ⟨_, same⟩ := List.mem_ite_nil_right.mp noted
    cases List.mem_singleton.mp same
    rfl
  case single =>
    intro address kept instruction
    split
    · exact Nat.le_refl 1
    · exact Nat.zero_le 1
  rw [exits, List.map_map] at distinct
  exact distinct

theorem mem_returnsOf {trace : Trace} {routine : Address} {ret : Return} :
    ret ∈ trace.returnsOf routine ↔ ret ∈ trace.returns.toList ∧ ret.routine = routine := by
  rw [returnsOf, List.mem_filter, beq_iff_eq]

theorem mem_exits_iff {trace : Trace} {address : Address} {state : CpuState} :
    (address, state) ∈ trace.exits ↔
      ∃ routine, ∃ ret ∈ trace.returnsOf routine, ret.address = address ∧ ret.state = state := by
  rw [exits, List.mem_map]
  simp only [mem_returnsOf, Prod.mk.injEq]
  constructor
  · rintro ⟨ret, recorded, here⟩
    exact ⟨ret.routine, ret, ⟨recorded, rfl⟩, here⟩
  · rintro ⟨_, ret, ⟨recorded, _⟩, here⟩
    exact ⟨ret, recorded, here⟩

/-- A recorded address stands once in the list of one routine and in no other list. -/
theorem count_returnsOf {trace : Trace}
    (distinct : (trace.returns.toList.map Return.address).Nodup) {routine : Address} {ret : Return}
    (recorded : ret ∈ trace.returnsOf routine) (other : Address) :
    ((trace.returnsOf other).map Return.address).count ret.address =
      if other = routine then 1 else 0 := by
  split
  · rename_i same
    subst same
    refine List.count_eq_one_of_mem ?_ (List.mem_map_of_mem recorded)
    exact distinct.sublist (List.filter_sublist.map _)
  · rename_i different
    refine List.count_eq_zero.mpr fun listed => different ?_
    obtain ⟨twin, recordedToo, here⟩ := List.mem_map.mp listed
    obtain ⟨twinListed, rfl⟩ := mem_returnsOf.mp recordedToo
    obtain ⟨retListed, rfl⟩ := mem_returnsOf.mp recorded
    rw [List.inj_on_of_nodup_map distinct twinListed retListed here]

/-! ## Judgements of the stack -/

/-- What the trace says of the stack is what the recorded states say of it, return by return. -/
theorem Reachable.judgements {image : Image} {seeds : List Seed} {trace : Trace}
    (reached : Reachable image seeds trace) :
    (trace.findings.toList.filter fun finding => finding.kind.judgesStack) =
      trace.returns.toList.flatMap fun ret => ret.state.balanceFindings ret.address := by
  refine Reachable.invariant
    (motive := fun _ trace =>
      (trace.findings.toList.filter fun finding => finding.kind.judgesStack) =
        trace.returns.toList.flatMap fun ret => ret.state.balanceFindings ret.address)
    rfl (fun _ _ _ _ holds => holds) ?advance reached
  intro _ trace next holds advance
  cases advance with
  | take free popped => exact holds
  | meet present known =>
      rw [findings_meet, returns_meet]
      split
      · exact holds
      · rw [Array.toList_push, List.filter_append]
        exact (List.append_nil _).trans holds
  | stop present fresh unreadable => exact holds
  | @execute arrival instruction present fresh decoded =>
      rw [findings_execute, returns_execute]
      split
      · have judges : ((instruction.after image arrival.state).balanceFindings
            arrival.address).filter (fun finding => finding.kind.judgesStack) =
            (instruction.after image arrival.state).balanceFindings arrival.address := by
          rw [List.filter_eq_self]
          intro finding member
          rcases kind_of_mem_balanceFindings member with kind | kind
          · rw [kind]
            rfl
          · rw [kind]
            rfl
        rw [Array.toList_appendList, List.filter_append, judges, Array.toList_push,
          List.flatMap_append, List.flatMap_singleton]
        exact congrArg (· ++ _) holds
      · exact holds

/-- At every moment of a trace, the lists of all routines together hold the traced returns, each of
them once and in one list, with the state that the return leads to from the one kept at its address.
What the trace says of the stack is what those states say of it. -/
theorem returns_are_recorded_and_judged_once {image : Image} {seeds : List Seed} {trace : Trace}
    (reached : Reachable image seeds trace) (name : Address → String) :
    (∀ address state,
      (∃ routine, ∃ ret ∈ trace.returnsOf routine, ret.address = address ∧ ret.state = state) ↔
        ∃ kept byte mnemonic, trace.visited[address]? = some kept ∧
          image.byte? address = some byte ∧ (⟨byte⟩, mnemonic) ∈ Opcode.returnTable ∧
          state = kept.returned address mnemonic) ∧
    (∀ routine, ∀ ret ∈ trace.returnsOf routine, ∀ other,
      ((trace.returnsOf other).map Return.address).count ret.address =
        if other = routine then 1 else 0) ∧
    ((trace.findings.toList.map (Finding.diagnostic name)).filter fun diagnostic =>
        diagnostic.kind.judgesStack) =
      trace.returns.toList.flatMap fun ret =>
        (ret.state.balanceFindings ret.address).map (Finding.diagnostic name) := by
  refine ⟨?recorded, ?once, ?judged⟩
  case recorded =>
    intro address state
    rw [← mem_exits_iff, reached.recorded.mem_exits]
    constructor
    · rintro ⟨kept, instruction, ⟨known, decoded⟩, returns, rfl⟩
      obtain ⟨mnemonic, listed⟩ := Opcode.exists_mem_returnTable returns
      refine ⟨kept, _, mnemonic, known, Instruction.byte?_of_decode? decoded, listed, ?_⟩
      rw [Instruction.after_of_mem_returnTable image listed,
        Instruction.address_of_decode? decoded]
    · rintro ⟨kept, byte, mnemonic, known, shown, listed, rfl⟩
      obtain ⟨instruction, decoded⟩ := reached.decodes known
      have opcode : instruction.opcode = ⟨byte⟩ := by
        rw [Instruction.byte?_of_decode? decoded] at shown
        cases shown
        rfl
      rw [← opcode] at listed
      refine ⟨kept, instruction, ⟨known, decoded⟩, (Opcode.of_mem_returnTable _ listed).1, ?_⟩
      rw [Instruction.after_of_mem_returnTable image listed,
        Instruction.address_of_decode? decoded]
  case once =>
    intro routine ret recorded other
    exact count_returnsOf reached.nodup_exits recorded other
  case judged =>
    rw [List.filter_map, ← List.map_flatMap, ← reached.judgements]
    rfl

/-- A routine that pushes the accumulator and leaves it there, on two ways out: one returns to a
caller, the other from an interrupt. -/
def twoExitsImage : Image :=
  ⟨⟨#[0x48, 0xF0, 0x01, 0x60, 0x40]⟩, .loRom⟩

theorem returns_of_twoExitsImage :
    let trace := history twoExitsImage [.explore ⟨0, 0x8000⟩ .native8]
    ∃ routine, ∃ ret ∈ trace.returnsOf routine, ret.address = ⟨0, 0x8004⟩ ∧
      ret.state = ⟨.unknown, .unknown, false,
        [⟨⟨0, 0x8004⟩, .rti, -4, -3⟩, ⟨⟨0, 0x8000⟩, .pha, 1, 1⟩]⟩ ∧
      ((trace.returnsOf routine).map Return.address).count ret.address = 1 := by
  intro trace
  have stepped : trace = (step twoExitsImage)^[6] (empty.enter ⟨0, 0x8000⟩ .native8) :=
    run_eq_iterate (by decide +kernel)
  have known : trace.visited[(⟨0, 0x8004⟩ : Address)]? =
      some ⟨.known .byte, .known .byte, false, [⟨⟨0, 0x8000⟩, .pha, 1, 1⟩]⟩ := by
    rw [stepped]
    decide +kernel
  obtain ⟨recorded, once, _⟩ := returns_are_recorded_and_judged_once
    (reachable_history twoExitsImage [.explore ⟨0, 0x8000⟩ .native8]) Address.text
  obtain ⟨routine, ret, listed, here, state⟩ := (recorded _ _).mpr
    ⟨_, 0x40, .rti, known, by decide +kernel, by decide, rfl⟩
  refine ⟨routine, ret, listed, here, state, ?_⟩
  rw [once routine ret listed routine, if_pos rfl]

end Trace

end WidthTrace
