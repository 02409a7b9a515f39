import WidthTrace.Instruction.Flow

/-!
# Edges out of an instruction

An instruction hands a state on along at most two edges. The relation says for
each kind of edge when it is there, where it leads, and with which state; it is
what `arrivals` lists.
-/

namespace WidthTrace

/-- The kinds of edges that lead from one instruction to another. -/
inductive EdgeKind where
  | fallthrough
  | branch
  | jump
  | call
deriving DecidableEq, Repr

namespace Instruction

/-- The instruction, executed under `state`, hands a state on to an address along an edge. -/
inductive Handover (image : Image) (instruction : Instruction) (state : CpuState) :
    EdgeKind → Address → CpuState → Prop where
  | fallthrough (goesOn : instruction.effect.endsBlock = false) :
      Handover image instruction state .fallthrough instruction.next
        (instruction.after image state)
  | branch {target : Address}
      (branches : instruction.effect = .branch ∨ instruction.effect = .branchAlways)
      (known : instruction.branchTarget? image = some target) :
      Handover image instruction state .branch target state
  | jump {target : Address} (jumps : instruction.effect = .jump)
      (known : instruction.controlTarget? image = some target) :
      Handover image instruction state .jump target state
  | call {target : Address} (calls : instruction.effect = .call)
      (known : instruction.controlTarget? image = some target) :
      Handover image instruction state .call target
        (instruction.after image state).enterRoutine

/-- Entering a routine forgets the movement that the call records. -/
theorem enterRoutine_after_of_call (image : Image) {instruction : Instruction}
    (calls : instruction.effect = .call) (state : CpuState) :
    (instruction.after image state).enterRoutine = state.enterRoutine := by
  simp only [after, calls, recordStack]
  split <;> rfl

theorem continuation?_eq_some_iff {image : Image} {instruction : Instruction} {state : CpuState}
    {target : Address} {handed : CpuState} :
    instruction.continuation? image state = some (target, handed) ↔
      Handover image instruction state .fallthrough target handed := by
  unfold continuation?
  constructor
  · intro continued
    split at continued
    · cases continued
    · cases continued
      exact .fallthrough (Bool.eq_false_iff.mpr ‹_›)
  · intro handover
    cases handover with
    | fallthrough goesOn => rw [goesOn, if_neg Bool.false_ne_true]

/-- The edge that a recorded transfer stands for. -/
def edgeOf : TransferKind → EdgeKind
  | .call => .call
  | .jump => .jump
  | .branch => .branch

theorem handover_of_transfer? {image : Image} {instruction : Instruction} {kind : TransferKind}
    {target : Address} (transferred : instruction.transfer? image = some (kind, target))
    (state : CpuState) :
    Handover image instruction state (edgeOf kind) target (carried kind state) := by
  unfold transfer? at transferred
  split at transferred
  · rename_i calls
    obtain ⟨_, known, same⟩ := Option.map_eq_some_iff.mp transferred
    cases same
    rw [carried, ← enterRoutine_after_of_call image calls]
    exact .call calls known
  · rename_i jumps
    obtain ⟨_, known, same⟩ := Option.map_eq_some_iff.mp transferred
    cases same
    exact .jump jumps known
  · rename_i branches
    obtain ⟨_, known, same⟩ := Option.map_eq_some_iff.mp transferred
    cases same
    exact .branch (.inl branches) known
  · rename_i branches
    obtain ⟨_, known, same⟩ := Option.map_eq_some_iff.mp transferred
    cases same
    exact .branch (.inr branches) known
  · cases transferred

/-- Every edge is the fallthrough or stands for the transfer of the instruction. -/
theorem Handover.cases_transfer {image : Image} {instruction : Instruction} {state : CpuState}
    {edge : EdgeKind} {target : Address} {handed : CpuState}
    (handover : Handover image instruction state edge target handed) :
    instruction.continuation? image state = some (target, handed) ∨
      ∃ kind, instruction.transfer? image = some (kind, target) ∧ handed = carried kind state := by
  cases handover with
  | fallthrough goesOn => exact .inl (continuation?_eq_some_iff.mpr (.fallthrough goesOn))
  | branch branches known =>
      right
      refine ⟨.branch, ?_, rfl⟩
      rcases branches with branches | branches
      · simp only [transfer?, branches, known, Option.map_some]
      · simp only [transfer?, branches, known, Option.map_some]
  | jump jumps known =>
      right
      refine ⟨.jump, ?_, rfl⟩
      simp only [transfer?, jumps, known, Option.map_some]
  | call calls known =>
      right
      refine ⟨.call, ?_, enterRoutine_after_of_call image calls state⟩
      simp only [transfer?, calls, known, Option.map_some]

theorem mem_arrivals {image : Image} {instruction : Instruction} {state : CpuState}
    {target : Address} {handed : CpuState} :
    (target, handed) ∈ instruction.arrivals image state ↔
      ∃ edge, Handover image instruction state edge target handed := by
  simp only [arrivals, List.mem_append, Option.mem_toList, List.mem_map]
  constructor
  · rintro (continued | ⟨⟨kind, destination⟩, transferred, same⟩)
    · exact ⟨_, continuation?_eq_some_iff.mp continued⟩
    · cases same
      exact ⟨_, handover_of_transfer? transferred state⟩
  · rintro ⟨edge, handover⟩
    rcases handover.cases_transfer with continued | ⟨kind, transferred, rfl⟩
    · exact .inl continued
    · exact .inr ⟨(kind, target), transferred, rfl⟩

end Instruction

end WidthTrace
