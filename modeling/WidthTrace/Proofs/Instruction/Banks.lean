import WidthTrace.Proofs.Instruction.Extent
import WidthTrace.Proofs.Instruction.Handover

/-!
# Instructions that leave their bank

Going on, branching, and naming a target by two bytes all stay in the bank of the
instruction, whose offsets wrap at its end. Only a long call or jump names a bank
with its target.
-/

namespace WidthTrace

namespace Opcode

/-- The opcodes whose operand names a bank, with the kind of transfer that they make. -/
def longTable : List (Opcode × TransferKind) :=
  [(⟨0x22⟩, .call), (⟨0x5C⟩, .jump)]

theorem of_mem_longTable :
    ∀ entry ∈ longTable, entry.1.targetForm? = some .long ∧
      (entry.1.effect = .call ∧ entry.2 = .call ∨ entry.1.effect = .jump ∧ entry.2 = .jump) := by
  decide

theorem effect_of_targetForm? {opcode : Opcode} {form : TargetForm}
    (named : opcode.targetForm? = some form) : opcode.effect = .call ∨ opcode.effect = .jump := by
  unfold targetForm? at named
  split at named
  · exact .inl ‹_›
  · exact .inr ‹_›
  · cases named

theorem exists_mem_longTable {opcode : Opcode} (long : opcode.targetForm? = some .long) :
    ∃ entry ∈ longTable, entry.1 = opcode := by
  have transfers := effect_of_targetForm? long
  obtain ⟨byte⟩ := opcode
  unfold effect at transfers
  split at transfers <;> simp only [reduceCtorEq, or_self] at transfers
  all_goals
    rename_i code
    dsimp only at code
    subst code
    revert long
    decide

end Opcode

/-- The opcode at the source is that of a long call or jump, and the three bytes after it, read in
the bank of the source, name the target. -/
def Image.LongTransfer (image : Image) (source : Address) (kind : TransferKind)
    (target : Address) : Prop :=
  ∃ opcode low middle bank, image.byte? source = some opcode ∧
    (⟨opcode⟩, kind) ∈ Opcode.longTable ∧ image.byte? (source.advance 1) = some low ∧
    image.byte? (source.advance 2) = some middle ∧ image.byte? (source.advance 3) = some bank ∧
    target = .ofBytes low middle bank

theorem Image.LongTransfer.opcode {image : Image} {source target : Address} {kind : TransferKind}
    (long : image.LongTransfer source kind target) :
    image.byte? source = some 0x22 ∨ image.byte? source = some 0x5C := by
  obtain ⟨byte, _, _, _, shown, listed, _⟩ := long
  rw [shown]
  simp only [Opcode.longTable, List.mem_cons, Prod.mk.injEq, Opcode.mk.injEq, List.not_mem_nil,
    or_false] at listed
  exact listed.imp (fun call => congrArg some call.1) fun jump => congrArg some jump.1

theorem Image.LongTransfer.kind_ne_branch {image : Image} {source target : Address}
    {kind : TransferKind} (long : image.LongTransfer source kind target) : kind ≠ .branch := by
  obtain ⟨byte, _, _, _, _, listed, _⟩ := long
  rintro rfl
  simp [Opcode.longTable] at listed

namespace Instruction

theorem operandLong?_eq_some_iff {image : Image} {instruction : Instruction} {target : Address} :
    instruction.operandLong? image = some target ↔
      ∃ low middle bank, image.byte? (instruction.address.advance 1) = some low ∧
        image.byte? (instruction.address.advance 2) = some middle ∧
        image.byte? (instruction.address.advance 3) = some bank ∧
        target = .ofBytes low middle bank := by
  have read (index : Nat) : instruction.operandByte? image index =
      image.byte? (instruction.address.advance (UInt16.ofNat (1 + index))) := rfl
  simp only [operandLong?, read, bind, Option.bind_eq_some_iff, pure, Option.some.injEq]
  constructor
  · rintro ⟨low, first, middle, second, bank, third, rfl⟩
    exact ⟨low, middle, bank, first, second, third, rfl⟩
  · rintro ⟨low, middle, bank, first, second, third, rfl⟩
    exact ⟨low, first, middle, second, bank, third, rfl⟩

variable {image : Image} {address : Address} {state : CpuState} {instruction : Instruction}
  {kind : TransferKind} {target : Address}

theorem transfer?_of_longTransfer (decoded : decode? image address state = some instruction)
    (long : image.LongTransfer address kind target) :
    instruction.transfer? image = some (kind, target) := by
  obtain ⟨byte, low, middle, bank, shown, listed, named⟩ := long
  have opcode : instruction.opcode = ⟨byte⟩ := by
    rw [byte?_of_decode? decoded] at shown
    cases shown
    rfl
  rw [← opcode] at listed
  obtain ⟨form, transfers⟩ := Opcode.of_mem_longTable _ listed
  have control : instruction.controlTarget? image = some target := by
    rw [← address_of_decode? decoded] at named
    simp only [controlTarget?, form]
    exact operandLong?_eq_some_iff.mpr ⟨low, middle, bank, named⟩
  rcases transfers with ⟨calls, rfl⟩ | ⟨jumps, rfl⟩
  · have calls : instruction.effect = .call := calls
    simp only [transfer?, calls, control, Option.map_some]
  · have jumps : instruction.effect = .jump := jumps
    simp only [transfer?, jumps, control, Option.map_some]

/-- A target that is named in the code lies in the bank of the instruction, or is named by a long
operand. -/
theorem bank_of_controlTarget? (named : instruction.controlTarget? image = some target) :
    target.bank = instruction.address.bank ∨
      instruction.opcode.targetForm? = some .long ∧ instruction.operandLong? image = some target := by
  unfold controlTarget? at named
  split at named
  · obtain ⟨word, _, rfl⟩ := Option.map_eq_some_iff.mp named
    exact .inl rfl
  · exact .inr ⟨‹_›, named⟩
  · cases named
  · cases named

theorem bank_of_branchTarget? (named : instruction.branchTarget? image = some target) :
    target.bank = instruction.address.bank := by
  obtain ⟨distance, _, rfl⟩ := Option.map_eq_some_iff.mp named
  rfl

/-- A call or jump that names its target by a long operand is a long transfer. -/
theorem longTransfer_of_operandLong? (decoded : decode? image address state = some instruction)
    (form : instruction.opcode.targetForm? = some .long)
    (operand : instruction.operandLong? image = some target)
    (made : instruction.effect = .call ∧ kind = .call ∨ instruction.effect = .jump ∧ kind = .jump) :
    image.LongTransfer address kind target := by
  obtain ⟨⟨opcode, listedKind⟩, listed, rfl⟩ := Opcode.exists_mem_longTable form
  have same : listedKind = kind := by
    have effect := (Opcode.of_mem_longTable _ listed).2
    dsimp only at effect
    have made : instruction.opcode.effect = .call ∧ kind = .call ∨
      instruction.opcode.effect = .jump ∧ kind = .jump := made
    rcases made with ⟨calls, rfl⟩ | ⟨jumps, rfl⟩
    · rw [calls] at effect
      simpa using effect
    · rw [jumps] at effect
      simpa using effect
  subst same
  obtain ⟨low, middle, bank, named⟩ := operandLong?_eq_some_iff.mp operand
  rw [address_of_decode? decoded] at named
  exact ⟨_, low, middle, bank, byte?_of_decode? decoded, listed, named⟩

/-- A transfer stays in the bank of the instruction, or is a long one. -/
theorem bank_of_transfer? (decoded : decode? image address state = some instruction)
    (transferred : instruction.transfer? image = some (kind, target)) :
    target.bank = address.bank ∨ image.LongTransfer address kind target := by
  rw [← address_of_decode? decoded]
  unfold transfer? at transferred
  split at transferred
  · obtain ⟨_, named, same⟩ := Option.map_eq_some_iff.mp transferred
    cases same
    refine (bank_of_controlTarget? named).imp id fun ⟨form, operand⟩ => ?_
    rw [address_of_decode? decoded]
    exact longTransfer_of_operandLong? decoded form operand (.inl ⟨‹_›, rfl⟩)
  · obtain ⟨_, named, same⟩ := Option.map_eq_some_iff.mp transferred
    cases same
    refine (bank_of_controlTarget? named).imp id fun ⟨form, operand⟩ => ?_
    rw [address_of_decode? decoded]
    exact longTransfer_of_operandLong? decoded form operand (.inr ⟨‹_›, rfl⟩)
  · obtain ⟨_, named, same⟩ := Option.map_eq_some_iff.mp transferred
    cases same
    exact .inl (bank_of_branchTarget? named)
  · obtain ⟨_, named, same⟩ := Option.map_eq_some_iff.mp transferred
    cases same
    exact .inl (bank_of_branchTarget? named)
  · cases transferred

/-- An edge stays in the bank of the instruction, or is that of a long transfer. -/
theorem Handover.bank {edge : EdgeKind} {handed : CpuState}
    (decoded : decode? image address state = some instruction)
    (handover : instruction.Handover image state edge target handed) :
    target.bank = address.bank ∨ ∃ kind, image.LongTransfer address kind target := by
  rcases handover.cases_transfer with continued | ⟨kind, transferred, _⟩
  · left
    cases continuation?_eq_some_iff.mp continued
    rw [bank_next, address_of_decode? decoded]
  · exact (bank_of_transfer? decoded transferred).imp id fun long => ⟨kind, long⟩

end Instruction

end WidthTrace
