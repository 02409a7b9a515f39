import WidthTrace.Instruction.Flow

/-!
# The bytes that an instruction depends on

Executing an instruction reads its operand bytes at most: what it does and where
it leads is the same in two images whose bytes agree on the extent of the
instruction. Images of one shape show bytes at the same addresses.
-/

namespace WidthTrace

namespace Image

/-- Both images have the same mapping and the same length. -/
structure SameShape (first second : Image) : Prop where
  mapping : second.mapping = first.mapping
  size : second.bytes.size = first.bytes.size

/-- At each of the addresses that shows a byte in the first image, the second shows the same. -/
def AgreesAt (first second : Image) (addresses : List Address) : Prop :=
  ∀ address ∈ addresses, (first.byte? address).isSome = true →
    second.byte? address = first.byte? address

instance (first second : Image) (addresses : List Address) :
    Decidable (AgreesAt first second addresses) := by
  unfold AgreesAt
  infer_instance

variable {first second : Image}

theorem SameShape.isSome_byte? (shape : SameShape first second) (address : Address) :
    (second.byte? address).isSome = (first.byte? address).isSome := by
  rw [byte?, byte?, shape.mapping]
  cases first.mapping.linear? address with
  | none => rfl
  | some linear =>
      rw [Bool.eq_iff_iff]
      simp only [Option.bind_some, isSome_getElem?, shape.size]

theorem SameShape.byte?_eq (shape : SameShape first second) {addresses : List Address}
    (agrees : AgreesAt first second addresses) {address : Address} (member : address ∈ addresses) :
    second.byte? address = first.byte? address := by
  cases readable : (first.byte? address).isSome with
  | true => exact agrees address member readable
  | false =>
      have missing := shape.isSome_byte? address
      rw [readable, Option.isSome_eq_false_iff, Option.isNone_iff_eq_none] at missing
      rw [Option.isSome_eq_false_iff, Option.isNone_iff_eq_none] at readable
      rw [missing, readable]

end Image

namespace Opcode

variable {opcode : Opcode}

/-- A destination that is named in the code is the whole operand. -/
theorem mode_of_targetForm? {form : TargetForm} (named : opcode.targetForm? = some form) :
    form = .absolute ∧ opcode.mode = .absolute ∨ form = .long ∧ opcode.mode = .long ∨
      form = .indirect := by
  unfold targetForm? at named
  split at named
  case h_3 => cases named
  all_goals
    split at named
    · cases named
      exact .inl ⟨rfl, ‹_›⟩
    · cases named
      exact .inr (.inl ⟨rfl, ‹_›⟩)
    · split at named <;> cases named
      exact .inr (.inr rfl)

/-- The mask that selects sizes is the whole operand. -/
theorem mode_of_mask (selects : opcode.effect = .clearFlags ∨ opcode.effect = .setFlags) :
    opcode.mode = .immediateByte := by
  obtain ⟨byte⟩ := opcode
  unfold effect at selects
  split at selects <;> simp only [reduceCtorEq, or_self] at selects
  all_goals
    rename_i code
    dsimp only at code
    subst code
    decide

end Opcode

namespace Instruction

/-- The addresses of the opcode and of the operand bytes, in the bank of the instruction. -/
def extent (instruction : Instruction) : List Address :=
  (List.range instruction.size).map fun index =>
    instruction.address.advance (UInt16.ofNat index)

theorem address_mem_extent (instruction : Instruction) :
    instruction.address ∈ instruction.extent := by
  refine List.mem_map.mpr ⟨0, List.mem_range.mpr ?_, ?_⟩
  · rw [size]
    omega
  · simp [Address.advance, Address.withOffset]

theorem byte?_of_decode? {image : Image} {address : Address} {state : CpuState}
    {instruction : Instruction} (decoded : decode? image address state = some instruction) :
    image.byte? address = some instruction.opcode.byte := by
  obtain ⟨byte, shown, rfl⟩ := Option.map_eq_some_iff.mp decoded
  exact shown

/-- The operand has the length that its mode asks for. -/
def WellSized (instruction : Instruction) : Prop :=
  ∃ m x, instruction.operandLength = instruction.opcode.mode.operandLength m x

theorem wellSized_of_decode? {image : Image} {address : Address} {state : CpuState}
    {instruction : Instruction} (decoded : decode? image address state = some instruction) :
    instruction.WellSized := by
  obtain ⟨byte, _, rfl⟩ := Option.map_eq_some_iff.mp decoded
  exact ⟨_, _, rfl⟩

/-- The operand bytes are the same in both images. -/
def SameOperand (first second : Image) (instruction : Instruction) : Prop :=
  ∀ index < instruction.operandLength,
    instruction.operandByte? second index = instruction.operandByte? first index

variable {first second : Image} {instruction : Instruction}

/-- What is decoded at an address depends on the opcode byte and on whether there is one. -/
theorem decode?_of_agreesAt (shape : Image.SameShape first second) {address : Address}
    {state : CpuState}
    (agrees : ∀ instruction, decode? first address state = some instruction →
      Image.AgreesAt first second instruction.extent) :
    decode? second address state = decode? first address state := by
  cases decoded : decode? first address state with
  | some instruction =>
      have member := instruction.address_mem_extent
      rw [address_of_decode? decoded] at member
      rw [← decoded, decode?, decode?, shape.byte?_eq (agrees instruction decoded) member]
  | none =>
      have missing := isSome_decode? second address state
      rw [shape.isSome_byte?, ← isSome_decode? first address state, decoded, Option.isSome_none,
        Option.isSome_eq_false_iff, Option.isNone_iff_eq_none] at missing
      exact missing

theorem sameOperand_of_agreesAt (shape : Image.SameShape first second)
    (agrees : Image.AgreesAt first second instruction.extent) :
    SameOperand first second instruction := by
  intro index inside
  apply shape.byte?_eq agrees
  refine List.mem_map.mpr ⟨1 + index, List.mem_range.mpr ?_, rfl⟩
  rw [size]
  omega

namespace SameOperand

variable (same : SameOperand first second instruction)

include same

theorem operandWord? (long : 2 ≤ instruction.operandLength) :
    instruction.operandWord? second = instruction.operandWord? first := by
  rw [Instruction.operandWord?, Instruction.operandWord?, same 0 (by omega), same 1 (by omega)]

theorem operandLong? (long : 3 ≤ instruction.operandLength) :
    instruction.operandLong? second = instruction.operandLong? first := by
  rw [Instruction.operandLong?, Instruction.operandLong?, same 0 (by omega), same 1 (by omega),
    same 2 (by omega)]

theorem maskByte? (sized : instruction.WellSized)
    (selects : instruction.effect = .clearFlags ∨ instruction.effect = .setFlags) :
    instruction.operandByte? second 0 = instruction.operandByte? first 0 := by
  obtain ⟨m, x, length⟩ := sized
  rw [Opcode.mode_of_mask selects] at length
  exact same 0 (Nat.le_of_eq length.symm)

theorem branchTarget? : instruction.branchTarget? second = instruction.branchTarget? first := by
  rw [Instruction.branchTarget?, Instruction.branchTarget?]
  congr 1
  unfold distance?
  split
  · rename_i length
    rw [same 0 (by omega)]
  · rename_i length
    rw [same.operandWord? (by omega)]
  · rfl

theorem controlTarget? (sized : instruction.WellSized) :
    instruction.controlTarget? second = instruction.controlTarget? first := by
  obtain ⟨m, x, length⟩ := sized
  rw [Instruction.controlTarget?, Instruction.controlTarget?]
  cases named : instruction.opcode.targetForm? with
  | none => rfl
  | some form =>
      rcases Opcode.mode_of_targetForm? named with ⟨rfl, mode⟩ | ⟨rfl, mode⟩ | rfl
      · rw [mode] at length
        dsimp only
        rw [same.operandWord? (Nat.le_of_eq length.symm)]
      · rw [mode] at length
        exact same.operandLong? (Nat.le_of_eq length.symm)
      · rfl

theorem after (sized : instruction.WellSized) (state : CpuState) :
    instruction.after second state = instruction.after first state := by
  unfold Instruction.after
  cases selects : instruction.effect with
  | clearFlags => rw [same.maskByte? sized (.inl selects)]
  | setFlags => rw [same.maskByte? sized (.inr selects)]
  | _ => rfl

theorem transfer? (sized : instruction.WellSized) :
    instruction.transfer? second = instruction.transfer? first := by
  rw [Instruction.transfer?, Instruction.transfer?, same.controlTarget? sized, same.branchTarget?]

theorem continuation? (sized : instruction.WellSized) (state : CpuState) :
    instruction.continuation? second state = instruction.continuation? first state := by
  rw [Instruction.continuation?, Instruction.continuation?, same.after sized]

end SameOperand

end Instruction

end WidthTrace
