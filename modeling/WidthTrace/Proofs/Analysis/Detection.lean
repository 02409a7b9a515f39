import WidthTrace.Proofs.Analysis.HookSeeds
import WidthTrace.Proofs.Cartridge.Mapping
import WidthTrace.Proofs.Hook.Discovery
import WidthTrace.Proofs.Instruction.Banks

/-!
# Traced calls among the discovered hooks

The trace reads the operand of a long call in the bank of the call, whereas discovery
takes four bytes in a row from the cartridge. Up to the end of a bank these are the same
bytes. Past it there is nothing to read, unless `hiRom` shows the bank whole: then the
operand goes on at the start of the bank.
-/

namespace WidthTrace

/-- A long call at the address runs over the end of a bank that is shown whole. -/
def Mapping.CallWraps (mapping : Mapping) (source : Address) : Prop :=
  mapping = .hiRom ∧
    (0x40 ≤ source.bank.toNat ∧ source.bank.toNat ≤ 0x7D ∨ 0xC0 ≤ source.bank.toNat) ∧
    0xFFFC < source.offset.toNat

/-- Up to the end of a bank, the following addresses show the following bytes. -/
theorem Image.getElem?_of_byte?_advance {image : Image} {a : Address} {n : UInt16} {byte : UInt8}
    {linear : Nat} (shown : image.mapping.linear? a = some linear)
    (inside : a.offset.toNat + n.toNat < 0x10000) (read : image.byte? (a.advance n) = some byte) :
    image.bytes[linear + n.toNat]? = some byte := by
  obtain ⟨other, located, found⟩ := Image.byte?_eq_some_iff.mp read
  rw [Mapping.linear?_advance shown inside] at located
  cases located
  exact found

namespace Hook

variable {image : Image} {source target : Address}

/-- Where a long call runs over the end of its bank and its bytes are there all the same, the bank is
shown whole. -/
theorem callWraps_of_byte? {bank : UInt8} (beyond : 0xFFFC < source.offset.toNat)
    (third : image.byte? (source.advance 3) = some bank) : image.mapping.CallWraps source := by
  obtain ⟨linear, shown, _⟩ := Image.byte?_eq_some_iff.mp third
  have folded : (source.advance 3).offset.toNat < 0x8000 := by
    have bound := source.offset.toNat_lt
    have three : (3 : UInt16).toNat = 3 := rfl
    rw [Address.toNat_offset_advance, three]
    omega
  obtain ⟨hiRom, banks⟩ := Mapping.hiRom_of_linear? shown folded
  exact ⟨hiRom, banks, beyond⟩

/-- A long call whose bytes are read in its bank is one of four bytes in a row, unless it runs over
the end of a bank that is shown whole. -/
theorem exists_callsAt {low middle bank : UInt8} (opcode : image.byte? source = some longCall)
    (first : image.byte? (source.advance 1) = some low)
    (second : image.byte? (source.advance 2) = some middle)
    (third : image.byte? (source.advance 3) = some bank)
    (straight : ¬ image.mapping.CallWraps source) :
    ∃ position, CallsAt image.bytes position (.ofBytes low middle bank) := by
  obtain ⟨linear, shown, found⟩ := Image.byte?_eq_some_iff.mp opcode
  have inside : source.offset.toNat + (3 : UInt16).toNat < 0x10000 := by
    have three : (3 : UInt16).toNat = 3 := rfl
    by_contra beyond
    exact straight (callWraps_of_byte? (by omega) third)
  have before {n : UInt16} (short : n.toNat ≤ (3 : UInt16).toNat) :
      source.offset.toNat + n.toNat < 0x10000 :=
    Nat.lt_of_le_of_lt (Nat.add_le_add_left short _) inside
  obtain ⟨lowByte, middleByte, bankByte⟩ := Address.ofBytes_eq_iff.mp
    (rfl : Address.ofBytes low middle bank = _)
  refine ⟨linear, found, ?_, ?_, ?_⟩
  · rw [← lowByte]
    exact Image.getElem?_of_byte?_advance shown (before (by decide)) first
  · rw [← middleByte]
    exact Image.getElem?_of_byte?_advance shown (before (by decide)) second
  · rw [← bankByte]
    exact Image.getElem?_of_byte?_advance shown inside third

/-- The destination of a long call is what its three operand bytes name. -/
theorem controlTarget?_eq_some_iff {state : CpuState} {instruction : Instruction}
    (decoded : Instruction.decode? image source state = some instruction)
    (opcode : image.byte? source = some longCall) :
    instruction.controlTarget? image = some target ↔
      ∃ low middle bank, image.byte? (source.advance 1) = some low ∧
        image.byte? (source.advance 2) = some middle ∧
        image.byte? (source.advance 3) = some bank ∧ target = .ofBytes low middle bank := by
  have long : instruction.opcode.targetForm? = some .long := by
    rw [Instruction.byte?_of_decode? decoded, Option.some_inj] at opcode
    have form : Opcode.targetForm? ⟨longCall⟩ = some .long := by decide
    rwa [← opcode] at form
  rw [Instruction.controlTarget?, long, ← Instruction.address_of_decode? decoded]
  exact Instruction.operandLong?_eq_some_iff

end Hook

/-! ## One whole bank -/

theorem getElem?_mk (data : Array UInt8) (index : Nat) :
    (ByteArray.mk data)[index]? = data[index]? := by
  by_cases inside : index < data.size
  · rw [getElem?_pos (ByteArray.mk data) index inside, getElem?_pos data index inside]
    rfl
  · rw [getElem?_neg (ByteArray.mk data) index inside, getElem?_neg data index inside]

/-- A bank that is shown whole and holds returns, but for the given bytes. -/
def wholeBank (bytes : List (Nat × UInt8)) : Image :=
  ⟨⟨Array.ofFn fun index : Fin 0x10000 => (bytes.lookup index.val).getD 0x6B⟩, .hiRom⟩

theorem getElem?_wholeBank (bytes : List (Nat × UInt8)) (index : Nat) :
    (wholeBank bytes).bytes[index]? =
      if index < 0x10000 then some ((bytes.lookup index).getD 0x6B) else none := by
  rw [wholeBank, getElem?_mk, Array.getElem?_ofFn]
  rfl

/-- What is not a return is one of the given bytes. -/
theorem mem_of_getElem?_wholeBank {bytes : List (Nat × UInt8)} {index : Nat} {byte : UInt8}
    (read : (wholeBank bytes).bytes[index]? = some byte) (other : byte ≠ 0x6B) :
    (index, byte) ∈ bytes := by
  rw [getElem?_wholeBank, Option.ite_none_right_eq_some, Option.some_inj] at read
  cases found : bytes.lookup index with
  | none =>
      rw [found] at read
      exact absurd read.2.symm other
  | some value =>
      rw [found] at read
      obtain ⟨before, after, rfl, _⟩ := List.lookup_eq_some_iff.mp found
      rw [← read.2]
      exact List.mem_append_right _ List.mem_cons_self

theorem byte?_wholeBank (bytes : List (Nat × UInt8)) (offset : UInt16) :
    (wholeBank bytes).byte? ⟨0xC0, offset⟩ = some ((bytes.lookup offset.toNat).getD 0x6B) := by
  have shown : Mapping.hiRom.linear? ⟨0xC0, offset⟩ = some offset.toNat := by
    have bound := offset.toNat_lt
    simp [Mapping.linear?, Mapping.window?, Mapping.place, Mapping.windowSize]
  refine Image.byte?_eq_some_iff.mpr ⟨_, shown, ?_⟩
  rw [getElem?_wholeBank, if_pos offset.toNat_lt]

namespace Trace

/-- Where a long call is traced, the instruction is decoded. If it names its destination, and that
address has a name in the table, the address is among those of the discovered hooks, unless the call
runs over the end of a bank that is shown whole. -/
theorem traced_long_calls_are_discovered {image : Image} {seeds : List Seed} {trace : Trace}
    (reached : Reachable image seeds trace) {source : Address} {kept : CpuState}
    (known : trace.visited[source]? = some kept) (opcode : image.byte? source = some Hook.longCall)
    (symbols : SymbolTable) :
    ∃ instruction, Instruction.decode? image source kept = some instruction ∧
      ∀ target, instruction.controlTarget? image = some target →
        symbols.contains target = true → ¬ image.mapping.CallWraps source →
          ∃ hook ∈ Hook.discover image symbols, hook.address = target := by
  obtain ⟨instruction, decoded⟩ := reached.decodes known
  refine ⟨instruction, decoded, fun target named labeled straight => ?_⟩
  obtain ⟨low, middle, bank, first, second, third, rfl⟩ :=
    (Hook.controlTarget?_eq_some_iff decoded opcode).mp named
  have called := Hook.exists_callsAt opcode first second third straight
  exact List.mem_map.mp (Hook.mem_addresses_discover.mpr ⟨labeled, called⟩)

/-- An entry point in the whole bank is traced under its own state. -/
theorem known_wholeBank (bytes : List (Nat × UInt8)) (offset : UInt16) :
    (history (wholeBank bytes) [.explore ⟨0xC0, offset⟩ .native8]).visited[
      (⟨0xC0, offset⟩ : Address)]? = some .native8 := by
  have readable : ((wholeBank bytes).byte? ⟨0xC0, offset⟩).isSome = true := by
    rw [byte?_wholeBank]
    rfl
  exact known_explore rfl Std.TreeMap.getElem?_emptyc readable .native8

/-- A long call in the whole bank names what the three bytes after it do. -/
theorem controlTarget?_wholeBank {bytes : List (Nat × UInt8)} {offset : UInt16} {state : CpuState}
    {instruction : Instruction}
    (decoded : Instruction.decode? (wholeBank bytes) ⟨0xC0, offset⟩ state = some instruction)
    (opcode : (wholeBank bytes).byte? ⟨0xC0, offset⟩ = some Hook.longCall) :
    instruction.controlTarget? (wholeBank bytes) =
      some (.ofBytes ((bytes.lookup (offset + 1).toNat).getD 0x6B)
        ((bytes.lookup (offset + 2).toNat).getD 0x6B)
        ((bytes.lookup (offset + 3).toNat).getD 0x6B)) :=
  (Hook.controlTarget?_eq_some_iff decoded opcode).mpr
    ⟨_, _, _, byte?_wholeBank _ _, byte?_wholeBank _ _, byte?_wholeBank _ _, rfl⟩

/-- The only address that has a name. -/
def targetName : SymbolTable :=
  .ofList [(⟨0xC0, 0x0010⟩, "Target")]

/-- A long call in the last byte of a bank, with its operand in the first three. -/
def foldedCall : Image :=
  wholeBank [(0xFFFF, 0x22), (0, 0x10), (1, 0x00), (2, 0xC0)]

/-- The call is traced and names an address that has a name, but no four bytes in a row call any
address. -/
theorem traced_long_call_can_be_missed :
    (history foldedCall [.explore ⟨0xC0, 0xFFFF⟩ .native8]).visited[
      (⟨0xC0, 0xFFFF⟩ : Address)]? = some .native8 ∧
    foldedCall.byte? ⟨0xC0, 0xFFFF⟩ = some Hook.longCall ∧
    (∃ instruction, Instruction.decode? foldedCall ⟨0xC0, 0xFFFF⟩ .native8 = some instruction ∧
      instruction.controlTarget? foldedCall = some ⟨0xC0, 0x0010⟩) ∧
    targetName.contains ⟨0xC0, 0x0010⟩ = true ∧
    Hook.discover foldedCall targetName = [] := by
  have known := known_wholeBank [(0xFFFF, 0x22), (0, 0x10), (1, 0x00), (2, 0xC0)] 0xFFFF
  have opcode : foldedCall.byte? ⟨0xC0, 0xFFFF⟩ = some Hook.longCall := byte?_wholeBank _ 0xFFFF
  refine ⟨known, opcode, ?called, by decide +kernel, ?missed⟩
  case called =>
    obtain ⟨instruction, decoded⟩ := (reachable_history _ _).decodes known
    exact ⟨instruction, decoded, (controlTarget?_wholeBank decoded opcode).trans (by decide)⟩
  case missed =>
    rw [← List.map_eq_nil_iff, List.eq_nil_iff_forall_not_mem]
    intro target found
    obtain ⟨_, position, opcode, low, _⟩ := Hook.mem_addresses_discover.mp found
    have listed := mem_of_getElem?_wholeBank opcode (by decide)
    have last : position = 0xFFFF := by
      simpa [Hook.longCall] using listed
    rw [last, foldedCall, getElem?_wholeBank] at low
    cases low

/-- A long call in the last four bytes of a bank. -/
def lastCall : Image :=
  wholeBank [(0xFFFC, 0x22), (0xFFFD, 0x10), (0xFFFE, 0x00), (0xFFFF, 0xC0)]

theorem lastCall_is_discovered :
    (history lastCall [.explore ⟨0xC0, 0xFFFC⟩ .native8]).visited[
      (⟨0xC0, 0xFFFC⟩ : Address)]? = some .native8 ∧
    lastCall.byte? ⟨0xC0, 0xFFFC⟩ = some Hook.longCall ∧
    targetName.contains ⟨0xC0, 0x0010⟩ = true ∧
    ¬ lastCall.mapping.CallWraps ⟨0xC0, 0xFFFC⟩ ∧
    ∃ hook ∈ Hook.discover lastCall targetName, hook.address = ⟨0xC0, 0x0010⟩ := by
  have known := known_wholeBank
    [(0xFFFC, 0x22), (0xFFFD, 0x10), (0xFFFE, 0x00), (0xFFFF, 0xC0)] 0xFFFC
  have opcode : lastCall.byte? ⟨0xC0, 0xFFFC⟩ = some Hook.longCall := byte?_wholeBank _ 0xFFFC
  have labeled : targetName.contains ⟨0xC0, 0x0010⟩ = true := by decide +kernel
  have straight : ¬ lastCall.mapping.CallWraps ⟨0xC0, 0xFFFC⟩ := fun wraps =>
    absurd wraps.2.2 (by decide)
  obtain ⟨instruction, decoded, found⟩ :=
    traced_long_calls_are_discovered (reachable_history _ _) known opcode targetName
  have named : instruction.controlTarget? lastCall = some ⟨0xC0, 0x0010⟩ :=
    (controlTarget?_wholeBank decoded opcode).trans (by decide)
  exact ⟨known, opcode, labeled, straight, found _ named labeled straight⟩

end Trace

end WidthTrace
