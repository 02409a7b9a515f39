import WidthTrace.Address

/-!
# Cartridge mappings

A mapping says which addresses show which offset of the cartridge. The windows
of `loRom` hold 32 KiB and appear in the upper half of a bank; those of `hiRom`
hold 64 KiB, with their upper halves repeated in the system banks. Several
addresses may show one offset, of which `address?` names the canonical one.
-/

namespace WidthTrace

inductive Mapping where
  | loRom
  | hiRom
deriving DecidableEq, Inhabited, Repr

namespace Mapping

/-- Bytes in one window of the cartridge. -/
def windowSize : Mapping → Nat
  | .loRom => 0x8000
  | .hiRom => 0x10000

/-- Windows that the address space can show. -/
def windowCount : Nat := 0x40

/-- The window that an address looks into, if it looks at the cartridge at all. -/
def window? (mapping : Mapping) (a : Address) : Option Nat :=
  let bank := a.bank.toNat
  let upperHalf := 0x8000 ≤ a.offset.toNat
  match mapping with
  | .loRom =>
      if ¬ upperHalf then none
      else if bank < 0x40 then some bank
      else if bank < 0x80 then none
      else if bank < 0xC0 then some (bank - 0x80)
      else some (bank - 0xC0)
  | .hiRom =>
      if 0xC0 ≤ bank then some (bank - 0xC0)
      else if 0x40 ≤ bank ∧ bank < 0x7E then some (bank - 0x40)
      else if bank < 0x40 ∧ upperHalf then some bank
      else if 0x80 ≤ bank ∧ upperHalf then some (bank - 0x80)
      else none

/-- The place inside its window that an address shows. -/
def place (mapping : Mapping) (a : Address) : Nat :=
  a.offset.toNat % mapping.windowSize

/-- The cartridge offset that an address shows. -/
def linear? (mapping : Mapping) (a : Address) : Option Nat :=
  (mapping.window? a).map fun window => window * mapping.windowSize + mapping.place a

/-- The canonical address of a cartridge offset. -/
def address? (mapping : Mapping) (linear : Nat) : Option Address :=
  let window := linear / mapping.windowSize
  let place := linear % mapping.windowSize
  if windowCount ≤ window then none
  else match mapping with
    | .loRom => some ⟨UInt8.ofNat window, UInt16.ofNat (0x8000 + place)⟩
    | .hiRom => some ⟨UInt8.ofNat (0xC0 + window), UInt16.ofNat place⟩

def name : Mapping → String
  | .loRom => "lorom"
  | .hiRom => "hirom"

/-- A text that names no mapping. -/
structure UnknownMapping where
  text : String
deriving DecidableEq, Repr

def UnknownMapping.message (error : UnknownMapping) : String :=
  "Unknown mapping: " ++ error.text

/-- Reads a mapping's name without regard to the case of ASCII letters. -/
def ofText (text : String) : Except UnknownMapping Mapping :=
  match String.ofList (text.toList.map Char.toLower) with
  | "lorom" => .ok .loRom
  | "hirom" => .ok .hiRom
  | _ => .error ⟨text⟩

end Mapping

end WidthTrace
