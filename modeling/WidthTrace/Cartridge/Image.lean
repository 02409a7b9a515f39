import WidthTrace.Cartridge.Mapping

/-!
# Cartridge images

The bytes of a cartridge together with the mapping that shows them. A read gives
nothing where an address shows no byte of the image.
-/

namespace WidthTrace

structure Image where
  bytes : ByteArray
  mapping : Mapping

namespace Image

/-- The offset that an address shows, if it lies inside the image. -/
def linear? (image : Image) (a : Address) : Option Nat :=
  (image.mapping.linear? a).filter (· < image.bytes.size)

def contains (image : Image) (a : Address) : Bool :=
  (image.linear? a).isSome

def byte? (image : Image) (a : Address) : Option UInt8 :=
  (image.mapping.linear? a).bind fun linear => image.bytes[linear]?

theorem byte?_eq_some_iff {image : Image} {a : Address} {byte : UInt8} :
    image.byte? a = some byte ↔
      ∃ linear, image.mapping.linear? a = some linear ∧ image.bytes[linear]? = some byte :=
  Option.bind_eq_some_iff

/-- Two bytes, least significant first; the second may lie in the next bank. -/
def word? (image : Image) (a : Address) : Option UInt16 := do
  let low ← image.byte? a
  let high ← image.byte? a.next
  return low.toUInt16 + high.toUInt16 * 0x100

/-- Three bytes read as an address, least significant first. -/
def long? (image : Image) (a : Address) : Option Address := do
  let low ← image.byte? a
  let middle ← image.byte? a.next
  let bank ← image.byte? a.next.next
  return .ofBytes low middle bank

end Image

/-- The hardware vectors that programs start from. -/
inductive HardwareVector where
  | reset
  | nmi
  | irq
deriving DecidableEq, Repr

namespace HardwareVector

/-- Every vector, in the order in which they are followed. -/
def all : List HardwareVector := [.reset, .nmi, .irq]

theorem mem_all (vector : HardwareVector) : vector ∈ all := by
  cases vector <;> decide

def location : HardwareVector → Address
  | .reset => ⟨0x00, 0xFFFC⟩
  | .nmi => ⟨0x00, 0xFFFA⟩
  | .irq => ⟨0x00, 0xFFEE⟩

end HardwareVector

/-- Where a vector points in bank zero; a zero word points nowhere. -/
def Image.vector? (image : Image) (vector : HardwareVector) : Option Address :=
  match image.word? vector.location with
  | none => none
  | some offset => if offset = 0 then none else some ⟨0x00, offset⟩

end WidthTrace
