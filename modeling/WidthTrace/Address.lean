import WidthTrace.Text.Numeral

/-!
# Banked addresses

The console sees a 24-bit space of 256 banks of 64 KiB each. The program counter
wraps inside its bank, whereas a data read of several bytes carries into the next
bank; both kinds of step are defined here. Addresses are ordered by their 24-bit
value.
-/

namespace WidthTrace

/-- A bank and an offset inside it. -/
structure Address where
  bank : UInt8
  offset : UInt16
deriving DecidableEq, Hashable, Inhabited, Repr

namespace Address

/-- The number of addresses. -/
def count : Nat := 0x1000000

/-- The 24-bit value: the bank above the offset. -/
def raw (a : Address) : Nat :=
  a.bank.toNat * 0x10000 + a.offset.toNat

/-- The address whose 24-bit value is `n` without its higher bits. -/
def ofNat (n : Nat) : Address :=
  ⟨UInt8.ofNat (n / 0x10000), UInt16.ofNat n⟩

theorem raw_lt_count (a : Address) : a.raw < count := by
  have bank := a.bank.toNat_lt
  have offset := a.offset.toNat_lt
  simp only [raw, count] at *
  omega

theorem raw_ofNat (n : Nat) : (ofNat n).raw = n % count := by
  simp only [ofNat, raw, count, UInt8.toNat_ofNat', UInt16.toNat_ofNat']
  omega

theorem ofNat_raw (a : Address) : ofNat a.raw = a := by
  obtain ⟨bank, offset⟩ := a
  have bankBound := bank.toNat_lt
  have offsetBound := offset.toNat_lt
  simp only [ofNat, raw, mk.injEq]
  constructor
  · apply UInt8.toNat_inj.mp
    rw [UInt8.toNat_ofNat']
    omega
  · apply UInt16.toNat_inj.mp
    rw [UInt16.toNat_ofNat']
    omega

theorem raw_injective {a b : Address} (h : a.raw = b.raw) : a = b := by
  rw [← ofNat_raw a, h, ofNat_raw]

theorem raw_inj {a b : Address} : a.raw = b.raw ↔ a = b :=
  ⟨raw_injective, fun h => h ▸ rfl⟩

instance : Ord Address := ⟨fun a b => compare a.raw b.raw⟩

instance : Std.TransOrd Address where
  eq_swap := by
    intro a b
    exact Std.OrientedOrd.eq_swap (a := a.raw) (b := b.raw)
  isLE_trans := by
    intro a b c first second
    exact Std.TransOrd.isLE_trans (a := a.raw) (b := b.raw) (c := c.raw) first second

instance : Std.LawfulEqOrd Address where
  eq_of_compare := by
    intro a b h
    exact raw_injective (Nat.compare_eq_eq.mp h)

/-- The same bank at another offset. -/
def withOffset (a : Address) (offset : UInt16) : Address :=
  { a with offset }

/-- The address `n` bytes further on in the same bank, which wraps at its end. -/
def advance (a : Address) (n : UInt16) : Address :=
  a.withOffset (a.offset + n)

/-- The address at a signed distance in the same bank, which wraps at both ends. -/
def displace (a : Address) (distance : Int) : Address :=
  a.withOffset (a.offset + UInt16.ofInt distance)

/-- The following address, in the next bank after the last offset. -/
def next (a : Address) : Address :=
  ofNat (a.raw + 1)

def crossesBank (a b : Address) : Bool :=
  a.bank != b.bank

theorem toNat_offset_advance (a : Address) (n : UInt16) :
    (a.advance n).offset.toNat = (a.offset.toNat + n.toNat) % 0x10000 :=
  UInt16.toNat_add a.offset n

/-- The address whose three bytes are given, least significant first. -/
def ofBytes (low middle bank : UInt8) : Address :=
  ⟨bank, low.toUInt16 + middle.toUInt16 * 0x100⟩

theorem raw_ofBytes (low middle bank : UInt8) :
    (ofBytes low middle bank).raw = bank.toNat * 0x10000 + middle.toNat * 0x100 + low.toNat := by
  have lowBound := low.toNat_lt
  have middleBound := middle.toNat_lt
  have unit : (0x100 : UInt16).toNat = 0x100 := rfl
  simp only [raw, ofBytes, UInt16.toNat_add, UInt16.toNat_mul, UInt8.toNat_toUInt16, unit]
  omega

/-- The bytes of an address, least significant first, are those of its 24-bit value. -/
theorem ofBytes_eq_iff {low middle bank : UInt8} {a : Address} :
    ofBytes low middle bank = a ↔ low = UInt8.ofNat a.raw ∧
      middle = UInt8.ofNat (a.raw / 0x100) ∧ bank = UInt8.ofNat (a.raw / 0x10000) := by
  have lowBound := low.toNat_lt
  have middleBound := middle.toNat_lt
  have bankBound := bank.toNat_lt
  have bound := a.raw_lt_count
  simp only [← raw_inj, raw_ofBytes, ← UInt8.toNat_inj, UInt8.toNat_ofNat', count] at *
  omega

/-- A dollar sign and six hexadecimal digits. -/
def text (a : Address) : String :=
  "$" ++ Text.Numeral.paddedHex 6 a.raw

end Address

end WidthTrace
