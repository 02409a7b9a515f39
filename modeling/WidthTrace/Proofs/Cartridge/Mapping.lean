import Mathlib.Data.Nat.Basic
import WidthTrace.Cartridge.Mapping

/-!
# Mappings are one to one up to mirrors

Each mapping shows the cartridge in a few regions of banks, window after window from
the first bank of the region. Every offset below the limit has one canonical address,
and two addresses show the same offset exactly if they lie at the same place in windows
of the same number.
-/

namespace WidthTrace

/-- Banks that show the windows of a cartridge one after the other, from a given offset on. -/
structure Region where
  base : Nat
  last : Nat
  start : Nat
deriving DecidableEq, Repr

namespace Region

def Holds (region : Region) (a : Address) : Prop :=
  region.base ≤ a.bank.toNat ∧ a.bank.toNat ≤ region.last ∧ region.start ≤ a.offset.toNat

instance (region : Region) (a : Address) : Decidable (region.Holds a) := by
  unfold Holds
  infer_instance

/-- The number of the window that the bank of an address shows. -/
def window (region : Region) (a : Address) : Nat :=
  a.bank.toNat - region.base

end Region

namespace Mapping

variable {mapping : Mapping} {region other : Region} {a b : Address} {linear : Nat}

def regions : Mapping → List Region
  | .loRom => [⟨0x00, 0x3F, 0x8000⟩, ⟨0x80, 0xBF, 0x8000⟩, ⟨0xC0, 0xFF, 0x8000⟩]
  | .hiRom => [⟨0xC0, 0xFF, 0⟩, ⟨0x40, 0x7D, 0⟩, ⟨0x00, 0x3F, 0x8000⟩, ⟨0x80, 0xBF, 0x8000⟩]

/-- The first bank of the canonical addresses. -/
def firstBank : Mapping → Nat
  | .loRom => 0x00
  | .hiRom => 0xC0

/-- Where the windows start in their banks. -/
def firstOffset : Mapping → Nat
  | .loRom => 0x8000
  | .hiRom => 0

/-- The bytes of a cartridge that can be shown. -/
def limit : Mapping → Nat
  | .loRom => 0x200000
  | .hiRom => 0x400000

/-- The canonical address of what an address shows. -/
def canonical? (mapping : Mapping) (a : Address) : Option Address :=
  (mapping.linear? a).bind mapping.address?

/-! ## Regions -/

theorem firstOffset_le_of_holds (listed : region ∈ mapping.regions) (held : region.Holds a) :
    mapping.firstOffset ≤ a.offset.toNat := by
  cases mapping with
  | hiRom => exact Nat.zero_le _
  | loRom =>
      have start : ∀ region ∈ regions .loRom, region.start = 0x8000 := by decide
      exact Nat.le_trans (Nat.le_of_eq (start region listed).symm) held.2.2

theorem window_lt_windowCount (listed : region ∈ mapping.regions) (held : region.Holds a) :
    region.window a < windowCount := by
  have short : ∀ mapping : Mapping, ∀ region ∈ mapping.regions,
      region.last < region.base + windowCount := by
    intro mapping
    cases mapping <;> decide
  have within := short mapping region listed
  have reached := held.2.1
  have counted : 0 < windowCount := by decide
  rw [Region.window]
  omega

theorem window?_eq_some_iff {window : Nat} :
    mapping.window? a = some window ↔
      ∃ region ∈ mapping.regions, region.Holds a ∧ window = region.window a := by
  have bank := a.bank.toNat_lt
  cases mapping
  all_goals
    simp only [window?, regions, List.mem_cons, List.not_mem_nil, or_false, exists_eq_or_imp,
      exists_eq_left, Region.Holds, Region.window]
    repeat' split
    all_goals simp only [Option.some.injEq, reduceCtorEq, false_iff]
    all_goals omega

/-- Below their start, windows show nothing. -/
theorem firstOffset_add_place (listed : region ∈ mapping.regions) (held : region.Holds a) :
    mapping.firstOffset + mapping.place a = a.offset.toNat := by
  have started := firstOffset_le_of_holds listed held
  have offset := a.offset.toNat_lt
  cases mapping <;> simp only [firstOffset, place, windowSize] at started ⊢ <;> omega

theorem place_lt_windowSize (mapping : Mapping) (a : Address) :
    mapping.place a < mapping.windowSize := by
  cases mapping <;> exact Nat.mod_lt _ (by decide)

/-! ## Both directions -/

theorem linear?_eq_some_iff :
    mapping.linear? a = some linear ↔ ∃ region ∈ mapping.regions, region.Holds a ∧
      linear = region.window a * mapping.windowSize + mapping.place a := by
  simp only [linear?, Option.map_eq_some_iff, window?_eq_some_iff]
  constructor
  · rintro ⟨_, ⟨region, listed, held, rfl⟩, rfl⟩
    exact ⟨region, listed, held, rfl⟩
  · rintro ⟨region, listed, held, rfl⟩
    exact ⟨_, ⟨region, listed, held, rfl⟩, rfl⟩

theorem div_windowSize_lt_iff :
    linear / mapping.windowSize < windowCount ↔ linear < mapping.limit := by
  cases mapping <;> exact Nat.div_lt_iff_lt_mul (by decide)

theorem address?_of_lt (below : linear < mapping.limit) :
    mapping.address? linear =
      some ⟨UInt8.ofNat (mapping.firstBank + linear / mapping.windowSize),
        UInt16.ofNat (mapping.firstOffset + linear % mapping.windowSize)⟩ := by
  have shown := Nat.not_le.mpr (div_windowSize_lt_iff.mpr below)
  cases mapping <;> simp [address?, shown, firstBank, firstOffset]

theorem isSome_address?_iff : (mapping.address? linear).isSome = true ↔ linear < mapping.limit := by
  constructor
  · intro shown
    rw [← div_windowSize_lt_iff]
    by_contra beyond
    simp [address?, Nat.not_lt.mp beyond] at shown
  · intro below
    rw [address?_of_lt below]
    rfl

/-- Banks and offsets of canonical addresses fit into their eight and sixteen bits. -/
theorem address?_eq_some_iff :
    mapping.address? linear = some a ↔ linear < mapping.limit ∧
      a.bank.toNat = mapping.firstBank + linear / mapping.windowSize ∧
      a.offset.toNat = mapping.firstOffset + linear % mapping.windowSize := by
  have fits (below : linear < mapping.limit) :
      mapping.firstBank + linear / mapping.windowSize < 0x100 ∧
        mapping.firstOffset + linear % mapping.windowSize < 0x10000 := by
    cases mapping <;> simp only [limit, firstBank, firstOffset, windowSize] at below ⊢ <;> omega
  constructor
  · intro shown
    have below := isSome_address?_iff.mp (Option.isSome_of_eq_some shown)
    obtain ⟨bank, offset⟩ := fits below
    rw [address?_of_lt below] at shown
    cases shown
    exact ⟨below, UInt8.toNat_ofNat_of_lt' bank, UInt16.toNat_ofNat_of_lt' offset⟩
  · rintro ⟨below, bank, offset⟩
    rw [address?_of_lt below, ← bank, ← offset, UInt8.ofNat_toNat, UInt16.ofNat_toNat]

/-- The region of the canonical addresses. -/
def canonicalRegion (mapping : Mapping) : Region :=
  ⟨mapping.firstBank, mapping.firstBank + (windowCount - 1), mapping.firstOffset⟩

theorem canonicalRegion_mem (mapping : Mapping) : mapping.canonicalRegion ∈ mapping.regions := by
  cases mapping <;> decide

theorem linear?_of_address? (shown : mapping.address? linear = some a) :
    mapping.linear? a = some linear := by
  obtain ⟨below, bank, offset⟩ := address?_eq_some_iff.mp shown
  have counted := div_windowSize_lt_iff.mpr below
  have held : mapping.canonicalRegion.Holds a := by
    rw [Region.Holds, canonicalRegion, bank, offset]
    exact ⟨Nat.le_add_right _ _, Nat.add_le_add_left (Nat.le_pred_of_lt counted) _,
      Nat.le_add_right _ _⟩
  have window : mapping.canonicalRegion.window a = linear / mapping.windowSize := by
    rw [Region.window, canonicalRegion, bank]
    exact Nat.add_sub_cancel_left _ _
  have place : mapping.place a = linear % mapping.windowSize := by
    have added := firstOffset_add_place mapping.canonicalRegion_mem held
    omega
  refine linear?_eq_some_iff.mpr ⟨_, mapping.canonicalRegion_mem, held, ?_⟩
  rw [window, place, Nat.div_add_mod']

theorem lt_limit_of_linear? (shown : mapping.linear? a = some linear) : linear < mapping.limit := by
  obtain ⟨region, listed, held, rfl⟩ := linear?_eq_some_iff.mp shown
  have window := window_lt_windowCount listed held
  have place := mapping.place_lt_windowSize a
  rw [← div_windowSize_lt_iff, Nat.div_lt_iff_lt_mul (by omega)]
  calc
    region.window a * mapping.windowSize + mapping.place a
        < (region.window a + 1) * mapping.windowSize := by
          rw [Nat.succ_mul]
          omega
    _ ≤ windowCount * mapping.windowSize := Nat.mul_le_mul_right _ window

theorem canonical_of_linear? (shown : mapping.linear? a = some linear) :
    ∃ canonical, mapping.address? linear = some canonical ∧
      mapping.linear? canonical = some linear := by
  obtain ⟨canonical, found⟩ :=
    Option.isSome_iff_exists.mp (isSome_address?_iff.mpr (lt_limit_of_linear? shown))
  exact ⟨canonical, found, linear?_of_address? found⟩

/-! ## Mirrors -/

theorem isSome_linear?_iff :
    (mapping.linear? a).isSome = true ↔ ∃ region ∈ mapping.regions, region.Holds a := by
  simp only [Option.isSome_iff_exists, linear?_eq_some_iff]
  constructor
  · rintro ⟨_, region, listed, held, _⟩
    exact ⟨region, listed, held⟩
  · rintro ⟨region, listed, held⟩
    exact ⟨_, region, listed, held, rfl⟩

theorem linear?_of_holds (listed : region ∈ mapping.regions) (held : region.Holds a) :
    mapping.linear? a =
      some (region.window a * mapping.windowSize + mapping.place a) :=
  linear?_eq_some_iff.mpr ⟨region, listed, held, rfl⟩

theorem linear?_eq_iff (listed : region ∈ mapping.regions) (held : region.Holds a)
    (otherListed : other ∈ mapping.regions) (otherHeld : other.Holds b) :
    mapping.linear? a = mapping.linear? b ↔
      a.offset = b.offset ∧ region.window a = other.window b := by
  have first := firstOffset_add_place listed held
  have second := firstOffset_add_place otherListed otherHeld
  have places : mapping.place a = mapping.place b ↔ a.offset = b.offset := by
    rw [← UInt16.toNat_inj]
    omega
  rw [linear?_of_holds listed held, linear?_of_holds otherListed otherHeld, Option.some_inj,
    ← places]
  have small := mapping.place_lt_windowSize a
  have otherSmall := mapping.place_lt_windowSize b
  constructor
  · intro same
    cases mapping <;> simp only [windowSize] at same small otherSmall <;> omega
  · rintro ⟨place, window⟩
    rw [place, window]

/-- Two addresses have one canonical address exactly if they show the same offset. -/
theorem canonical?_eq_iff (listed : region ∈ mapping.regions) (held : region.Holds a)
    (otherListed : other ∈ mapping.regions) (otherHeld : other.Holds b) :
    mapping.canonical? a = mapping.canonical? b ↔ mapping.linear? a = mapping.linear? b := by
  constructor
  · intro same
    have first := linear?_of_holds listed held
    have second := linear?_of_holds otherListed otherHeld
    obtain ⟨canonical, named, shown⟩ := canonical_of_linear? first
    obtain ⟨otherCanonical, otherNamed, otherShown⟩ := canonical_of_linear? second
    rw [canonical?, canonical?, first, second, Option.bind_some, Option.bind_some, named,
      otherNamed, Option.some_inj] at same
    rw [first, second, ← shown, ← otherShown, same]
  · intro same
    rw [canonical?, canonical?, same]

/-! ## Following addresses -/

/-- Up to the end of a bank, the following addresses show the following offsets. -/
theorem linear?_advance {n : UInt16} (shown : mapping.linear? a = some linear)
    (inside : a.offset.toNat + n.toNat < 0x10000) :
    mapping.linear? (a.advance n) = some (linear + n.toNat) := by
  obtain ⟨region, listed, held, rfl⟩ := linear?_eq_some_iff.mp shown
  have offset : (a.advance n).offset.toNat = a.offset.toNat + n.toNat :=
    (a.toNat_offset_advance n).trans (Nat.mod_eq_of_lt inside)
  have onward : region.Holds (a.advance n) :=
    ⟨held.1, held.2.1, offset ▸ Nat.le_add_right_of_le held.2.2⟩
  have first := firstOffset_add_place listed held
  have second := firstOffset_add_place listed onward
  have place : mapping.place (a.advance n) = mapping.place a + n.toNat := by omega
  rw [linear?_of_holds listed onward, place, ← Nat.add_assoc]
  rfl

/-- Only a bank that is shown whole shows something before the middle. -/
theorem hiRom_of_linear? (shown : mapping.linear? a = some linear)
    (low : a.offset.toNat < 0x8000) : mapping = .hiRom ∧
      (0x40 ≤ a.bank.toNat ∧ a.bank.toNat ≤ 0x7D ∨ 0xC0 ≤ a.bank.toNat) := by
  obtain ⟨region, listed, held, -⟩ := linear?_eq_some_iff.mp shown
  have whole : ∀ mapping : Mapping, ∀ region ∈ mapping.regions, 0x8000 ≤ region.start ∨
      mapping = .hiRom ∧ (0x40 ≤ region.base ∧ region.last ≤ 0x7D ∨ 0xC0 ≤ region.base) := by
    intro mapping
    cases mapping <;> decide
  obtain ⟨first, last, start⟩ := held
  rcases whole mapping region listed with upper | ⟨hiRom, banks⟩
  · omega
  · exact ⟨hiRom, by omega⟩

/--
Every offset below the limit has a canonical address, whose bank and offset are cut nowhere, and
which shows that offset. What an address shows lies below the limit, and its canonical address shows
the same. Addresses in the regions, and no others, show something. Two of them have the same
canonical address exactly if they show the same, and this exactly if they have the same offset and
lie in windows of the same number.
-/
theorem mapping_is_one_to_one_up_to_mirrors (mapping : Mapping) :
    (∀ linear, (mapping.address? linear).isSome = true ↔ linear < mapping.limit) ∧
    (∀ linear a, mapping.address? linear = some a → mapping.linear? a = some linear ∧
      a.bank.toNat = mapping.firstBank + linear / mapping.windowSize ∧
      a.offset.toNat = mapping.firstOffset + linear % mapping.windowSize) ∧
    (∀ a linear, mapping.linear? a = some linear → linear < mapping.limit ∧
      ∃ canonical, mapping.address? linear = some canonical ∧
        mapping.linear? canonical = some linear) ∧
    (∀ a, (mapping.linear? a).isSome = true ↔ ∃ region ∈ mapping.regions, region.Holds a) ∧
    ∀ a b, ∀ region ∈ mapping.regions, ∀ other ∈ mapping.regions, region.Holds a → other.Holds b →
      (mapping.linear? a = mapping.linear? b ↔ mapping.canonical? a = mapping.canonical? b) ∧
      (mapping.linear? a = mapping.linear? b ↔
        a.offset = b.offset ∧ region.window a = other.window b) := by
  refine ⟨fun _ => isSome_address?_iff, ?canonical, ?shown, fun _ => isSome_linear?_iff, ?mirrors⟩
  case canonical =>
    intro linear a named
    exact ⟨linear?_of_address? named, (address?_eq_some_iff.mp named).2⟩
  case shown =>
    intro a linear shown
    exact ⟨lt_limit_of_linear? shown, canonical_of_linear? shown⟩
  case mirrors =>
    intro a b region listed other otherListed held otherHeld
    exact ⟨(canonical?_eq_iff listed held otherListed otherHeld).symm,
      linear?_eq_iff listed held otherListed otherHeld⟩

/-- The upper half of a system bank mirrors the same half of a whole bank, and the last offset below
the limit has the last address. -/
theorem mirrors_of_hiRom :
    hiRom.canonical? ⟨0x81, 0x9234⟩ = hiRom.canonical? ⟨0x41, 0x9234⟩ ∧
    hiRom.linear? ⟨0x81, 0x9234⟩ ≠ hiRom.linear? ⟨0x41, 0x1234⟩ ∧
    hiRom.address? 0x3FFFFF = some ⟨0xFF, 0xFFFF⟩ ∧
    hiRom.linear? ⟨0xFF, 0xFFFF⟩ = some 0x3FFFFF ∧
    hiRom.address? 0x400000 = none := by
  obtain ⟨defined, canonical, _, _, mirrors⟩ := mapping_is_one_to_one_up_to_mirrors .hiRom
  have last : hiRom.address? 0x3FFFFF = some ⟨0xFF, 0xFFFF⟩ := by decide
  have half := mirrors ⟨0x81, 0x9234⟩
  refine ⟨?_, ?_, last, (canonical _ _ last).1, ?_⟩
  · have same := half ⟨0x41, 0x9234⟩ ⟨0x80, 0xBF, 0x8000⟩ (by decide) ⟨0x40, 0x7D, 0⟩ (by decide)
      (by decide) (by decide)
    exact same.1.mp (same.2.mpr (by decide))
  · have apart := half ⟨0x41, 0x1234⟩ ⟨0x80, 0xBF, 0x8000⟩ (by decide) ⟨0x40, 0x7D, 0⟩ (by decide)
      (by decide) (by decide)
    exact fun same => absurd (apart.2.mp same).1 (by decide)
  · rw [← Option.not_isSome_iff_eq_none, defined]
    decide

end Mapping

end WidthTrace
