import Std.Data.TreeMap
import Std.Data.TreeSet
import WidthTrace.Address

/-!
# Sets and maps of addresses

Both are kept in address order. Since there are finitely many addresses, a set or
map that misses one still has room, and adding it leaves less room: this is what
makes every search over addresses end.
-/

namespace WidthTrace

abbrev AddressSet := Std.TreeSet Address

abbrev AddressMap (α : Type) := Std.TreeMap Address α

namespace Address

theorem length_le_of_nodup_of_lt {bound : Nat} {values : List Nat} (distinct : values.Nodup)
    (below : ∀ n ∈ values, n < bound) : values.length ≤ bound := by
  induction bound generalizing values with
  | zero =>
      cases values with
      | nil => exact Nat.le_refl _
      | cons n _ => exact absurd (below n List.mem_cons_self) (Nat.not_lt_zero n)
  | succ bound ih =>
      have smaller : (values.erase bound).length ≤ bound := by
        apply ih (distinct.erase bound)
        intro n member
        have kept := (distinct.mem_erase_iff).mp member
        have := below n kept.2
        omega
      have := List.length_erase (a := bound) (l := values)
      split at this <;> omega

theorem length_le_of_nodup {addresses : List Address} (distinct : addresses.Nodup) :
    addresses.length ≤ count := by
  have values : (addresses.map raw).Nodup :=
    List.pairwise_map.mpr (distinct.imp fun different same => different (raw_injective same))
  have below : ∀ n ∈ addresses.map raw, n < count := by
    intro n member
    obtain ⟨a, _, rfl⟩ := List.mem_map.mp member
    exact a.raw_lt_count
  have bounded := length_le_of_nodup_of_lt values below
  rwa [List.length_map] at bounded

/-- The members of a list in address order, each once. -/
def sorted (addresses : List Address) : List Address :=
  (Std.TreeSet.ofList addresses).toList

theorem mem_sorted {a : Address} {addresses : List Address} :
    a ∈ sorted addresses ↔ a ∈ addresses := by
  simp [sorted]

end Address

namespace AddressMap

variable {α : Type}

theorem size_le_count (map : AddressMap α) : map.size ≤ Address.count := by
  rw [← Std.TreeMap.length_keys]
  exact Address.length_le_of_nodup Std.TreeMap.nodup_keys

/-- How many addresses the map misses. -/
def room (map : AddressMap α) : Nat :=
  Address.count - map.size

theorem room_insert_lt {map : AddressMap α} {a : Address} (missing : a ∉ map) (value : α) :
    room (map.insert a value) < room map := by
  have bound := size_le_count (map.insert a value)
  have grown : (map.insert a value).size = map.size + 1 := by
    rw [Std.TreeMap.size_insert, if_neg (by simpa using missing)]
  simp only [room]
  omega

end AddressMap

namespace AddressSet

theorem size_le_count (set : AddressSet) : set.size ≤ Address.count := by
  rw [← Std.TreeSet.length_toList]
  apply Address.length_le_of_nodup
  apply Std.TreeSet.distinct_toList.imp
  intro a b different same
  exact different (Std.LawfulEqCmp.compare_eq_iff_eq.mpr same)

/-- How many addresses the set misses. -/
def room (set : AddressSet) : Nat :=
  Address.count - set.size

theorem room_insert_lt {set : AddressSet} {a : Address} (missing : a ∉ set) :
    room (set.insert a) < room set := by
  have bound := size_le_count (set.insert a)
  have grown : (set.insert a).size = set.size + 1 := by
    rw [Std.TreeSet.size_insert, if_neg (by simpa using missing)]
  simp only [room]
  omega

end AddressSet

end WidthTrace
