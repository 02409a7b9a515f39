import Mathlib.Data.List.Sort
import Mathlib.Data.Set.Finite.Basic
import WidthTrace.Address.Collection

/-!
# Laws of sets and maps of addresses

What membership and look-up give after insertions and removals, in terms of
equality of addresses; maps that extend others; sorted lists.
-/

namespace WidthTrace

instance asymm_compare {α : Type} [Ord α] [Std.OrientedOrd α] :
    Std.Asymm fun a b : α => compare a b = .lt where
  asymm a b less more := by
    have swapped : compare a b = (compare b a).swap := Std.OrientedOrd.eq_swap
    rw [less, more] at swapped
    cases swapped

theorem isLE_or_isLE {α : Type} (order : α → α → Ordering) [Std.OrientedCmp order] (a b : α) :
    ((order a b).isLE || (order b a).isLE) = true := by
  rw [Bool.or_eq_true, Classical.or_iff_not_imp_left]
  intro above
  exact Ordering.isLE_of_eq_lt (Std.OrientedCmp.lt_of_not_isLE above)

/-- Sorting leaves every member at or below the later ones. -/
theorem pairwise_mergeSort_isLE {α : Type} (order : α → α → Ordering) [Std.TransCmp order]
    (members : List α) :
    (members.mergeSort fun a b => (order a b).isLE).Pairwise
      fun a b => (order a b).isLE = true :=
  List.pairwise_mergeSort (fun _ _ _ => Std.TransCmp.isLE_trans) (isLE_or_isLE order) _

/-- Sorting a list without repeats leaves every member below the later ones. -/
theorem pairwise_mergeSort_compare {α : Type} [Ord α] [Std.TransOrd α] [Std.LawfulEqOrd α]
    {members : List α} (distinct : members.Nodup) :
    (members.mergeSort fun a b => (compare a b).isLE).Pairwise fun a b => compare a b = .lt := by
  have rising := pairwise_mergeSort_isLE compare members
  have still : (members.mergeSort fun a b => (compare a b).isLE).Nodup :=
    (List.mergeSort_perm _ _).nodup_iff.mpr distinct
  refine (rising.and still).imp ?_
  rintro a b ⟨upwards, different⟩
  cases Ordering.isLE_iff_eq_lt_or_eq_eq.mp upwards with
  | inl less => exact less
  | inr same => exact absurd (Std.LawfulEqCmp.eq_of_compare same) different

namespace Address

theorem finite : Finite Address :=
  Finite.of_injective (fun a : Address => (⟨a.raw, a.raw_lt_count⟩ : Fin count))
    fun _ _ same => raw_injective (Fin.mk.inj same)

theorem ordered_sorted (addresses : List Address) :
    (sorted addresses).Pairwise fun a b => compare a b = .lt :=
  Std.TreeSet.ordered_toList

theorem sorted_perm {addresses : List Address} (distinct : addresses.Nodup) :
    (sorted addresses).Perm addresses :=
  (List.perm_ext_iff_of_nodup (ordered_sorted addresses).nodup distinct).mpr fun _ => mem_sorted

/-- A sorted list of several addresses has one besides any given one. -/
theorem exists_mem_ne {addresses : List Address}
    (ordered : addresses.Pairwise fun a b => compare a b = .lt) (several : 2 ≤ addresses.length)
    (a : Address) : ∃ b ∈ addresses, b ≠ a := by
  have longer : addresses ≠ [a] := by
    rintro rfl
    exact Nat.not_succ_le_self 1 several
  cases (ordered.nodup.ne_singleton_iff a).mp longer with
  | inl empty =>
      rw [empty] at several
      exact absurd several (Nat.not_succ_le_zero 1)
  | inr other => exact other

end Address

namespace AddressMap

variable {α : Type}

theorem mem_iff_exists {map : AddressMap α} {a : Address} :
    a ∈ map ↔ ∃ value, map[a]? = some value := by
  rw [Std.TreeMap.mem_iff_isSome_getElem?, Option.isSome_iff_exists]

/-- Distinct addresses of a map are at most as many as its entries. -/
theorem length_le_size {map : AddressMap α} {addresses : List Address} (distinct : addresses.Nodup)
    (inside : ∀ a ∈ addresses, a ∈ map) : addresses.length ≤ map.size := by
  rw [← Std.TreeMap.length_keys]
  refine (distinct.subperm ?_).length_le
  intro a listed
  exact Std.TreeMap.mem_keys.mpr (inside a listed)

theorem getElem?_insert (map : AddressMap α) (a b : Address) (value : α) :
    (map.insert a value)[b]? = if a = b then some value else map[b]? := by
  rw [Std.TreeMap.getElem?_insert]
  simp only [Std.LawfulEqCmp.compare_eq_iff_eq]

theorem getElem?_insert_self (map : AddressMap α) (a : Address) (value : α) :
    (map.insert a value)[a]? = some value := by
  rw [getElem?_insert, if_pos rfl]

theorem getD_insert (map : AddressMap α) (a b : Address) (value fallback : α) :
    (map.insert a value).getD b fallback = if a = b then value else map.getD b fallback := by
  rw [Std.TreeMap.getD_insert]
  simp only [Std.LawfulEqCmp.compare_eq_iff_eq]

theorem mem_insert {map : AddressMap α} {a b : Address} {value : α} :
    b ∈ map.insert a value ↔ a = b ∨ b ∈ map := by
  rw [Std.TreeMap.mem_insert, Std.LawfulEqCmp.compare_eq_iff_eq]

/-- Entries in strict address order are determined by which of them there are. -/
theorem eq_of_mem_iff {first second : List (Address × α)}
    (firstRises : first.Pairwise fun a b => compare a.1 b.1 = .lt)
    (secondRises : second.Pairwise fun a b => compare a.1 b.1 = .lt)
    (same : ∀ entry, entry ∈ first ↔ entry ∈ second) : first = second :=
  have : Std.Asymm fun a b : Address × α => compare a.1 b.1 = .lt :=
    ⟨fun a b => asymm_compare.asymm a.1 b.1⟩
  firstRises.eq_of_mem_iff secondRises same

/-- Every entry of the old map is an entry of the new one. -/
def Extends (old new : AddressMap α) : Prop :=
  ∀ (a : Address) (value : α), old[a]? = some value → new[a]? = some value

theorem Extends.refl (map : AddressMap α) : Extends map map :=
  fun _ _ found => found

theorem Extends.trans {first second third : AddressMap α} (early : Extends first second)
    (late : Extends second third) : Extends first third :=
  fun a value found => late a value (early a value found)

theorem extends_insert {map : AddressMap α} {a : Address} (fresh : map[a]? = none) (value : α) :
    Extends map (map.insert a value) := by
  intro b old found
  rw [getElem?_insert]
  split
  · rename_i same
    rw [← same, fresh] at found
    cases found
  · exact found

end AddressMap

namespace AddressSet

theorem mem_insert {set : AddressSet} {a b : Address} : b ∈ set.insert a ↔ a = b ∨ b ∈ set := by
  rw [Std.TreeSet.mem_insert, Std.LawfulEqCmp.compare_eq_iff_eq]

theorem mem_foldl_erase {removed : List Address} {set : AddressSet} {a : Address} :
    a ∈ removed.foldl Std.TreeSet.erase set ↔ a ∈ set ∧ a ∉ removed := by
  induction removed generalizing set with
  | nil => simp
  | cons first rest ih =>
      rw [List.foldl_cons, ih, Std.TreeSet.mem_erase, List.mem_cons, not_or, Ne,
        Std.LawfulEqCmp.compare_eq_iff_eq]
      constructor
      · rintro ⟨⟨different, member⟩, others⟩
        exact ⟨member, fun same => different same.symm, others⟩
      · rintro ⟨member, different, others⟩
        exact ⟨⟨fun same => different same.symm, member⟩, others⟩

end AddressSet

end WidthTrace
