import WidthTrace.Proofs.Address.Collection

/-!
# Stable sorting

A stably sorted list has the members of the given one, none of them above a later one, and
members of equal rank stand as they stood. Such a list is determined by its classes of equal
rank alone. So two lists sort to the same list as soon as each class stands in the same order
in both, wherever its members are.
-/

namespace WidthTrace

variable {α : Type} {order : α → α → Ordering} {a : α} {members first second : List α}

/-- The members that have the rank of `a`, as they stand in the list. -/
def rankedWith (order : α → α → Ordering) (a : α) (members : List α) : List α :=
  members.filter fun b => order a b == .eq

theorem mem_rankedWith {b : α} :
    b ∈ rankedWith order a members ↔ b ∈ members ∧ order a b = .eq := by
  rw [rankedWith, List.mem_filter, beq_iff_eq]

/-- A choice that takes the whole class leaves the class as it is. -/
theorem rankedWith_filter {chosen : α → Bool}
    (whole : ∀ b ∈ members, order a b = .eq → chosen b = true) :
    rankedWith order a (members.filter chosen) = rankedWith order a members := by
  rw [rankedWith, rankedWith, List.filter_filter]
  refine List.filter_congr ?_
  intro b listed
  rw [Bool.eq_iff_iff, Bool.and_eq_true, beq_iff_eq, and_iff_left_iff_imp]
  exact whole b listed

structure IsStableSort (order : α → α → Ordering) (members sorted : List α) : Prop where
  perm : sorted.Perm members
  rises : sorted.Pairwise fun a b => (order a b).isLE = true
  stable (a : α) : rankedWith order a sorted = rankedWith order a members

section

variable [Std.TransCmp order]

theorem mem_rankedWith_self (order : α → α → Ordering) [Std.TransCmp order] :
    a ∈ rankedWith order a members ↔ a ∈ members := by
  rw [mem_rankedWith, and_iff_left Std.ReflCmp.compare_self]

/-- A class is sorted as it stands, so that it stays a part of the list, and nothing joins it. -/
theorem isStableSort_mergeSort (order : α → α → Ordering) [Std.TransCmp order]
    (members : List α) :
    IsStableSort order members (members.mergeSort fun a b => (order a b).isLE) where
  perm := List.mergeSort_perm _ _
  rises := pairwise_mergeSort_isLE order members
  stable a := by
    have level : (rankedWith order a members).Pairwise fun b c => (order b c).isLE = true := by
      refine List.pairwise_of_forall_mem_list ?_
      intro b inClass c alsoInClass
      have left := Std.OrientedCmp.eq_symm (mem_rankedWith.mp inClass).2
      exact Ordering.isLE_of_eq_eq (Std.TransCmp.eq_trans left (mem_rankedWith.mp alsoInClass).2)
    have kept : (rankedWith order a members).Sublist
        (members.mergeSort fun b c => (order b c).isLE) :=
      List.sublist_mergeSort (fun _ _ _ => Std.TransCmp.isLE_trans) (isLE_or_isLE order) level
        List.filter_sublist
    have within := kept.filter fun b => order a b == .eq
    rw [rankedWith, List.filter_filter] at within
    simp only [Bool.and_self] at within
    refine (within.eq_of_length ?_).symm
    exact ((List.mergeSort_perm members _).filter _).length_eq.symm

/-- Rising lists with the same classes of equal rank are equal. -/
theorem eq_of_rankedWith_eq (firstRises : first.Pairwise fun a b => (order a b).isLE = true)
    (secondRises : second.Pairwise fun a b => (order a b).isLE = true)
    (same : ∀ a, rankedWith order a first = rankedWith order a second) : first = second := by
  have same_members (a : α) : a ∈ first ↔ a ∈ second := by
    rw [← mem_rankedWith_self order, same, mem_rankedWith_self]
  induction first generalizing second with
  | nil =>
      symm
      rw [List.eq_nil_iff_forall_not_mem]
      intro a listed
      exact List.not_mem_nil ((same_members a).mpr listed)
  | cons a rest ih =>
      cases second with
      | nil => exact absurd ((same_members a).mp List.mem_cons_self) List.not_mem_nil
      | cons b tail =>
          have below : (order a b).isLE = true := by
            rcases List.mem_cons.mp ((same_members b).mpr List.mem_cons_self) with rfl | later
            · exact Ordering.isLE_of_eq_eq Std.ReflCmp.compare_self
            · exact List.rel_of_pairwise_cons firstRises later
          have above : (order b a).isLE = true := by
            rcases List.mem_cons.mp ((same_members a).mp List.mem_cons_self) with rfl | later
            · exact Ordering.isLE_of_eq_eq Std.ReflCmp.compare_self
            · exact List.rel_of_pairwise_cons secondRises later
          have level : order a b = .eq := Std.OrientedCmp.isLE_antisymm below above
          have self : order a a = .eq := Std.ReflCmp.compare_self
          have oneHead : a = b := by
            have ownClass := same a
            rw [rankedWith, rankedWith, List.filter_cons_of_pos (by rw [self]; rfl),
              List.filter_cons_of_pos (by rw [level]; rfl)] at ownClass
            exact (List.cons.inj ownClass).1
          subst oneHead
          have remaining (c : α) : rankedWith order c rest = rankedWith order c tail := by
            have both := same c
            rw [rankedWith, rankedWith, List.filter_cons, List.filter_cons] at both
            split at both
            · exact (List.cons.inj both).2
            · exact both
          rw [ih firstRises.of_cons secondRises.of_cons remaining]
          intro c
          rw [← mem_rankedWith_self order, remaining, mem_rankedWith_self]

theorem mergeSort_eq_of_rankedWith_eq
    (same : ∀ a, rankedWith order a first = rankedWith order a second) :
    (first.mergeSort fun a b => (order a b).isLE) =
      second.mergeSort fun a b => (order a b).isLE := by
  have one := isStableSort_mergeSort order first
  have other := isStableSort_mergeSort order second
  refine eq_of_rankedWith_eq one.rises other.rises ?_
  intro a
  rw [one.stable, same, other.stable]

theorem between_rankedWith_iff {b : α} (level : order a b = .eq) :
    [a, b, a].Sublist (rankedWith order a members) ↔ [a, b, a].Sublist members := by
  have chosen : [a, b, a].filter (fun c => order a c == .eq) = [a, b, a] := by
    simp [level, Std.ReflCmp.compare_self]
  constructor
  · intro between
    exact between.trans List.filter_sublist
  · intro between
    rw [← chosen]
    exact between.filter _

/-- In a sorted list, what stands between two occurrences of a member has its rank, and stood
there before. -/
theorem IsStableSort.between_iff {sorted : List α} {b : α}
    (given : IsStableSort order members sorted) :
    [a, b, a].Sublist sorted ↔ order a b = .eq ∧ [a, b, a].Sublist members := by
  have stays : order a b = .eq → ([a, b, a].Sublist sorted ↔ [a, b, a].Sublist members) := by
    intro level
    rw [← between_rankedWith_iff level, given.stable, between_rankedWith_iff level]
  constructor
  · intro between
    have rises := given.rises.sublist between
    have below : (order a b).isLE = true := List.rel_of_pairwise_cons rises List.mem_cons_self
    have above : (order b a).isLE = true :=
      List.rel_of_pairwise_cons rises.of_cons List.mem_cons_self
    have level : order a b = .eq := Std.OrientedCmp.isLE_antisymm below above
    exact ⟨level, (stays level).mp between⟩
  · rintro ⟨level, between⟩
    exact (stays level).mpr between

/-- There is one stably sorted list, the one that sorting gives. -/
theorem isStableSort_iff {sorted : List α} :
    IsStableSort order members sorted ↔
      sorted = members.mergeSort fun a b => (order a b).isLE := by
  have standard := isStableSort_mergeSort order members
  constructor
  · intro given
    refine eq_of_rankedWith_eq given.rises standard.rises ?_
    intro a
    rw [given.stable, standard.stable]
  · rintro rfl
    exact standard

end

end WidthTrace
