import Mathlib.Logic.Relation
import WidthTrace.CallGraph.Search
import WidthTrace.Proofs.Address.Collection

/-!
# What the entry points lead to

Collecting from an agenda finds exactly what the agenda leads to. Hence the
reachable routines of a call graph are those that calls and tail calls lead to
from an entry point.
-/

namespace WidthTrace

namespace Address

variable {next : Address → List Address} {agenda : List Address} {seen : AddressSet} {a : Address}

/-- What is collected was seen before, or the agenda leads to it. -/
theorem leads_of_mem_collect (found : a ∈ collect next agenda seen) :
    a ∈ seen ∨ ∃ root ∈ agenda, Relation.ReflTransGen (fun b c => c ∈ next b) root a := by
  induction agenda, seen using collect.induct next with
  | case1 seen =>
      rw [collect] at found
      exact .inl found
  | case2 seen first rest known ih =>
      rw [collect, if_pos known] at found
      refine (ih found).imp id ?_
      rintro ⟨root, listed, leads⟩
      exact ⟨root, List.mem_cons_of_mem _ listed, leads⟩
  | case3 seen first rest fresh ih =>
      rw [collect, if_neg fresh] at found
      rcases ih found with inside | ⟨root, listed, leads⟩
      · rcases AddressSet.mem_insert.mp inside with rfl | before
        · exact .inr ⟨first, List.mem_cons_self, .refl⟩
        · exact .inl before
      · rcases List.mem_append.mp listed with follows | later
        · exact .inr ⟨first, List.mem_cons_self, .head follows leads⟩
        · exact .inr ⟨root, List.mem_cons_of_mem _ later, leads⟩

/-- Nothing that was seen or is on the agenda is missed. -/
theorem mem_collect (known : a ∈ seen ∨ a ∈ agenda) : a ∈ collect next agenda seen := by
  induction agenda, seen using collect.induct next with
  | case1 seen =>
      rw [collect]
      exact known.resolve_right List.not_mem_nil
  | case2 seen first rest inside ih =>
      rw [collect, if_pos inside]
      apply ih
      rcases known with before | listed
      · exact .inl before
      · rcases List.mem_cons.mp listed with rfl | later
        · exact .inl inside
        · exact .inr later
  | case3 seen first rest fresh ih =>
      rw [collect, if_neg fresh]
      apply ih
      rcases known with before | listed
      · exact .inl (AddressSet.mem_insert.mpr (.inr before))
      · rcases List.mem_cons.mp listed with rfl | later
        · exact .inl (AddressSet.mem_insert.mpr (.inl rfl))
        · exact .inr (List.mem_append_right _ later)

/-- If every step from what was seen leads to what was seen or to the agenda, no step leaves what
is collected. -/
theorem collect_closed
    (covered : ∀ b ∈ seen, ∀ c ∈ next b, c ∈ seen ∨ c ∈ agenda) :
    ∀ b ∈ collect next agenda seen, ∀ c ∈ next b, c ∈ collect next agenda seen := by
  induction agenda, seen using collect.induct next with
  | case1 seen =>
      rw [collect]
      intro b inside c follows
      exact (covered b inside c follows).resolve_right List.not_mem_nil
  | case2 seen first rest known ih =>
      rw [collect, if_pos known]
      refine ih fun b inside c follows => ?_
      rcases covered b inside c follows with before | listed
      · exact .inl before
      · rcases List.mem_cons.mp listed with rfl | later
        · exact .inl known
        · exact .inr later
  | case3 seen first rest fresh ih =>
      rw [collect, if_neg fresh]
      refine ih fun b inside c follows => ?_
      rw [AddressSet.mem_insert, List.mem_append]
      rcases AddressSet.mem_insert.mp inside with rfl | before
      · exact .inr (.inl follows)
      · rcases covered b before c follows with already | listed
        · exact .inl (.inr already)
        · rcases List.mem_cons.mp listed with rfl | later
          · exact .inl (.inl rfl)
          · exact .inr (.inr later)

theorem mem_collect_empty :
    a ∈ collect next agenda ∅ ↔
      ∃ root ∈ agenda, Relation.ReflTransGen (fun b c => c ∈ next b) root a := by
  constructor
  · intro found
    exact (leads_of_mem_collect found).resolve_left Std.TreeSet.not_mem_emptyc
  · rintro ⟨root, listed, leads⟩
    have closed : ∀ b ∈ collect next agenda ∅, ∀ c ∈ next b, c ∈ collect next agenda ∅ :=
      collect_closed fun b inside => absurd inside Std.TreeSet.not_mem_emptyc
    induction leads with
    | refl => exact mem_collect (.inr listed)
    | tail _ follows ih => exact closed _ ih _ follows

end Address

namespace CallGraph

variable {graph : CallGraph} {a : Address}

theorem mem_reach {roots : List Address} :
    a ∈ graph.reach roots ↔ ∃ root ∈ roots, Relation.ReflTransGen graph.Calls root a := by
  rw [reach, Address.mem_collect_empty, successors_eq_calls]

/-- The reachable routines are those that calls lead to from an entry point. -/
theorem mem_reachable :
    a ∈ graph.reachable ↔ ∃ entry ∈ graph.entries, Relation.ReflTransGen graph.Calls entry a := by
  rw [reachable, Std.TreeSet.mem_toList, mem_reach]

theorem reachable_of_calls {b : Address} (reached : a ∈ graph.reachable) (calls : graph.Calls a b) :
    b ∈ graph.reachable := by
  obtain ⟨entry, declared, leads⟩ := mem_reachable.mp reached
  exact mem_reachable.mpr ⟨entry, declared, leads.tail calls⟩

theorem reachable_mono {other : CallGraph}
    (entries : ∀ entry ∈ graph.entries, entry ∈ other.entries)
    (calls : ∀ a b, graph.Calls a b → other.Calls a b) (reached : a ∈ graph.reachable) :
    a ∈ other.reachable := by
  obtain ⟨entry, declared, leads⟩ := mem_reachable.mp reached
  have leadsToo := Relation.ReflTransGen.mono calls _ _ leads
  exact mem_reachable.mpr ⟨entry, entries entry declared, leadsToo⟩

theorem mem_routineEdges {edge : Transfer} :
    edge ∈ graph.routineEdges ↔ edge ∈ graph.transfers ∧ edge.isRoutineEdge = true := by
  rw [routineEdges, List.mem_filter, Array.mem_toList_iff]

theorem calls_of_mem {edge : Transfer} (listed : edge ∈ graph.routineEdges) :
    graph.Calls edge.routine edge.target :=
  ⟨edge, listed, rfl, rfl⟩

theorem orphans_eq_nil (reached : ∀ a ∈ graph.nodes, a ∈ graph.reachable) :
    graph.orphans = [] := by
  unfold orphans
  split
  · rfl
  · refine List.filter_eq_nil_iff.mpr fun a listed missing => ?_
    have found := Std.TreeSet.mem_toList.mp (reached a listed)
    rw [Std.TreeSet.mem_iff_contains.mp found] at missing
    cases missing

end CallGraph

end WidthTrace
