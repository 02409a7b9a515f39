import Mathlib.Logic.Function.Iterate
import WidthTrace.Proofs.CallGraph.LinkSearch.Release

/-!
# Runs of the search for groups

Every step keeps the invariant. When no root is left to be tried, nothing is held,
and the components are exactly the groups.
-/

namespace WidthTrace.LinkSearch

variable {next : Address → List Address} {nodes : List Address} {search : LinkSearch}

/-- Everything on the trail leads to the successors of the routine at hand. -/
theorem Invariant.trail_leads (invariant : Invariant next nodes search) {a b : Address}
    {rest : List Address} {path : List Frame} (present : search.path = ⟨a, b :: rest⟩ :: path) :
    ∀ g ∈ search.trail, Leads next g b := by
  intro g onTrail
  have top : search.trail = a :: path.map Frame.node := by simp [trail, present]
  have here : a ∈ search.trail := by
    rw [top]
    exact List.mem_cons_self
  have high : search.rankOf g ≤ search.rankOf a := invariant.toRanked.le_of_mem_trail top onTrail
  have frame : ⟨a, b :: rest⟩ ∈ search.path := by
    rw [present]
    exact List.mem_cons_self
  have following : b ∈ next a := invariant.rest_next _ frame b List.mem_cons_self
  exact (invariant.from_trail g onTrail a (invariant.trail_held a here) high).tail following

theorem Invariant.follow (invariant : Invariant next nodes search) {a b : Address}
    {rest : List Address} {path : List Frame} (present : search.path = ⟨a, b :: rest⟩ :: path) :
    Invariant next nodes (LinkSearch.follow next { search with path := ⟨a, rest⟩ :: path } a b) := by
  have leads := invariant.trail_leads present
  have here : a ∈ search.trail := by simp [trail, present]
  unfold LinkSearch.follow
  split
  case isTrue fresh =>
    have entering : Invariant next nodes (search.enter next b) := invariant.enter fresh leads
    refine entering.consume [⟨b, next b⟩] ?_ (mem_rank_enter.mpr (.inl rfl)) ?_
    · simp [LinkSearch.enter, present]
    · intro _
      have onTrail : a ∈ (search.enter next b).trail := List.mem_cons_of_mem _ here
      have falls := List.rel_of_pairwise_cons entering.trail_falling here
      exact ⟨a, onTrail, Nat.le_refl _,
        Nat.le_trans (entering.link_le a onTrail) (Nat.le_of_lt falls)⟩
  case isFalse known =>
    have entered : b ∈ search.rank := not_not.mp known
    split
    case isTrue held =>
      have lowered := invariant.lower ((invariant.isHeld_iff b).mp held) (leads a here)
      refine lowered.consume [] present entered ?_
      intro _
      exact ⟨a, here, Nat.le_refl _, linkOf_lower_self_le search a _⟩
    case isFalse gone =>
      refine invariant.consume [] present entered ?_
      intro held
      exact absurd ((invariant.isHeld_iff b).mpr held) gone

/-- Leaving a routine whose link has been handed over. -/
theorem Invariant.depart (invariant : Invariant next nodes search) {a : Address}
    {path : List Frame} (leaving : Leaving search a path)
    (handed : ∀ parent ∈ path.head?, search.linkOf parent.node ≤ search.linkOf a) :
    Invariant next nodes
      (if search.linkOf a = search.rankOf a then LinkSearch.release { search with path } a
        else { search with path }) := by
  split
  case isTrue own => exact invariant.release leaving own
  case isFalse low => exact invariant.pop leaving low handed

theorem Invariant.leave (invariant : Invariant next nodes search) {a : Address}
    {path : List Frame} (leaving : Leaving search a path) :
    Invariant next nodes (search.leave a path) := by
  cases path with
  | nil =>
      refine invariant.depart leaving ?_
      intro parent none
      cases none
  | cons parent path =>
      have outer : parent.node ∈ trail { search with path := parent :: path } := List.mem_cons_self
      have below : search.rankOf parent.node < search.rankOf a :=
        invariant.toRanked.outer_lt leaving outer
      have leads : Leads next parent.node a :=
        invariant.from_trail _ (leaving.outer_mem outer) a
          (invariant.trail_held a leaving.mem_trail) (Nat.le_of_lt below)
      obtain ⟨b, held, same, onwards⟩ := invariant.link_led a leaving.mem_trail
      have lowered : Invariant next nodes (search.lower parent.node (search.linkOf a)) := by
        rw [← same]
        exact invariant.lower held (leads.trans onwards)
      refine lowered.depart ⟨leaving.present⟩ ?_
      rintro _ ⟨⟩
      have kept : (search.lower parent.node (search.linkOf a)).linkOf a = search.linkOf a := by
        rw [linkOf_lower, if_neg]
        intro equal
        rw [equal] at below
        exact Nat.lt_irrefl _ below
      rw [kept]
      exact linkOf_lower_self_le search _ _

theorem Invariant.step (invariant : Invariant next nodes search) :
    Invariant next nodes (search.step next) := by
  unfold LinkSearch.step
  split
  · exact invariant.follow (by assumption)
  · exact invariant.leave ⟨by assumption⟩
  · rename_i free
    split
    · exact invariant
    · rename_i a roots present
      dsimp only
      split
      case isTrue entered => exact invariant.dropRoot present entered
      case isFalse fresh =>
        have entering : Invariant next nodes (search.enter next a) := by
          refine invariant.enter fresh ?_
          intro g onTrail
          rw [trail, free] at onTrail
          cases onTrail
        exact entering.dropRoot present (mem_rank_enter.mpr (.inl rfl))

theorem Invariant.run (invariant : Invariant next nodes search) :
    Invariant next nodes (search.run next) := by
  induction search using LinkSearch.run.induct next with
  | case1 search done =>
      rw [LinkSearch.run, if_pos done]
      exact invariant
  | case2 search busy ih =>
      rw [LinkSearch.run, if_neg busy]
      exact ih invariant.step

theorem isDone_run (next : Address → List Address) (search : LinkSearch) :
    (search.run next).isDone = true := by
  induction search using LinkSearch.run.induct next with
  | case1 search done =>
      rw [LinkSearch.run, if_pos done]
      exact done
  | case2 search busy ih =>
      rw [LinkSearch.run, if_neg busy]
      exact ih

/-- A run is a finite number of steps. -/
theorem exists_run_eq_iterate (next : Address → List Address) (search : LinkSearch) :
    ∃ count, search.run next = (LinkSearch.step next)^[count] search := by
  induction search using LinkSearch.run.induct next with
  | case1 search done =>
      rw [LinkSearch.run, if_pos done]
      exact ⟨0, rfl⟩
  | case2 search busy ih =>
      rw [LinkSearch.run, if_neg busy]
      obtain ⟨count, same⟩ := ih
      exact ⟨count + 1, same⟩

/-! ## The end of a run -/

theorem Invariant.held_of_isDone (invariant : Invariant next nodes search)
    (done : search.isDone = true) : search.held = [] := by
  rw [List.eq_nil_iff_forall_not_mem]
  intro a held
  obtain ⟨g, onTrail, _⟩ := invariant.to_trail a held
  simp only [isDone, Bool.and_eq_true, List.isEmpty_iff] at done
  rw [trail, done.1] at onTrail
  cases onTrail

theorem Invariant.rank_of_isDone (invariant : Invariant next nodes search)
    (done : search.isDone = true) : ∀ a ∈ nodes, a ∈ search.rank := by
  intro a member
  simp only [isDone, Bool.and_eq_true, List.isEmpty_iff] at done
  refine (invariant.tried a member).resolve_left ?_
  rw [done.2]
  exact List.not_mem_nil

theorem IsGroup.eq_of_mem {first second : List Address} (one : IsGroup next first)
    (other : IsGroup next second) {a : Address} (inFirst : a ∈ first) (inSecond : a ∈ second) :
    first = second := by
  refine one.ordered.eq_of_mem_iff other.ordered ?_
  intro b
  rw [one.full a inFirst, other.full a inSecond]

section Covered

/-! A search finds everything if every routine with a successor is among its roots. -/

variable (covered : ∀ a b, b ∈ next a → a ∈ nodes)

include covered

theorem exists_mem_components_run {a b : Address} (different : b ≠ a) (there : Leads next a b)
    (back : Leads next b a) : ∃ group ∈ ((start nodes).run next).components, a ∈ group := by
  have invariant := (invariant_start next nodes).run
  have done := isDone_run next (start nodes)
  have root : a ∈ nodes := by
    cases there.cases_head with
    | inl same => exact absurd same.symm different
    | inr onwards =>
        obtain ⟨c, following, _⟩ := onwards
        exact covered a c following
  have gone : a ∉ ((start nodes).run next).held := by
    rw [invariant.held_of_isDone done]
    exact List.not_mem_nil
  exact invariant.complete a (invariant.rank_of_isDone done a root) gone b different there back

theorem mem_components_run (group : List Address) :
    group ∈ ((start nodes).run next).components ↔ IsGroup next group := by
  have invariant := (invariant_start next nodes).run
  constructor
  · intro member
    exact (invariant.groups group member).1
  · intro isGroup
    obtain ⟨a, first⟩ := List.exists_mem_of_length_pos (Nat.zero_lt_of_lt isGroup.several)
    obtain ⟨b, second, different⟩ := Address.exists_mem_ne isGroup.ordered isGroup.several a
    obtain ⟨there, back⟩ := (isGroup.full a first b).mp second
    obtain ⟨found, known, inside⟩ := exists_mem_components_run covered different there back
    rwa [isGroup.eq_of_mem (invariant.groups found known).1 first inside]

end Covered

theorem nodup_components_run (next : Address → List Address) (nodes : List Address) :
    ((start nodes).run next).components.Nodup :=
  (invariant_start next nodes).run.distinct

end WidthTrace.LinkSearch
