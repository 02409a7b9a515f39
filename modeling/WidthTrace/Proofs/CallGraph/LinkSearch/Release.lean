import Mathlib.Data.List.TakeWhile
import WidthTrace.Proofs.CallGraph.LinkSearch.Invariant

/-!
# Leaving a routine

A routine with a link below its rank leads to something entered before it, and
leaves its held companions to the routine that it was entered from. A routine with
its own rank as its link is the first of its group, and the group is all that is
held since then: nothing held since leads to anything held before.
-/

namespace WidthTrace.LinkSearch

variable {next : Address → List Address} {nodes : List Address} {search : LinkSearch}

/-- The routine `a` at hand has no step left to follow, and `path` leads to it. -/
structure Leaving (search : LinkSearch) (a : Address) (path : List Frame) : Prop where
  present : search.path = ⟨a, []⟩ :: path

namespace Leaving

variable {a : Address} {path : List Frame}

theorem trail_eq (leaving : Leaving search a path) :
    search.trail = a :: trail { search with path } := by
  simp [trail, leaving.present]

theorem mem_trail (leaving : Leaving search a path) : a ∈ search.trail := by
  rw [leaving.trail_eq]
  exact List.mem_cons_self

theorem frame_mem (leaving : Leaving search a path) {frame : Frame} (member : frame ∈ path) :
    frame ∈ search.path := by
  rw [leaving.present]
  exact List.mem_cons_of_mem _ member

theorem outer_mem (leaving : Leaving search a path) {g : Address}
    (outer : g ∈ trail { search with path }) : g ∈ search.trail := by
  rw [leaving.trail_eq]
  exact List.mem_cons_of_mem _ outer

theorem outer_of_ne (leaving : Leaving search a path) {g : Address} (onTrail : g ∈ search.trail)
    (different : g ≠ a) : g ∈ trail { search with path } := by
  rw [leaving.trail_eq] at onTrail
  exact (List.mem_cons.mp onTrail).resolve_left different

/-- The routine at hand has followed all of its steps. -/
theorem followed (leaving : Leaving search a path) {b c : Address}
    (followed : ({ search with path } : LinkSearch).Followed b c) : search.Followed b c := by
  intro frame member same
  rw [leaving.present] at member
  rcases List.mem_cons.mp member with rfl | outer
  · exact List.not_mem_nil
  · exact followed frame outer same

end Leaving

theorem Ranked.nodup_held (ranked : Ranked search) : search.held.Nodup := by
  refine ranked.held_falling.imp ?_
  rintro a b falls rfl
  exact Nat.lt_irrefl _ falls

theorem Ranked.outer_lt (ranked : Ranked search) {a g : Address} {path : List Frame}
    (leaving : Leaving search a path) (outer : g ∈ trail { search with path }) :
    search.rankOf g < search.rankOf a := by
  have falling := ranked.trail_falling
  rw [leaving.trail_eq] at falling
  exact List.rel_of_pairwise_cons falling outer

theorem Ranked.leave (ranked : Ranked search) {a : Address} {path : List Frame}
    (leaving : Leaving search a path) : Ranked { search with path } := by
  refine { ranked with trail_held := ?held, trail_falling := ?falling }
  case held =>
    intro g outer
    exact ranked.trail_held g (leaving.outer_mem outer)
  case falling =>
    have falling := ranked.trail_falling
    rw [leaving.trail_eq] at falling
    exact falling.tail

theorem Explored.leave (explored : Explored next search) {a : Address} {path : List Frame}
    (leaving : Leaving search a path) : Explored next { search with path } := by
  refine { explored with rest_next := ?rest, on_trail := ?on, off_trail := ?off }
  case rest =>
    intro frame member
    exact explored.rest_next frame (leaving.frame_mem member)
  case on =>
    intro frame member
    exact explored.on_trail frame (leaving.frame_mem member)
  case off =>
    intro b held off c following
    by_cases same : b = a
    · subst same
      have here : ⟨b, []⟩ ∈ search.path := by
        rw [leaving.present]
        exact List.mem_cons_self
      exact (explored.on_trail _ here c following).resolve_left List.not_mem_nil
    · exact explored.off_trail b held (fun on => off (leaving.outer_of_ne on same)) c following

/-! ## With a link below the rank -/

/-- A held routine that leads to the routine at hand leads on to one entered before it. -/
theorem Linked.to_trail_leave (linked : Linked next search) {a b : Address} {path : List Frame}
    (leaving : Leaving search a path) (low : search.linkOf a ≠ search.rankOf a)
    (held : b ∈ search.held) : ∃ g ∈ trail { search with path },
      search.rankOf g ≤ search.rankOf b ∧ Leads next b g := by
  obtain ⟨g, onTrail, high, leads⟩ := linked.to_trail b held
  by_cases same : g = a
  · subst same
    obtain ⟨c, known, link, onwards⟩ := linked.link_led g onTrail
    obtain ⟨first, before, higher, home⟩ := linked.to_trail c known
    have below : search.rankOf first < search.rankOf g := by
      rw [link] at higher
      exact Nat.lt_of_le_of_lt higher (Nat.lt_of_le_of_ne (linked.link_le g onTrail) low)
    have different : first ≠ g := by
      rintro rfl
      exact Nat.lt_irrefl _ below
    exact ⟨first, leaving.outer_of_ne before different,
      Nat.le_trans (Nat.le_of_lt below) high, (leads.trans onwards).trans home⟩
  · exact ⟨g, leaving.outer_of_ne onTrail same, high, leads⟩

/-- What the link of the routine at hand covers is covered by that of the routine before it. -/
theorem Linked.link_covers_leave (linked : Linked next search) (ranked : Ranked search)
    {a : Address} {path : List Frame} (leaving : Leaving search a path)
    (handed : ∀ parent ∈ path.head?, search.linkOf parent.node ≤ search.linkOf a)
    {g b c : Address} (outer : g ∈ trail { search with path }) (held : b ∈ search.held)
    (high : search.rankOf g ≤ search.rankOf b) (following : c ∈ next b)
    (within : c ∈ search.held)
    (followed : ({ search with path } : LinkSearch).Followed b c) :
    ∃ inner ∈ trail { search with path },
      search.rankOf g ≤ search.rankOf inner ∧ search.linkOf inner ≤ search.rankOf c := by
  obtain ⟨inner, inside, above, covers⟩ := linked.link_covers g (leaving.outer_mem outer)
    b held high c following within (leaving.followed followed)
  by_cases same : inner = a
  · subst same
    cases path with
    | nil => exact absurd outer List.not_mem_nil
    | cons parent path =>
        have less : search.linkOf parent.node ≤ search.linkOf inner := handed parent rfl
        exact ⟨parent.node, List.mem_cons_self,
          (ranked.leave leaving).le_of_mem_trail rfl outer, Nat.le_trans less covers⟩
  · exact ⟨inner, leaving.outer_of_ne inside same, above, covers⟩

/-- The routine that the one at hand was entered from has taken over its link. -/
theorem Invariant.pop (invariant : Invariant next nodes search) {a : Address} {path : List Frame}
    (leaving : Leaving search a path) (low : search.linkOf a ≠ search.rankOf a)
    (handed : ∀ parent ∈ path.head?, search.linkOf parent.node ≤ search.linkOf a) :
    Invariant next nodes { search with path } := by
  refine ⟨invariant.toRanked.leave leaving, invariant.toExplored.leave leaving, ?linked,
    { invariant.toFound with }, invariant.tried⟩
  constructor
  case from_trail =>
    intro g outer
    exact invariant.from_trail g (leaving.outer_mem outer)
  case to_trail =>
    intro b held
    exact invariant.toLinked.to_trail_leave leaving low held
  case link_le =>
    intro g outer
    exact invariant.link_le g (leaving.outer_mem outer)
  case link_led =>
    intro g outer
    exact invariant.link_led g (leaving.outer_mem outer)
  case link_covers =>
    intro g outer b held high c following within followed
    exact invariant.toLinked.link_covers_leave invariant.toRanked leaving handed
      outer held high following within followed

/-! ## With its own rank as its link -/

/-- What was let go leads only to what was let go. -/
theorem Explored.let_go_leads (explored : Explored next search) {a b : Address}
    (entered : a ∈ search.rank) (gone : a ∉ search.held) (leads : Leads next a b) :
    b ∈ search.rank ∧ b ∉ search.held := by
  induction leads with
  | refl => exact ⟨entered, gone⟩
  | tail _ following ih => exact explored.let_go _ ih.1 ih.2 _ following

/-- What is held since a routine was entered, and what was held before. -/
theorem Ranked.held_split (ranked : Ranked search) {a : Address} (held : a ∈ search.held) :
    (∀ b, b ∈ search.heldSince a ↔
      b ∈ search.held ∧ search.rankOf a ≤ search.rankOf b) ∧
    ∀ b, b ∈ (search.held.dropWhile (· != a)).tail ↔
      b ∈ search.held ∧ search.rankOf b < search.rankOf a := by
  obtain ⟨later, below, split, fresh⟩ := List.eq_append_cons_of_mem held
  have others : ∀ b ∈ later, (b != a) = true := by
    intro b member
    rw [bne_iff_ne]
    rintro rfl
    exact fresh member
  have falling := ranked.held_falling
  rw [split, List.pairwise_append] at falling
  obtain ⟨-, tail_falling, across⟩ := falling
  have above : ∀ b ∈ later, search.rankOf a < search.rankOf b :=
    fun b member => across b member a List.mem_cons_self
  have beneath : ∀ b ∈ below, search.rankOf b < search.rankOf a :=
    fun b member => List.rel_of_pairwise_cons tail_falling member
  rw [heldSince, split, List.takeWhile_append_of_pos others, List.dropWhile_append_of_pos others,
    List.takeWhile_cons_of_neg (by simp), List.dropWhile_cons_of_neg (by simp), List.append_nil,
    List.tail_cons]
  constructor
  · intro b
    simp only [List.mem_append, List.mem_cons]
    constructor
    · rintro (rfl | member)
      · exact ⟨.inr (.inl rfl), Nat.le_refl _⟩
      · exact ⟨.inl member, Nat.le_of_lt (above b member)⟩
    · rintro ⟨member | rfl | member, high⟩
      · exact .inr member
      · exact .inl rfl
      · exact absurd (beneath b member) (Nat.not_lt.mpr high)
  · intro b
    simp only [List.mem_append, List.mem_cons]
    constructor
    · intro member
      exact ⟨.inr (.inr member), beneath b member⟩
    · rintro ⟨member | rfl | member, low⟩
      · exact absurd low (Nat.not_lt.mpr (Nat.le_of_lt (above b member)))
      · exact absurd low (Nat.lt_irrefl _)
      · exact member

section First

variable {a : Address} {path : List Frame}

/-- Nothing that is held since the routine at hand was entered leads to anything held before. -/
theorem Invariant.stays (invariant : Invariant next nodes search)
    (leaving : Leaving search a path) (own : search.linkOf a = search.rankOf a) {b c : Address}
    (held : b ∈ search.held) (high : search.rankOf a ≤ search.rankOf b)
    (leads : Leads next b c) :
    c ∈ search.rank ∧ (c ∈ search.held → search.rankOf a ≤ search.rankOf c) := by
  induction leads with
  | refl => exact ⟨invariant.held_ranked b held, fun _ => high⟩
  | @tail d c _ following ih =>
      by_cases known : d ∈ search.held
      · have followed : search.Followed d c := by
          apply leaving.followed
          rintro frame member rfl
          have lower := invariant.toRanked.outer_lt leaving (List.mem_map_of_mem member)
          exact absurd (ih.2 known) (Nat.not_le.mpr lower)
        refine ⟨invariant.toExplored.entered known following followed, fun within => ?_⟩
        obtain ⟨inner, inside, above, covers⟩ := invariant.link_covers a leaving.mem_trail
          d known (ih.2 known) c following within followed
        have same : inner = a :=
          invariant.toRanked.eq_of_mem_trail leaving.trail_eq inside above
        rwa [same, own] at covers
      · obtain ⟨entered, gone⟩ := invariant.let_go d ih.1 known c following
        exact ⟨entered, fun within => absurd within gone⟩

/-- What is held since the routine at hand was entered is what leads to it and back. -/
theorem Invariant.held_since (invariant : Invariant next nodes search)
    (leaving : Leaving search a path) (own : search.linkOf a = search.rankOf a) (b : Address) :
    (b ∈ search.held ∧ search.rankOf a ≤ search.rankOf b) ↔ Leads next a b ∧ Leads next b a := by
  have here : a ∈ search.held := invariant.trail_held a leaving.mem_trail
  constructor
  · rintro ⟨held, high⟩
    refine ⟨invariant.from_trail a leaving.mem_trail b held high, ?_⟩
    obtain ⟨g, onTrail, _, leads⟩ := invariant.to_trail b held
    have above : search.rankOf a ≤ search.rankOf g :=
      (invariant.stays leaving own held high leads).2 (invariant.trail_held g onTrail)
    rwa [invariant.toRanked.eq_of_mem_trail leaving.trail_eq onTrail above] at leads
  · rintro ⟨there, back⟩
    obtain ⟨entered, above⟩ := invariant.stays leaving own here (Nat.le_refl _) there
    have held : b ∈ search.held := by
      by_contra gone
      exact (invariant.toExplored.let_go_leads entered gone back).2 here
    exact ⟨held, above held⟩

theorem Ranked.mem_heldSince (ranked : Ranked search) (leaving : Leaving search a path)
    {b : Address} :
    b ∈ search.heldSince a ↔ b ∈ search.held ∧ search.rankOf a ≤ search.rankOf b :=
  (ranked.held_split (ranked.trail_held a leaving.mem_trail)).1 b

theorem Ranked.mem_held_release (ranked : Ranked search) (leaving : Leaving search a path)
    {b : Address} : b ∈ (release { search with path } a).held ↔
      b ∈ search.held ∧ search.rankOf b < search.rankOf a :=
  (ranked.held_split (ranked.trail_held a leaving.mem_trail)).2 b

theorem Ranked.le_of_released (ranked : Ranked search) (leaving : Leaving search a path)
    {b : Address} (held : b ∈ search.held)
    (gone : b ∉ (release { search with path } a).held) : search.rankOf a ≤ search.rankOf b := by
  by_contra low
  exact gone ((ranked.mem_held_release leaving).mpr ⟨held, Nat.not_le.mp low⟩)

theorem Ranked.release (ranked : Ranked search) (leaving : Leaving search a path) :
    Ranked (release { search with path } a) := by
  constructor
  case rank_lt => exact ranked.rank_lt
  case held_ranked =>
    intro b held
    exact ranked.held_ranked b ((ranked.mem_held_release leaving).mp held).1
  case held_falling =>
    exact (ranked.held_falling.sublist (List.dropWhile_sublist _)).tail
  case isHeld_iff =>
    intro b
    have erased : b ∈ (LinkSearch.release { search with path } a).isHeld ↔
        b ∈ search.isHeld ∧ b ∉ search.heldSince a :=
      AddressSet.mem_foldl_erase
    rw [erased, ranked.mem_heldSince leaving, ranked.isHeld_iff,
      ranked.mem_held_release leaving, ← Nat.not_le, not_and]
    exact ⟨fun ⟨held, low⟩ => ⟨held, low held⟩, fun ⟨held, low⟩ => ⟨held, fun _ => low⟩⟩
  case trail_held =>
    intro g outer
    exact (ranked.mem_held_release leaving).mpr
      ⟨ranked.trail_held g (leaving.outer_mem outer), ranked.outer_lt leaving outer⟩
  case trail_falling => exact (ranked.leave leaving).trail_falling

theorem Invariant.explored_release (invariant : Invariant next nodes search)
    (leaving : Leaving search a path) (own : search.linkOf a = search.rankOf a) :
    Explored next (release { search with path } a) := by
  have left := invariant.toExplored.leave leaving
  have still {b : Address} := invariant.toRanked.mem_held_release leaving (b := b)
  constructor
  case rest_next => exact left.rest_next
  case on_trail => exact left.on_trail
  case off_trail =>
    intro b held
    exact left.off_trail b (still.mp held).1
  case let_go =>
    intro b entered gone c following
    by_cases held : b ∈ search.held
    · have high := invariant.toRanked.le_of_released leaving held gone
      obtain ⟨ranked, above⟩ := invariant.stays leaving own held high (.single following)
      refine ⟨ranked, fun kept => ?_⟩
      obtain ⟨within, low⟩ := still.mp kept
      exact absurd (above within) (Nat.not_le.mpr low)
    · obtain ⟨ranked, away⟩ := invariant.let_go b entered held c following
      exact ⟨ranked, fun kept => away (still.mp kept).1⟩

theorem Invariant.linked_release (invariant : Invariant next nodes search)
    (leaving : Leaving search a path) (own : search.linkOf a = search.rankOf a) :
    Linked next (release { search with path } a) := by
  have still {b : Address} := invariant.toRanked.mem_held_release leaving (b := b)
  constructor
  case from_trail =>
    intro g outer b held
    exact invariant.from_trail g (leaving.outer_mem outer) b (still.mp held).1
  case to_trail =>
    intro b held
    obtain ⟨known, low⟩ := still.mp held
    obtain ⟨g, onTrail, high, leads⟩ := invariant.to_trail b known
    refine ⟨g, leaving.outer_of_ne onTrail ?_, high, leads⟩
    rintro rfl
    exact absurd low (Nat.not_lt.mpr high)
  case link_le =>
    intro g outer
    exact invariant.link_le g (leaving.outer_mem outer)
  case link_led =>
    intro g outer
    have onTrail := leaving.outer_mem outer
    obtain ⟨b, held, same, leads⟩ := invariant.link_led g onTrail
    refine ⟨b, still.mpr ⟨held, ?_⟩, same, leads⟩
    rw [same]
    exact Nat.lt_of_le_of_lt (invariant.link_le g onTrail)
      (invariant.toRanked.outer_lt leaving outer)
  case link_covers =>
    intro g outer b held high c following within followed
    obtain ⟨known, low⟩ := still.mp within
    obtain ⟨inner, inside, above, covers⟩ := invariant.link_covers g (leaving.outer_mem outer)
      b (still.mp held).1 high c following known (leaving.followed followed)
    refine ⟨inner, leaving.outer_of_ne inside ?_, above, covers⟩
    rintro rfl
    rw [own] at covers
    exact absurd low (Nat.not_lt.mpr covers)

theorem Invariant.mem_heldSince_iff_leads (invariant : Invariant next nodes search)
    (leaving : Leaving search a path) (own : search.linkOf a = search.rankOf a) {b : Address} :
    b ∈ search.heldSince a ↔ Leads next a b ∧ Leads next b a := by
  rw [invariant.toRanked.mem_heldSince leaving, invariant.held_since leaving own]

theorem Invariant.isGroup_release (invariant : Invariant next nodes search)
    (leaving : Leaving search a path) (own : search.linkOf a = search.rankOf a)
    (several : 2 ≤ (search.heldSince a).length) :
    IsGroup next (Address.sorted (search.heldSince a)) := by
  have member (b : Address) : b ∈ Address.sorted (search.heldSince a) ↔
      Leads next a b ∧ Leads next b a := by
    rw [Address.mem_sorted, invariant.mem_heldSince_iff_leads leaving own]
  constructor
  case ordered => exact Address.ordered_sorted _
  case several =>
    have distinct : (search.heldSince a).Nodup := by
      refine List.nodup_cons.mpr ⟨fun inside => ?_, ?_⟩
      · have other : (a != a) = true := List.mem_takeWhile_imp (p := fun b => b != a) inside
        exact bne_iff_ne.mp other rfl
      · exact invariant.toRanked.nodup_held.sublist (List.takeWhile_sublist _)
    rwa [(Address.sorted_perm distinct).length_eq]
  case full =>
    intro b inside c
    obtain ⟨there, back⟩ := (member b).mp inside
    rw [member]
    constructor
    · rintro ⟨leads, home⟩
      exact ⟨back.trans leads, home.trans there⟩
    · rintro ⟨leads, home⟩
      exact ⟨there.trans leads, home.trans back⟩

theorem components_release (search : LinkSearch) (a : Address) (path : List Frame) :
    (release { search with path } a).components =
      if 2 ≤ (search.heldSince a).length then
        Address.sorted (search.heldSince a) :: search.components
      else search.components := rfl

/-- What is held since the routine at hand is let go. -/
theorem Ranked.gone_of_mem_heldSince (ranked : Ranked search) (leaving : Leaving search a path)
    {b : Address} (since : b ∈ search.heldSince a) :
    b ∈ search.rank ∧ b ∉ (LinkSearch.release { search with path } a).held := by
  obtain ⟨held, high⟩ := (ranked.mem_heldSince leaving).mp since
  refine ⟨ranked.held_ranked b held, fun kept => ?_⟩
  exact absurd ((ranked.mem_held_release leaving).mp kept).2 (Nat.not_lt.mpr high)

theorem Invariant.groups_release (invariant : Invariant next nodes search)
    (leaving : Leaving search a path) (own : search.linkOf a = search.rankOf a)
    {group : List Address}
    (listed : group ∈ (LinkSearch.release { search with path } a).components) :
    IsGroup next group ∧
      ∀ b ∈ group, b ∈ search.rank ∧ b ∉ (LinkSearch.release { search with path } a).held := by
  have old (known : group ∈ search.components) : IsGroup next group ∧
      ∀ b ∈ group, b ∈ search.rank ∧ b ∉ (LinkSearch.release { search with path } a).held := by
    obtain ⟨isGroup, gone⟩ := invariant.groups group known
    refine ⟨isGroup, fun b inside => ⟨(gone b inside).1, fun kept => ?_⟩⟩
    exact (gone b inside).2 ((invariant.toRanked.mem_held_release leaving).mp kept).1
  rw [components_release] at listed
  split at listed
  · rename_i several
    rcases List.mem_cons.mp listed with rfl | known
    · refine ⟨invariant.isGroup_release leaving own several, fun b inside => ?_⟩
      exact invariant.toRanked.gone_of_mem_heldSince leaving (Address.mem_sorted.mp inside)
    · exact old known
  · exact old listed

/-- A routine that is let go now, and shares its group with another one, is in the group of the
routine at hand. -/
theorem Invariant.exists_group_release (invariant : Invariant next nodes search)
    (leaving : Leaving search a path) (own : search.linkOf a = search.rankOf a) {b c : Address}
    (held : b ∈ search.held) (gone : b ∉ (LinkSearch.release { search with path } a).held)
    (different : c ≠ b) (there : Leads next b c) (back : Leads next c b) :
    ∃ group ∈ (LinkSearch.release { search with path } a).components, b ∈ group := by
  have high := invariant.toRanked.le_of_released leaving held gone
  have first : b ∈ search.heldSince a :=
    (invariant.toRanked.mem_heldSince leaving).mpr ⟨held, high⟩
  obtain ⟨out, home⟩ := (invariant.mem_heldSince_iff_leads leaving own).mp first
  have second : c ∈ search.heldSince a :=
    (invariant.mem_heldSince_iff_leads leaving own).mpr ⟨out.trans there, back.trans home⟩
  have several : 2 ≤ (search.heldSince a).length := by
    have pair : [c, b].Nodup := by simp [different]
    exact (List.subperm_of_subset pair (by simp [first, second])).length_le
  rw [components_release, if_pos several]
  exact ⟨_, List.mem_cons_self, Address.mem_sorted.mpr first⟩

theorem Invariant.distinct_release (invariant : Invariant next nodes search)
    (leaving : Leaving search a path) :
    (LinkSearch.release { search with path } a).components.Nodup := by
  rw [components_release]
  split
  · refine List.nodup_cons.mpr ⟨fun known => ?_, invariant.distinct⟩
    have inside : a ∈ Address.sorted (search.heldSince a) :=
      Address.mem_sorted.mpr List.mem_cons_self
    have here : a ∈ search.held := invariant.trail_held a leaving.mem_trail
    exact ((invariant.groups _ known).2 a inside).2 here
  · exact invariant.distinct

theorem Invariant.found_release (invariant : Invariant next nodes search)
    (leaving : Leaving search a path) (own : search.linkOf a = search.rankOf a) :
    Found next (release { search with path } a) := by
  constructor
  case groups =>
    intro group listed
    exact invariant.groups_release leaving own listed
  case complete =>
    intro b entered gone c different there back
    by_cases held : b ∈ search.held
    · exact invariant.exists_group_release leaving own held gone different there back
    · obtain ⟨group, known, inside⟩ := invariant.complete b entered held c different there back
      refine ⟨group, ?_, inside⟩
      rw [components_release]
      split
      · exact List.mem_cons_of_mem _ known
      · exact known
  case distinct => exact invariant.distinct_release leaving

/-- The routine at hand is the first of its group, which is let go. -/
theorem Invariant.release (invariant : Invariant next nodes search)
    (leaving : Leaving search a path) (own : search.linkOf a = search.rankOf a) :
    Invariant next nodes (release { search with path } a) where
  toRanked := invariant.toRanked.release leaving
  toExplored := invariant.explored_release leaving own
  toLinked := invariant.linked_release leaving own
  toFound := invariant.found_release leaving own
  tried := invariant.tried

end First

end WidthTrace.LinkSearch
