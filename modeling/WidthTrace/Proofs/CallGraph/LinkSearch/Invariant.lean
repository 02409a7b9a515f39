import Mathlib.Logic.Relation
import WidthTrace.CallGraph.Cycles
import WidthTrace.Proofs.Address.Collection

/-!
# The invariant of the search for groups

The trail is the way from a root to the routine at hand. Every held routine is
led to by the routines of the trail that were entered before it, and leads back to
one of them. The links bound from below what the held routines reach in one
step, so that a routine which is left with its own rank as its link has its
whole group among those held since.
-/

namespace WidthTrace.LinkSearch

/-- Steps of `next` lead from one routine to another. -/
abbrev Leads (next : Address → List Address) : Address → Address → Prop :=
  Relation.ReflTransGen fun a b => b ∈ next a

/-- A sorted list of several routines that lead to each other and to no other routine that leads
back. -/
structure IsGroup (next : Address → List Address) (group : List Address) : Prop where
  ordered : group.Pairwise fun a b => compare a b = .lt
  several : 2 ≤ group.length
  full : ∀ a ∈ group, ∀ b, b ∈ group ↔ Leads next a b ∧ Leads next b a

/-- The routines on the way from a root to the one at hand, innermost first. -/
def trail (search : LinkSearch) : List Address :=
  search.path.map Frame.node

/-- The step from `a` to `b` is not left to be followed. -/
def Followed (search : LinkSearch) (a b : Address) : Prop :=
  ∀ frame ∈ search.path, frame.node = a → b ∉ frame.rest

/-- Routines are held, and stand on the trail, with the one entered last in front. -/
structure Ranked (search : LinkSearch) : Prop where
  rank_lt : ∀ a ∈ search.rank, search.rankOf a < search.entered
  held_ranked : ∀ a ∈ search.held, a ∈ search.rank
  held_falling : search.held.Pairwise fun a b => search.rankOf b < search.rankOf a
  isHeld_iff : ∀ a, a ∈ search.isHeld ↔ a ∈ search.held
  trail_held : ∀ a ∈ search.trail, a ∈ search.held
  trail_falling : search.trail.Pairwise fun a b => search.rankOf b < search.rankOf a

/-- Whatever follows a routine is still left to it on the trail, or has been entered; what follows a
routine that was let go has been let go too. -/
structure Explored (next : Address → List Address) (search : LinkSearch) : Prop where
  rest_next : ∀ frame ∈ search.path, ∀ b ∈ frame.rest, b ∈ next frame.node
  on_trail : ∀ frame ∈ search.path, ∀ b ∈ next frame.node, b ∈ frame.rest ∨ b ∈ search.rank
  off_trail : ∀ a ∈ search.held, a ∉ search.trail → ∀ b ∈ next a, b ∈ search.rank
  let_go : ∀ a ∈ search.rank, a ∉ search.held →
    ∀ b ∈ next a, b ∈ search.rank ∧ b ∉ search.held

/-- A held routine is led to by the trail below it and leads back to the trail. A link stands for
a held routine that is led to, and no followed step to a held routine goes below all links. -/
structure Linked (next : Address → List Address) (search : LinkSearch) : Prop where
  from_trail : ∀ g ∈ search.trail, ∀ a ∈ search.held, search.rankOf g ≤ search.rankOf a →
    Leads next g a
  to_trail : ∀ a ∈ search.held, ∃ g ∈ search.trail, search.rankOf g ≤ search.rankOf a ∧
    Leads next a g
  link_le : ∀ g ∈ search.trail, search.linkOf g ≤ search.rankOf g
  link_led : ∀ g ∈ search.trail, ∃ a ∈ search.held, search.rankOf a = search.linkOf g ∧
    Leads next g a
  link_covers : ∀ g ∈ search.trail, ∀ a ∈ search.held, search.rankOf g ≤ search.rankOf a →
    ∀ b ∈ next a, b ∈ search.held → search.Followed a b →
      ∃ inner ∈ search.trail, search.rankOf g ≤ search.rankOf inner ∧
        search.linkOf inner ≤ search.rankOf b

/-- The components are groups, and every routine that was let go is in one if it shares its group
with another. -/
structure Found (next : Address → List Address) (search : LinkSearch) : Prop where
  groups : ∀ group ∈ search.components, IsGroup next group ∧
    ∀ a ∈ group, a ∈ search.rank ∧ a ∉ search.held
  complete : ∀ a ∈ search.rank, a ∉ search.held → ∀ b, b ≠ a → Leads next a b →
    Leads next b a → ∃ group ∈ search.components, a ∈ group
  distinct : search.components.Nodup

/-- What holds throughout a search that starts with the given roots. -/
structure Invariant (next : Address → List Address) (nodes : List Address)
    (search : LinkSearch) : Prop extends
    Ranked search, Explored next search, Linked next search, Found next search where
  tried : ∀ a ∈ nodes, a ∈ search.roots ∨ a ∈ search.rank

variable {next : Address → List Address} {nodes : List Address} {search : LinkSearch}

theorem invariant_start (next : Address → List Address) (nodes : List Address) :
    Invariant next nodes (start nodes) := by
  refine ⟨?ranked, ?explored, ?linked, ?found, fun a member => .inl member⟩
  case ranked => constructor <;> simp [start, trail]
  case explored => constructor <;> simp [start, trail]
  case linked => constructor <;> simp [start, trail]
  case found => constructor <;> simp [start]

/-! ## Entering a routine -/

theorem rankOf_enter (search : LinkSearch) (a b : Address) :
    (search.enter next a).rankOf b = if a = b then search.entered else search.rankOf b :=
  AddressMap.getD_insert _ _ _ _ _

theorem linkOf_enter (search : LinkSearch) (a b : Address) :
    (search.enter next a).linkOf b = if a = b then search.entered else search.linkOf b :=
  AddressMap.getD_insert _ _ _ _ _

theorem rankOf_enter_self (search : LinkSearch) (a : Address) :
    (search.enter next a).rankOf a = search.entered := by
  rw [rankOf_enter, if_pos rfl]

theorem linkOf_enter_self (search : LinkSearch) (a : Address) :
    (search.enter next a).linkOf a = search.entered := by
  rw [linkOf_enter, if_pos rfl]

theorem rankOf_enter_of_mem {a b : Address} (fresh : a ∉ search.rank) (member : b ∈ search.rank) :
    (search.enter next a).rankOf b = search.rankOf b := by
  rw [rankOf_enter, if_neg]
  rintro rfl
  exact fresh member

theorem linkOf_enter_of_mem {a b : Address} (fresh : a ∉ search.rank) (member : b ∈ search.rank) :
    (search.enter next a).linkOf b = search.linkOf b := by
  rw [linkOf_enter, if_neg]
  rintro rfl
  exact fresh member

theorem mem_rank_enter {a b : Address} :
    b ∈ (search.enter next a).rank ↔ a = b ∨ b ∈ search.rank :=
  AddressMap.mem_insert

theorem Ranked.le_of_mem_trail (ranked : Ranked search) {a g : Address} {rest : List Address}
    (present : search.trail = a :: rest) (member : g ∈ search.trail) :
    search.rankOf g ≤ search.rankOf a := by
  have falling := ranked.trail_falling
  rw [present] at member falling
  rcases List.mem_cons.mp member with rfl | below
  · exact Nat.le_refl _
  · exact Nat.le_of_lt (List.rel_of_pairwise_cons falling below)

/-- Of the routines on the trail only the one at hand is ranked as high as it is. -/
theorem Ranked.eq_of_mem_trail (ranked : Ranked search) {a g : Address} {rest : List Address}
    (present : search.trail = a :: rest) (member : g ∈ search.trail)
    (high : search.rankOf a ≤ search.rankOf g) : g = a := by
  have falling := ranked.trail_falling
  rw [present] at member falling
  rcases List.mem_cons.mp member with same | below
  · exact same
  · exact absurd (List.rel_of_pairwise_cons falling below) (Nat.not_lt.mpr high)

theorem trail_enter (search : LinkSearch) (a : Address) :
    (search.enter next a).trail = a :: search.trail := rfl

theorem held_enter (search : LinkSearch) (a : Address) :
    (search.enter next a).held = a :: search.held := rfl

theorem Ranked.trail_ranked (ranked : Ranked search) {g : Address} (onTrail : g ∈ search.trail) :
    g ∈ search.rank :=
  ranked.held_ranked g (ranked.trail_held g onTrail)

/-- The entered routine is ranked above all that were entered before. -/
theorem Ranked.rankOf_enter_lt (ranked : Ranked search) {a b : Address} (fresh : a ∉ search.rank)
    (member : b ∈ search.rank) :
    (search.enter next a).rankOf b < (search.enter next a).rankOf a := by
  rw [rankOf_enter_self, rankOf_enter_of_mem fresh member]
  exact ranked.rank_lt b member

theorem Ranked.enter (ranked : Ranked search) {a : Address} (fresh : a ∉ search.rank) :
    Ranked (search.enter next a) := by
  have falls {b c : Address} (high : b ∈ search.rank) (low : c ∈ search.rank)
      (lower : search.rankOf c < search.rankOf b) :
      (search.enter next a).rankOf c < (search.enter next a).rankOf b := by
    rwa [rankOf_enter_of_mem fresh high, rankOf_enter_of_mem fresh low]
  constructor
  case rank_lt =>
    intro b member
    rcases mem_rank_enter.mp member with rfl | before
    · rw [rankOf_enter_self]
      exact Nat.lt_succ_self _
    · rw [rankOf_enter_of_mem fresh before]
      exact Nat.lt_succ_of_lt (ranked.rank_lt b before)
  case held_ranked =>
    intro b member
    rcases List.mem_cons.mp member with rfl | before
    · exact mem_rank_enter.mpr (.inl rfl)
    · exact mem_rank_enter.mpr (.inr (ranked.held_ranked b before))
  case held_falling =>
    refine List.Pairwise.cons
      (fun b before => ranked.rankOf_enter_lt fresh (ranked.held_ranked b before)) ?_
    exact ranked.held_falling.imp_of_mem fun high low =>
      falls (ranked.held_ranked _ high) (ranked.held_ranked _ low)
  case isHeld_iff =>
    intro b
    rw [held_enter, List.mem_cons, ← ranked.isHeld_iff, eq_comm]
    exact AddressSet.mem_insert
  case trail_held =>
    intro b member
    rcases List.mem_cons.mp member with rfl | before
    · exact List.mem_cons_self
    · exact List.mem_cons_of_mem _ (ranked.trail_held b before)
  case trail_falling =>
    refine List.Pairwise.cons
      (fun b before => ranked.rankOf_enter_lt fresh (ranked.trail_ranked before)) ?_
    exact ranked.trail_falling.imp_of_mem fun high low =>
      falls (ranked.trail_ranked high) (ranked.trail_ranked low)

theorem Explored.enter (explored : Explored next search) {a : Address} (fresh : a ∉ search.rank) :
    Explored next (search.enter next a) := by
  constructor
  case rest_next =>
    intro frame member b left
    rcases List.mem_cons.mp member with rfl | before
    · exact left
    · exact explored.rest_next frame before b left
  case on_trail =>
    intro frame member b following
    rcases List.mem_cons.mp member with rfl | before
    · exact .inl following
    · exact (explored.on_trail frame before b following).imp_right fun entered =>
        mem_rank_enter.mpr (.inr entered)
  case off_trail =>
    intro b member off c following
    rw [trail_enter, List.mem_cons, not_or] at off
    rcases List.mem_cons.mp member with same | before
    · exact absurd same off.1
    · exact mem_rank_enter.mpr (.inr (explored.off_trail b before off.2 c following))
  case let_go =>
    intro b entered gone c following
    rw [held_enter, List.mem_cons, not_or] at gone
    rcases mem_rank_enter.mp entered with same | before
    · exact absurd same.symm gone.1
    · obtain ⟨ranked, away⟩ := explored.let_go b before gone.2 c following
      refine ⟨mem_rank_enter.mpr (.inr ranked), ?_⟩
      rw [held_enter, List.mem_cons, not_or]
      exact ⟨fun same => fresh (same ▸ ranked), away⟩

/-- A step from a held routine that has been followed ends in a routine that has been entered. -/
theorem Explored.entered (explored : Explored next search) {a b : Address}
    (held : a ∈ search.held) (following : b ∈ next a) (followed : search.Followed a b) :
    b ∈ search.rank := by
  by_cases onTrail : a ∈ search.trail
  · obtain ⟨frame, inside, rfl⟩ := List.mem_map.mp onTrail
    rcases explored.on_trail frame inside b following with left | entered
    · exact absurd left (followed frame inside rfl)
    · exact entered
  · exact explored.off_trail a held onTrail b following

section Enter

variable {a : Address}

/-- Entering a routine leaves the ranks of the held routines as they are. -/
theorem Ranked.rankOf_enter_of_held (ranked : Ranked search) (fresh : a ∉ search.rank)
    {b : Address} (member : b ∈ search.held) :
    (search.enter next a).rankOf b = search.rankOf b :=
  rankOf_enter_of_mem fresh (ranked.held_ranked b member)

theorem Ranked.rankOf_enter_of_trail (ranked : Ranked search) (fresh : a ∉ search.rank)
    {g : Address} (onTrail : g ∈ search.trail) :
    (search.enter next a).rankOf g = search.rankOf g :=
  rankOf_enter_of_mem fresh (ranked.trail_ranked onTrail)

theorem Ranked.linkOf_enter_of_trail (ranked : Ranked search) (fresh : a ∉ search.rank)
    {g : Address} (onTrail : g ∈ search.trail) :
    (search.enter next a).linkOf g = search.linkOf g :=
  linkOf_enter_of_mem fresh (ranked.trail_ranked onTrail)

/-- No followed step leads to the entered routine, and its own steps are all left to be followed, so
that only steps between routines held before have to be covered. -/
theorem Linked.link_covers_enter (linked : Linked next search) (ranked : Ranked search)
    (explored : Explored next search) (fresh : a ∉ search.rank) {g b c : Address}
    (onTrail : g ∈ (search.enter next a).trail) (member : b ∈ (search.enter next a).held)
    (high : (search.enter next a).rankOf g ≤ (search.enter next a).rankOf b)
    (following : c ∈ next b) (held : c ∈ (search.enter next a).held)
    (followed : (search.enter next a).Followed b c) :
    ∃ inner ∈ (search.enter next a).trail,
      (search.enter next a).rankOf g ≤ (search.enter next a).rankOf inner ∧
        (search.enter next a).linkOf inner ≤ (search.enter next a).rankOf c := by
  rcases List.mem_cons.mp member with rfl | earlier
  · exact absurd following (followed _ List.mem_cons_self rfl)
  · have passed : search.Followed b c := fun frame inside =>
      followed frame (List.mem_cons_of_mem _ inside)
    rcases List.mem_cons.mp held with rfl | known
    · exact absurd (explored.entered earlier following passed) fresh
    · rcases List.mem_cons.mp onTrail with rfl | lower
      · exact absurd (ranked.rankOf_enter_lt fresh (ranked.held_ranked b earlier))
          (Nat.not_lt.mpr high)
      · rw [ranked.rankOf_enter_of_trail fresh lower,
          ranked.rankOf_enter_of_held fresh earlier] at high
        obtain ⟨inner, within, above, covers⟩ :=
          linked.link_covers g lower b earlier high c following known passed
        refine ⟨inner, List.mem_cons_of_mem _ within, ?_, ?_⟩
        · rwa [ranked.rankOf_enter_of_trail fresh lower, ranked.rankOf_enter_of_trail fresh within]
        · rwa [ranked.linkOf_enter_of_trail fresh within, ranked.rankOf_enter_of_held fresh known]

theorem Linked.enter (linked : Linked next search) (ranked : Ranked search)
    (explored : Explored next search) (fresh : a ∉ search.rank)
    (led : ∀ g ∈ search.trail, Leads next g a) : Linked next (search.enter next a) := by
  constructor
  case from_trail =>
    intro g onTrail b member high
    rcases List.mem_cons.mp onTrail with rfl | before
    · rcases List.mem_cons.mp member with rfl | earlier
      · exact .refl
      · exact absurd (ranked.rankOf_enter_lt fresh (ranked.held_ranked b earlier))
          (Nat.not_lt.mpr high)
    · rcases List.mem_cons.mp member with rfl | earlier
      · exact led g before
      · rw [ranked.rankOf_enter_of_trail fresh before,
          ranked.rankOf_enter_of_held fresh earlier] at high
        exact linked.from_trail g before b earlier high
  case to_trail =>
    intro b member
    rcases List.mem_cons.mp member with rfl | earlier
    · exact ⟨b, List.mem_cons_self, Nat.le_refl _, .refl⟩
    · obtain ⟨g, before, high, leads⟩ := linked.to_trail b earlier
      refine ⟨g, List.mem_cons_of_mem _ before, ?_, leads⟩
      rwa [ranked.rankOf_enter_of_trail fresh before, ranked.rankOf_enter_of_held fresh earlier]
  case link_le =>
    intro g onTrail
    rcases List.mem_cons.mp onTrail with rfl | before
    · rw [linkOf_enter_self, rankOf_enter_self]
    · rw [ranked.linkOf_enter_of_trail fresh before, ranked.rankOf_enter_of_trail fresh before]
      exact linked.link_le g before
  case link_led =>
    intro g onTrail
    rcases List.mem_cons.mp onTrail with rfl | before
    · refine ⟨g, List.mem_cons_self, ?_, .refl⟩
      rw [linkOf_enter_self, rankOf_enter_self]
    · obtain ⟨b, member, same, leads⟩ := linked.link_led g before
      refine ⟨b, List.mem_cons_of_mem _ member, ?_, leads⟩
      rwa [ranked.linkOf_enter_of_trail fresh before, ranked.rankOf_enter_of_held fresh member]
  case link_covers =>
    intro g onTrail b member high c following held followed
    exact linked.link_covers_enter ranked explored fresh onTrail member high following held
      followed

end Enter

theorem Found.enter (found : Found next search) {a : Address} (fresh : a ∉ search.rank) :
    Found next (search.enter next a) := by
  constructor
  case groups =>
    intro group member
    obtain ⟨isGroup, gone⟩ := found.groups group member
    refine ⟨isGroup, fun b inside => ?_⟩
    obtain ⟨entered, away⟩ := gone b inside
    refine ⟨mem_rank_enter.mpr (.inr entered), ?_⟩
    rw [held_enter, List.mem_cons, not_or]
    exact ⟨fun same => fresh (same ▸ entered), away⟩
  case complete =>
    intro b entered gone
    rw [held_enter, List.mem_cons, not_or] at gone
    rcases mem_rank_enter.mp entered with same | before
    · exact absurd same.symm gone.1
    · exact found.complete b before gone.2
  case distinct => exact found.distinct

/-- Entering a routine to which everything on the trail leads. -/
theorem Invariant.enter (invariant : Invariant next nodes search) {a : Address}
    (fresh : a ∉ search.rank) (led : ∀ g ∈ search.trail, Leads next g a) :
    Invariant next nodes (search.enter next a) where
  toRanked := invariant.toRanked.enter fresh
  toExplored := invariant.toExplored.enter fresh
  toLinked := invariant.toLinked.enter invariant.toRanked invariant.toExplored fresh led
  toFound := invariant.toFound.enter fresh
  tried b member := (invariant.tried b member).imp_right fun entered =>
    mem_rank_enter.mpr (.inr entered)

/-- A root that has been entered need not be tried any more. -/
theorem Invariant.dropRoot (invariant : Invariant next nodes search) {a : Address}
    {roots : List Address} (present : search.roots = a :: roots) (entered : a ∈ search.rank) :
    Invariant next nodes { search with roots } where
  toRanked := { invariant.toRanked with }
  toExplored := { invariant.toExplored with }
  toLinked := { invariant.toLinked with }
  toFound := { invariant.toFound with }
  tried b member := by
    rcases invariant.tried b member with root | ranked
    · rw [present] at root
      rcases List.mem_cons.mp root with rfl | later
      · exact .inr entered
      · exact .inl later
    · exact .inr ranked

/-! ## Following a step -/

theorem linkOf_lower (search : LinkSearch) (a b : Address) (rank : Nat) :
    (search.lower a rank).linkOf b =
      if a = b then min (search.linkOf a) rank else search.linkOf b :=
  AddressMap.getD_insert _ _ _ _ _

theorem linkOf_lower_self_le (search : LinkSearch) (a : Address) (rank : Nat) :
    (search.lower a rank).linkOf a ≤ rank := by
  rw [linkOf_lower, if_pos rfl]
  exact Nat.min_le_right _ _

theorem linkOf_lower_le (search : LinkSearch) (a b : Address) (rank : Nat) :
    (search.lower a rank).linkOf b ≤ search.linkOf b := by
  rw [linkOf_lower]
  split
  · rename_i same
    rw [← same]
    exact Nat.min_le_left _ _
  · exact Nat.le_refl _

/-- A routine may be linked to any held routine that it leads to. -/
theorem Invariant.lower (invariant : Invariant next nodes search) {a b : Address}
    (held : b ∈ search.held) (leads : Leads next a b) :
    Invariant next nodes (search.lower a (search.rankOf b)) := by
  refine ⟨{ invariant.toRanked with }, { invariant.toExplored with }, ?linked,
    { invariant.toFound with }, invariant.tried⟩
  refine { invariant.toLinked with link_le := ?le, link_led := ?led, link_covers := ?covers }
  case le =>
    intro g onTrail
    exact Nat.le_trans (linkOf_lower_le search a g _) (invariant.link_le g onTrail)
  case led =>
    intro g onTrail
    obtain ⟨c, known, same, led⟩ := invariant.link_led g onTrail
    rw [linkOf_lower]
    split
    · rename_i here
      subst here
      rcases Nat.le_total (search.linkOf a) (search.rankOf b) with less | more
      · exact ⟨c, known, same.trans (Nat.min_eq_left less).symm, led⟩
      · exact ⟨b, held, (Nat.min_eq_right more).symm, leads⟩
    · exact ⟨c, known, same, led⟩
  case covers =>
    intro g onTrail c known high d following within followed
    obtain ⟨inner, inside, above, covers⟩ :=
      invariant.link_covers g onTrail c known high d following within followed
    exact ⟨inner, inside, above, Nat.le_trans (linkOf_lower_le search a inner _) covers⟩

section Consume

/-! Crossing off the step to `b` from a routine `a` on the trail. -/

variable {inner outer : List Frame} {a b : Address} {rest : List Address}

theorem trail_consume (present : search.path = inner ++ ⟨a, b :: rest⟩ :: outer) :
    trail { search with path := inner ++ ⟨a, rest⟩ :: outer } = search.trail := by
  simp [trail, present]

/-- Only one frame differs between the two paths. -/
theorem mem_path_consume {first frame : Frame} (second : Frame)
    (member : frame ∈ inner ++ first :: outer) :
    frame = first ∨ frame ∈ inner ++ second :: outer := by
  simp only [List.mem_append, List.mem_cons] at member ⊢
  rcases member with inside | rfl | outside
  · exact .inr (.inl inside)
  · exact .inl rfl
  · exact .inr (.inr (.inr outside))

theorem followed_consume (present : search.path = inner ++ ⟨a, b :: rest⟩ :: outer)
    {c d : Address}
    (followed : ({ search with path := inner ++ ⟨a, rest⟩ :: outer } : LinkSearch).Followed c d) :
    search.Followed c d ∨ c = a ∧ d = b := by
  by_cases passed : search.Followed c d
  · exact .inl passed
  · simp only [Followed, not_forall, not_not] at passed
    obtain ⟨frame, member, rfl, left⟩ := passed
    rw [present] at member
    rcases mem_path_consume ⟨a, rest⟩ member with rfl | kept
    · rcases List.mem_cons.mp left with rfl | later
      · exact .inr ⟨rfl, rfl⟩
      · exact absurd later (followed ⟨a, rest⟩ (List.mem_append_right _ List.mem_cons_self) rfl)
    · exact absurd left (followed frame kept rfl)

theorem Explored.consume (explored : Explored next search)
    (present : search.path = inner ++ ⟨a, b :: rest⟩ :: outer) (entered : b ∈ search.rank) :
    Explored next { search with path := inner ++ ⟨a, rest⟩ :: outer } := by
  have here : ⟨a, b :: rest⟩ ∈ search.path := by
    rw [present]
    exact List.mem_append_right _ List.mem_cons_self
  refine { explored with rest_next := ?rest, on_trail := ?on, off_trail := ?off }
  case rest =>
    intro frame member c left
    rcases mem_path_consume ⟨a, b :: rest⟩ member with rfl | before
    · exact explored.rest_next _ here c (List.mem_cons_of_mem _ left)
    · rw [← present] at before
      exact explored.rest_next frame before c left
  case on =>
    intro frame member c following
    rcases mem_path_consume ⟨a, b :: rest⟩ member with rfl | before
    · rcases explored.on_trail _ here c following with left | ranked
      · rcases List.mem_cons.mp left with rfl | later
        · exact .inr entered
        · exact .inl later
      · exact .inr ranked
    · rw [← present] at before
      exact explored.on_trail frame before c following
  case off =>
    rw [trail_consume present]
    exact explored.off_trail

theorem Linked.consume (linked : Linked next search)
    (present : search.path = inner ++ ⟨a, b :: rest⟩ :: outer)
    (covered : b ∈ search.held →
      ∃ g ∈ search.trail, search.rankOf a ≤ search.rankOf g ∧ search.linkOf g ≤ search.rankOf b) :
    Linked next { search with path := inner ++ ⟨a, rest⟩ :: outer } := by
  constructor <;> rw [trail_consume present]
  case from_trail => exact linked.from_trail
  case to_trail => exact linked.to_trail
  case link_le => exact linked.link_le
  case link_led => exact linked.link_led
  case link_covers =>
    intro g onTrail c known high d following within followed
    rcases followed_consume present followed with passed | ⟨rfl, rfl⟩
    · exact linked.link_covers g onTrail c known high d following within passed
    · obtain ⟨inner, inside, above, covers⟩ := covered within
      exact ⟨inner, inside, Nat.le_trans high above, covers⟩

/-- If `b` is held, the link of a routine that is not outside of the step must cover it. -/
theorem Invariant.consume (invariant : Invariant next nodes search) (inner : List Frame)
    (present : search.path = inner ++ ⟨a, b :: rest⟩ :: outer) (entered : b ∈ search.rank)
    (covered : b ∈ search.held →
      ∃ g ∈ search.trail, search.rankOf a ≤ search.rankOf g ∧ search.linkOf g ≤ search.rankOf b) :
    Invariant next nodes { search with path := inner ++ ⟨a, rest⟩ :: outer } := by
  refine ⟨?ranked, invariant.toExplored.consume present entered,
    invariant.toLinked.consume present covered, { invariant.toFound with }, invariant.tried⟩
  refine { invariant.toRanked with trail_held := ?held, trail_falling := ?falling }
  case held =>
    rw [trail_consume present]
    exact invariant.trail_held
  case falling =>
    rw [trail_consume present]
    exact invariant.trail_falling

end Consume

end WidthTrace.LinkSearch
