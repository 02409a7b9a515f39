import Mathlib.Data.List.Nodup
import WidthTrace.Proofs.Instruction.StackMovement
import WidthTrace.Proofs.Trace.Visited

/-!
# Where a kept state comes from

Every kept state was handed on, from a seed, along a walk over instructions that
were executed under the states kept at their own addresses. No address occurs
twice on the walk, and the stack history of the state consists of the movements
made on the walk since its last call.
-/

namespace WidthTrace.Trace

/-- An instruction that a walk passes: its address, the state kept there, and the edge along which
the walk leaves it. -/
structure Hop where
  address : Address
  state : CpuState
  instruction : Instruction
  edge : EdgeKind

/-- The movement of the stack pointer that is made on a hop. -/
def Hop.movements (hop : Hop) : List StackOp :=
  (hop.instruction.movement? hop.state).toList

/-- A walk over kept states, each of which is exactly the one handed on by the hop before it. -/
inductive Walk (image : Image) (visited : AddressMap CpuState) (start : Address)
    (initial : CpuState) : List Hop → Address → CpuState → Prop where
  | start (known : visited[start]? = some initial) : Walk image visited start initial [] start initial
  | hop {hops : List Hop} {address target : Address} {state handed : CpuState}
      {instruction : Instruction} {edge : EdgeKind}
      (walk : Walk image visited start initial hops address state)
      (decoded : Instruction.decode? image address state = some instruction)
      (handover : instruction.Handover image state edge target handed)
      (known : visited[target]? = some handed) :
      Walk image visited start initial (hops ++ [⟨address, state, instruction, edge⟩]) target handed

namespace Walk

variable {image : Image} {visited : AddressMap CpuState} {start address : Address}
  {initial state : CpuState} {hops : List Hop}

theorem mono {grown : AddressMap CpuState} (extended : AddressMap.Extends visited grown)
    (walk : Walk image visited start initial hops address state) :
    Walk image grown start initial hops address state := by
  induction walk with
  | start known => exact .start (extended _ _ known)
  | hop walk decoded handover known ih => exact .hop ih decoded handover (extended _ _ known)

theorem known (walk : Walk image visited start initial hops address state) :
    visited[address]? = some state := by
  cases walk with
  | start known => exact known
  | hop walk decoded handover known => exact known

/-- The addresses of a walk, its end included. -/
def addresses (hops : List Hop) (address : Address) : List Address :=
  hops.map Hop.address ++ [address]

theorem mem_visited (walk : Walk image visited start initial hops address state) {a : Address}
    (member : a ∈ addresses hops address) : visited[a]? ≠ none := by
  induction walk with
  | start known =>
      cases List.mem_singleton.mp member
      rw [known]
      exact nofun
  | @hop hops address target state handed instruction edge walk decoded handover known ih =>
      rw [addresses, List.map_append] at member
      rcases List.mem_append.mp member with before | last
      · exact ih before
      · cases List.mem_singleton.mp last
        rw [known]
        exact nofun

theorem stackOps_of_no_call (walk : Walk image visited start initial hops address state)
    (inside : ∀ hop ∈ hops, hop.edge ≠ .call) :
    state.stackOps = initial.stackOps ++ hops.flatMap Hop.movements := by
  induction walk with
  | start known => exact (List.append_nil _).symm
  | @hop hops address target state handed instruction edge walk decoded handover known ih =>
      have before := ih fun hop member => inside hop (List.mem_append_left _ member)
      have last := inside _ (List.mem_append_right _ List.mem_cons_self)
      rw [handover.stackOps last, before, List.flatMap_append, List.append_assoc]
      simp [Hop.movements]

theorem stackOps_of_last_call (walk : Walk image visited start initial hops address state)
    {before after : List Hop} {call : Hop} (split : hops = before ++ call :: after)
    (calls : call.edge = .call) (inside : ∀ hop ∈ after, hop.edge ≠ .call) :
    state.stackOps = after.flatMap Hop.movements := by
  induction walk generalizing after with
  | start known => simp at split
  | @hop hops address target state handed instruction edge walk decoded handover known ih =>
      rcases List.eq_nil_or_concat after with rfl | ⟨shorter, last, rfl⟩
      · obtain ⟨_, same⟩ := List.append_inj' split rfl
        cases same
        cases calls
        exact handover.stackOps_of_call
      · rw [List.concat_eq_append] at split inside ⊢
        rw [← List.cons_append, ← List.append_assoc] at split
        obtain ⟨shape, same⟩ := List.append_inj' split rfl
        cases same
        have earlier := ih shape fun hop member => inside hop (List.mem_append_left _ member)
        have final := inside _ (List.mem_append_right _ List.mem_cons_self)
        rw [handover.stackOps final, earlier, List.flatMap_append]
        simp [Hop.movements]

/-- What every edge hands on holds at the end of a walk if it holds at the start. -/
theorem inherits {motive : Address → CpuState → Prop} (first : motive start initial)
    (handed : ∀ {source target : Address} {kept state : CpuState} {instruction : Instruction}
      {edge : EdgeKind}, visited[source]? = some kept →
      Instruction.decode? image source kept = some instruction →
      instruction.Handover image kept edge target state → motive source kept → motive target state)
    (walk : Walk image visited start initial hops address state) : motive address state := by
  induction walk with
  | start known => exact first
  | hop walk decoded handover known ih => exact handed walk.known decoded handover ih

end Walk

/-- A walk that repeats no address leads from a seed to a kept state. -/
def Rooted (image : Image) (seeds : List Seed) (visited : AddressMap CpuState) (address : Address)
    (kept : CpuState) : Prop :=
  ∃ start initial hops, (start, initial) ∈ seeds ∧
    Walk image visited start initial hops address kept ∧ (Walk.addresses hops address).Nodup

theorem Rooted.mono {image : Image} {seeds more : List Seed} {old new : AddressMap CpuState}
    (included : ∀ seed ∈ seeds, seed ∈ more) (extended : AddressMap.Extends old new)
    {address : Address} {kept : CpuState} (rooted : Rooted image seeds old address kept) :
    Rooted image more new address kept := by
  obtain ⟨start, initial, hops, declared, walk, distinct⟩ := rooted
  exact ⟨start, initial, hops, included _ declared, walk.mono extended, distinct⟩

/-- A state that is kept as it is brought prolongs the walk to the state that it comes from. -/
theorem Brought.rooted {image : Image} {seeds : List Seed} {visited : AddressMap CpuState}
    (rooted : ∀ address kept, visited[address]? = some kept →
      Rooted image seeds visited address kept)
    {address : Address} {state : CpuState} (brought : Brought image seeds visited address state)
    (fresh : visited[address]? = none) :
    Rooted image seeds (visited.insert address state) address state := by
  have extended := AddressMap.extends_insert fresh state
  have here := AddressMap.getElem?_insert_self visited address state
  cases brought with
  | seed declared => exact ⟨_, _, [], declared, .start here, List.nodup_singleton _⟩
  | handed known decoded handover =>
      obtain ⟨start, initial, hops, declared, walk, distinct⟩ := rooted _ _ known
      refine ⟨start, initial, _, declared, .hop (walk.mono extended) decoded handover here, ?_⟩
      rw [Walk.addresses, List.map_append, List.nodup_append]
      refine ⟨distinct, List.nodup_singleton _, ?_⟩
      intro a member b last same
      cases List.mem_singleton.mp last
      rw [same] at member
      exact walk.mem_visited member fresh

theorem Reachable.rooted {image : Image} {seeds : List Seed} {trace : Trace}
    (reached : Reachable image seeds trace) :
    ∀ address kept, trace.visited[address]? = some kept →
      Rooted image seeds trace.visited address kept := by
  induction reached with
  | empty =>
      intro address kept known
      exact absurd known unknown_empty
  | enter entry state before ih =>
      intro address kept known
      exact (ih address kept known).mono (fun _ => List.mem_append_left _) (.refl _)
  | @step seeds trace before ih =>
      refine step_preserves (motive := fun next => ∀ address kept,
        next.visited[address]? = some kept → Rooted image seeds next.visited address kept)
        image ih ?_
      intro next advance address kept known
      rcases visited_advance advance with same | ⟨arrival, instruction, present, fresh, _, grown⟩
      · rw [same] at known ⊢
        exact ih address kept known
      · rw [grown, AddressMap.getElem?_insert] at known
        rw [grown]
        split at known
        · rename_i here
          cases known
          subst here
          have waiting := mem_outstanding_of_current present
          exact (before.outstanding_brought _ waiting).rooted ih fresh
        · exact (ih address kept known).mono (fun _ => id) (AddressMap.extends_insert fresh _)

section

variable {image : Image} {seeds : List Seed} {trace : Trace} {motive : Address → CpuState → Prop}
  (seeded : ∀ seed ∈ seeds, motive seed.1 seed.2)
  (handed : ∀ {source target : Address} {kept state : CpuState} {instruction : Instruction}
    {edge : EdgeKind}, trace.visited[source]? = some kept →
    Instruction.decode? image source kept = some instruction →
    instruction.Handover image kept edge target state → motive source kept → motive target state)

include seeded handed

/-- What holds of the seeds and is handed on along every edge holds of the kept states. -/
theorem Reachable.inherits (reached : Reachable image seeds trace) {address : Address}
    {kept : CpuState} (known : trace.visited[address]? = some kept) : motive address kept := by
  obtain ⟨start, initial, hops, declared, walk, _⟩ := reached.rooted address kept known
  exact walk.inherits (seeded _ declared) handed

theorem Reachable.inherits_of_brought (reached : Reachable image seeds trace) {address : Address}
    {state : CpuState} (brought : Brought image seeds trace.visited address state) :
    motive address state := by
  cases brought with
  | seed declared => exact seeded _ declared
  | handed known decoded handover =>
      exact handed known decoded handover (reached.inherits seeded handed known)

end

/-- In every reachable trace, a kept state decodes an instruction at its address and comes from a
seed along a walk without repeated addresses. Its history holds the movements made on the walk after
its last call, or, if the walk has no call, the history of the seed and all movements made on the
walk. -/
theorem kept_state_has_provenance {image : Image} {seeds : List Seed} {trace : Trace}
    (reached : Reachable image seeds trace) {address : Address} {kept : CpuState}
    (known : trace.visited[address]? = some kept) :
    (∃ instruction, Instruction.decode? image address kept = some instruction) ∧
    ∃ start initial hops, (start, initial) ∈ seeds ∧
      Walk image trace.visited start initial hops address kept ∧
      (Walk.addresses hops address).Nodup ∧
      ((∀ hop ∈ hops, hop.edge ≠ .call) →
        kept.stackOps = initial.stackOps ++ hops.flatMap Hop.movements) ∧
      ∀ before call after, hops = before ++ call :: after → call.edge = .call →
        (∀ hop ∈ after, hop.edge ≠ .call) → kept.stackOps = after.flatMap Hop.movements := by
  obtain ⟨start, initial, hops, declared, walk, distinct⟩ := reached.rooted address kept known
  refine ⟨reached.decodes known, start, initial, hops, declared, walk, distinct, ?_, ?_⟩
  · exact walk.stackOps_of_no_call
  · intro before call after split calls inside
    exact walk.stackOps_of_last_call split calls inside

/-- A routine that saves the status register around a call; the called routine saves the
accumulator. -/
def callImage : Image :=
  ⟨⟨#[0x08, 0x20, 0x06, 0x80, 0x28, 0x60, 0x48, 0x68, 0x60]⟩, .loRom⟩

theorem provenance_in_callImage :
    (history callImage [.explore ⟨0, 0x8000⟩ .native8]).visited[(⟨0, 0x8007⟩ : Address)]? =
        some ⟨.known .byte, .known .byte, false, [⟨⟨0, 0x8006⟩, .pha, 1, 1⟩]⟩ ∧
      ∃ hops, Walk callImage (history callImage [.explore ⟨0, 0x8000⟩ .native8]).visited
          ⟨0, 0x8000⟩ .native8 hops ⟨0, 0x8007⟩
          ⟨.known .byte, .known .byte, false, [⟨⟨0, 0x8006⟩, .pha, 1, 1⟩]⟩ ∧
        (Walk.addresses hops ⟨0, 0x8007⟩).Nodup := by
  have stepped : history callImage [.explore ⟨0, 0x8000⟩ .native8] =
      (step callImage)^[10] (empty.enter ⟨0, 0x8000⟩ .native8) := by
    change run _ _ = _
    rw [← run_iterate_step callImage 10, run_of_isIdle]
    decide +kernel
  have known : (history callImage [.explore ⟨0, 0x8000⟩ .native8]).visited[
      (⟨0, 0x8007⟩ : Address)]? =
      some ⟨.known .byte, .known .byte, false, [⟨⟨0, 0x8006⟩, .pha, 1, 1⟩]⟩ := by
    rw [stepped]
    decide +kernel
  refine ⟨known, ?_⟩
  obtain ⟨_, start, initial, hops, declared, walk, distinct, _⟩ :=
    kept_state_has_provenance (reachable_history callImage [.explore ⟨0, 0x8000⟩ .native8]) known
  cases List.mem_singleton.mp declared
  exact ⟨hops, walk, distinct⟩

end WidthTrace.Trace
