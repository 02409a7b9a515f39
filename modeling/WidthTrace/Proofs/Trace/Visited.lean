import WidthTrace.Proofs.Address.Collection
import WidthTrace.Proofs.Instruction.Handover
import WidthTrace.Proofs.Trace.History

/-!
# Kept states and the arrivals that they lead to

A state that is kept at an address stays there. It was brought by a seed or by an
instruction that was executed under a kept state, and so is every arrival that
is still outstanding.
-/

namespace WidthTrace.Trace

theorem visited_advance {image : Image} {trace next : Trace} (advance : Advance image trace next) :
    next.visited = trace.visited ∨
      ∃ arrival instruction, trace.current = some arrival ∧
        trace.visited[arrival.address]? = none ∧
        Instruction.decode? image arrival.address arrival.state = some instruction ∧
        next.visited = trace.visited.insert arrival.address arrival.state := by
  cases advance with
  | take free popped => exact .inl rfl
  | meet present known => exact .inl (visited_meet _ _ _)
  | stop present fresh unreadable => exact .inl rfl
  | @execute arrival instruction present fresh decoded =>
      exact .inr ⟨arrival, instruction, present, fresh, decoded, visited_execute _ _ _ _⟩

/-- An instruction is executed under the state that is kept at its address. -/
theorem known_execute (image : Image) (trace : Trace) (instruction : Instruction)
    (arrival : Arrival) :
    (trace.execute image instruction arrival).visited[arrival.address]? = some arrival.state := by
  rw [visited_execute, AddressMap.getElem?_insert_self]

theorem unknown_empty {address : Address} {kept : CpuState} :
    Trace.empty.visited[address]? ≠ some kept := by
  rw [Trace.empty, Std.TreeMap.getElem?_emptyc]
  exact nofun

theorem extends_advance {image : Image} {trace next : Trace} (advance : Advance image trace next) :
    AddressMap.Extends trace.visited next.visited := by
  rcases visited_advance advance with same | ⟨arrival, _, _, fresh, _, grown⟩
  · rw [same]
    exact .refl _
  · rw [grown]
    exact AddressMap.extends_insert fresh _

theorem isSome_byte?_of_decode? {image : Image} {address : Address} {state : CpuState}
    {instruction : Instruction}
    (decoded : Instruction.decode? image address state = some instruction) :
    (image.byte? address).isSome = true := by
  rw [← Instruction.isSome_decode? image address state, decoded]
  rfl

/-- Every kept state decodes an instruction at its address. -/
theorem Reachable.decodes {image : Image} {seeds : List Seed} {trace : Trace}
    (reached : Reachable image seeds trace) {address : Address} {kept : CpuState}
    (known : trace.visited[address]? = some kept) :
    ∃ instruction, Instruction.decode? image address kept = some instruction := by
  refine Reachable.invariant
    (motive := fun _ trace => ∀ address kept, trace.visited[address]? = some kept →
      ∃ instruction, Instruction.decode? image address kept = some instruction)
    ?initial ?enter ?advance reached address kept known
  case initial =>
    intro address kept known
    exact absurd known unknown_empty
  case enter =>
    intro _ _ _ _ holds
    exact holds
  case advance =>
    intro _ trace next holds advance address kept known
    rcases visited_advance advance with same | ⟨arrival, instruction, _, _, decoded, grown⟩
    · rw [same] at known
      exact holds address kept known
    · rw [grown, AddressMap.getElem?_insert] at known
      split at known
      · rename_i here
        cases known
        rw [← here]
        exact ⟨instruction, decoded⟩
      · exact holds address kept known

theorem Reachable.readable {image : Image} {seeds : List Seed} {trace : Trace}
    (reached : Reachable image seeds trace) {address : Address} {kept : CpuState}
    (known : trace.visited[address]? = some kept) : (image.byte? address).isSome = true := by
  obtain ⟨instruction, decoded⟩ := reached.decodes known
  exact isSome_byte?_of_decode? decoded

/-- A state is brought to an address by a seed, or by an instruction that was executed under the
state kept at its own address. -/
inductive Brought (image : Image) (seeds : List Seed) (visited : AddressMap CpuState) :
    Address → CpuState → Prop where
  | seed {address : Address} {state : CpuState} (declared : (address, state) ∈ seeds) :
      Brought image seeds visited address state
  | handed {source : Address} {kept : CpuState} {instruction : Instruction} {edge : EdgeKind}
      {target : Address} {state : CpuState} (known : visited[source]? = some kept)
      (decoded : Instruction.decode? image source kept = some instruction)
      (handover : instruction.Handover image kept edge target state) :
      Brought image seeds visited target state

theorem Brought.mono {image : Image} {seeds more : List Seed} {old new : AddressMap CpuState}
    (included : ∀ seed ∈ seeds, seed ∈ more) (extended : AddressMap.Extends old new)
    {address : Address} {state : CpuState} (brought : Brought image seeds old address state) :
    Brought image more new address state := by
  cases brought with
  | seed declared => exact .seed (included _ declared)
  | handed known decoded handover => exact .handed (extended _ _ known) decoded handover

theorem brought_of_mem_arrivals {image : Image} {seeds : List Seed} {visited : AddressMap CpuState}
    {source target : Address} {kept state : CpuState} {instruction : Instruction}
    (known : visited[source]? = some kept)
    (decoded : Instruction.decode? image source kept = some instruction)
    (arrives : (target, state) ∈ instruction.arrivals image kept) :
    Brought image seeds visited target state := by
  obtain ⟨edge, handover⟩ := Instruction.mem_arrivals.mp arrives
  exact .handed known decoded handover

/-! ## The arrivals outstanding after an instruction -/

theorem handover_of_mem_started {image : Image} {instruction : Instruction}
    {arrival started : Arrival}
    (member : started ∈ (onward image instruction arrival).toList ++
      (launch image instruction arrival).toList) :
    ∃ edge, instruction.Handover image arrival.state edge started.address started.state := by
  rw [List.mem_append, Option.mem_toList, Option.mem_toList] at member
  rcases member with continued | launched
  · obtain ⟨⟨target, handed⟩, found, rfl⟩ := Option.map_eq_some_iff.mp continued
    exact ⟨_, Instruction.continuation?_eq_some_iff.mp found⟩
  · obtain ⟨⟨kind, target⟩, transferred, rfl⟩ := Option.map_eq_some_iff.mp launched
    exact ⟨_, Instruction.handover_of_transfer? transferred arrival.state⟩

theorem exists_mem_started_of_handover {image : Image} {instruction : Instruction}
    {arrival : Arrival} {edge : EdgeKind} {target : Address} {handed : CpuState}
    (handover : instruction.Handover image arrival.state edge target handed) :
    ∃ started ∈ (onward image instruction arrival).toList ++
        (launch image instruction arrival).toList,
      started.address = target ∧ started.state = handed := by
  rcases handover.cases_transfer with continued | ⟨kind, transferred, rfl⟩
  · refine ⟨⟨target, handed, arrival.routine⟩, List.mem_append_left _ ?_, rfl, rfl⟩
    rw [Option.mem_toList, onward, continued]
    rfl
  · refine ⟨⟨target, Instruction.carried kind arrival.state,
      if kind = .call then target else arrival.routine⟩, List.mem_append_right _ ?_, rfl, rfl⟩
    rw [Option.mem_toList, launch, transferred]
    rfl

theorem mem_outstanding_execute {image : Image} {trace : Trace} {instruction : Instruction}
    {arrival other : Arrival} :
    other ∈ (trace.execute image instruction arrival).outstanding ↔
      other ∈ trace.pending.toList ∨
        other ∈ (onward image instruction arrival).toList ++
          (launch image instruction arrival).toList := by
  simp only [outstanding, current_execute, pending_execute, List.mem_append]
  constructor
  · rintro (continued | waiting | launched)
    · exact .inr (.inl continued)
    · exact .inl waiting
    · exact .inr (.inr launched)
  · rintro (waiting | continued | launched)
    · exact .inr (.inl waiting)
    · exact .inl continued
    · exact .inr (.inr launched)

/-- Every outstanding arrival was brought to its address. -/
def AllBrought (image : Image) (seeds : List Seed) (trace : Trace) : Prop :=
  ∀ arrival ∈ trace.outstanding,
    Brought image seeds trace.visited arrival.address arrival.state

section

variable {image : Image} {seeds : List Seed} {trace next : Trace}

/-- Wherever an executed arrival comes from, those that it leads to are brought by its
instruction. -/
theorem AllBrought.execute (brought : AllBrought image seeds trace) {executed : Arrival}
    {instruction : Instruction} (fresh : trace.visited[executed.address]? = none)
    (decoded : Instruction.decode? image executed.address executed.state = some instruction) :
    AllBrought image seeds (trace.ended.execute image instruction executed) := by
  intro arrival waiting
  rcases mem_outstanding_execute.mp waiting with before | started
  · apply (brought _ (List.mem_append_right _ before)).mono fun _ => id
    rw [visited_execute]
    exact AddressMap.extends_insert fresh _
  · obtain ⟨edge, handover⟩ := handover_of_mem_started started
    exact .handed (known_execute image trace.ended instruction executed) decoded handover

theorem AllBrought.advance (brought : AllBrought image seeds trace)
    (advance : Advance image trace next) : AllBrought image seeds next := by
  cases advance with
  | take free popped =>
      intro arrival waiting
      rw [outstanding_take free popped] at waiting
      exact brought arrival waiting
  | meet present known =>
      intro arrival waiting
      rw [visited_meet]
      rw [outstanding_meet] at waiting
      exact brought arrival (List.mem_append_right _ waiting)
  | stop present fresh unreadable =>
      exact fun arrival waiting => brought arrival (List.mem_append_right _ waiting)
  | execute present fresh decoded => exact brought.execute fresh decoded

end

theorem Reachable.outstanding_brought {image : Image} {seeds : List Seed} {trace : Trace}
    (reached : Reachable image seeds trace) : AllBrought image seeds trace := by
  refine Reachable.invariant (motive := AllBrought image) ?initial ?enter ?advance reached
  case initial =>
    intro arrival waiting
    cases waiting
  case enter =>
    intro seeds trace entry state holds arrival waiting
    rw [outstanding_enter] at waiting
    rcases List.mem_append.mp waiting with before | new
    · exact (holds arrival before).mono (fun _ => List.mem_append_left _) (.refl _)
    · cases List.mem_singleton.mp new
      exact .seed (List.mem_append_right _ List.mem_cons_self)
  case advance =>
    intro _ _ _ holds advance
    exact holds.advance advance

end WidthTrace.Trace
