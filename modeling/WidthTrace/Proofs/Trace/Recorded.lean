import WidthTrace.Proofs.Trace.Visited

/-!
# What traced instructions leave in a trace

Every traced instruction leaves the transfer and the return that it makes, and
nothing else leaves any. Hence the recorded transfers and returns can be read off
the kept states: they do not depend on the order in which a trace went on.
-/

namespace WidthTrace.Trace

/-- The instruction at an address was executed under the state kept there. -/
structure Traced (image : Image) (visited : AddressMap CpuState) (address : Address)
    (kept : CpuState) (instruction : Instruction) : Prop where
  known : visited[address]? = some kept
  decoded : Instruction.decode? image address kept = some instruction

instance (image : Image) (visited : AddressMap CpuState) (address : Address) (kept : CpuState)
    (instruction : Instruction) : Decidable (Traced image visited address kept instruction) :=
  decidable_of_iff (visited[address]? = some kept ∧
      Instruction.decode? image address kept = some instruction)
    ⟨fun both => ⟨both.1, both.2⟩, fun traced => ⟨traced.known, traced.decoded⟩⟩

theorem traced_insert {image : Image} {visited : AddressMap CpuState} {arrival : Arrival}
    {executed : Instruction} (fresh : visited[arrival.address]? = none)
    (decoded : Instruction.decode? image arrival.address arrival.state = some executed)
    {address : Address} {kept : CpuState} {instruction : Instruction} :
    Traced image (visited.insert arrival.address arrival.state) address kept instruction ↔
      Traced image visited address kept instruction ∨
        address = arrival.address ∧ kept = arrival.state ∧ instruction = executed := by
  constructor
  · rintro ⟨known, decodes⟩
    rw [AddressMap.getElem?_insert] at known
    split at known
    · rename_i here
      cases known
      rw [← here, decoded] at decodes
      cases decodes
      exact .inr ⟨here.symm, rfl, rfl⟩
    · exact .inl ⟨known, decodes⟩
  · rintro (⟨known, decodes⟩ | ⟨rfl, rfl, rfl⟩)
    · exact ⟨AddressMap.extends_insert fresh _ _ _ known, decodes⟩
    · exact ⟨AddressMap.getElem?_insert_self _ _ _, decoded⟩

theorem traced_execute {image : Image} (trace : Trace) {instruction : Instruction}
    {arrival : Arrival}
    (decoded : Instruction.decode? image arrival.address arrival.state = some instruction) :
    Traced image (trace.execute image instruction arrival).visited arrival.address arrival.state
      instruction :=
  ⟨known_execute image trace instruction arrival, decoded⟩

/-- The recorded transfers as they stand in the code: source, kind and target. -/
def links (trace : Trace) : List (Address × TransferKind × Address) :=
  trace.graph.transfers.toList.map fun transfer =>
    (transfer.source, transfer.kind, transfer.target)

/-- The recorded returns without the routines that they are attributed to. -/
def exits (trace : Trace) : List (Address × CpuState) :=
  trace.returns.toList.map fun ret => (ret.address, ret.state)

theorem links_execute (image : Image) (trace : Trace) (instruction : Instruction)
    (arrival : Arrival) :
    (trace.execute image instruction arrival).links =
      trace.links ++ (instruction.transfer? image).toList.map fun (kind, target) =>
        (arrival.address, kind, target) := by
  rw [links, transfers_execute, List.map_append, transferOf]
  cases instruction.transfer? image <;> rfl

theorem exits_execute (image : Image) (trace : Trace) (instruction : Instruction)
    (arrival : Arrival) :
    (trace.execute image instruction arrival).exits =
      trace.exits ++ if instruction.effect = .returns then
        [(arrival.address, instruction.after image arrival.state)] else [] := by
  rw [exits, returns_execute]
  split
  · rw [Array.toList_push, List.map_append]
    rfl
  · rw [List.append_nil]
    rfl

/-- A part of a trace that records transfers and returns: it grows when an instruction is executed,
by what is noted of the instruction. -/
structure Log (image : Image) {α : Type} (part : Trace → List α)
    (note : Address → CpuState → Instruction → List α) : Prop where
  empty : part Trace.empty = []
  reads : ∀ {trace next : Trace}, next.graph.transfers = trace.graph.transfers →
    next.returns = trace.returns → part next = part trace
  execute : ∀ trace instruction arrival, part (execute image trace instruction arrival) =
    part trace ++ note arrival.address arrival.state instruction

theorem transfers_enter (trace : Trace) (entry : Address) (state : CpuState) :
    (trace.enter entry state).graph.transfers = trace.graph.transfers :=
  trace.graph.transfers_declare entry

section

variable {image : Image} {α : Type} {part : Trace → List α}
  {note : Address → CpuState → Instruction → List α}

/-- An advance leaves a log and the kept states as they are, or executes an instruction, keeps its
state and adds what is noted of it. -/
theorem Log.advance (log : Log image part note) {trace next : Trace}
    (advance : Advance image trace next) :
    part next = part trace ∧ next.visited = trace.visited ∨
      ∃ (arrival : Arrival) (instruction : Instruction),
        trace.visited[arrival.address]? = none ∧
        Instruction.decode? image arrival.address arrival.state = some instruction ∧
        next.visited = trace.visited.insert arrival.address arrival.state ∧
        part next = part trace ++ note arrival.address arrival.state instruction := by
  cases advance with
  | take free popped => exact .inl ⟨log.reads rfl rfl, rfl⟩
  | meet present known =>
      exact .inl ⟨log.reads (congrArg CallGraph.transfers (graph_meet _ _ _)) (returns_meet _ _ _),
        visited_meet _ _ _⟩
  | stop present fresh unreadable => exact .inl ⟨log.reads rfl rfl, rfl⟩
  | @execute arrival instruction present fresh decoded =>
      refine .inr ⟨arrival, instruction, fresh, decoded, visited_execute _ _ _ _, ?_⟩
      rw [log.execute]
      exact congrArg (· ++ _) (log.reads rfl rfl)

/-- A log holds what is noted of the traced instructions. -/
theorem Log.mem_iff (log : Log image part note) {seeds : List Seed} {trace : Trace}
    (reached : Reachable image seeds trace) {item : α} :
    item ∈ part trace ↔ ∃ address kept instruction,
      Traced image trace.visited address kept instruction ∧ item ∈ note address kept instruction := by
  refine Reachable.invariant
    (motive := fun _ trace => item ∈ part trace ↔ ∃ address kept instruction,
      Traced image trace.visited address kept instruction ∧ item ∈ note address kept instruction)
    ?initial ?enter ?advance reached
  case initial =>
    rw [log.empty]
    constructor
    · intro member
      cases member
    · rintro ⟨_, _, _, traced, _⟩
      exact absurd traced.known unknown_empty
  case enter =>
    intro _ trace entry state holds
    rw [log.reads (transfers_enter trace entry state) rfl]
    exact holds
  case advance =>
    intro _ trace next holds advance
    rcases log.advance advance with
      ⟨same, visited⟩ | ⟨arrival, executed, fresh, decoded, visited, grown⟩
    · rw [same, visited]
      exact holds
    · rw [grown, List.mem_append, holds, visited]
      simp only [traced_insert fresh decoded]
      constructor
      · rintro (⟨address, kept, instruction, traced, noted⟩ | noted)
        · exact ⟨address, kept, instruction, .inl traced, noted⟩
        · exact ⟨_, _, _, .inr ⟨rfl, rfl, rfl⟩, noted⟩
      · rintro ⟨address, kept, instruction, traced | ⟨rfl, rfl, rfl⟩, noted⟩
        · exact .inl ⟨address, kept, instruction, traced, noted⟩
        · exact .inr noted

/-- If at most one item is noted of an instruction and the item names its address, no address is
named twice in a log. -/
theorem Log.nodup_map (log : Log image part note) (key : α → Address)
    (keyed : ∀ address kept instruction, ∀ item ∈ note address kept instruction, key item = address)
    (single : ∀ address kept instruction, (note address kept instruction).length ≤ 1)
    {seeds : List Seed} {trace : Trace} (reached : Reachable image seeds trace) :
    ((part trace).map key).Nodup := by
  induction reached with
  | empty =>
      rw [log.empty]
      exact List.nodup_nil
  | @enter seeds trace entry state before ih =>
      rwa [log.reads (transfers_enter trace entry state) rfl]
  | @step seeds trace before ih =>
      refine step_preserves image (motive := fun next => ((part next).map key).Nodup) ih ?_
      intro next advance
      rcases log.advance advance with ⟨same, _⟩ | ⟨arrival, executed, fresh, _, _, grown⟩
      · rwa [same]
      · rw [grown, List.map_append, List.nodup_append]
        refine ⟨ih, ?_, ?_⟩
        · have few := single arrival.address arrival.state executed
          rw [← List.length_map (f := key)] at few
          exact List.nodup_iff_count_le_one.mpr fun _ => List.count_le_length.trans few
        · intro earlier inLog here inNote same
          obtain ⟨item, member, rfl⟩ := List.mem_map.mp inLog
          obtain ⟨noted, inNoted, rfl⟩ := List.mem_map.mp inNote
          obtain ⟨address, kept, instruction, traced, found⟩ := (log.mem_iff before).mp member
          have tracedEarlier : trace.visited[key item]? = some kept := by
            rw [keyed _ _ _ _ found]
            exact traced.known
          rw [same, keyed _ _ _ _ inNoted, fresh] at tracedEarlier
          cases tracedEarlier

end

theorem log_links (image : Image) :
    Log image links fun address _ instruction =>
      (instruction.transfer? image).toList.map fun (kind, target) => (address, kind, target) where
  empty := rfl
  reads := by
    intro trace next transfers _
    rw [links, links, transfers]
  execute := links_execute image

theorem log_exits (image : Image) :
    Log image exits fun address kept instruction =>
      if instruction.effect = .returns then [(address, instruction.after image kept)] else [] where
  empty := rfl
  reads := by
    intro trace next _ returns
    rw [exits, exits, returns]
  execute := exits_execute image

/-- The transfers and returns of a trace are those of its traced instructions. -/
structure Recorded (image : Image) (trace : Trace) : Prop where
  mem_links : ∀ source kind target, (source, kind, target) ∈ trace.links ↔
    ∃ kept instruction, Traced image trace.visited source kept instruction ∧
      instruction.transfer? image = some (kind, target)
  mem_exits : ∀ address state, (address, state) ∈ trace.exits ↔
    ∃ kept instruction, Traced image trace.visited address kept instruction ∧
      instruction.effect = .returns ∧ state = instruction.after image kept

/-- What is added to a trace without tracing or recording anything does not matter. -/
theorem Recorded.congr {image : Image} {trace next : Trace} (recorded : Recorded image trace)
    (visited : next.visited = trace.visited) (links : next.links = trace.links)
    (exits : next.exits = trace.exits) : Recorded image next := by
  constructor
  · rw [visited, links]
    exact recorded.mem_links
  · rw [visited, exits]
    exact recorded.mem_exits

theorem Reachable.recorded {image : Image} {seeds : List Seed} {trace : Trace}
    (reached : Reachable image seeds trace) : Recorded image trace where
  mem_links := by
    intro source kind target
    simp only [(log_links image).mem_iff reached, List.mem_map, Option.mem_toList]
    constructor
    · rintro ⟨_, kept, instruction, traced, ⟨kind, target⟩, transferred, same⟩
      cases same
      exact ⟨kept, instruction, traced, transferred⟩
    · rintro ⟨kept, instruction, traced, transferred⟩
      exact ⟨source, kept, instruction, traced, (kind, target), transferred, rfl⟩
  mem_exits := by
    intro address state
    rw [(log_exits image).mem_iff reached]
    constructor
    · rintro ⟨_, kept, instruction, traced, noted⟩
      split at noted
      · cases List.mem_singleton.mp noted
        exact ⟨kept, instruction, traced, ‹_›, rfl⟩
      · cases noted
    · rintro ⟨kept, instruction, traced, returns, rfl⟩
      refine ⟨address, kept, instruction, traced, ?_⟩
      rw [if_pos returns]
      exact List.mem_singleton_self _

end WidthTrace.Trace
