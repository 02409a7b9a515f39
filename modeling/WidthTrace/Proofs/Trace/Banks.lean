import WidthTrace.Proofs.Instruction.Banks
import WidthTrace.Proofs.Trace.Finish
import WidthTrace.Proofs.Trace.Provenance
import WidthTrace.Proofs.Trace.Transfers

/-!
# The banks of a trace

A trace comes to no other banks than those of its seeds and those that traced long
calls and jumps name. The transfers between banks that it reports are those that
long calls and jumps make, each of them once.
-/

namespace WidthTrace

namespace CallGraph

theorem mem_crossBank {graph : CallGraph} {transfer : Transfer} :
    transfer ∈ graph.crossBank ↔
      transfer ∈ graph.transfers ∧ transfer.kind ≠ .branch ∧
        transfer.source.bank ≠ transfer.target.bank := by
  rw [crossBank, List.mem_mergeSort, List.mem_filter, Array.mem_toList_iff]
  simp [Transfer.crossesBank, Address.crossesBank]

theorem nodup_sources_crossBank {graph : CallGraph}
    (distinct : (graph.transfers.toList.map Transfer.source).Nodup) :
    (graph.crossBank.map Transfer.source).Nodup := by
  have sorted : graph.crossBank.Perm (graph.transfers.toList.filter Transfer.crossesBank) :=
    List.mergeSort_perm _ _
  rw [(sorted.map Transfer.source).nodup_iff]
  exact distinct.sublist (List.filter_sublist.map _)

end CallGraph

namespace Trace

theorem mem_links {trace : Trace} {source target : Address} {kind : TransferKind} :
    (source, kind, target) ∈ trace.links ↔ ∃ transfer ∈ trace.graph.transfers,
      transfer.source = source ∧ transfer.kind = kind ∧ transfer.target = target := by
  simp only [links, List.mem_map, Array.mem_toList_iff, Prod.mk.injEq]

/-- The transfers between banks that a trace records are those that its long calls and jumps make. -/
theorem Reachable.transfer_between_banks_iff {image : Image} {seeds : List Seed} {trace : Trace}
    (reached : Reachable image seeds trace) {source target : Address} {kind : TransferKind}
    (crosses : source.bank ≠ target.bank) :
    (source, kind, target) ∈ trace.links ↔
      source ∈ trace.visited ∧ image.LongTransfer source kind target := by
  rw [reached.recorded.mem_links]
  constructor
  · rintro ⟨kept, instruction, traced, transferred⟩
    exact ⟨AddressMap.mem_iff_exists.mpr ⟨kept, traced.known⟩,
      (Instruction.bank_of_transfer? traced.decoded transferred).resolve_left crosses.symm⟩
  · rintro ⟨member, long⟩
    obtain ⟨kept, known⟩ := AddressMap.mem_iff_exists.mp member
    obtain ⟨instruction, decoded⟩ := reached.decodes known
    exact ⟨kept, instruction, ⟨known, decoded⟩, Instruction.transfer?_of_longTransfer decoded long⟩

/-- Every traced address lies in the bank of a seed or in one that a traced long call or jump
names. -/
theorem Reachable.bank_of_visited {image : Image} {seeds : List Seed} {trace : Trace}
    (reached : Reachable image seeds trace) {address : Address} (member : address ∈ trace.visited) :
    (∃ seed ∈ seeds, seed.1.bank = address.bank) ∨
      ∃ source ∈ trace.visited, ∃ kind target, image.LongTransfer source kind target ∧
        target.bank = address.bank := by
  obtain ⟨kept, known⟩ := AddressMap.mem_iff_exists.mp member
  refine reached.inherits (motive := fun address _ =>
    (∃ seed ∈ seeds, seed.1.bank = address.bank) ∨
      ∃ source ∈ trace.visited, ∃ kind target, image.LongTransfer source kind target ∧
        target.bank = address.bank) (fun seed declared => .inl ⟨seed, declared, rfl⟩) ?_ known
  intro source target kept state instruction edge found decoded handover before
  rcases handover.bank decoded with same | ⟨kind, long⟩
  · rw [same]
    exact before
  · exact .inr ⟨source, AddressMap.mem_iff_exists.mpr ⟨kept, found⟩, kind, target, long, rfl⟩

/-- A recorded transfer of any kind between two banks has the opcode of a long call or jump. A traced
address lies in the bank of a seed or in one that a traced long call or jump names. In the end, the
transfers between banks are, one for one, those of the traced long calls and jumps whose operand
bytes are there and name another bank than their own. -/
theorem banks_are_left_by_long_transfers {image : Image} {seeds : List Seed} {trace : Trace}
    (reached : Reachable image seeds trace) :
    (∀ transfer ∈ trace.graph.transfers, transfer.source.bank ≠ transfer.target.bank →
      image.byte? transfer.source = some 0x22 ∨ image.byte? transfer.source = some 0x5C) ∧
    (∀ address ∈ trace.visited, (∃ seed ∈ seeds, seed.1.bank = address.bank) ∨
      ∃ source ∈ trace.visited, ∃ kind target, image.LongTransfer source kind target ∧
        target.bank = address.bank) ∧
    ((trace.finish image).graph.crossBank.map Transfer.source).Nodup ∧
    ∀ source kind target,
      (∃ transfer ∈ (trace.finish image).graph.crossBank, transfer.source = source ∧
          transfer.kind = kind ∧ transfer.target = target) ↔
        source ∈ (trace.finish image).visited ∧ image.LongTransfer source kind target ∧
          source.bank ≠ target.bank := by
  refine ⟨?opcodes, fun address => reached.bank_of_visited, ?once, ?exact⟩
  case opcodes =>
    intro transfer recorded crosses
    have linked := mem_links.mpr ⟨transfer, recorded, rfl, rfl, rfl⟩
    exact ((reached.transfer_between_banks_iff crosses).mp linked).2.opcode
  case once => exact CallGraph.nodup_sources_crossBank reached.run.nodup_sources
  case exact =>
    intro source kind target
    constructor
    · rintro ⟨transfer, listed, rfl, rfl, rfl⟩
      obtain ⟨recorded, _, crosses⟩ := CallGraph.mem_crossBank.mp listed
      have linked := mem_links.mpr ⟨transfer, recorded, rfl, rfl, rfl⟩
      obtain ⟨member, long⟩ := (reached.run.transfer_between_banks_iff crosses).mp linked
      exact ⟨member, long, crosses⟩
    · rintro ⟨member, long, crosses⟩
      obtain ⟨transfer, recorded, rfl, rfl, rfl⟩ :=
        mem_links.mp ((reached.run.transfer_between_banks_iff crosses).mpr ⟨member, long⟩)
      have listed := CallGraph.mem_crossBank.mpr ⟨recorded, long.kind_ne_branch, crosses⟩
      exact ⟨transfer, listed, rfl, rfl, rfl⟩

/-- A routine that calls its own mirror in another bank and then jumps out of the cartridge; in the
mirror, a call stays in its bank. -/
def mirrorImage : Image :=
  ⟨⟨#[0x22, 0x08, 0x80, 0x80, 0x5C, 0x00, 0x00, 0x7E, 0x20, 0x0B, 0x80, 0x6B]⟩, .loRom⟩

theorem banks_left_in_mirrorImage :
    let trace := history mirrorImage [.explore ⟨0, 0x8000⟩ .native8]
    let crossing := (trace.finish mirrorImage).graph.crossBank
    (∃ transfer ∈ crossing, transfer.source = ⟨0, 0x8000⟩ ∧ transfer.kind = .call ∧
      transfer.target = ⟨0x80, 0x8008⟩) ∧
    (∃ transfer ∈ crossing, transfer.source = ⟨0, 0x8004⟩ ∧ transfer.kind = .jump ∧
      transfer.target = ⟨0x7E, 0x0000⟩) ∧
    (crossing.map Transfer.source).Nodup ∧
    (∀ transfer ∈ trace.graph.transfers, transfer.source = ⟨0x80, 0x8008⟩ →
      transfer.target.bank = 0x80) ∧
    ∃ source ∈ trace.visited, ∃ kind target, mirrorImage.LongTransfer source kind target ∧
      target.bank = 0x80 := by
  intro trace crossing
  have stepped : trace = (step mirrorImage)^[10] (empty.enter ⟨0, 0x8000⟩ .native8) :=
    run_eq_iterate (by decide +kernel)
  have idle : trace.isIdle = true := isIdle_run mirrorImage _
  have finished : (trace.finish mirrorImage).visited = trace.visited := by
    rw [finish_eq_conclude, run_of_isIdle mirrorImage idle]
    rfl
  have traced : ∀ source ∈ [(⟨0, 0x8000⟩ : Address), ⟨0, 0x8004⟩, ⟨0x80, 0x8008⟩],
      source ∈ trace.visited := by
    rw [stepped]
    decide +kernel
  have calls : mirrorImage.LongTransfer ⟨0, 0x8000⟩ .call ⟨0x80, 0x8008⟩ :=
    ⟨0x22, 0x08, 0x80, 0x80, by decide +kernel⟩
  have jumps : mirrorImage.LongTransfer ⟨0, 0x8004⟩ .jump ⟨0x7E, 0x0000⟩ :=
    ⟨0x5C, 0x00, 0x00, 0x7E, by decide +kernel⟩
  have shown : mirrorImage.byte? ⟨0x80, 0x8008⟩ = some 0x20 := by decide +kernel
  obtain ⟨opcodes, banks, once, exact⟩ := banks_are_left_by_long_transfers
    (reachable_history mirrorImage [.explore ⟨0, 0x8000⟩ .native8])
  rw [finished] at exact
  refine ⟨(exact _ _ _).mpr ⟨traced _ (by decide), calls, by decide⟩,
    (exact _ _ _).mpr ⟨traced _ (by decide), jumps, by decide⟩, once, ?_, ?_⟩
  · intro transfer recorded here
    by_contra crosses
    have opcode := opcodes transfer recorded (by rw [here]; exact Ne.symm crosses)
    rw [here, shown] at opcode
    revert opcode
    decide
  · exact (banks _ (traced ⟨0x80, 0x8008⟩ (by decide))).resolve_left (by decide)

end Trace

end WidthTrace
