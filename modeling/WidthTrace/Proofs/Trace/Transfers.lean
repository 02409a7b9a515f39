import WidthTrace.Proofs.CallGraph.Cycles
import WidthTrace.Proofs.Trace.Recorded

/-!
# The transfers of a trace

A transfer is recorded when its instruction is executed, and an instruction is
executed at most once at each address. Hence the recorded transfers are, one for
one, those of the traced instructions. The call graph of a trace is nothing but
these transfers in recorded order, together with the entry points declared so far.
-/

namespace WidthTrace

namespace Instruction

/-- The transfer of an instruction is its call, jump or branch edge. -/
theorem transfer?_eq_some_iff {image : Image} {instruction : Instruction} {kind : TransferKind}
    {target : Address} (state : CpuState) :
    instruction.transfer? image = some (kind, target) ↔
      ∃ handed, instruction.Handover image state (edgeOf kind) target handed := by
  constructor
  · intro transferred
    exact ⟨_, handover_of_transfer? transferred state⟩
  · rintro ⟨handed, handover⟩
    cases kind with
    | call =>
        cases handover with
        | call calls known => simp only [transfer?, calls, known, Option.map_some]
    | jump =>
        cases handover with
        | jump jumps known => simp only [transfer?, jumps, known, Option.map_some]
    | branch =>
        cases handover with
        | branch branches known =>
            rcases branches with branches | branches
            · simp only [transfer?, branches, known, Option.map_some]
            · simp only [transfer?, branches, known, Option.map_some]

end Instruction

namespace CallGraph

/-- The graph in which transfers are recorded and entry points declared, both in order. -/
def assemble (entries : List Address) (transfers : List Transfer) : CallGraph :=
  entries.foldl declare (record transfers)

theorem declare_add (graph : CallGraph) (transfer : Transfer) (entry : Address) :
    (graph.add transfer).declare entry = (graph.declare entry).add transfer := by
  unfold declare add
  split <;> rfl

theorem assemble_concat_entry (entries : List Address) (entry : Address)
    (transfers : List Transfer) :
    assemble (entries ++ [entry]) transfers = (assemble entries transfers).declare entry := by
  rw [assemble, List.foldl_append]
  rfl

theorem assemble_concat_transfer (entries : List Address) (transfers : List Transfer)
    (transfer : Transfer) :
    assemble entries (transfers ++ [transfer]) = (assemble entries transfers).add transfer := by
  have recorded : record (transfers ++ [transfer]) = (record transfers).add transfer := by
    rw [record, List.foldl_append]
    rfl
  have declared (graph : CallGraph) :
      entries.foldl declare (graph.add transfer) = (entries.foldl declare graph).add transfer := by
    induction entries generalizing graph with
    | nil => rfl
    | cons entry rest ih => rw [List.foldl_cons, declare_add, ih, List.foldl_cons]
  rw [assemble, recorded, declared, assemble]

end CallGraph

namespace Trace

/-- The call graph of a trace is assembled from the declared entry points and its transfers. -/
theorem Reachable.graph_eq_assemble {image : Image} {seeds : List Seed} {trace : Trace}
    (reached : Reachable image seeds trace) :
    trace.graph = CallGraph.assemble (seeds.map Prod.fst) trace.graph.transfers.toList := by
  refine Reachable.invariant
    (motive := fun seeds trace =>
      trace.graph = CallGraph.assemble (seeds.map Prod.fst) trace.graph.transfers.toList)
    rfl ?enter ?advance reached
  case enter =>
    intro seeds trace entry state holds
    rw [transfers_enter, List.map_append, List.map_singleton, CallGraph.assemble_concat_entry,
      ← holds]
    rfl
  case advance =>
    intro seeds trace next holds advance
    rcases graph_advance advance with same | ⟨_, _, transfer, _, _, recorded⟩
    · rw [same]
      exact holds
    · have grown : (trace.graph.add transfer).transfers.toList =
          trace.graph.transfers.toList ++ [transfer] := Array.toList_push
      rw [recorded, grown, CallGraph.assemble_concat_transfer, ← holds]

/-- No address is the source of two recorded transfers. -/
theorem Reachable.nodup_sources {image : Image} {seeds : List Seed} {trace : Trace}
    (reached : Reachable image seeds trace) :
    (trace.graph.transfers.toList.map Transfer.source).Nodup := by
  have distinct := (log_links image).nodup_map Prod.fst ?keyed ?single reached
  case keyed =>
    intro address kept instruction link noted
    obtain ⟨_, _, rfl⟩ := List.mem_map.mp noted
    rfl
  case single =>
    intro address kept instruction
    rw [List.length_map]
    exact Option.length_toList_le
  rw [links, List.map_map] at distinct
  exact distinct

/-- At every moment of a trace, the recorded transfers are those of the calls, jumps and branches
among the traced instructions that name their target, one for each. The call graph consists of them
in recorded order and of the entry points declared so far; hence it counts them all, and those that
lead to an address stand in recorded order. -/
theorem transfers_are_recorded_once {image : Image} {seeds : List Seed} {trace : Trace}
    (reached : Reachable image seeds trace) :
    (∀ source kind target,
      (∃ transfer ∈ trace.graph.transfers, transfer.source = source ∧ transfer.kind = kind ∧
          transfer.target = target) ↔
        ∃ kept instruction handed, Traced image trace.visited source kept instruction ∧
          instruction.Handover image kept (Instruction.edgeOf kind) target handed) ∧
    (trace.graph.transfers.toList.map Transfer.source).Nodup ∧
    trace.graph = CallGraph.assemble (seeds.map Prod.fst) trace.graph.transfers.toList ∧
    trace.graph.stats.transfers = trace.graph.transfers.size ∧
    ∀ target, trace.graph.transfersTo target =
      trace.graph.transfers.toList.filter fun transfer => transfer.target = target := by
  refine ⟨?exact, reached.nodup_sources, reached.graph_eq_assemble, rfl, fun target => rfl⟩
  intro source kind target
  have recorded := reached.recorded.mem_links source kind target
  rw [links, List.mem_map] at recorded
  constructor
  · rintro ⟨transfer, member, rfl, rfl, rfl⟩
    obtain ⟨kept, instruction, traced, transferred⟩ :=
      recorded.mp ⟨transfer, Array.mem_toList_iff.mpr member, rfl⟩
    obtain ⟨handed, handover⟩ := (Instruction.transfer?_eq_some_iff kept).mp transferred
    exact ⟨kept, instruction, handed, traced, handover⟩
  · rintro ⟨kept, instruction, handed, traced, handover⟩
    obtain ⟨transfer, member, same⟩ := recorded.mpr
      ⟨kept, instruction, traced, (Instruction.transfer?_eq_some_iff kept).mpr ⟨_, handover⟩⟩
    cases same
    exact ⟨transfer, Array.mem_toList_iff.mp member, rfl, rfl, rfl⟩

/-- A routine that calls itself, branches to itself, and jumps out of the cartridge. -/
def selfReferringImage : Image :=
  ⟨⟨#[0x20, 0x00, 0x80, 0xF0, 0xFE, 0x4C, 0x00, 0x00]⟩, .loRom⟩

theorem transfers_of_selfReferringImage :
    let trace := history selfReferringImage [.explore ⟨0, 0x8000⟩ .native8]
    (∃ transfer ∈ trace.graph.transfers, transfer.source = ⟨0, 0x8003⟩ ∧
      transfer.kind = .branch ∧ transfer.target = ⟨0, 0x8003⟩) ∧
    (trace.graph.transfers.toList.map Transfer.source).Nodup := by
  intro trace
  have stepped : trace = (step selfReferringImage)^[12] (empty.enter ⟨0, 0x8000⟩ .native8) :=
    run_eq_iterate (by decide +kernel)
  have traced : Traced selfReferringImage trace.visited ⟨0, 0x8003⟩
      ⟨.known .byte, .known .byte, false, [⟨⟨0, 0x8000⟩, .jsr, 2, 2⟩]⟩
      ⟨⟨0, 0x8003⟩, ⟨0xF0⟩, 1⟩ := by
    rw [stepped]
    decide +kernel
  obtain ⟨recorded, distinct, _⟩ := transfers_are_recorded_once
    (reachable_history selfReferringImage [.explore ⟨0, 0x8000⟩ .native8])
  refine ⟨(recorded _ .branch _).mpr ⟨_, _, _, traced, .branch (.inl rfl) ?_⟩, distinct⟩
  decide +kernel

end Trace

end WidthTrace
