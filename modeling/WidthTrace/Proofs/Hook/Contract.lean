import WidthTrace.Hook.Contract
import WidthTrace.Proofs.Trace.Finish

/-!
# The errors of the contract check

The check looks up the sources of recorded transfers, whereas a contract speaks of
the traced instructions that enter the hook. Both are the same, so that the errors
are exactly the contradicted boundaries: those at the calls and jumps into a hook,
or at the hook itself if there are none, and then those at its returns.
-/

namespace WidthTrace

def Finding.isError (finding : Finding) : Bool :=
  finding.severity == .error

/-! ## Calls and jumps into a hook -/

/-- The instruction is a call or a jump that names the target in the code. -/
def Instruction.Enters (image : Image) (instruction : Instruction) (target : Address) : Prop :=
  (instruction.effect = .call ∨ instruction.effect = .jump) ∧
    instruction.controlTarget? image = some target

instance (image : Image) (instruction : Instruction) (target : Address) :
    Decidable (instruction.Enters image target) :=
  inferInstanceAs (Decidable (_ ∧ _))

theorem Instruction.Handover.enters {image : Image} {instruction : Instruction}
    {state handed : CpuState} {edge : EdgeKind} {target : Address}
    (handover : instruction.Handover image state edge target handed)
    (entering : edge = .call ∨ edge = .jump) : instruction.Enters image target := by
  cases handover with
  | fallthrough goesOn => simp at entering
  | branch branches known => simp at entering
  | jump jumps known => exact ⟨.inr jumps, known⟩
  | call calls known => exact ⟨.inl calls, known⟩

theorem Instruction.enters_iff {image : Image} {instruction : Instruction} {target : Address} :
    instruction.Enters image target ↔
      ∃ kind, kind ≠ .branch ∧ instruction.transfer? image = some (kind, target) := by
  constructor
  · rintro ⟨calls | jumps, known⟩
    · exact ⟨.call, by decide, by simp only [transfer?, calls, known, Option.map_some]⟩
    · exact ⟨.jump, by decide, by simp only [transfer?, jumps, known, Option.map_some]⟩
  · rintro ⟨kind, different, transferred⟩
    apply (handover_of_transfer? transferred default).enters
    cases kind with
    | call => exact .inl rfl
    | jump => exact .inr rfl
    | branch => exact absurd rfl different

namespace Trace

/-- The traced calls and jumps that name a target, in address order, with the states there. -/
def entrances (image : Image) (trace : Trace) (target : Address) : List (Address × CpuState) :=
  trace.visited.toList.filter fun (source, kept) =>
    (Instruction.decode? image source kept).any fun instruction =>
      instruction.Enters image target

theorem mem_entrances {image : Image} {trace : Trace} {target source : Address}
    {kept : CpuState} :
    (source, kept) ∈ trace.entrances image target ↔
      ∃ instruction, Traced image trace.visited source kept instruction ∧
        instruction.Enters image target := by
  rw [entrances, List.mem_filter, Std.TreeMap.mem_toList_iff_getElem?_eq_some]
  simp only [Option.any_eq_true, decide_eq_true_eq]
  constructor
  · rintro ⟨known, instruction, decoded, enters⟩
    exact ⟨instruction, ⟨known, decoded⟩, enters⟩
  · rintro ⟨instruction, ⟨known, decoded⟩, enters⟩
    exact ⟨known, instruction, decoded, enters⟩

theorem ordered_entrances (image : Image) (trace : Trace) (target : Address) :
    (trace.entrances image target).Pairwise fun a b => compare a.1 b.1 = .lt :=
  Std.TreeMap.ordered_keys_toList.filter _

end Trace

namespace Hook

theorem mem_sites {hook : Hook} {trace : Trace} {source : Address} {kept : CpuState} :
    (source, kept) ∈ hook.sites trace ↔
      trace.visited[source]? = some kept ∧
        ∃ kind, kind ≠ .branch ∧ (source, kind, hook.address) ∈ trace.links := by
  simp only [sites, List.mem_filterMap, Address.mem_sorted, List.mem_map, List.mem_filter,
    CallGraph.transfersTo, Trace.stateAt?, Option.map_eq_some_iff, Prod.mk.injEq, Trace.links,
    beq_iff_eq, bne_iff_ne]
  constructor
  · rintro ⟨_, ⟨transfer, ⟨⟨recorded, here⟩, entering⟩, rfl⟩, _, known, same, rfl⟩
    exact ⟨same ▸ known, transfer.kind, entering, transfer, recorded, same, rfl, here⟩
  · rintro ⟨known, _, entering, transfer, recorded, rfl, rfl, here⟩
    exact ⟨_, ⟨transfer, ⟨⟨recorded, here⟩, entering⟩, rfl⟩, kept, known, rfl, rfl⟩

theorem ordered_sites (hook : Hook) (trace : Trace) :
    (hook.sites trace).Pairwise fun a b => compare a.1 b.1 = .lt := by
  rw [sites, List.pairwise_filterMap]
  refine (Address.ordered_sorted _).imp ?_
  intro a b less site fromFirst other fromSecond
  obtain ⟨_, _, rfl⟩ := Option.map_eq_some_iff.mp fromFirst
  obtain ⟨_, _, rfl⟩ := Option.map_eq_some_iff.mp fromSecond
  exact less

/-- The sources of the recorded transfers into a hook are its traced calls and jumps. -/
theorem sites_eq_entrances {image : Image} {trace : Trace} (recorded : Trace.Recorded image trace)
    (hook : Hook) : hook.sites trace = trace.entrances image hook.address := by
  refine AddressMap.eq_of_mem_iff (ordered_sites hook trace) (trace.ordered_entrances image _) ?_
  rintro ⟨source, kept⟩
  rw [mem_sites, Trace.mem_entrances]
  simp only [recorded.mem_links, Instruction.enters_iff]
  constructor
  · rintro ⟨known, kind, entering, other, instruction, traced, transferred⟩
    cases known.symm.trans traced.known
    exact ⟨instruction, traced, kind, entering, transferred⟩
  · rintro ⟨instruction, traced, kind, entering, transferred⟩
    exact ⟨traced.known, kind, entering, kept, instruction, traced, transferred⟩

/-! ## Contradicted boundaries -/

/-- Where an entry contract is judged: at the calls and jumps into the hook, or at the hook itself
if there are none. -/
def entryPlaces (image : Image) (trace : Trace) (hook : Hook) (kept : CpuState) :
    List (Address × CpuState) :=
  let entrances := trace.entrances image hook.address
  if entrances = [] then [(hook.address, kept)] else entrances

/-- The contradictions of an entry contract, in the order of the places. -/
def entryContradictions (image : Image) (trace : Trace) (hook : Hook) (kept expected : CpuState) :
    List Finding :=
  ((hook.entryPlaces image trace kept).filter fun place => expected.Contradicts place.2).map
    fun place => .entryViolation hook place.1 expected place.2

/-- The contradictions of an exit contract, at the returns of the routine that starts at the hook in
recorded order. -/
def exitContradictions (trace : Trace) (hook : Hook) (expected : CpuState) : List Finding :=
  ((trace.returnsOf hook.address).filter fun ret => expected.Contradicts ret.state).map fun ret =>
    .exitViolation hook ret.address expected ret.state

/-- The contradicted boundaries of a hook, which has to take part in the checks and to be traced. -/
def contradictions (image : Image) (trace : Trace) (hook : Hook) : List Finding :=
  match trace.stateAt? hook.address, hook.isValidated with
  | some kept, true =>
      hook.entry.elim [] (hook.entryContradictions image trace kept) ++
        hook.exit.elim [] (hook.exitContradictions trace)
  | _, _ => []

/-! ## The errors of the check -/

/-- The places where a contract is contradicted, as the check collects them. -/
theorem filterMap_compatible {α : Type} (expected : CpuState) (state : α → CpuState)
    (report : α → Finding) (places : List α) :
    (places.filterMap fun place =>
        if expected.compatible (state place) then none else some (report place)) =
      (places.filter fun place => expected.Contradicts (state place)).map report := by
  induction places with
  | nil => rfl
  | cons place rest ih =>
      rw [List.filterMap_cons, List.filter_cons, ih]
      cases agrees : expected.compatible (state place) with
      | true => simp [CpuState.contradicts_iff, agrees]
      | false => simp [CpuState.contradicts_iff, agrees]

theorem entryFindings_eq {image : Image} {trace : Trace} (recorded : Trace.Recorded image trace)
    (hook : Hook) (kept : CpuState) :
    hook.entryFindings trace kept =
      hook.entry.elim [] (hook.entryContradictions image trace kept) := by
  unfold entryFindings
  cases hook.entry with
  | none => rfl
  | some expected =>
      dsimp only [Option.elim]
      rw [filterMap_compatible, checkpoints, sites_eq_entrances recorded, entryContradictions,
        entryPlaces]
      cases trace.entrances image hook.address <;> rfl

theorem errors_entryFindings (hook : Hook) (trace : Trace) (kept : CpuState) :
    (hook.entryFindings trace kept).filter Finding.isError = hook.entryFindings trace kept := by
  rw [List.filter_eq_self]
  intro finding found
  unfold entryFindings at found
  split at found
  · cases found
  · obtain ⟨_, _, reported⟩ := List.mem_filterMap.mp found
    obtain ⟨_, same⟩ := Option.ite_none_left_eq_some.mp reported
    cases same
    rfl

theorem errors_unknownFindings (hook : Hook) (kept : CpuState) :
    (hook.unknownFindings kept).filter Finding.isError = [] := by
  rw [unknownFindings, List.filter_map, List.map_eq_nil_iff, List.filter_eq_nil_iff]
  intro flag _
  exact Bool.false_ne_true

theorem errors_returnFindings (hook : Hook) (expected : CpuState) (ret : Return) :
    (hook.returnFindings expected ret).filter Finding.isError =
      (if expected.compatible ret.state then none
        else some (Finding.exitViolation hook ret.address expected ret.state)).toList := by
  have warnings : ((WidthFlag.all.filter fun flag =>
      (expected.width flag).isKnown && !(ret.state.width flag).isKnown).map fun flag =>
        Finding.unknownAtExit hook ret.address flag ret.state).filter Finding.isError = [] := by
    rw [List.filter_map, List.map_eq_nil_iff, List.filter_eq_nil_iff]
    intro flag _
    exact Bool.false_ne_true
  rw [returnFindings, List.filter_append, warnings, List.append_nil]
  split <;> rfl

theorem errors_exitFindings (hook : Hook) (trace : Trace) :
    (hook.exitFindings trace).filter Finding.isError =
      hook.exit.elim [] (hook.exitContradictions trace) := by
  unfold exitFindings
  cases hook.exit with
  | none => rfl
  | some expected =>
      dsimp only [Option.elim]
      rw [exitContradictions, ← filterMap_compatible]
      cases trace.returnsOf hook.address with
      | nil => rfl
      | cons ret rest =>
          rw [List.filter_flatMap, List.filterMap_eq_flatMap_toList]
          simp only [errors_returnFindings]

/-- The errors that the check finds for one hook are its contradicted boundaries. -/
theorem errors_contractFindings {image : Image} {trace : Trace}
    (recorded : Trace.Recorded image trace) {hook : Hook} (validated : hook.isValidated = true) :
    (hook.contractFindings trace).filter Finding.isError = hook.contradictions image trace := by
  unfold contractFindings contradictions
  rw [validated]
  cases trace.stateAt? hook.address with
  | none =>
      dsimp only
      split <;> rfl
  | some kept =>
      dsimp only
      rw [List.filter_append, List.filter_append, errors_entryFindings, errors_unknownFindings,
        errors_exitFindings, entryFindings_eq recorded, List.append_nil]

theorem contradictions_of_not_validated {image : Image} {trace : Trace} {hook : Hook}
    (ignored : hook.isValidated = false) : hook.contradictions image trace = [] := by
  unfold contradictions
  rw [ignored]
  cases trace.stateAt? hook.address <;> rfl

end Hook

namespace Trace

/-- What is found for a validated hook is among what is found for all of them. -/
theorem mem_contractFindings {trace : Trace} {hooks : List Hook} {hook : Hook}
    (listed : hook ∈ hooks) (validated : hook.isValidated = true) {finding : Finding}
    (found : finding ∈ hook.contractFindings trace) : finding ∈ trace.contractFindings hooks :=
  List.mem_flatMap.mpr ⟨hook, List.mem_filter.mpr ⟨listed, validated⟩, found⟩

theorem errors_contractFindings {image : Image} {trace : Trace} (recorded : Recorded image trace)
    (hooks : List Hook) :
    (trace.contractFindings hooks).filter Finding.isError =
      hooks.flatMap (Hook.contradictions image trace) := by
  unfold contractFindings
  induction hooks with
  | nil => rfl
  | cons hook rest ih =>
      rw [List.filter_cons, List.flatMap_cons]
      cases validated : hook.isValidated with
      | true =>
          rw [if_pos rfl, List.flatMap_cons, List.filter_append, ih,
            Hook.errors_contractFindings recorded validated]
      | false =>
          rw [if_neg Bool.false_ne_true, ih, Hook.contradictions_of_not_validated validated]
          rfl

/-- The errors of the contract check of a finished trace are, hook by hook, the contradicted
boundaries of the validated hooks that were traced. The entrances at which an entry contract is
judged are the traced calls and jumps that name the hook, each of them once and in address order. -/
theorem errors_are_contradicted_boundaries (image : Image) (requests : List Request)
    (hooks : List Hook) (name : Address → String) :
    let trace := finished image requests
    (((trace.contractFindings hooks).map (Finding.diagnostic name)).filter Diagnostic.isError =
      (hooks.flatMap (Hook.contradictions image trace)).map (Finding.diagnostic name)) ∧
    ∀ target,
      ((trace.entrances image target).Pairwise fun a b => compare a.1 b.1 = .lt) ∧
      ∀ source kept, (source, kept) ∈ trace.entrances image target ↔
        ∃ instruction, Traced image trace.visited source kept instruction ∧
          instruction.Enters image target := by
  intro trace
  refine ⟨?errors, ?entrances⟩
  case errors =>
    have found := errors_contractFindings (recorded_finished image requests) hooks
    rw [List.filter_map, ← found]
    rfl
  case entrances =>
    intro target
    exact ⟨ordered_entrances image trace target, fun source kept => mem_entrances⟩

end Trace

end WidthTrace
