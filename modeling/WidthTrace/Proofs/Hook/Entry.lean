import WidthTrace.Proofs.Hook.Contract

/-!
# States that contradict the entry contract of a hook

A hook keeps the first state that is brought to it, and its entry contract is
judged at the calls and jumps that enter it. Together this finds a contradicting
state that comes by a call or jump, and any other one as far as the widths in
question are known where the contract is judged. What it cannot judge is either
mentioned as such, or passes in silence where the judged states know nothing of a
width that the hook itself is known to be traced with.
-/

namespace WidthTrace

/-- Along a call or jump the widths do not change. -/
theorem Instruction.Handover.width_eq {image : Image} {instruction : Instruction}
    {state handed : CpuState} {edge : EdgeKind} {target : Address}
    (handover : instruction.Handover image state edge target handed)
    (entering : edge = .call ∨ edge = .jump) (flag : WidthFlag) :
    handed.width flag = state.width flag := by
  cases handover with
  | fallthrough goesOn => simp at entering
  | branch branches known => simp at entering
  | jump jumps known => rfl
  | call calls known =>
      rw [enterRoutine_after_of_call image calls]
      cases flag <;> rfl

theorem Instruction.Enters.handover {image : Image} {instruction : Instruction} {target : Address}
    (enters : instruction.Enters image target) (state : CpuState) :
    ∃ edge handed, instruction.Handover image state edge target handed ∧
      (edge = .call ∨ edge = .jump) := by
  obtain ⟨calls | jumps, known⟩ := enters
  · exact ⟨_, _, .call calls known, .inl rfl⟩
  · exact ⟨_, _, .jump jumps known, .inr rfl⟩

theorem CpuState.contradicts_of_width {a b : CpuState} (flag : WidthFlag)
    (conflicts : (a.width flag).conflicts (b.width flag) = true) : a.Contradicts b :=
  ⟨flag, Width.conflicts_eq_true_iff.mp conflicts⟩

namespace Hook

/-- The finding says that a contract of the hook is violated, or that the hook is reached with
contradicting widths. -/
def Accuses (hook : Hook) : Finding → Prop
  | .entryViolation accused _ _ _ | .exitViolation accused _ _ _ => accused = hook
  | .stateMismatch address _ _ => address = hook.address
  | _ => False

instance (hook : Hook) : DecidablePred hook.Accuses := fun finding => by
  cases finding <;> unfold Accuses <;> infer_instance

theorem accuses_of_mismatch {hook : Hook} {finding : Finding}
    (mismatch : finding.kind = .stateMismatch ∧ finding.address = hook.address) :
    hook.Accuses finding := by
  obtain ⟨kind, address⟩ := mismatch
  cases finding with
  | stateMismatch met expected actual => exact address
  | _ => cases kind

theorem mem_entryPlaces_of_entrance {image : Image} {trace : Trace} {hook : Hook}
    {kept : CpuState} {place : Address × CpuState}
    (entrance : place ∈ trace.entrances image hook.address) :
    place ∈ hook.entryPlaces image trace kept := by
  rw [entryPlaces, if_neg (List.ne_nil_of_mem entrance)]
  exact entrance

theorem mem_entryPlaces_of_no_entrance {image : Image} {trace : Trace} {hook : Hook}
    (kept : CpuState) (none : trace.entrances image hook.address = []) :
    (hook.address, kept) ∈ hook.entryPlaces image trace kept := by
  rw [entryPlaces, if_pos none]
  exact List.mem_singleton_self _

theorem entryViolation_mem {image : Image} {trace : Trace}
    (recorded : Trace.Recorded image trace) {hook : Hook} {expected kept : CpuState}
    (contract : hook.entry = some expected) {place : Address × CpuState}
    (judged : place ∈ hook.entryPlaces image trace kept)
    (contradicts : expected.Contradicts place.2) :
    Finding.entryViolation hook place.1 expected place.2 ∈ hook.entryFindings trace kept := by
  rw [entryFindings_eq recorded, contract]
  exact List.mem_map.mpr ⟨place, List.mem_filter.mpr ⟨judged, decide_eq_true contradicts⟩, rfl⟩

theorem unknownAtEntry_mem {hook : Hook} {kept : CpuState} {flag : WidthFlag}
    (unknown : (kept.width flag).isKnown = false) :
    Finding.unknownAtEntry hook flag kept ∈ hook.unknownFindings kept := by
  refine List.mem_map_of_mem (List.mem_filter.mpr ⟨?_, by rw [unknown]; rfl⟩)
  cases flag with
  | m => exact List.mem_cons_self
  | x => exact List.mem_cons_of_mem _ List.mem_cons_self

end Hook

namespace Trace

/-- What the trace and the check of its contracts find together. -/
def verdicts (trace : Trace) (hooks : List Hook) : List Finding :=
  trace.findings.toList ++ trace.contractFindings hooks

section

variable {image : Image} {requests : List Request} {hooks : List Hook} {hook : Hook}

theorem mem_verdicts_of_contract {trace : Trace} (listed : hook ∈ hooks)
    (validated : hook.isValidated = true) {finding : Finding}
    (found : finding ∈ hook.contractFindings trace) : finding ∈ trace.verdicts hooks :=
  List.mem_append_right _ (mem_contractFindings listed validated found)

theorem mem_verdicts_of_known {trace : Trace} (listed : hook ∈ hooks)
    (validated : hook.isValidated = true) {kept : CpuState}
    (known : trace.visited[hook.address]? = some kept) {finding : Finding}
    (found : finding ∈ hook.entryFindings trace kept ∨ finding ∈ hook.unknownFindings kept) :
    finding ∈ trace.verdicts hooks := by
  refine mem_verdicts_of_contract listed validated ?_
  rw [Hook.contractFindings, stateAt?, known]
  exact List.mem_append_left _ (List.mem_append.mpr found)

/-- A hook that shows no byte is reported as unreached. -/
theorem unreached_mem_verdicts (listed : hook ∈ hooks) (validated : hook.isValidated = true)
    (unreadable : image.byte? hook.address = none) :
    ∃ finding ∈ (finished image requests).verdicts hooks,
      finding.kind = .unreachedEntry ∧ finding.address = hook.address := by
  have missing : (finished image requests).visited[hook.address]? = none := by
    cases known : (finished image requests).visited[hook.address]? with
    | none => rfl
    | some kept =>
        obtain ⟨instruction, decoded⟩ := decodes_finished known
        have readable := Instruction.isSome_decode? image hook.address kept
        rw [decoded, unreadable] at readable
        cases readable
  cases declared : (finished image requests).graph.isEntry hook.address with
  | true =>
      refine ⟨.unreachedEntry hook.address, List.mem_append_left _ ?_, rfl, rfl⟩
      exact Array.mem_toList_iff.mpr (unreachedEntry_mem_conclude declared missing)
  | false =>
      refine ⟨.unreachedHook hook, mem_verdicts_of_contract listed validated ?_, rfl, rfl⟩
      rw [Hook.contractFindings, stateAt?, missing, declared]
      exact List.mem_singleton_self _

theorem mismatch_mem_verdicts {kept state : CpuState}
    (known : (finished image requests).visited[hook.address]? = some kept)
    (brought : Brought image (seeds requests) (finished image requests).visited hook.address state)
    (contradicts : kept.Contradicts state) :
    ∃ finding ∈ (finished image requests).verdicts hooks, hook.Accuses finding := by
  obtain ⟨finding, found, mismatch⟩ := mismatch_finished known brought contradicts
  exact ⟨finding, List.mem_append_left _ (Array.mem_toList_iff.mpr found),
    Hook.accuses_of_mismatch mismatch⟩

/-- A place where the contract is judged and contradicted accuses the hook. -/
theorem accused_at_place {kept expected : CpuState}
    (listed : hook ∈ hooks) (validated : hook.isValidated = true)
    (contract : hook.entry = some expected)
    (known : (finished image requests).visited[hook.address]? = some kept)
    {place : Address × CpuState}
    (judged : place ∈ hook.entryPlaces image (finished image requests) kept)
    (contradicts : expected.Contradicts place.2) :
    Finding.entryViolation hook place.1 expected place.2 ∈
      (finished image requests).verdicts hooks :=
  mem_verdicts_of_known listed validated known
    (.inl (Hook.entryViolation_mem (recorded_finished image requests) contract judged contradicts))

/-- A contradicting state is found if the width in question is known at the hook, unless the hook
shares it while no call or jump into the hook, of which there are some, knows the width. -/
theorem accused_of_known_width {kept expected state : CpuState} {flag : WidthFlag}
    (listed : hook ∈ hooks) (validated : hook.isValidated = true)
    (contract : hook.entry = some expected)
    (known : (finished image requests).visited[hook.address]? = some kept)
    (brought : Brought image (seeds requests) (finished image requests).visited hook.address state)
    (conflicts : (expected.width flag).conflicts (state.width flag) = true)
    (knownKept : (kept.width flag).isKnown = true)
    (judgeable : kept.width flag ≠ state.width flag ∨
      (finished image requests).entrances image hook.address = [] ∨
      ∃ place ∈ (finished image requests).entrances image hook.address,
        (place.2.width flag).isKnown = true) :
    ∃ finding ∈ (finished image requests).verdicts hooks, hook.Accuses finding := by
  obtain ⟨knownExpected, knownState, different⟩ := Width.conflicts_eq_true_iff.mp conflicts
  by_cases merged : kept.width flag = state.width flag
  · have keptContradicts : expected.width flag ≠ kept.width flag := by
      rwa [merged]
    rcases judgeable with apart | none | ⟨place, entrance, knownPlace⟩
    · exact absurd merged apart
    · exact ⟨_, accused_at_place listed validated contract known
        (Hook.mem_entryPlaces_of_no_entrance kept none)
        ⟨flag, knownExpected, knownKept, keptContradicts⟩, rfl⟩
    · by_cases agrees : expected.width flag = place.2.width flag
      · obtain ⟨instruction, traced, enters⟩ := mem_entrances.mp entrance
        obtain ⟨edge, handed, handover, entering⟩ := enters.handover place.2
        have carried := handover.width_eq entering flag
        refine mismatch_mem_verdicts known (.handed traced.known traced.decoded handover)
          ⟨flag, knownKept, ?_, ?_⟩
        · rw [carried]
          exact knownPlace
        · rw [carried, ← agrees]
          exact keptContradicts.symm
      · exact ⟨_, accused_at_place listed validated contract known
          (Hook.mem_entryPlaces_of_entrance entrance)
          ⟨flag, knownExpected, knownPlace, agrees⟩, rfl⟩
  · exact mismatch_mem_verdicts known brought ⟨flag, knownKept, knownState, merged⟩

end

/-- A state that contradicts the entry contract of a validated hook is found. If the hook shows no
byte, it is reported as unreached. Otherwise a call or jump that brings the state is reported as a
violation. So is any state, as a violation or as a mismatch at the hook, if the width is known at
the hook, and differs there or is known at an entrance, if there is any. A width that is not known
at the hook is reported as unknown. -/
theorem contradicted_entry_is_found (image : Image) (requests : List Request) {hooks : List Hook}
    {hook : Hook} {expected state : CpuState} {flag : WidthFlag} (listed : hook ∈ hooks)
    (validated : hook.isValidated = true) (contract : hook.entry = some expected)
    (brought : Brought image (seeds requests) (finished image requests).visited hook.address state)
    (conflicts : (expected.width flag).conflicts (state.width flag) = true) :
    let trace := finished image requests
    (image.byte? hook.address = none →
      ∃ finding ∈ trace.verdicts hooks,
        finding.kind = .unreachedEntry ∧ finding.address = hook.address) ∧
    ((image.byte? hook.address).isSome = true →
      ∃ kept, trace.visited[hook.address]? = some kept ∧
        (∀ source before instruction edge, Traced image trace.visited source before instruction →
          instruction.Handover image before edge hook.address state →
          edge = .call ∨ edge = .jump →
          Finding.entryViolation hook source expected before ∈ trace.verdicts hooks) ∧
        ((kept.width flag).isKnown = true →
          (kept.width flag ≠ state.width flag ∨ trace.entrances image hook.address = [] ∨
            ∃ place ∈ trace.entrances image hook.address,
              (place.2.width flag).isKnown = true) →
          ∃ finding ∈ trace.verdicts hooks, hook.Accuses finding) ∧
        ((kept.width flag).isKnown = false →
          Finding.unknownAtEntry hook flag kept ∈ trace.verdicts hooks)) := by
  intro trace
  refine ⟨unreached_mem_verdicts listed validated, fun readable => ?_⟩
  obtain ⟨kept, known⟩ := known_finished brought readable
  refine ⟨kept, known, ?entering, ?judged, ?unknown⟩
  case entering =>
    intro source before instruction edge traced handover entering
    have entrance : (source, before) ∈ trace.entrances image hook.address :=
      mem_entrances.mpr ⟨instruction, traced, handover.enters entering⟩
    refine accused_at_place listed validated contract known
      (Hook.mem_entryPlaces_of_entrance entrance) (CpuState.contradicts_of_width flag ?_)
    rw [← handover.width_eq entering flag]
    exact conflicts
  case judged =>
    exact accused_of_known_width listed validated contract known brought conflicts
  case unknown =>
    intro unknown
    exact mem_verdicts_of_known listed validated known (.inr (Hook.unknownAtEntry_mem unknown))

/-! ## Runs on small images -/

/-- A hook that expects index registers of one word. -/
def wordHook (address : Address) : Hook :=
  { Hook.plain "wide" address .jsl with entry := some (.ofWidths .unknown (.known .word)) }

/-- The start of the cartridge is explored with registers of one byte. -/
def fromStart : Request :=
  .explore ⟨0, 0x8000⟩ .native8

section

variable {image : Image} {count : Nat}
  (ends : ((step image)^[count] (empty.enter ⟨0, 0x8000⟩ .native8)).isIdle = true)

include ends

theorem finished_fromStart :
    finished image [fromStart] =
      ((step image)^[count] (empty.enter ⟨0, 0x8000⟩ .native8)).conclude :=
  finished_explore ends

/-- What the first instruction hands on is brought to its target. -/
theorem brought_fromStart {target : Address} {state : CpuState}
    (known : ((step image)^[count] (empty.enter ⟨0, 0x8000⟩ .native8)).visited[
      (⟨0, 0x8000⟩ : Address)]? = some .native8)
    (arrives : (Instruction.decode? image ⟨0, 0x8000⟩ .native8).any fun instruction =>
      (target, state) ∈ instruction.arrivals image .native8) :
    Brought image (seeds [fromStart]) (finished image [fromStart]).visited target state := by
  obtain ⟨instruction, decoded, member⟩ := (Option.any_eq_true _ _).mp arrives
  rw [finished_fromStart ends]
  exact brought_of_mem_arrivals known decoded (of_decide_eq_true member)

end

/-- A routine that selects bytes and then calls another one. -/
def narrowImage : Image :=
  ⟨⟨#[0xE2, 0x30, 0x22, 0x07, 0x80, 0x00, 0x6B, 0x6B]⟩, .loRom⟩

theorem ends_narrowImage :
    ((step narrowImage)^[8] (empty.enter ⟨0, 0x8000⟩ .native8)).isIdle = true := by decide +kernel

/-- A routine that calls an address outside the cartridge. -/
def outwardImage : Image :=
  ⟨⟨#[0x22, 0x00, 0x00, 0x7E, 0x6B]⟩, .loRom⟩

theorem ends_outwardImage :
    ((step outwardImage)^[8] (empty.enter ⟨0, 0x8000⟩ .native8)).isIdle = true := by decide +kernel

theorem brought_outwardImage :
    Brought outwardImage (seeds [fromStart]) (finished outwardImage [fromStart]).visited
      ⟨0x7E, 0x0000⟩ .native8 :=
  brought_fromStart ends_outwardImage (by decide +kernel) (by decide +kernel)

/-- A branch around an instruction that forgets the widths. -/
def forgetImage : Image :=
  ⟨⟨#[0xF0, 0x02, 0x28, 0xEA, 0x60]⟩, .loRom⟩

theorem ends_forgetImage :
    ((step forgetImage)^[8] (empty.enter ⟨0, 0x8000⟩ .native8)).isIdle = true := by decide +kernel

theorem brought_forgetImage :
    Brought forgetImage (seeds [fromStart]) (finished forgetImage [fromStart]).visited
      ⟨0, 0x8004⟩ .native8 :=
  brought_fromStart ends_forgetImage (by decide +kernel) (by decide +kernel)

/-- A routine that is fallen into, forgets the widths and calls itself. -/
def selfCallImage : Image :=
  ⟨⟨#[0xEA, 0x28, 0x20, 0x01, 0x80, 0x60]⟩, .loRom⟩

theorem ends_selfCallImage :
    ((step selfCallImage)^[8] (empty.enter ⟨0, 0x8000⟩ .native8)).isIdle = true := by decide +kernel

theorem brought_selfCallImage :
    Brought selfCallImage (seeds [fromStart]) (finished selfCallImage [fromStart]).visited
      ⟨0, 0x8001⟩ .native8 :=
  brought_fromStart ends_selfCallImage (by decide +kernel) (by decide +kernel)

/-- A state that contradicts the entry contract of a validated hook is brought to it, and nothing
accuses the hook. -/
def Overlooked (image : Image) (requests : List Request) (hook : Hook) : Prop :=
  hook.isValidated = true ∧
    (∃ expected state, hook.entry = some expected ∧ expected.Contradicts state ∧
      Brought image (seeds requests) (finished image requests).visited hook.address state) ∧
    ∀ finding ∈ (finished image requests).verdicts [hook], ¬hook.Accuses finding

/-- A contradicting state is overlooked at a hook that shows no byte, at one that knows nothing of
the width, and at one whose only entrance knows nothing of it. -/
theorem contradicted_entry_can_be_overlooked :
    Overlooked outwardImage [fromStart] (wordHook ⟨0x7E, 0x0000⟩) ∧
      Overlooked forgetImage [fromStart] (wordHook ⟨0, 0x8004⟩) ∧
      Overlooked selfCallImage [fromStart] (wordHook ⟨0, 0x8001⟩) := by
  have contradicts : (CpuState.ofWidths .unknown (.known .word)).Contradicts .native8 := by decide
  refine ⟨⟨rfl, ⟨_, _, rfl, contradicts, brought_outwardImage⟩, ?_⟩,
    ⟨rfl, ⟨_, _, rfl, contradicts, brought_forgetImage⟩, ?_⟩,
    ⟨rfl, ⟨_, _, rfl, contradicts, brought_selfCallImage⟩, ?_⟩⟩
  · rw [finished_fromStart ends_outwardImage]
    decide +kernel
  · rw [finished_fromStart ends_forgetImage]
    decide +kernel
  · rw [finished_fromStart ends_selfCallImage]
    decide +kernel

theorem contradicted_entries_found_in_small_images :
    Finding.entryViolation (wordHook ⟨0, 0x8007⟩) ⟨0, 0x8002⟩
        (.ofWidths .unknown (.known .word)) .native8 ∈
        (finished narrowImage [fromStart]).verdicts [wordHook ⟨0, 0x8007⟩] ∧
      (∃ finding ∈ (finished narrowImage [fromStart]).verdicts [wordHook ⟨0, 0x8007⟩],
        (wordHook ⟨0, 0x8007⟩).Accuses finding) ∧
      (∃ finding ∈ (finished outwardImage [fromStart]).verdicts [wordHook ⟨0x7E, 0x0000⟩],
        finding.kind = .unreachedEntry ∧ finding.address = ⟨0x7E, 0x0000⟩) ∧
      ∃ kept, Finding.unknownAtEntry (wordHook ⟨0, 0x8004⟩) .x kept ∈
        (finished forgetImage [fromStart]).verdicts [wordHook ⟨0, 0x8004⟩] := by
  have listed (address : Address) : wordHook address ∈ [wordHook address] :=
    List.mem_singleton_self _
  have conflicts : ((CpuState.ofWidths .unknown (.known .word)).width .x).conflicts
      (CpuState.native8.width .x) = true := rfl
  have traced : Traced narrowImage (finished narrowImage [fromStart]).visited ⟨0, 0x8002⟩
      .native8 ⟨⟨0, 0x8002⟩, ⟨0x22⟩, 3⟩ := by
    constructor
    · rw [finished_fromStart ends_narrowImage]
      decide +kernel
    · decide +kernel
  have handover : Instruction.Handover narrowImage ⟨⟨0, 0x8002⟩, ⟨0x22⟩, 3⟩ .native8 .call
      ⟨0, 0x8007⟩ .native8 := .call (by decide +kernel) (by decide +kernel)
  have narrow : (finished narrowImage [fromStart]).visited[(⟨0, 0x8007⟩ : Address)]? =
      some .native8 := by
    rw [finished_fromStart ends_narrowImage]
    decide +kernel
  have forgotten : (finished forgetImage [fromStart]).visited[(⟨0, 0x8004⟩ : Address)]? =
      some ⟨.unknown, .unknown, false, [⟨⟨0, 0x8002⟩, .plp, -1, -1⟩]⟩ := by
    rw [finished_fromStart ends_forgetImage]
    decide +kernel
  obtain ⟨_, readable⟩ := contradicted_entry_is_found narrowImage [fromStart]
    (listed ⟨0, 0x8007⟩) rfl rfl (.handed traced.known traced.decoded handover) conflicts
  obtain ⟨kept, known, called, accused, _⟩ := readable (by decide +kernel)
  obtain ⟨unreached, _⟩ := contradicted_entry_is_found outwardImage [fromStart]
    (listed ⟨0x7E, 0x0000⟩) rfl rfl brought_outwardImage conflicts
  obtain ⟨_, mentioned⟩ := contradicted_entry_is_found forgetImage [fromStart]
    (listed ⟨0, 0x8004⟩) rfl rfl brought_forgetImage conflicts
  obtain ⟨vague, keptVague, _, _, unknown⟩ := mentioned (by decide +kernel)
  cases narrow.symm.trans known
  cases forgotten.symm.trans keptVague
  have entrance := mem_entrances.mpr ⟨_, traced, handover.enters (.inl rfl)⟩
  exact ⟨called _ _ _ _ traced handover (.inl rfl), accused rfl (.inr (.inr ⟨_, entrance, rfl⟩)),
    unreached (by decide +kernel), _, unknown rfl⟩

end Trace

end WidthTrace
