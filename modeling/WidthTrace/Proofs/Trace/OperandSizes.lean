import WidthTrace.Proofs.Instruction.Mode
import WidthTrace.Proofs.Trace.Finish
import WidthTrace.Proofs.Trace.Provenance

/-!
# Paths that size operands differently

Operands are sized by the widths and the emulation bit, while a path that meets a
kept state is compared with it by the widths alone. Known widths that size operands
differently therefore contradict each other, unless one of the two states is in
emulation mode and the other is not. Instructions clear the emulation bit and never
set it, so that without a seed in emulation mode this does not happen.
-/

namespace WidthTrace

theorem Width.eq_byte_of_isKnown {width : Width} (known : width.isKnown = true)
    (narrow : width ≠ .known .word) : width = .known .byte := by
  cases width with
  | known size =>
      cases size with
      | byte => rfl
      | word => exact absurd rfl narrow
  | unknown => cases known

namespace CpuState

/-- Both widths of the state are known. -/
def KnowsWidths (state : CpuState) : Prop :=
  ∀ flag, (state.width flag).isKnown = true

theorem knowsWidths_iff {state : CpuState} :
    state.KnowsWidths ↔ state.m.isKnown = true ∧ state.x.isKnown = true := by
  constructor
  · intro exact
    exact ⟨exact .m, exact .x⟩
  · rintro ⟨m, x⟩ flag
    cases flag with
    | m => exact m
    | x => exact x

instance (state : CpuState) : Decidable state.KnowsWidths :=
  decidable_of_iff _ knowsWidths_iff.symm

variable {a b : CpuState}

/-- Known widths contradict each other as soon as they are not the same. -/
theorem KnowsWidths.contradicts_or_eq (exact : a.KnowsWidths) (exactOther : b.KnowsWidths) :
    a.Contradicts b ∨ a.m = b.m ∧ a.x = b.x := by
  by_cases sameM : a.m = b.m
  · by_cases sameX : a.x = b.x
    · exact .inr ⟨sameM, sameX⟩
    · exact .inl ⟨.x, exact .x, exactOther .x, sameX⟩
  · exact .inl ⟨.m, exact .m, exactOther .m, sameM⟩

/-- The same known widths size operands differently only if one of them is a word, which the
emulation bit of one of the states narrows. -/
theorem KnowsWidths.narrowed_of_operandSizes_ne (exact : a.KnowsWidths) (sameM : a.m = b.m)
    (sameX : a.x = b.x) (differ : a.operandSizes ≠ b.operandSizes) :
    (a.m = .known .word ∨ a.x = .known .word) ∧ a.emulation ≠ b.emulation := by
  constructor
  · by_contra narrow
    rw [not_or] at narrow
    have byteM : a.m = .known .byte := Width.eq_byte_of_isKnown (exact .m) narrow.1
    have byteX : a.x = .known .byte := Width.eq_byte_of_isKnown (exact .x) narrow.2
    apply differ
    simp only [operandSizes, ← sameM, ← sameX, byteM, byteX, Width.resolve, ite_self]
  · intro sameBit
    exact differ (operandSizes_of_mode (mode_eq_iff.mpr ⟨sameM, sameX, sameBit⟩))

end CpuState

namespace Instruction

theorem emulation_recordStack (instruction : Instruction) (state : CpuState) :
    (instruction.recordStack state).emulation = state.emulation :=
  (CpuState.mode_eq_iff.mp (mode_recordStack instruction state)).2.2

/-- The emulation bit stays as it is until the mode is exchanged, which clears it. -/
theorem emulation_after (image : Image) (instruction : Instruction) (state : CpuState) :
    (instruction.after image state).emulation =
      (state.emulation && instruction.effect != .exchangeMode) := by
  have kept := emulation_recordStack instruction state
  unfold after
  cases effect : instruction.effect with
  | exchangeMode => exact (Bool.and_false _).symm
  | clearFlags | setFlags =>
      dsimp only
      split <;> exact (Bool.and_true _).symm
  | restoreFlags | push | pull | call => exact kept.trans (Bool.and_true _).symm
  | returns =>
      dsimp only
      split <;> exact kept.trans (Bool.and_true _).symm
  | plain | branch | branchAlways | jump | interrupt | halt => exact (Bool.and_true _).symm

/-- What is handed on by a state in native mode is in native mode. -/
theorem Handover.native {image : Image} {instruction : Instruction} {state handed : CpuState}
    {edge : EdgeKind} {target : Address}
    (handover : instruction.Handover image state edge target handed)
    (native : state.emulation = false) : handed.emulation = false := by
  have after : (instruction.after image state).emulation = false := by
    rw [emulation_after, native, Bool.false_and]
  cases handover with
  | fallthrough goesOn => exact after
  | branch branches known => exact native
  | jump jumps known => exact native
  | call calls known => exact after

end Instruction

namespace Trace

/-- A state with known widths is brought to an address that keeps known widths, and the two size
operands differently. -/
structure SizedApart (image : Image) (seeds : List Seed) (trace : Trace) (address : Address)
    (kept state : CpuState) : Prop where
  known : trace.visited[address]? = some kept
  brought : Brought image seeds trace.visited address state
  exact : state.KnowsWidths
  exactKept : kept.KnowsWidths
  differ : state.operandSizes ≠ kept.operandSizes

/-- The states have the same widths, one of them a word, and only one of the states is in emulation
mode. -/
def Narrowed (kept state : CpuState) : Prop :=
  (state.m = kept.m ∧ state.x = kept.x) ∧
    (state.m = .known .word ∨ state.x = .known .word) ∧ state.emulation ≠ kept.emulation

section

variable {image : Image} {seeds : List Seed} {trace : Trace} {address : Address}
  {kept state : CpuState}

/-- A path that would size operands differently from the kept state is reported, or one of the two
states narrows the widths of the other. -/
theorem SizedApart.mismatch_or_narrowed (apart : SizedApart image seeds trace address kept state)
    (reached : Reachable image seeds trace) (idle : trace.isIdle = true) :
    trace.mismatchesAt address ≠ [] ∨ Narrowed kept state := by
  rcases apart.exactKept.contradicts_or_eq apart.exact with contradicts | ⟨sameM, sameX⟩
  · left
    exact (reached.mismatchesAt_ne_nil_iff idle apart.known).mpr ⟨state, apart.brought, contradicts⟩
  · right
    exact ⟨⟨sameM.symm, sameX.symm⟩,
      apart.exact.narrowed_of_operandSizes_ne sameM.symm sameX.symm apart.differ⟩

/-- From seeds in native mode, every state is kept in native mode. -/
theorem Reachable.native_of_known (reached : Reachable image seeds trace)
    (declared : ∀ seed ∈ seeds, seed.2.emulation = false)
    (known : trace.visited[address]? = some kept) : kept.emulation = false :=
  reached.inherits (motive := fun _ state => state.emulation = false) declared
    (fun _ _ handover => handover.native) known

/-- From seeds in native mode, every path arrives in native mode. -/
theorem Reachable.native_of_brought (reached : Reachable image seeds trace)
    (declared : ∀ seed ∈ seeds, seed.2.emulation = false)
    (brought : Brought image seeds trace.visited address state) : state.emulation = false :=
  reached.inherits_of_brought (motive := fun _ state => state.emulation = false) declared
    (fun _ _ handover => handover.native) brought

end

/-- After any requests that leave nothing pending, let a state with known widths have been brought
to a traced address that keeps known widths, and let the two size operands differently. Then a
mismatch is reported there, or the widths are the same, one of them is a word, and only one of the
two states is in emulation mode. If no seed is in emulation mode, the mismatch is reported. -/
theorem differing_sizes_are_reported_or_narrowed {image : Image} {requests : List Request}
    {address : Address} {kept state : CpuState}
    (drained : (history image requests).pending.toList = [])
    (apart : SizedApart image (seeds requests) (history image requests) address kept state) :
    ((∃ finding ∈ (history image requests).findings,
        finding.kind = .stateMismatch ∧ finding.address = address) ∨ Narrowed kept state) ∧
    ((∀ seed ∈ seeds requests, seed.2.emulation = false) →
      ∃ finding ∈ (history image requests).findings,
        finding.kind = .stateMismatch ∧ finding.address = address) := by
  have reached := reachable_history image requests
  have idle : (history image requests).isIdle = true :=
    isIdle_iff.mpr ⟨current_history image requests, drained⟩
  have reported := apart.mismatch_or_narrowed reached idle
  rw [exists_mismatch_iff]
  refine ⟨reported, fun declared => reported.resolve_right ?_⟩
  rintro ⟨_, _, differ⟩
  exact differ ((reached.native_of_brought declared apart.brought).trans
    (reached.native_of_known declared apart.known).symm)

/-! ## Runs in which operands are sized differently -/

/-- Two entry points that select words, the second of which then branches behind the selection of
the first. The operand of the instruction there is one byte in emulation mode, and two in native
mode. -/
def twoModesImage : Image :=
  ⟨⟨#[0xC2, 0x30, 0xA9, 0xEA, 0x60, 0x60, 0xC2, 0x30, 0x80, 0xF8]⟩, .loRom⟩

/-- The path that leaves the branch under a state meets the one that was kept. -/
theorem sizedApart_of_branch {requests : List Request} {kept state : CpuState}
    (known : (history twoModesImage requests).visited[(⟨0, 0x8002⟩ : Address)]? = some kept)
    (branch : (history twoModesImage requests).visited[(⟨0, 0x8008⟩ : Address)]? = some state)
    (decoded : Instruction.decode? twoModesImage ⟨0, 0x8008⟩ state =
      some ⟨⟨0, 0x8008⟩, ⟨0x80⟩, 1⟩)
    (exact : state.KnowsWidths ∧ kept.KnowsWidths)
    (differ : state.operandSizes ≠ kept.operandSizes) :
    SizedApart twoModesImage (seeds requests) (history twoModesImage requests) ⟨0, 0x8002⟩ kept
      state where
  known := known
  brought := .handed branch decoded (.branch (.inr rfl) (by decide +kernel))
  exact := exact.1
  exactKept := exact.2
  differ := differ

/-- The two entry points, the first one declared in emulation mode. -/
def inTwoModes : List Request :=
  [.enter ⟨0, 0x8000⟩ { CpuState.native8 with emulation := true }, .enter ⟨0, 0x8006⟩ .native8, .run]

theorem history_inTwoModes :
    history twoModesImage inTwoModes =
      (step twoModesImage)^[9] (history twoModesImage (inTwoModes.take 2)) :=
  run_eq_iterate (by decide +kernel)

theorem sizedApart_inTwoModes :
    SizedApart twoModesImage (seeds inTwoModes) (history twoModesImage inTwoModes) ⟨0, 0x8002⟩
      ⟨.known .word, .known .word, true, []⟩ (.ofWidths (.known .word) (.known .word)) := by
  refine sizedApart_of_branch ?_ ?_ (by decide +kernel) (by decide) (by decide)
  · rw [history_inTwoModes]
    decide +kernel
  · rw [history_inTwoModes]
    decide +kernel

/-- The first entry point and the branch, both declared in native mode with one-byte registers. -/
def inNativeMode : List Request :=
  [.enter ⟨0, 0x8000⟩ .native8, .enter ⟨0, 0x8008⟩ .native8, .run]

theorem history_inNativeMode :
    history twoModesImage inNativeMode =
      (step twoModesImage)^[8] (history twoModesImage (inNativeMode.take 2)) :=
  run_eq_iterate (by decide +kernel)

theorem sizedApart_inNativeMode :
    SizedApart twoModesImage (seeds inNativeMode) (history twoModesImage inNativeMode) ⟨0, 0x8002⟩
      (.ofWidths (.known .word) (.known .word)) .native8 := by
  refine sizedApart_of_branch ?_ ?_ (by decide +kernel) (by decide) (by decide)
  · rw [history_inNativeMode]
    decide +kernel
  · rw [history_inNativeMode]
    decide +kernel

/-- Two states with known widths meet, size operands differently, and nothing is reported. -/
theorem differing_sizes_can_merge_silently :
    (history twoModesImage inTwoModes).pending.toList = [] ∧
    (∃ kept state, SizedApart twoModesImage (seeds inTwoModes) (history twoModesImage inTwoModes)
      ⟨0, 0x8002⟩ kept state) ∧
    ¬∃ finding ∈ (history twoModesImage inTwoModes).findings,
      finding.kind = .stateMismatch ∧ finding.address = ⟨0, 0x8002⟩ := by
  refine ⟨?_, ⟨_, _, sizedApart_inTwoModes⟩, ?_⟩
  · rw [history_inTwoModes]
    decide +kernel
  · rw [exists_mismatch_iff, not_not, history_inTwoModes]
    decide +kernel

theorem differing_sizes_of_twoModesImage :
    (∃ finding ∈ (history twoModesImage inNativeMode).findings,
      finding.kind = .stateMismatch ∧ finding.address = ⟨0, 0x8002⟩) ∧
    ((∃ finding ∈ (history twoModesImage inTwoModes).findings,
        finding.kind = .stateMismatch ∧ finding.address = ⟨0, 0x8002⟩) ∨
      Narrowed ⟨.known .word, .known .word, true, []⟩ (.ofWidths (.known .word) (.known .word))) := by
  have drainedNative : (history twoModesImage inNativeMode).pending.toList = [] := by
    rw [history_inNativeMode]
    decide +kernel
  have drainedTwo : (history twoModesImage inTwoModes).pending.toList = [] := by
    rw [history_inTwoModes]
    decide +kernel
  have native : ∀ seed ∈ seeds inNativeMode, seed.2.emulation = false := by decide
  exact ⟨(differing_sizes_are_reported_or_narrowed drainedNative sizedApart_inNativeMode).2 native,
    (differing_sizes_are_reported_or_narrowed drainedTwo sizedApart_inTwoModes).1⟩

end Trace

end WidthTrace
