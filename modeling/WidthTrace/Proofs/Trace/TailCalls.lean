import WidthTrace.Proofs.Trace.Finish

/-!
# Tail calls

Whether a jump serves as a call is decided when it is recorded, by the entry
points that are declared and the calls that are recorded by then. What is declared
or called later does not change the record. Hence the flags of a finished trace are
read off the order in which entry points were declared and transfers recorded.
-/

namespace WidthTrace.Trace

/-! ## The flags of a record -/

/-- One of the transfers is a call of the address. -/
def IsCalled (transfers : List Transfer) (address : Address) : Prop :=
  ∃ call ∈ transfers, call.kind = .call ∧ call.target = address

/-- A jump is flagged if and only if its target was declared by the time at which it was recorded,
that is with so many transfers before it, or one of these calls the target. -/
def Classified (declared : Nat → Address → Prop) (transfers : List Transfer) : Prop :=
  ∀ before jump, before ++ [jump] <+: transfers → jump.kind = .jump →
    (jump.tailCall = true ↔ declared before.length jump.target ∨ IsCalled before jump.target)

theorem classified_nil (declared : Nat → Address → Prop) : Classified declared [] := by
  intro before jump isPrefix
  exact absurd (List.prefix_nil.mp isPrefix) (List.concat_ne_nil _ _)

theorem Classified.concat {declared : Nat → Address → Prop} {transfers : List Transfer}
    {transfer : Transfer} (classified : Classified declared transfers)
    (decided : transfer.kind = .jump → (transfer.tailCall = true ↔
      declared transfers.length transfer.target ∨ IsCalled transfers transfer.target)) :
    Classified declared (transfers ++ [transfer]) := by
  intro before jump recorded isJump
  rcases List.prefix_concat_iff.mp recorded with last | earlier
  · obtain ⟨rfl, rfl⟩ := List.append_singleton_inj.mp last
    exact decided isJump
  · exact classified before jump earlier isJump

/-- What is declared with all transfers recorded has no influence on their flags. -/
theorem Classified.congr {old new : Nat → Address → Prop} {transfers : List Transfer}
    (classified : Classified old transfers)
    (same : ∀ count < transfers.length, ∀ address, new count address ↔ old count address) :
    Classified new transfers := by
  intro before jump recorded isJump
  have inside : before.length < transfers.length := by
    have shorter := recorded.length_le
    rw [List.length_append, List.length_singleton] at shorter
    exact shorter
  rw [same _ inside]
  exact classified before jump recorded isJump

/-! ## The flags of a trace -/

/-- The transfers of a trace are classified by the entry points that were declared, and these are the
ones that it knows from now on. -/
structure Tracked (declared : Nat → Address → Prop) (trace : Trace) : Prop where
  entries : ∀ count, trace.graph.transfers.size ≤ count → ∀ address,
    trace.graph.isEntry address = true ↔ declared count address
  classified : Classified declared trace.graph.transfers.toList

theorem isCallTarget_iff_isCalled {graph : CallGraph} {address : Address} :
    graph.isCallTarget address = true ↔ IsCalled graph.transfers.toList address := by
  rw [CallGraph.isCallTarget_iff, IsCalled]
  simp only [Array.mem_toList_iff]

theorem Tracked.advance {image : Image} {declared : Nat → Address → Prop} {trace next : Trace}
    (tracked : Tracked declared trace) (advance : Advance image trace next) :
    Tracked declared next := by
  rcases graph_advance advance with same | ⟨arrival, instruction, transfer, _, noted, recorded⟩
  · constructor
    · rw [same]
      exact tracked.entries
    · rw [same]
      exact tracked.classified
  · obtain ⟨⟨kind, target⟩, _, rfl⟩ := Option.map_eq_some_iff.mp noted
    constructor
    · intro count enough address
      rw [recorded, CallGraph.add, Array.size_push] at enough
      rw [recorded]
      exact tracked.entries count (Nat.le_of_succ_le enough) address
    · rw [recorded, CallGraph.add, Array.toList_push]
      refine tracked.classified.concat fun isJump => ?_
      cases isJump
      rw [← tracked.entries _ (Nat.le_of_eq Array.length_toList.symm), ← isCallTarget_iff_isCalled]
      simp

theorem Tracked.run {declared : Nat → Address → Prop} {trace : Trace}
    (tracked : Tracked declared trace) (image : Image) : Tracked declared (trace.run image) :=
  run_preserves image
    (fun _ before => step_preserves image before fun _ advance => before.advance advance) tracked

/-- A declaration is known from then on. -/
theorem Tracked.enter {old new : Nat → Address → Prop} {trace : Trace} {entry : Address}
    (tracked : Tracked old trace) (state : CpuState)
    (declares : ∀ count address, new count address ↔
      old count address ∨ trace.graph.transfers.size ≤ count ∧ address = entry) :
    Tracked new (trace.enter entry state) where
  entries := by
    intro count enough address
    rw [transfers_enter] at enough
    rw [declares, ← tracked.entries count enough, and_iff_right enough]
    exact CallGraph.isEntry_declare
  classified := by
    rw [transfers_enter]
    refine tracked.classified.congr fun count inside address => ?_
    rw [declares]
    rw [Array.length_toList] at inside
    simp only [Nat.not_le.mpr inside, false_and, or_false]

/-! ## The flags of a finished trace -/

/-- One of the requests declares the address, and at most so many transfers are recorded when it is
made. -/
def DeclaredBefore (image : Image) (requests : List Request) (count : Nat) (address : Address) :
    Prop :=
  ∃ before request, before ++ [request] <+: requests ∧
    (∃ state, request.seed? = some (address, state)) ∧
    (history image before).graph.transfers.size ≤ count

theorem declaredBefore_concat {image : Image} {requests : List Request} {request : Request}
    {count : Nat} {address : Address} :
    DeclaredBefore image (requests ++ [request]) count address ↔
      DeclaredBefore image requests count address ∨
        (history image requests).graph.transfers.size ≤ count ∧
          ∃ state, request.seed? = some (address, state) := by
  constructor
  · rintro ⟨before, last, made, seeds, early⟩
    rcases List.prefix_concat_iff.mp made with same | earlier
    · obtain ⟨rfl, rfl⟩ := List.append_singleton_inj.mp same
      exact .inr ⟨early, seeds⟩
    · exact .inl ⟨before, last, earlier, seeds, early⟩
  · rintro (⟨before, last, made, seeds, early⟩ | ⟨early, seeds⟩)
    · exact ⟨before, last, made.trans (List.prefix_append _ _), seeds, early⟩
    · exact ⟨requests, request, List.prefix_rfl, seeds, early⟩

theorem DeclaredBefore.mono {image : Image} {requests : List Request} {count later : Nat}
    {address : Address} (declared : DeclaredBefore image requests count address)
    (le : count ≤ later) : DeclaredBefore image requests later address := by
  obtain ⟨before, request, made, seeds, early⟩ := declared
  exact ⟨before, request, made, seeds, early.trans le⟩

theorem tracked_history (image : Image) (requests : List Request) :
    Tracked (DeclaredBefore image requests) (history image requests) := by
  induction requests using List.reverseRecOn with
  | nil =>
      refine ⟨fun count _ address => iff_of_false nofun ?_, classified_nil _⟩
      rintro ⟨before, request, made, _⟩
      exact List.concat_ne_nil _ _ (List.prefix_nil.mp made)
  | append_singleton requests request ih =>
      rw [history_concat]
      have declares (entry : Address) (state : CpuState)
          (seeds : request.seed? = some (entry, state)) (count : Nat) (address : Address) :
          DeclaredBefore image (requests ++ [request]) count address ↔
            DeclaredBefore image requests count address ∨
              (history image requests).graph.transfers.size ≤ count ∧ address = entry := by
        rw [declaredBefore_concat, seeds]
        simp [eq_comm]
      cases request with
      | enter entry state => exact ih.enter state (declares entry state rfl)
      | explore entry state => exact (ih.enter state (declares entry state rfl)).run image
      | run =>
          have same : DeclaredBefore image (requests ++ [.run]) = DeclaredBefore image requests := by
            funext count address
            rw [declaredBefore_concat]
            simp [Request.seed?]
          rw [same]
          exact ih.run image

theorem tracked_finished (image : Image) (requests : List Request) :
    Tracked (DeclaredBefore image requests) (finished image requests) := by
  have tracked := (tracked_history image requests).run image
  exact ⟨tracked.entries, tracked.classified⟩

/-- In a finished trace, a jump is flagged as a tail call, and hence leads from routine to routine, if
and only if its target was a declared entry point when the jump was recorded, or the target of a call
recorded before it. Then it still is one or the other. -/
theorem tailCalls_are_known_when_recorded (image : Image) (requests : List Request)
    {before : List Transfer} {jump : Transfer}
    (recorded : before ++ [jump] <+: (finished image requests).graph.transfers.toList)
    (isJump : jump.kind = .jump) :
    let graph := (finished image requests).graph
    (jump.tailCall = true ↔
      DeclaredBefore image requests before.length jump.target ∨ IsCalled before jump.target) ∧
    (jump ∈ graph.routineEdges ↔ jump.tailCall = true) ∧
    (jump.tailCall = true →
      graph.isEntry jump.target = true ∨ graph.isCallTarget jump.target = true) := by
  intro graph
  have tracked := tracked_finished image requests
  have flagged := tracked.classified before jump recorded isJump
  have listed : ∀ transfer ∈ before ++ [jump], transfer ∈ graph.transfers.toList :=
    fun _ member => recorded.subset member
  refine ⟨flagged, ?edge, ?known⟩
  case edge =>
    rw [CallGraph.routineEdges, List.mem_filter, Transfer.isRoutineEdge, isJump]
    exact and_iff_right (listed jump (List.mem_append_right _ (List.mem_singleton_self _)))
  case known =>
    intro tailCall
    rcases flagged.mp tailCall with declared | ⟨call, member, isCall, calls⟩
    · left
      have shorter : before.length ≤ graph.transfers.size := by
        rw [← Array.length_toList]
        exact (List.sublist_append_left _ _).length_le.trans recorded.length_le
      exact (tracked.entries _ le_rfl _).mpr (declared.mono shorter)
    · right
      exact isCallTarget_iff_isCalled.mpr
        ⟨call, listed call (List.mem_append_left _ member), isCall, calls⟩

/-! ## Runs on a routine that is jumped to and called -/

/-- Two routines, of which one jumps to a third one and the other calls it. -/
def jumpAndCallImage : Image :=
  ⟨⟨#[0x4C, 0x08, 0x80, 0x20, 0x08, 0x80, 0x60, 0xEA, 0x60]⟩, .loRom⟩

/-- The routine that jumps comes first. -/
def jumpFirst : List Request :=
  [.enter ⟨0, 0x8000⟩ .native8, .enter ⟨0, 0x8003⟩ .native8]

theorem finished_jumpFirst :
    finished jumpAndCallImage jumpFirst =
      ((step jumpAndCallImage)^[9] (history jumpAndCallImage jumpFirst)).conclude :=
  finished_eq_iterate (by decide +kernel)

/-- The routine that calls comes first. -/
def callFirst : List Request :=
  [.enter ⟨0, 0x8003⟩ .native8, .enter ⟨0, 0x8000⟩ .native8]

theorem finished_callFirst :
    finished jumpAndCallImage callFirst =
      ((step jumpAndCallImage)^[9] (history jumpAndCallImage callFirst)).conclude :=
  finished_eq_iterate (by decide +kernel)

/-- The routine that jumps is explored before the third one is declared. -/
def declaredLast : List Request :=
  [.explore ⟨0, 0x8000⟩ .native8, .enter ⟨0, 0x8008⟩ .native8]

theorem finished_declaredLast :
    finished jumpAndCallImage declaredLast =
      ((step jumpAndCallImage)^[2] (((step jumpAndCallImage)^[4]
        (empty.enter ⟨0, 0x8000⟩ .native8)).enter ⟨0, 0x8008⟩ .native8)).conclude := by
  have explored : history jumpAndCallImage declaredLast =
      ((step jumpAndCallImage)^[4] (empty.enter ⟨0, 0x8000⟩ .native8)).enter ⟨0, 0x8008⟩
        .native8 := by
    rw [← run_eq_iterate (by decide +kernel)]
    rfl
  rw [← explored]
  exact finished_eq_iterate (by rw [explored]; decide +kernel)

/-- The jump of the first routine, which is not taken for a call. -/
def plainJump : Transfer :=
  ⟨⟨0, 0x8000⟩, ⟨0, 0x8008⟩, .jump, ⟨0, 0x8000⟩, false⟩

/-- A jump is not flagged though its target is called in the same trace, or declared in it. -/
theorem tailCall_can_be_known_too_late :
    plainJump.kind = .jump ∧ plainJump.tailCall = false ∧
    (plainJump ∈ (finished jumpAndCallImage jumpFirst).graph.transfers ∧
      (finished jumpAndCallImage jumpFirst).graph.isCallTarget plainJump.target = true) ∧
    plainJump ∈ (finished jumpAndCallImage declaredLast).graph.transfers ∧
      (finished jumpAndCallImage declaredLast).graph.isEntry plainJump.target = true := by
  rw [finished_jumpFirst, finished_declaredLast]
  decide +kernel

theorem tailCalls_of_jumpAndCallImage :
    plainJump ∉ (finished jumpAndCallImage jumpFirst).graph.routineEdges ∧
    ¬DeclaredBefore jumpAndCallImage jumpFirst 0 plainJump.target ∧
    ∃ jump ∈ (finished jumpAndCallImage callFirst).graph.routineEdges,
      jump.source = plainJump.source ∧
        ((finished jumpAndCallImage callFirst).graph.isEntry jump.target = true ∨
          (finished jumpAndCallImage callFirst).graph.isCallTarget jump.target = true) := by
  have plain : [] ++ [plainJump] <+:
      (finished jumpAndCallImage jumpFirst).graph.transfers.toList := by
    rw [finished_jumpFirst]
    decide +kernel
  have called : [⟨⟨0, 0x8003⟩, ⟨0, 0x8008⟩, .call, ⟨0, 0x8003⟩, false⟩] ++
      [{ plainJump with tailCall := true }] <+:
      (finished jumpAndCallImage callFirst).graph.transfers.toList := by
    rw [finished_callFirst]
    decide +kernel
  have unflagged : ¬plainJump.tailCall = true := Bool.false_ne_true
  obtain ⟨flagged, edge, _⟩ := tailCalls_are_known_when_recorded jumpAndCallImage jumpFirst plain rfl
  obtain ⟨_, edgeToo, known⟩ :=
    tailCalls_are_known_when_recorded jumpAndCallImage callFirst called rfl
  refine ⟨mt edge.mp unflagged, fun declared => ?_, _, edgeToo.mpr rfl, rfl, known rfl⟩
  exact unflagged (flagged.mpr (.inl declared))

end WidthTrace.Trace
