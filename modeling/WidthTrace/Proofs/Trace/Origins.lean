import WidthTrace.Proofs.Trace.Attribution

/-!
# Where pending paths come from

A path is started by the declaration of an entry point or by a recorded transfer, and
pending paths are taken up in the order in which they were started. Hence, whenever
a jump is recorded as a tail call, a path to its target was started earlier: it has
been followed there by now, or it still stands ahead of the path of the jump.
-/

namespace WidthTrace

/-- Where a path has come to, and for which routine it is followed. -/
def Arrival.place (arrival : Arrival) : Address × Address :=
  (arrival.address, arrival.routine)

namespace Trace

/-- What starts a path. -/
inductive Origin where
  | entry (address : Address)
  | transfer (recorded : Transfer)
deriving DecidableEq

namespace Origin

def target : Origin → Address
  | .entry address => address
  | .transfer recorded => recorded.target

/-- A path that a call starts is followed for the routine that is called. -/
def routine : Origin → Address
  | .entry address => address
  | .transfer recorded => if recorded.kind = .call then recorded.target else recorded.routine

def isTailCall : Origin → Bool
  | .entry _ => false
  | .transfer recorded => recorded.tailCall

/-- Where the path starts, and for which routine it is followed. -/
def place (origin : Origin) : Address × Address :=
  (origin.target, origin.routine)

end Origin

/-- The origins of the pending paths after a step. If no path was in progress, the oldest one has
left the queue; otherwise the transfers that were recorded have started paths at its end. -/
def originsAfter (trace next : Trace) (origins : List Origin) : List Origin :=
  match trace.current with
  | none => origins.tail
  | some _ =>
      origins ++ (next.graph.transfers.toList.drop trace.graph.transfers.size).map .transfer

/-- A trace that can come about, with the origins of its pending paths, the oldest one first. -/
inductive Queued (image : Image) : List Seed → Trace → List Origin → Prop where
  | empty : Queued image [] empty []
  | enter {seeds : List Seed} {trace : Trace} {origins : List Origin} (entry : Address)
      (state : CpuState) (before : Queued image seeds trace origins) :
      Queued image (seeds ++ [(entry, state)]) (trace.enter entry state)
        (origins ++ [.entry entry])
  | step {seeds : List Seed} {trace : Trace} {origins : List Origin}
      (before : Queued image seeds trace origins) :
      Queued image seeds (trace.step image) (originsAfter trace (trace.step image) origins)

theorem Reachable.queued {image : Image} {seeds : List Seed} {trace : Trace}
    (reached : Reachable image seeds trace) : ∃ origins, Queued image seeds trace origins := by
  induction reached with
  | empty => exact ⟨_, .empty⟩
  | enter entry state before ih =>
      obtain ⟨origins, queued⟩ := ih
      exact ⟨_, queued.enter entry state⟩
  | step before ih =>
      obtain ⟨origins, queued⟩ := ih
      exact ⟨_, queued.step⟩

theorem Queued.reachable {image : Image} {seeds : List Seed} {trace : Trace}
    {origins : List Origin} (queued : Queued image seeds trace origins) :
    Reachable image seeds trace := by
  induction queued with
  | empty => exact .empty
  | enter entry state before ih => exact .enter entry state ih
  | step before ih => exact .step ih

/-! ## The queue after each advance -/

/-- What an advance does to the queue and to its origins: the oldest path is taken up, or the queue
stays as it is, or the transfer that is recorded starts a path at its end. -/
inductive Turn (image : Image) (trace next : Trace) (origins : List Origin) :
    List Origin → Prop where
  | take {arrival : Arrival} {pending : Queue Arrival} (free : trace.current = none)
      (popped : trace.pending.pop? = some (arrival, pending))
      (same : next = { trace with current := some arrival, pending }) :
      Turn image trace next origins origins.tail
  | keep (same : next.graph = trace.graph) (waiting : next.pending.toList = trace.pending.toList) :
      Turn image trace next origins origins
  | start {arrival : Arrival} {instruction : Instruction} {transfer : Transfer}
      (present : trace.current = some arrival)
      (noted : transferOf image trace instruction arrival = some transfer)
      (grown : next.graph = trace.graph.add transfer)
      (waiting : next.pending.toList.map Arrival.place =
        trace.pending.toList.map Arrival.place ++ [(Origin.transfer transfer).place]) :
      Turn image trace next origins (origins ++ [.transfer transfer])

theorem originsAfter_of_same {trace next : Trace} {arrival : Arrival} (origins : List Origin)
    (present : trace.current = some arrival) (same : next.graph = trace.graph) :
    originsAfter trace next origins = origins := by
  rw [originsAfter, present, same, ← Array.length_toList, List.drop_length, List.map_nil,
    List.append_nil]

theorem originsAfter_of_add {trace next : Trace} {arrival : Arrival} {transfer : Transfer}
    (origins : List Origin) (present : trace.current = some arrival)
    (grown : next.graph = trace.graph.add transfer) :
    originsAfter trace next origins = origins ++ [.transfer transfer] := by
  rw [originsAfter, present, grown, CallGraph.add, Array.toList_push, ← Array.length_toList,
    List.drop_left, List.map_singleton]

theorem turn_advance {image : Image} {trace next : Trace} (advance : Advance image trace next)
    (origins : List Origin) : Turn image trace next origins (originsAfter trace next origins) := by
  cases advance with
  | take free popped =>
      rw [originsAfter, free]
      exact .take free popped rfl
  | @meet arrival kept present known =>
      have same := graph_meet trace.ended arrival kept
      rw [originsAfter_of_same origins present same]
      exact .keep same (congrArg Queue.toList (pending_meet trace.ended arrival kept))
  | stop present fresh unreadable =>
      have same : trace.ended.graph = trace.graph := rfl
      rw [originsAfter_of_same origins present same]
      exact .keep same rfl
  | @execute arrival instruction present fresh decoded =>
      have grown := graph_execute image trace.ended instruction arrival
      have waiting := pending_execute image trace.ended instruction arrival
      cases transferred : instruction.transfer? image with
      | none =>
          rw [transferOf, transferred] at grown
          rw [launch, transferred] at waiting
          rw [originsAfter_of_same origins present grown]
          exact .keep grown (waiting.trans (List.append_nil _))
      | some transfer =>
          have noted : transferOf image trace instruction arrival = some _ :=
            congrArg (Option.map _) transferred
          rw [transferOf, transferred] at grown
          rw [launch, transferred] at waiting
          rw [originsAfter_of_add origins present grown]
          refine .start present noted grown ?_
          rw [waiting, List.map_append]
          rfl

/-- The same for a step, which leaves the queue empty if there is nothing to follow. -/
theorem turn_step (image : Image) {trace : Trace} {origins : List Origin}
    (places : trace.pending.toList.map Arrival.place = origins.map Origin.place) :
    Turn image trace (trace.step image) origins
      (originsAfter trace (trace.step image) origins) := by
  cases idle : trace.isIdle with
  | true =>
      obtain ⟨free, drained⟩ := isIdle_iff.mp idle
      rw [drained, List.map_nil, eq_comm, List.map_eq_nil_iff] at places
      rw [step_of_isIdle image idle, originsAfter, free, places]
      exact .keep rfl rfl
  | false => exact turn_advance (advance_step image idle) origins

/-- The paths of the queue are those that start at the origins. -/
theorem Queued.places {image : Image} {seeds : List Seed} {trace : Trace} {origins : List Origin}
    (queued : Queued image seeds trace origins) :
    trace.pending.toList.map Arrival.place = origins.map Origin.place := by
  induction queued with
  | empty => rfl
  | enter entry state before ih =>
      rw [Trace.enter, Queue.toList_push, List.map_append, List.map_append, ih]
      rfl
  | @step seeds trace origins before ih =>
      have turn := turn_step image ih
      generalize originsAfter trace (trace.step image) origins = after at turn ⊢
      cases turn with
      | take free popped same =>
          rw [same, List.map_tail, ← ih, Queue.toList_of_pop? popped]
          rfl
      | keep same waiting => rw [waiting, ih]
      | start present noted grown waiting =>
          rw [waiting, ih, List.map_append]
          rfl

/-- The path that is taken up starts at the first origin. -/
theorem exists_origin_of_pop? {trace : Trace} {origins : List Origin}
    (places : trace.pending.toList.map Arrival.place = origins.map Origin.place)
    {arrival : Arrival} {pending : Queue Arrival}
    (popped : trace.pending.pop? = some (arrival, pending)) :
    ∃ origin later, origins = origin :: later ∧ arrival.address = origin.target ∧
      arrival.routine = origin.routine := by
  rw [Queue.toList_of_pop? popped] at places
  obtain ⟨origin, later, rfl, here, _⟩ := List.map_eq_cons_iff.mp places.symm
  obtain ⟨address, routine⟩ := Prod.mk.inj here
  exact ⟨origin, later, rfl, address.symm, routine.symm⟩

/-- While there are origins, there is a path to take up, which starts at the first one. -/
theorem Queued.pop? {image : Image} {seeds : List Seed} {trace : Trace} {origin : Origin}
    {later : List Origin} (queued : Queued image seeds trace (origin :: later)) :
    ∃ arrival pending, trace.pending.pop? = some (arrival, pending) ∧
      arrival.address = origin.target ∧ arrival.routine = origin.routine := by
  have places := queued.places
  cases popped : trace.pending.pop? with
  | none =>
      rw [Queue.pop?_eq_none_iff.mp popped] at places
      cases places
  | some taken =>
      obtain ⟨_, _, same, address, routine⟩ := exists_origin_of_pop? places popped
      cases same
      exact ⟨taken.1, taken.2, rfl, address, routine⟩

/-! ## What has been dealt with -/

/-- Nothing is left to be traced at the address. -/
def Handled (image : Image) (trace : Trace) (address : Address) : Prop :=
  address ∈ trace.visited ∨ image.byte? address = none

/-- A path has come to the address, or is there. -/
def Attended (image : Image) (trace : Trace) (address : Address) : Prop :=
  Handled image trace address ∨ ∃ arrival, trace.current = some arrival ∧ arrival.address = address

theorem Handled.advance {image : Image} {trace next : Trace} (advance : Advance image trace next)
    {address : Address} (handled : Handled image trace address) : Handled image next address := by
  refine handled.imp (fun member => ?_) id
  obtain ⟨kept, known⟩ := AddressMap.mem_iff_exists.mp member
  exact AddressMap.mem_iff_exists.mpr ⟨kept, extends_advance advance _ _ known⟩

/-- Dealing with an arrival leaves nothing to be traced at its address. -/
theorem handled_of_current {image : Image} {trace next : Trace}
    (advance : Advance image trace next) {arrival : Arrival}
    (present : trace.current = some arrival) : Handled image next arrival.address := by
  cases advance with
  | take free popped =>
      rw [free] at present
      cases present
  | meet here known =>
      cases present.symm.trans here
      left
      rw [visited_meet]
      exact AddressMap.mem_iff_exists.mpr ⟨_, known⟩
  | stop here fresh unreadable =>
      cases present.symm.trans here
      exact .inr (Instruction.decode?_eq_none_iff.mp unreadable)
  | execute here fresh decoded =>
      cases present.symm.trans here
      left
      rw [visited_execute]
      exact Std.TreeMap.mem_insert_self

theorem Attended.step {image : Image} {trace : Trace} {address : Address}
    (attended : Attended image trace address) : Attended image (trace.step image) address := by
  refine step_preserves (motive := fun next => Attended image next address) image attended ?_
  intro next advance
  rcases attended with handled | ⟨arrival, present, rfl⟩
  · exact .inl (handled.advance advance)
  · exact .inl (handled_of_current advance present)

/-! ## Tail calls in the queue -/

/-- The target of each tail call was seen before, or an earlier path starts there. -/
def Preceded (seen : Address → Prop) : List Origin → Prop
  | [] => True
  | origin :: later =>
      (origin.isTailCall = true → seen origin.target) ∧
        Preceded (fun address => seen address ∨ origin.target = address) later

theorem Preceded.mono {seen seenToo : Address → Prop} {origins : List Origin}
    (preceded : Preceded seen origins) (included : ∀ address, seen address → seenToo address) :
    Preceded seenToo origins := by
  induction origins generalizing seen seenToo with
  | nil => exact trivial
  | cons origin later ih =>
      exact ⟨fun tailCall => included _ (preceded.1 tailCall),
        ih preceded.2 fun address => Or.imp_left (included address)⟩

theorem Preceded.concat {seen : Address → Prop} {origins : List Origin} {last : Origin}
    (preceded : Preceded seen origins)
    (known : last.isTailCall = true →
      seen last.target ∨ ∃ origin ∈ origins, origin.target = last.target) :
    Preceded seen (origins ++ [last]) := by
  induction origins generalizing seen with
  | nil => exact ⟨fun tailCall => (known tailCall).resolve_right (by simp), trivial⟩
  | cons origin later ih =>
      refine ⟨preceded.1, ih preceded.2 fun tailCall => ?_⟩
      rcases known tailCall with before | ⟨other, listed, there⟩
      · exact .inl (.inl before)
      · rcases List.mem_cons.mp listed with rfl | after
        · exact .inl (.inr there)
        · exact .inr ⟨other, after, there⟩

/-- A tail call is a jump to an address at which a routine is known to start. -/
theorem tailCall_of_transferOf {image : Image} {trace : Trace} {instruction : Instruction}
    {arrival : Arrival} {transfer : Transfer}
    (noted : transferOf image trace instruction arrival = some transfer)
    (tailCall : transfer.tailCall = true) :
    transfer.kind = .jump ∧ trace.IsStart transfer.target := by
  obtain ⟨⟨kind, target⟩, _, rfl⟩ := Option.map_eq_some_iff.mp noted
  obtain ⟨jumps, known⟩ := (Bool.and_eq_true _ _).mp tailCall
  exact ⟨beq_iff_eq.mp jumps, (Bool.or_eq_true _ _).mp known⟩

/-- A routine starts after an advance that already started before it, or at the target of the call
that is recorded. -/
theorem isStart_of_add {trace next : Trace} {transfer : Transfer}
    (grown : next.graph = trace.graph.add transfer) {routine : Address}
    (starts : next.IsStart routine) : trace.IsStart routine ∨ transfer.target = routine := by
  rw [IsStart, grown] at starts
  rcases starts with declared | called
  · exact .inl (.inl declared)
  · obtain ⟨call, member, isCall, there⟩ := CallGraph.isCallTarget_iff.mp called
    rcases Array.mem_push.mp member with before | rfl
    · exact .inl (.inr (CallGraph.isCallTarget_iff.mpr ⟨call, before, isCall, there⟩))
    · exact .inr there

/-- What holds between a trace and the origins of its pending paths. -/
structure Ordered (image : Image) (trace : Trace) (origins : List Origin) : Prop where
  recorded : ∀ transfer, .transfer transfer ∈ origins → transfer ∈ trace.graph.transfers
  started : ∀ routine, trace.IsStart routine →
    Attended image trace routine ∨ ∃ origin ∈ origins, origin.target = routine
  preceded : Preceded (Attended image trace) origins

theorem Ordered.enter {image : Image} {trace : Trace} {origins : List Origin}
    (ordered : Ordered image trace origins) (entry : Address) (state : CpuState) :
    Ordered image (trace.enter entry state) (origins ++ [.entry entry]) where
  recorded := by
    intro transfer listed
    rw [transfers_enter]
    rcases List.mem_append.mp listed with before | new
    · exact ordered.recorded transfer before
    · cases List.mem_singleton.mp new
  started := by
    intro routine starts
    have known : trace.IsStart routine ∨ entry = routine := by
      rcases starts with declared | called
      · exact (CallGraph.isEntry_declare.mp declared).imp .inl Eq.symm
      · rw [CallGraph.isCallTarget, transfers_enter] at called
        exact .inl (.inr called)
    rcases known with before | rfl
    · rcases ordered.started routine before with seen | ⟨origin, listed, there⟩
      · exact .inl seen
      · exact .inr ⟨origin, List.mem_append_left _ listed, there⟩
    · exact .inr ⟨_, List.mem_append_right _ List.mem_cons_self, rfl⟩
  preceded := ordered.preceded.concat nofun

section

variable {image : Image} {trace next : Trace} {origins : List Origin}

/-- Nothing is recorded, and the queue stays as it is. -/
theorem Ordered.keep (ordered : Ordered image trace origins)
    (attended : ∀ address, Attended image trace address → Attended image next address)
    (same : next.graph = trace.graph) : Ordered image next origins where
  recorded := by
    rw [same]
    exact ordered.recorded
  started := by
    intro routine starts
    rw [IsStart, same] at starts
    exact (ordered.started routine starts).imp_left (attended routine)
  preceded := ordered.preceded.mono attended

/-- The first path is taken up, which then stands where its origin leads. -/
theorem Ordered.take {origin : Origin} {later : List Origin}
    (ordered : Ordered image trace (origin :: later))
    (attended : ∀ address, Attended image trace address → Attended image next address)
    (arrived : Attended image next origin.target) (same : next.graph = trace.graph) :
    Ordered image next later where
  recorded := by
    intro transfer listed
    rw [same]
    exact ordered.recorded transfer (List.mem_cons_of_mem _ listed)
  started := by
    intro routine starts
    rw [IsStart, same] at starts
    rcases ordered.started routine starts with seen | ⟨other, listed, there⟩
    · exact .inl (attended routine seen)
    · rcases List.mem_cons.mp listed with rfl | after
      · rw [← there]
        exact .inl arrived
      · exact .inr ⟨other, after, there⟩
  preceded := by
    refine ordered.preceded.2.mono ?_
    rintro address (seen | rfl)
    · exact attended address seen
    · exact arrived

/-- A transfer is recorded and starts a path. If it is a tail call, a routine is known to start at
its target, so that a path has come there or stands ahead of this one. -/
theorem Ordered.start {instruction : Instruction} {arrival : Arrival} {transfer : Transfer}
    (ordered : Ordered image trace origins)
    (attended : ∀ address, Attended image trace address → Attended image next address)
    (noted : transferOf image trace instruction arrival = some transfer)
    (grown : next.graph = trace.graph.add transfer) :
    Ordered image next (origins ++ [.transfer transfer]) where
  recorded := by
    intro other listed
    rw [grown]
    rcases List.mem_append.mp listed with before | new
    · exact Array.mem_push_of_mem _ (ordered.recorded other before)
    · cases List.mem_singleton.mp new
      exact Array.mem_push_self
  started := by
    intro routine starts
    rcases isStart_of_add grown starts with before | there
    · rcases ordered.started routine before with seen | ⟨origin, listed, there⟩
      · exact .inl (attended routine seen)
      · exact .inr ⟨origin, List.mem_append_left _ listed, there⟩
    · exact .inr ⟨_, List.mem_append_right _ List.mem_cons_self, there⟩
  preceded := by
    refine (ordered.preceded.mono attended).concat ?_
    intro tailCall
    exact (ordered.started _ (tailCall_of_transferOf noted tailCall).2).imp_left (attended _)

theorem Ordered.step (ordered : Ordered image trace origins)
    (places : trace.pending.toList.map Arrival.place = origins.map Origin.place) :
    Ordered image (trace.step image) (originsAfter trace (trace.step image) origins) := by
  have turn := turn_step image places
  have attended (address : Address) (before : Attended image trace address) :
      Attended image (trace.step image) address := before.step
  generalize originsAfter trace (trace.step image) origins = after at turn ⊢
  generalize trace.step image = next at turn attended ⊢
  cases turn with
  | keep same waiting => exact ordered.keep attended same
  | @take arrival pending free popped same =>
      obtain ⟨origin, later, rfl, here, _⟩ := exists_origin_of_pop? places popped
      have arrived : Attended image next origin.target :=
        .inr ⟨arrival, by rw [same], here⟩
      exact ordered.take attended arrived (by rw [same])
  | start present noted grown waiting => exact ordered.start attended noted grown

end

theorem Queued.ordered {image : Image} {seeds : List Seed} {trace : Trace}
    {origins : List Origin} (queued : Queued image seeds trace origins) :
    Ordered image trace origins := by
  induction queued with
  | empty =>
      refine ⟨nofun, ?_, trivial⟩
      intro routine starts
      rcases starts with declared | called
      · cases declared
      · obtain ⟨call, member, _⟩ := CallGraph.isCallTarget_iff.mp called
        exact absurd member (Array.not_mem_empty call)
  | enter entry state before ih => exact ih.enter entry state
  | step before ih => exact ih.step before.places

end Trace

end WidthTrace
