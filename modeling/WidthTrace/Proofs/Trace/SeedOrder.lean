import WidthTrace.Proofs.Instruction.Mode
import WidthTrace.Proofs.Trace.Finish
import WidthTrace.Proofs.Trace.Provenance

/-!
# Independence of the order of seeds

Two traces from the same seeds may deal with their paths in different orders, and
then keep different states where paths meet. If everything that was brought to an
address in one of them has the mode that is kept there, the order does not matter:
a walk of the other trace leads, hop by hop, over the same addresses with the same
modes, and the other trace is exact as well.
-/

namespace WidthTrace.Trace

/-- Every state that is brought to a traced address has the mode of the state kept there. -/
def Exact (image : Image) (seeds : List Seed) (visited : AddressMap CpuState) : Prop :=
  ∀ (address : Address) (state kept : CpuState), Brought image seeds visited address state →
    visited[address]? = some kept → kept.mode = state.mode

/-- An arrival has the mode of the state kept at its address, if there is one. -/
def fits (visited : AddressMap CpuState) (arrival : Address × CpuState) : Bool :=
  visited[arrival.1]?.all fun kept => kept.mode = arrival.2.mode

/-- Checks the seeds and the arrivals from every kept state. -/
def isExact (image : Image) (seeds : List Seed) (visited : AddressMap CpuState) : Bool :=
  seeds.all (fits visited) && visited.toList.all fun (source, kept) =>
    (Instruction.decode? image source kept).all fun instruction =>
      (instruction.arrivals image kept).all (fits visited)

theorem fits_iff {visited : AddressMap CpuState} {address : Address} {state : CpuState} :
    fits visited (address, state) = true ↔
      ∀ kept : CpuState, visited[address]? = some kept → kept.mode = state.mode := by
  simp [fits, Option.all_eq_true]

theorem isExact_iff {image : Image} {seeds : List Seed} {visited : AddressMap CpuState} :
    isExact image seeds visited = true ↔ Exact image seeds visited := by
  simp only [isExact, Bool.and_eq_true, List.all_eq_true, Option.all_eq_true, Prod.forall, fits_iff,
    Std.TreeMap.mem_toList_iff_getElem?_eq_some]
  constructor
  · rintro ⟨declaredFit, arrivalsFit⟩ address state kept brought known
    cases brought with
    | seed declared => exact declaredFit address state declared kept known
    | handed found decoded handover =>
        exact arrivalsFit _ _ found _ decoded _ _ (Instruction.mem_arrivals.mpr ⟨_, handover⟩)
          kept known
  · intro exact
    refine ⟨?declared, ?arrivals⟩
    case declared =>
      intro address state declared kept known
      exact exact address state kept (.seed declared) known
    case arrivals =>
      intro source before found instruction decoded target state arrives kept known
      exact exact target state kept (brought_of_mem_arrivals found decoded arrives) known

instance (image : Image) (seeds : List Seed) (visited : AddressMap CpuState) :
    Decidable (Exact image seeds visited) :=
  decidable_of_iff _ isExact_iff

/-- What one map keeps, the other keeps with the same mode. -/
def Covers (larger smaller : AddressMap CpuState) : Prop :=
  ∀ (address : Address) (state : CpuState), smaller[address]? = some state →
    ∃ kept : CpuState, larger[address]? = some kept ∧ kept.mode = state.mode

theorem Covers.map_mode {first second : AddressMap CpuState} (forth : Covers first second)
    (back : Covers second first) (address : Address) :
    second[address]?.map CpuState.mode = first[address]?.map CpuState.mode := by
  cases inSecond : second[address]? with
  | some state =>
      obtain ⟨kept, inFirst, same⟩ := forth address state inSecond
      rw [inFirst, Option.map_some, Option.map_some, same]
  | none =>
      cases inFirst : first[address]? with
      | none => rfl
      | some state =>
          obtain ⟨kept, found, _⟩ := back address state inFirst
          rw [inSecond] at found
          cases found

section

variable {image : Image} {seeds others : List Seed} {trace other : Trace}

/-- At the end of an exact trace, what is brought to a readable address is kept with its mode. -/
theorem Exact.known (exact : Exact image seeds trace.visited)
    (reached : Reachable image seeds trace) (idle : trace.isIdle = true) {address : Address}
    {state : CpuState} (brought : Brought image seeds trace.visited address state)
    (readable : (image.byte? address).isSome = true) :
    ∃ kept, trace.visited[address]? = some kept ∧ kept.mode = state.mode := by
  obtain ⟨kept, known⟩ := AddressMap.mem_iff_exists.mp (reached.mem_visited idle brought readable)
  exact ⟨kept, known, exact address state kept brought known⟩

/-- A walk of another trace leads over addresses that an exact trace keeps with the same modes. -/
theorem Exact.covers (exact : Exact image seeds trace.visited)
    (reached : Reachable image seeds trace) (idle : trace.isIdle = true)
    (reachedOther : Reachable image others other) (included : ∀ seed ∈ others, seed ∈ seeds) :
    Covers trace.visited other.visited := by
  intro address state known
  obtain ⟨start, initial, hops, declared, walk, -⟩ := reachedOther.rooted address state known
  induction walk with
  | start known =>
      exact exact.known reached idle (.seed (included _ declared)) (reachedOther.readable known)
  | hop walk decoded handover known ih =>
      obtain ⟨kept, keptThere, same⟩ := ih walk.known
      obtain ⟨handed, transported, sameHanded⟩ := handover.of_mode same.symm
      rw [← Instruction.decode?_of_mode same] at decoded
      obtain ⟨final, found, sameFinal⟩ := exact.known reached idle
        (.handed keptThere decoded transported) (reachedOther.readable known)
      exact ⟨final, found, sameFinal.trans sameHanded⟩

theorem Brought.of_covers {larger smaller : AddressMap CpuState} (covers : Covers larger smaller)
    (included : ∀ seed ∈ others, seed ∈ seeds) {address : Address} {state : CpuState}
    (brought : Brought image others smaller address state) :
    ∃ handed, Brought image seeds larger address handed ∧ handed.mode = state.mode := by
  cases brought with
  | seed declared => exact ⟨state, .seed (included _ declared), rfl⟩
  | handed known decoded handover =>
      obtain ⟨kept, keptThere, same⟩ := covers _ _ known
      obtain ⟨handed, transported, sameHanded⟩ := handover.of_mode same.symm
      rw [← Instruction.decode?_of_mode same] at decoded
      exact ⟨handed, .handed keptThere decoded transported, sameHanded⟩

/-- A trace that an exact trace covers is exact itself. -/
theorem Exact.of_covers (exact : Exact image seeds trace.visited)
    (covers : Covers trace.visited other.visited) (included : ∀ seed ∈ others, seed ∈ seeds) :
    Exact image others other.visited := by
  intro address state kept brought known
  obtain ⟨handed, transported, sameHanded⟩ := brought.of_covers covers included
  obtain ⟨covering, found, sameKept⟩ := covers address kept known
  rw [← sameKept, exact address handed covering transported found, sameHanded]

theorem Exact.no_mismatch (exact : Exact image seeds trace.visited)
    (reached : Reachable image seeds trace) {finding : Finding} (found : finding ∈ trace.findings) :
    finding.kind ≠ .stateMismatch := by
  intro mismatch
  obtain ⟨kept, state, known, brought, contradicts⟩ := reached.settled.justified finding.address
    (exists_mismatch_iff.mp ⟨finding, found, mismatch, rfl⟩)
  rw [CpuState.compatible_of_mode (exact _ _ _ brought known)] at contradicts
  cases contradicts

theorem Traced.of_covers {larger smaller : AddressMap CpuState} (covers : Covers larger smaller)
    {address : Address} {state : CpuState} {instruction : Instruction}
    (traced : Traced image smaller address state instruction) :
    ∃ kept, Traced image larger address kept instruction := by
  obtain ⟨kept, found, same⟩ := covers _ _ traced.known
  exact ⟨kept, found, by rw [Instruction.decode?_of_mode same, traced.decoded]⟩

theorem links_of_covers (covers : Covers trace.visited other.visited)
    (recorded : Recorded image trace) (recordedOther : Recorded image other) {source : Address}
    {kind : TransferKind} {target : Address} (linked : (source, kind, target) ∈ other.links) :
    (source, kind, target) ∈ trace.links := by
  obtain ⟨state, instruction, traced, transferred⟩ := (recordedOther.mem_links _ _ _).mp linked
  obtain ⟨kept, found⟩ := traced.of_covers covers
  exact (recorded.mem_links _ _ _).mpr ⟨kept, instruction, found, transferred⟩

theorem exits_of_covers (covers : Covers trace.visited other.visited)
    (recorded : Recorded image trace) (recordedOther : Recorded image other) {address : Address}
    {state : CpuState} (left : (address, state) ∈ other.exits) :
    ∃ after, (address, after) ∈ trace.exits := by
  obtain ⟨before, instruction, traced, returns, _⟩ := (recordedOther.mem_exits _ _).mp left
  obtain ⟨kept, found⟩ := traced.of_covers covers
  exact ⟨_, (recorded.mem_exits _ _).mpr ⟨kept, instruction, found, returns, rfl⟩⟩

end

/-- Take two sequences of requests that declare the same seeds, in any order and however often, and
leave nothing pending. If the first trace is exact, the second traces the same addresses with the
same modes, reports no mismatch, and records the same transfers and the same returning addresses. -/
theorem exact_trace_is_independent_of_seed_order (image : Image) {first second : List Request}
    (same : ∀ seed, seed ∈ seeds second ↔ seed ∈ seeds first)
    (drainedFirst : (history image first).pending.toList = [])
    (drainedSecond : (history image second).pending.toList = [])
    (exact : Exact image (seeds first) (history image first).visited) :
    (∀ address : Address, (history image second).visited[address]?.map CpuState.mode =
      (history image first).visited[address]?.map CpuState.mode) ∧
    (∀ finding ∈ (history image second).findings, finding.kind ≠ .stateMismatch) ∧
    (∀ link, link ∈ (history image second).links ↔ link ∈ (history image first).links) ∧
    ∀ address, (∃ state, (address, state) ∈ (history image second).exits) ↔
      ∃ state, (address, state) ∈ (history image first).exits := by
  have reachedFirst := reachable_history image first
  have reachedSecond := reachable_history image second
  have idleFirst := isIdle_iff.mpr ⟨current_history image first, drainedFirst⟩
  have idleSecond := isIdle_iff.mpr ⟨current_history image second, drainedSecond⟩
  have forth : Covers (history image first).visited (history image second).visited :=
    exact.covers reachedFirst idleFirst reachedSecond fun seed => (same seed).mp
  have exactSecond := exact.of_covers forth fun seed => (same seed).mp
  have back : Covers (history image second).visited (history image first).visited :=
    exactSecond.covers reachedSecond idleSecond reachedFirst fun seed => (same seed).mpr
  refine ⟨forth.map_mode back, ?silent, ?links, ?exits⟩
  case silent =>
    intro finding
    exact exactSecond.no_mismatch reachedSecond
  case links =>
    rintro ⟨source, kind, target⟩
    constructor
    · exact links_of_covers forth reachedFirst.recorded reachedSecond.recorded
    · exact links_of_covers back reachedSecond.recorded reachedFirst.recorded
  case exits =>
    intro address
    constructor
    · rintro ⟨state, left⟩
      exact exits_of_covers forth reachedFirst.recorded reachedSecond.recorded left
    · rintro ⟨state, left⟩
      exact exits_of_covers back reachedSecond.recorded reachedFirst.recorded left

/-- A loop that calls a routine; both are declared. -/
def callLoopImage : Image :=
  ⟨⟨#[0x20, 0x06, 0x80, 0x80, 0xFB, 0xEA, 0x60]⟩, .loRom⟩

theorem seed_orders_agree_in_callLoopImage :
    let first : List Request := [.explore ⟨0, 0x8000⟩ .native8, .explore ⟨0, 0x8006⟩ .native8]
    let second : List Request := [.enter ⟨0, 0x8006⟩ .native8, .enter ⟨0, 0x8000⟩ .native8, .run]
    Exact callLoopImage (seeds first) (history callLoopImage first).visited ∧
      (∀ finding ∈ (history callLoopImage second).findings, finding.kind ≠ .stateMismatch) ∧
      (⟨0, 0x8000⟩, .call, ⟨0, 0x8006⟩) ∈ (history callLoopImage second).links ∧
      ∃ state, (⟨0, 0x8006⟩, state) ∈ (history callLoopImage second).exits := by
  intro first second
  have same : ∀ seed, seed ∈ seeds second ↔ seed ∈ seeds first := by
    intro seed
    simp [first, second, seeds, Request.seed?, or_comm]
  have ranOnce : run callLoopImage (empty.enter ⟨0, 0x8000⟩ .native8) =
      (step callLoopImage)^[8] (empty.enter ⟨0, 0x8000⟩ .native8) :=
    run_eq_iterate (by decide +kernel)
  have ranFirst : history callLoopImage first = (step callLoopImage)^[4]
      (((step callLoopImage)^[8] (empty.enter ⟨0, 0x8000⟩ .native8)).enter
        ⟨0, 0x8006⟩ .native8) := by
    change run _ (enter (run _ _) _ _) = _
    rw [ranOnce]
    exact run_eq_iterate (by decide +kernel)
  have ranSecond : history callLoopImage second = (step callLoopImage)^[10]
      ((empty.enter ⟨0, 0x8006⟩ .native8).enter ⟨0, 0x8000⟩ .native8) :=
    run_eq_iterate (by decide +kernel)
  have drainedFirst : (history callLoopImage first).pending.toList = [] := by
    rw [ranFirst]
    decide +kernel
  have drainedSecond : (history callLoopImage second).pending.toList = [] := by
    rw [ranSecond]
    decide +kernel
  have exact : Exact callLoopImage (seeds first) (history callLoopImage first).visited := by
    rw [ranFirst]
    decide +kernel
  have linked : (⟨0, 0x8000⟩, .call, ⟨0, 0x8006⟩) ∈ (history callLoopImage first).links := by
    rw [ranFirst]
    decide +kernel
  have left : (⟨0, 0x8006⟩, CpuState.native8.record ⟨0, 0x8006⟩ .rts) ∈
      (history callLoopImage first).exits := by
    rw [ranFirst]
    decide +kernel
  obtain ⟨_, silent, links, exits⟩ := exact_trace_is_independent_of_seed_order callLoopImage
    same drainedFirst drainedSecond exact
  exact ⟨exact, silent, (links _).mpr linked, (exits _).mpr ⟨_, left⟩⟩

end WidthTrace.Trace
