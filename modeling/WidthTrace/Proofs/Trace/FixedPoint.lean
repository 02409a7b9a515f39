import WidthTrace.Proofs.Trace.Visited

/-!
# A drained trace is a fixed point

While a trace goes on, everything that was brought to an address is either still
outstanding or answered: the address shows no byte, or it keeps a state that
agrees, or the contradiction was reported there. Once nothing is outstanding,
every brought state is answered, and the reports are exactly the contradictions.
-/

namespace WidthTrace

/-- Some flag has a known width in both states, and not the same one. -/
def CpuState.Contradicts (a b : CpuState) : Prop :=
  ∃ flag, (a.width flag).isKnown = true ∧ (b.width flag).isKnown = true ∧
    a.width flag ≠ b.width flag

theorem CpuState.contradicts_iff {a b : CpuState} :
    a.Contradicts b ↔ a.compatible b = false := by
  rw [← Bool.not_eq_true, CpuState.compatible_eq_true_iff, Contradicts]
  simp only [← Width.conflicts_eq_true_iff, not_forall, Bool.not_eq_false]

instance (a b : CpuState) : Decidable (a.Contradicts b) :=
  decidable_of_iff _ CpuState.contradicts_iff.symm

theorem CpuState.compatible_self (state : CpuState) : state.compatible state = true := by
  rw [CpuState.compatible_eq_true_iff]
  intro flag
  cases state.width flag <;> simp [Width.conflicts]

namespace Trace

/-- The reports of contradicting widths at an address. -/
def mismatchesAt (trace : Trace) (address : Address) : List Finding :=
  trace.findings.toList.filter fun finding =>
    finding.kind = .stateMismatch ∧ finding.address = address

theorem mem_mismatchesAt {trace : Trace} {address : Address} {finding : Finding} :
    finding ∈ trace.mismatchesAt address ↔
      finding ∈ trace.findings ∧ finding.kind = .stateMismatch ∧ finding.address = address := by
  simp [mismatchesAt]

theorem isReported_iff {trace : Trace} {address : Address} :
    trace.isReported address = true ↔ trace.mismatchesAt address ≠ [] := by
  rw [isReported, ← Array.any_toList, List.any_eq_true, ← List.length_pos_iff,
    List.length_pos_iff_exists_mem]
  refine exists_congr fun finding => ?_
  rw [mem_mismatchesAt, Array.mem_toList_iff]
  refine and_congr_right fun _ => ?_
  cases finding <;> simp [Finding.kind, Finding.address]

/-- Meeting a kept state reports a contradiction at an address that has none so far. -/
theorem mismatchesAt_meet (trace : Trace) (arrival : Arrival) (kept : CpuState)
    (address : Address) :
    (trace.ended.meet arrival kept).mismatchesAt address =
      if address = arrival.address ∧ kept.compatible arrival.state = false ∧
          trace.mismatchesAt address = [] then
        [.stateMismatch address kept arrival.state]
      else trace.mismatchesAt address := by
  have reported : trace.ended.isReported arrival.address = true ↔
      trace.mismatchesAt arrival.address ≠ [] := isReported_iff
  rw [mismatchesAt, findings_meet]
  simp only [Bool.or_eq_true, reported]
  by_cases silent : kept.compatible arrival.state = true ∨ trace.mismatchesAt arrival.address ≠ []
  · rw [if_pos silent, if_neg]
    · rfl
    · rintro ⟨rfl, contradicts, unreported⟩
      rcases silent with agrees | already
      · rw [contradicts] at agrees
        cases agrees
      · exact already unreported
  · rw [if_neg silent]
    rw [not_or, Bool.not_eq_true, not_not] at silent
    rw [Array.toList_push, List.filter_append]
    change trace.mismatchesAt address ++ _ = _
    by_cases here : address = arrival.address
    · subst here
      rw [if_pos ⟨rfl, silent⟩, silent.2]
      simp [Finding.kind, Finding.address]
    · rw [if_neg fun pushed => here pushed.1]
      simp [Finding.kind, Finding.address, Ne.symm here]

theorem kind_of_mem_balanceFindings {state : CpuState} {address : Address} {finding : Finding}
    (member : finding ∈ state.balanceFindings address) :
    finding.kind = .stackImbalance ∨ finding.kind = .unbalancedPair := by
  rw [CpuState.balanceFindings, List.mem_append, List.mem_filterMap] at member
  rcases member with imbalance | ⟨pair, _, unequal⟩
  · rw [List.mem_ite_nil_left, List.mem_singleton] at imbalance
    rw [imbalance.2]
    exact .inl rfl
  · rw [Option.ite_none_left_eq_some] at unequal
    cases unequal.2
    exact .inr rfl

/-- Executing an instruction reports no contradiction. -/
theorem mismatchesAt_execute (image : Image) (trace : Trace) (instruction : Instruction)
    (arrival : Arrival) (address : Address) :
    (trace.ended.execute image instruction arrival).mismatchesAt address =
      trace.mismatchesAt address := by
  rw [mismatchesAt, findings_execute]
  split
  · rw [Array.toList_appendList, List.filter_append]
    have none : ((instruction.after image arrival.state).balanceFindings arrival.address).filter
        (fun finding => finding.kind = .stateMismatch ∧ finding.address = address) = [] := by
      rw [List.filter_eq_nil_iff]
      intro finding member matched
      have mismatch := (of_decide_eq_true matched).1
      rcases kind_of_mem_balanceFindings member with kind | kind
      · cases kind.symm.trans mismatch
      · cases kind.symm.trans mismatch
    rw [none, List.append_nil]
    rfl
  · rfl

/-! ## Where reported mismatches come from -/

section

variable {image : Image} {seeds : List Seed} {trace next : Trace}

/-- The reported mismatches of a trace compare a kept state with one that was brought to its
address, and all outstanding arrivals were brought to theirs. -/
structure Sourced (image : Image) (seeds : List Seed) (trace : Trace) : Prop where
  outstanding : AllBrought image seeds trace
  mismatches : ∀ address, ∀ finding ∈ trace.mismatchesAt address, ∃ kept actual,
    finding = .stateMismatch address kept actual ∧ trace.visited[address]? = some kept ∧
      kept.Contradicts actual ∧ Brought image seeds trace.visited address actual

theorem Sourced.execute (sourced : Sourced image seeds trace) {arrival : Arrival}
    {instruction : Instruction} (fresh : trace.visited[arrival.address]? = none)
    (decoded : Instruction.decode? image arrival.address arrival.state = some instruction) :
    Sourced image seeds (trace.ended.execute image instruction arrival) where
  outstanding := sourced.outstanding.execute fresh decoded
  mismatches := by
    intro address finding found
    rw [mismatchesAt_execute] at found
    obtain ⟨kept, actual, same, known, contradicts, brought⟩ :=
      sourced.mismatches address finding found
    have extended : AddressMap.Extends trace.visited
        (trace.ended.execute image instruction arrival).visited := by
      rw [visited_execute]
      exact AddressMap.extends_insert fresh _
    exact ⟨kept, actual, same, extended _ _ known, contradicts, brought.mono (fun _ => id) extended⟩

theorem Sourced.advance (sourced : Sourced image seeds trace)
    (advance : Advance image trace next) : Sourced image seeds next := by
  have outstanding := sourced.outstanding.advance advance
  cases advance with
  | take free popped => exact ⟨outstanding, sourced.mismatches⟩
  | @meet arrival kept present known =>
      refine ⟨outstanding, fun address finding found => ?_⟩
      rw [visited_meet]
      rw [mismatchesAt_meet] at found
      split at found
      · rename_i pushed
        obtain ⟨rfl, contradicts, _⟩ := pushed
        cases List.mem_singleton.mp found
        exact ⟨kept, arrival.state, rfl, known, CpuState.contradicts_iff.mpr contradicts,
          sourced.outstanding arrival (mem_outstanding_of_current present)⟩
      · exact sourced.mismatches address finding found
  | stop present fresh unreadable => exact ⟨outstanding, sourced.mismatches⟩
  | execute present fresh decoded => exact sourced.execute fresh decoded

theorem Sourced.run (sourced : Sourced image seeds trace) :
    Sourced image seeds (trace.run image) :=
  run_preserves image
    (fun _ before => step_preserves image before fun _ advance => before.advance advance) sourced

theorem Reachable.sourced (reached : Reachable image seeds trace) : Sourced image seeds trace := by
  induction reached with
  | empty => exact ⟨Reachable.empty.outstanding_brought, fun _ _ found => nomatch found⟩
  | @enter seeds trace entry state before ih =>
      have waiting := (Reachable.enter entry state before).outstanding_brought
      refine ⟨waiting, fun address finding found => ?_⟩
      obtain ⟨kept, actual, same, known, contradicts, brought⟩ :=
        ih.mismatches address finding found
      exact ⟨kept, actual, same, known, contradicts,
        brought.mono (fun _ => List.mem_append_left _) (.refl _)⟩
  | step before ih => exact step_preserves image ih fun _ advance => ih.advance advance

/-- Where a mismatch was reported, the kept state contradicts one that was brought there. -/
theorem Sourced.justified (sourced : Sourced image seeds trace) {address : Address}
    (reported : trace.mismatchesAt address ≠ []) :
    ∃ kept state, trace.visited[address]? = some kept ∧
      Brought image seeds trace.visited address state ∧ kept.compatible state = false := by
  obtain ⟨finding, found⟩ := List.exists_mem_of_ne_nil _ reported
  obtain ⟨kept, actual, _, known, contradicts, brought⟩ :=
    sourced.mismatches address finding found
  exact ⟨kept, actual, known, brought, CpuState.contradicts_iff.mp contradicts⟩

end

/-! ## Answered states -/

/-- An address shows no byte, or keeps a state that agrees, or its contradiction was reported. -/
def Answered (image : Image) (trace : Trace) (address : Address) (state : CpuState) : Prop :=
  image.byte? address = none ∨
    ∃ kept, trace.visited[address]? = some kept ∧
      (kept.compatible state = true ∨ trace.mismatchesAt address ≠ [])

theorem mismatchesAt_advance {image : Image} {trace next : Trace}
    (advance : Advance image trace next) {address : Address}
    (reported : trace.mismatchesAt address ≠ []) : next.mismatchesAt address ≠ [] := by
  cases advance with
  | take free popped => exact reported
  | meet present known =>
      rw [mismatchesAt_meet, if_neg fun unreported => reported unreported.2.2]
      exact reported
  | stop present fresh unreadable => exact reported
  | execute present fresh decoded =>
      rw [mismatchesAt_execute]
      exact reported

theorem Answered.advance {image : Image} {trace next : Trace}
    (advance : Advance image trace next) {address : Address} {state : CpuState}
    (answered : Answered image trace address state) : Answered image next address state := by
  rcases answered with unreadable | ⟨kept, known, agrees | reported⟩
  · exact .inl unreadable
  · exact .inr ⟨kept, extends_advance advance _ _ known, .inl agrees⟩
  · exact .inr ⟨kept, extends_advance advance _ _ known,
      .inr (mismatchesAt_advance advance reported)⟩

/-- An advance answers the arrival that it deals with, and leaves the others outstanding. -/
theorem outstanding_advance {image : Image} {trace next : Trace}
    (advance : Advance image trace next) {other : Arrival} (waiting : other ∈ trace.outstanding) :
    other ∈ next.outstanding ∨ Answered image next other.address other.state := by
  cases advance with
  | take free popped =>
      rw [outstanding_take free popped]
      exact .inl waiting
  | @meet arrival kept present known =>
      rcases (mem_outstanding_iff present).mp waiting with rfl | later
      · right
        refine .inr ⟨kept, by rw [visited_meet]; exact known, ?_⟩
        rw [mismatchesAt_meet]
        cases agrees : kept.compatible other.state with
        | true => exact .inl rfl
        | false =>
            right
            split
            · exact List.cons_ne_nil _ _
            · rename_i reported
              exact fun unreported => reported ⟨rfl, rfl, unreported⟩
      · left
        rwa [outstanding_meet]
  | @stop arrival present fresh unreadable =>
      rcases (mem_outstanding_iff present).mp waiting with rfl | later
      · exact .inr (.inl (Instruction.decode?_eq_none_iff.mp unreadable))
      · exact .inl (List.mem_append_right _ later)
  | @execute arrival instruction present fresh decoded =>
      rcases (mem_outstanding_iff present).mp waiting with rfl | later
      · have known := known_execute image trace.ended instruction other
        exact .inr (.inr ⟨other.state, known, .inl (CpuState.compatible_self _)⟩)
      · exact .inl (mem_outstanding_execute.mpr (.inl later))

/-- What an advance brings to an address is outstanding after it. -/
theorem brought_advance {image : Image} {seeds : List Seed} {trace next : Trace}
    (advance : Advance image trace next) {address : Address} {state : CpuState}
    (brought : Brought image seeds next.visited address state) :
    Brought image seeds trace.visited address state ∨
      ∃ started ∈ next.outstanding, started.address = address ∧ started.state = state := by
  cases brought with
  | seed declared => exact .inl (.seed declared)
  | @handed source kept instruction edge target state known decoded handover =>
      cases advance with
      | take free popped => exact .inl (.handed known decoded handover)
      | meet present found =>
          rw [visited_meet] at known
          exact .inl (.handed known decoded handover)
      | stop present fresh unreadable => exact .inl (.handed known decoded handover)
      | @execute arrival executed present fresh decodes =>
          rw [visited_execute, AddressMap.getElem?_insert] at known
          split at known
          · rename_i here
            cases known
            rw [← here, decodes] at decoded
            cases decoded
            obtain ⟨started, member, same⟩ := exists_mem_started_of_handover handover
            exact .inr ⟨started, mem_outstanding_execute.mpr (.inr member), same⟩
          · exact .inl (.handed known decoded handover)

/-- What holds between the arrivals, the kept states and the reports of a reachable trace. -/
structure Settled (image : Image) (seeds : List Seed) (trace : Trace) : Prop where
  answered : ∀ address state, Brought image seeds trace.visited address state →
    (∃ arrival ∈ trace.outstanding, arrival.address = address ∧ arrival.state = state) ∨
      Answered image trace address state
  justified : ∀ address, trace.mismatchesAt address ≠ [] →
    ∃ kept state, trace.visited[address]? = some kept ∧
      Brought image seeds trace.visited address state ∧ kept.compatible state = false
  once : ∀ address, (trace.mismatchesAt address).length ≤ 1

theorem Settled.enter {image : Image} {seeds : List Seed} {trace : Trace}
    (settled : Settled image seeds trace) {entry : Address} {state : CpuState}
    (sourced : Sourced image (seeds ++ [(entry, state)]) (trace.enter entry state)) :
    Settled image (seeds ++ [(entry, state)]) (trace.enter entry state) where
  answered := by
    intro address brought origin
    rw [outstanding_enter]
    cases origin with
    | seed declared =>
        rcases List.mem_append.mp declared with earlier | new
        · rcases settled.answered _ _ (.seed earlier) with ⟨arrival, waiting, same⟩ | answered
          · exact .inl ⟨arrival, List.mem_append_left _ waiting, same⟩
          · exact .inr answered
        · cases List.mem_singleton.mp new
          exact .inl ⟨_, List.mem_append_right _ List.mem_cons_self, rfl, rfl⟩
    | handed known decoded handover =>
        rcases settled.answered _ _ (.handed known decoded handover) with
          ⟨arrival, waiting, same⟩ | answered
        · exact .inl ⟨arrival, List.mem_append_left _ waiting, same⟩
        · exact .inr answered
  justified := fun _ => sourced.justified
  once := settled.once

theorem Settled.advance {image : Image} {seeds : List Seed} {trace next : Trace}
    (settled : Settled image seeds trace)
    (sourced : Sourced image seeds next)
    (advance : Advance image trace next) : Settled image seeds next where
  answered := by
    intro address state brought
    rcases brought_advance advance brought with before | started
    · rcases settled.answered address state before with ⟨arrival, waiting, rfl, rfl⟩ | answered
      · rcases outstanding_advance advance waiting with later | answered
        · exact .inl ⟨arrival, later, rfl, rfl⟩
        · exact .inr answered
      · exact .inr (answered.advance advance)
    · exact .inl started
  justified := fun _ => sourced.justified
  once := by
    intro address
    cases advance with
    | take free popped => exact settled.once address
    | meet present known =>
        rw [mismatchesAt_meet]
        split
        · exact Nat.le_refl 1
        · exact settled.once address
    | stop present fresh unreadable => exact settled.once address
    | execute present fresh decoded =>
        rw [mismatchesAt_execute]
        exact settled.once address

theorem Reachable.settled {image : Image} {seeds : List Seed} {trace : Trace}
    (reached : Reachable image seeds trace) : Settled image seeds trace := by
  induction reached with
  | empty =>
      refine ⟨?_, fun address reported => absurd rfl reported, fun address => Nat.zero_le 1⟩
      intro address state brought
      cases brought with
      | seed declared => cases declared
      | handed known decoded handover => exact absurd known unknown_empty
  | enter entry state before ih => exact ih.enter (Reachable.enter entry state before).sourced
  | step before ih =>
      exact step_preserves image ih fun _ advance =>
        ih.advance (before.sourced.advance advance) advance

/-! ## Traces with nothing left to follow -/

theorem Reachable.answered {image : Image} {seeds : List Seed} {trace : Trace}
    (reached : Reachable image seeds trace) (idle : trace.isIdle = true) {address : Address}
    {state : CpuState} (brought : Brought image seeds trace.visited address state) :
    Answered image trace address state := by
  rcases reached.settled.answered address state brought with ⟨arrival, waiting, _⟩ | answered
  · rw [outstanding_of_isIdle idle] at waiting
    cases waiting
  · exact answered

theorem Reachable.mem_visited {image : Image} {seeds : List Seed} {trace : Trace}
    (reached : Reachable image seeds trace) (idle : trace.isIdle = true) {address : Address}
    {state : CpuState} (brought : Brought image seeds trace.visited address state)
    (readable : (image.byte? address).isSome = true) : address ∈ trace.visited := by
  rcases reached.answered idle brought with unreadable | ⟨kept, known, _⟩
  · rw [unreadable] at readable
    cases readable
  · exact AddressMap.mem_iff_exists.mpr ⟨kept, known⟩

theorem Reachable.mismatchesAt_ne_nil_iff {image : Image} {seeds : List Seed} {trace : Trace}
    (reached : Reachable image seeds trace) (idle : trace.isIdle = true) {address : Address}
    {kept : CpuState} (known : trace.visited[address]? = some kept) :
    trace.mismatchesAt address ≠ [] ↔
      ∃ state, Brought image seeds trace.visited address state ∧ kept.Contradicts state := by
  constructor
  · intro reported
    obtain ⟨other, state, found, brought, contradicts⟩ :=
      reached.settled.justified address reported
    cases known.symm.trans found
    exact ⟨state, brought, CpuState.contradicts_iff.mpr contradicts⟩
  · rintro ⟨state, brought, contradicts⟩
    rcases reached.answered idle brought with unreadable | ⟨other, found, agrees | reported⟩
    · obtain ⟨instruction, decoded⟩ := reached.decodes known
      have readable := Instruction.isSome_decode? image address kept
      rw [decoded, unreadable] at readable
      cases readable
    · cases known.symm.trans found
      rw [CpuState.contradicts_iff, agrees] at contradicts
      cases contradicts
    · exact reported

theorem exists_mismatch_iff {trace : Trace} {address : Address} :
    (∃ finding ∈ trace.findings, finding.kind = .stateMismatch ∧ finding.address = address) ↔
      trace.mismatchesAt address ≠ [] := by
  rw [← List.length_pos_iff, List.length_pos_iff_exists_mem]
  simp only [mem_mismatchesAt]

/-- After any requests that leave nothing pending, everything that was brought to a readable address
was traced there, the addresses with a reported mismatch are those to which a contradicting state
was brought, and none is reported twice. -/
theorem drained_history_is_fixed_point (image : Image) (requests : List Request)
    (drained : (history image requests).pending.toList = []) :
    let trace := history image requests
    (∀ address state, Brought image (seeds requests) trace.visited address state →
      (image.byte? address).isSome = true → address ∈ trace.visited) ∧
    (∀ address kept, trace.visited[address]? = some kept →
      ((∃ finding ∈ trace.findings,
          finding.kind = .stateMismatch ∧ finding.address = address) ↔
        ∃ state, Brought image (seeds requests) trace.visited address state ∧
          kept.Contradicts state)) ∧
    ∀ address, (trace.mismatchesAt address).length ≤ 1 := by
  intro trace
  have reached : Reachable image (seeds requests) trace := reachable_history image requests
  have idle : trace.isIdle = true := isIdle_iff.mpr ⟨current_history image requests, drained⟩
  refine ⟨?visited, ?reported, reached.settled.once⟩
  case visited =>
    intro address state brought readable
    exact reached.mem_visited idle brought readable
  case reported =>
    intro address kept known
    rw [exists_mismatch_iff]
    exact reached.mismatchesAt_ne_nil_iff idle known

/-- A branch around an instruction that widens the accumulator: two paths with different widths
meet behind it. -/
def mergeImage : Image :=
  ⟨⟨#[0xF0, 0x02, 0xC2, 0x20, 0xEA, 0x60]⟩, .loRom⟩

theorem history_mergeImage :
    history mergeImage [.explore ⟨0, 0x8000⟩ .native8] =
      (step mergeImage)^[8] (empty.enter ⟨0, 0x8000⟩ .native8) := by
  change run _ _ = _
  rw [← run_iterate_step mergeImage 8, run_of_isIdle]
  decide +kernel

theorem mismatch_reported_in_mergeImage :
    (history mergeImage [.explore ⟨0, 0x8000⟩ .native8]).pending.toList = [] ∧
      ∃ finding ∈ (history mergeImage [.explore ⟨0, 0x8000⟩ .native8]).findings,
        finding.kind = .stateMismatch ∧ finding.address = ⟨0, 0x8004⟩ := by
  have drained : (history mergeImage [.explore ⟨0, 0x8000⟩ .native8]).pending.toList = [] := by
    rw [history_mergeImage]
    decide +kernel
  have merged : (history mergeImage [.explore ⟨0, 0x8000⟩ .native8]).visited[
      (⟨0, 0x8004⟩ : Address)]? = some (.ofWidths (.known .word) (.known .byte)) := by
    rw [history_mergeImage]
    decide +kernel
  have start : (history mergeImage [.explore ⟨0, 0x8000⟩ .native8]).visited[
      (⟨0, 0x8000⟩ : Address)]? = some .native8 := by
    rw [history_mergeImage]
    decide +kernel
  have decoded : Instruction.decode? mergeImage ⟨0, 0x8000⟩ .native8 =
      some ⟨⟨0, 0x8000⟩, ⟨0xF0⟩, 1⟩ := by
    decide +kernel
  have brought : Brought mergeImage [(⟨0, 0x8000⟩, .native8)]
      (history mergeImage [.explore ⟨0, 0x8000⟩ .native8]).visited ⟨0, 0x8004⟩ .native8 :=
    .handed start decoded (.branch (.inl rfl) (by decide +kernel))
  have fixedPoint := drained_history_is_fixed_point mergeImage _ drained
  exact ⟨drained, (fixedPoint.2.1 _ _ merged).mpr ⟨_, brought, .m, rfl, rfl, by decide⟩⟩

end Trace

end WidthTrace
