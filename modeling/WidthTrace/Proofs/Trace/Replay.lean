import WidthTrace.Proofs.Analysis.Exploration

/-!
# Seeds that are declared again

Once a trace has nothing left to follow, every seed has been answered: its address
shows no byte, or keeps a state that agrees, or its contradiction was reported.
A path that starts there again finds this answer and ends without leaving anything
behind. In particular, an entry point may be listed twice.
-/

namespace WidthTrace.Trace

/-- What a trace has found, with no path left to follow. -/
def results (trace : Trace) : Trace :=
  { trace with current := none, pending := .empty }

theorem results_of_isIdle {trace : Trace} (idle : trace.isIdle = true) : trace.results = trace := by
  obtain ⟨free, drained⟩ := isIdle_iff.mp idle
  obtain ⟨visited, current, pending, graph, returns, findings⟩ := trace
  cases free
  cases Queue.eq_empty_of_toList drained
  rfl

/-- Whether a state is answered depends on what the trace has found. -/
theorem Answered.of_results {image : Image} {trace other : Trace} {address : Address}
    {state : CpuState} (same : other.results = trace.results)
    (answered : Answered image trace address state) : Answered image other address state := by
  have found : Answered image trace.results address state := answered
  rw [← same] at found
  exact found

/-- Every outstanding arrival is answered by what the trace has found before, and only readable
addresses are traced. -/
structure Repeating (image : Image) (trace : Trace) : Prop where
  answered : ∀ arrival ∈ trace.outstanding, Answered image trace arrival.address arrival.state
  readable : ∀ address kept, trace.visited[address]? = some kept →
    (image.byte? address).isSome = true

section

variable {image : Image} {trace next : Trace}

/-- An answered state that is met leaves nothing behind. -/
theorem meet_of_answered {arrival : Arrival} {kept : CpuState}
    (known : trace.visited[arrival.address]? = some kept)
    (readable : (image.byte? arrival.address).isSome = true)
    (answered : Answered image trace arrival.address arrival.state) :
    trace.ended.meet arrival kept = trace.ended := by
  have silent :
      (kept.compatible arrival.state || trace.ended.isReported arrival.address) = true := by
    rw [Bool.or_eq_true]
    rcases answered with unreadable | ⟨other, found, agrees | reported⟩
    · rw [unreadable] at readable
      cases readable
    · cases known.symm.trans found
      exact .inl agrees
    · exact .inr (isReported_iff.mpr reported)
  rw [meet, if_pos silent]

/-- An answered arrival is dropped without leaving anything behind, since its address was traced
before or shows no byte. -/
theorem Repeating.advance (repeating : Repeating image trace) (advance : Advance image trace next) :
    next.results = trace.results ∧ Repeating image next := by
  cases advance with
  | take free popped =>
      refine ⟨rfl, fun arrival waiting => repeating.answered arrival ?_, repeating.readable⟩
      rwa [outstanding_take free popped] at waiting
  | @meet arrival kept present known =>
      have answered := repeating.answered arrival (mem_outstanding_of_current present)
      rw [meet_of_answered known (repeating.readable _ _ known) answered]
      exact ⟨rfl, fun other later => repeating.answered other (List.mem_append_right _ later),
        repeating.readable⟩
  | stop present fresh unreadable =>
      exact ⟨rfl, fun other later => repeating.answered other (List.mem_append_right _ later),
        repeating.readable⟩
  | @execute arrival instruction present fresh decoded =>
      rcases repeating.answered arrival (mem_outstanding_of_current present) with
        unreadable | ⟨kept, known, _⟩
      · have readable := isSome_byte?_of_decode? decoded
        rw [unreadable] at readable
        cases readable
      · rw [fresh] at known
        cases known

theorem Repeating.run (repeating : Repeating image trace) :
    (trace.run image).results = trace.results ∧ Repeating image (trace.run image) := by
  refine run_preserves image
    (motive := fun next => next.results = trace.results ∧ Repeating image next) ?step
    ⟨rfl, repeating⟩
  case step =>
    intro before holds
    obtain ⟨same, still⟩ := holds
    refine step_preserves image
      (motive := fun next => next.results = trace.results ∧ Repeating image next) ⟨same, still⟩ ?_
    intro next advance
    obtain ⟨unchanged, again⟩ := still.advance advance
    exact ⟨unchanged.trans same, again⟩

/-- A seed is known to a trace if it is declared there and answered. -/
def Known (image : Image) (trace : Trace) (seed : Seed) : Prop :=
  seed.1 ∈ trace.graph.entries ∧ Answered image trace seed.1 seed.2

theorem Known.of_results {seed : Seed} (same : next.results = trace.results)
    (known : Known image trace seed) : Known image next seed := by
  obtain ⟨declared, answered⟩ := known
  refine ⟨?_, answered.of_results same⟩
  change seed.1 ∈ next.results.graph.entries
  rw [same]
  exact declared

/-- A known seed that is declared again changes nothing but the paths to be followed. -/
theorem Repeating.enter (repeating : Repeating image trace) {entry : Address} {state : CpuState}
    (known : Known image trace (entry, state)) :
    (trace.enter entry state).results = trace.results ∧
      Repeating image (trace.enter entry state) := by
  obtain ⟨declared, answered⟩ := known
  have same : (trace.enter entry state).results = trace.results := by
    rw [Trace.enter, CallGraph.declare, if_pos declared]
    rfl
  refine ⟨same, fun arrival waiting => ?_, repeating.readable⟩
  rw [outstanding_enter] at waiting
  rcases List.mem_append.mp waiting with before | new
  · exact (repeating.answered arrival before).of_results same
  · cases List.mem_singleton.mp new
    exact answered.of_results same

theorem Repeating.perform (repeating : Repeating image trace) {request : Request}
    (known : ∀ seed ∈ request.seed?, Known image trace seed) :
    (trace.perform image request).results = trace.results ∧
      Repeating image (trace.perform image request) := by
  cases request with
  | enter entry state => exact repeating.enter (known _ rfl)
  | explore entry state =>
      obtain ⟨entered, still⟩ := repeating.enter (known _ rfl)
      obtain ⟨ran, again⟩ := still.run
      exact ⟨ran.trans entered, again⟩
  | run => exact repeating.run

theorem Repeating.requests (repeating : Repeating image trace) {further : List Request}
    (known : ∀ seed ∈ seeds further, Known image trace seed) :
    (further.foldl (Trace.perform image) trace).results = trace.results := by
  induction further generalizing trace with
  | nil => rfl
  | cons request rest ih =>
      have now : ∀ seed ∈ request.seed?, Known image trace seed := fun seed declares =>
        known seed (List.mem_filterMap.mpr ⟨request, List.mem_cons_self, declares⟩)
      have later : ∀ seed ∈ seeds rest, Known image trace seed := by
        intro seed member
        obtain ⟨other, listed, declares⟩ := List.mem_filterMap.mp member
        exact known seed (List.mem_filterMap.mpr ⟨other, List.mem_cons_of_mem _ listed, declares⟩)
      obtain ⟨same, still⟩ := repeating.perform now
      exact (ih still fun seed member => (later seed member).of_results same).trans same

end

/-- Once nothing is left to follow, no arrival is outstanding and every seed is known. -/
theorem Reachable.repeating {image : Image} {declared : List Seed} {trace : Trace}
    (reached : Reachable image declared trace) (idle : trace.isIdle = true) :
    Repeating image trace ∧ ∀ seed ∈ declared, Known image trace seed := by
  refine ⟨⟨?nothing, fun _ _ => reached.readable⟩, fun seed member => ⟨?_, ?_⟩⟩
  case nothing =>
    intro arrival waiting
    rw [outstanding_of_isIdle idle] at waiting
    cases waiting
  · exact reached.mem_entries.mpr ⟨seed.2, member⟩
  · exact reached.answered idle (.seed member)

/-- Requests that declare only seeds of a drained trace lead back to it. -/
theorem history_append_eq_of_known {image : Image} {requests further : List Request}
    (drained : (history image requests).pending.toList = [])
    (known : ∀ seed ∈ seeds further, seed ∈ seeds requests)
    (drainedAgain : (history image (requests ++ further)).pending.toList = []) :
    history image (requests ++ further) = history image requests := by
  have idle := isIdle_iff.mpr ⟨current_history image requests, drained⟩
  have idleAgain := isIdle_iff.mpr ⟨current_history image (requests ++ further), drainedAgain⟩
  obtain ⟨repeating, answered⟩ := (reachable_history image requests).repeating idle
  have same : (history image (requests ++ further)).results = (history image requests).results := by
    rw [history, List.foldl_append]
    exact repeating.requests fun seed member => answered seed (known seed member)
  rw [results_of_isIdle idle, results_of_isIdle idleAgain] at same
  exact same

/-! ## Entry points that are listed again -/

theorem explore_again {image : Image} {state : CpuState} {entries : List Address} {again : Address}
    (listed : again ∈ entries) :
    (empty.exploreAll image state entries).explore image again state =
      empty.exploreAll image state entries := by
  have seeded : ∀ seed ∈ seeds [.explore again state],
      seed ∈ seeds (entries.map fun entry => .explore entry state) := by
    intro seed member
    cases List.mem_singleton.mp member
    rw [seeds_explore]
    exact List.mem_map.mpr ⟨again, listed, rfl⟩
  have idle : (empty.exploreAll image state entries).isIdle = true :=
    isIdle_exploreAll rfl state entries
  have idleAgain := isIdle_run image ((empty.exploreAll image state entries).enter again state)
  rw [isIdle_iff, exploreAll_eq_history] at idle idleAgain
  rw [exploreAll_eq_history]
  have replayed := history_append_eq_of_known idle.2 seeded
  rw [history_concat] at replayed
  exact replayed idleAgain.2

theorem exploreAll_again {image : Image} {state : CpuState} {before after : List Address}
    {again : Address} (listed : again ∈ before) :
    empty.exploreAll image state (before ++ again :: after) =
      empty.exploreAll image state (before ++ after) := by
  rw [exploreAll_append, exploreAll_append]
  change ((empty.exploreAll image state before).explore image again state).exploreAll image state
    after = _
  rw [explore_again listed]

/-- Requests that come after a drained trace and declare only seeds that it has, in any order and
with runs at any time, lead back to the same trace once it is drained again. In particular, an entry
point of a configuration that is listed again does not change the report. -/
theorem replayed_seeds_change_nothing (image : Image) :
    (∀ requests further : List Request,
      (history image requests).pending.toList = [] →
      (∀ seed ∈ seeds further, seed ∈ seeds requests) →
      (history image (requests ++ further)).pending.toList = [] →
      history image (requests ++ further) = history image requests) ∧
    ∀ (config : Config) (symbols : SymbolTable) (manifest : Option Manifest)
      (before after : List Address) (again : Address),
      config.entries = before ++ again :: after → again ∈ before →
      Report.ofImage image { config with entries := before ++ after } symbols manifest =
        Report.ofImage image config symbols manifest := by
  refine ⟨fun requests further drained known drainedAgain =>
    history_append_eq_of_known drained known drainedAgain, ?report⟩
  case report =>
    intro config symbols manifest before after again entries listed
    have given : before ≠ [] := List.ne_nil_of_mem listed
    have roots : config.roots image = before ++ again :: after := by
      rw [Config.roots_of_entries image, entries]
      rw [entries]
      exact List.append_ne_nil_of_left_ne_nil given _
    have fewer : ({ config with entries := before ++ after } : Config).roots image =
        before ++ after :=
      Config.roots_of_entries image (List.append_ne_nil_of_left_ne_nil given after)
    have same : Report.rooted image { config with entries := before ++ after } =
        Report.rooted image config := by
      rw [Report.rooted, Report.rooted, roots, fewer, exploreAll_again listed]
    have traced : Report.traceOf image { config with entries := before ++ after } =
        Report.traceOf image config := by
      funext hooks
      rw [Report.traceOf_eq_conclude, Report.traceOf_eq_conclude, Report.explored, same]
      rfl
    rw [Report.ofImage, traced]
    rfl

theorem replay_in_returnImage :
    let trace := history returnImage bytesThenWords
    let further : List Request :=
      [.enter ⟨0, 0x8001⟩ (.ofWidths (.known .word) (.known .word)), .run,
        .explore ⟨0, 0x8000⟩ .native8]
    let config : Config :=
      { Config.default with entries := [⟨0, 0x8000⟩, ⟨0, 0x8001⟩, ⟨0, 0x8000⟩] }
    trace.isReported ⟨0, 0x8001⟩ = true ∧
      history returnImage (bytesThenWords ++ further) = trace ∧
      Report.ofImage returnImage { config with entries := [⟨0, 0x8000⟩, ⟨0, 0x8001⟩] } .empty none =
        Report.ofImage returnImage config .empty none := by
  intro trace further config
  have reported : trace.isReported ⟨0, 0x8001⟩ = true := by
    rw [show trace = _ from history_bytesThenWords]
    decide +kernel
  obtain ⟨replayed, repeated⟩ := replayed_seeds_change_nothing returnImage
  refine ⟨reported, replayed bytesThenWords further ?_ (by decide) ?_,
    repeated config .empty none [⟨0, 0x8000⟩, ⟨0, 0x8001⟩] [] ⟨0, 0x8000⟩ rfl (by decide)⟩
  · exact (isIdle_iff.mp (isIdle_run returnImage _)).2
  · exact (isIdle_iff.mp (isIdle_run returnImage _)).2

end WidthTrace.Trace
