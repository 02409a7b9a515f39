import Mathlib.Data.List.Induction
import WidthTrace.Proofs.Trace.Step

/-!
# Histories of a trace

A trace is used by declaring entry points and by running it, at any times and in
any order. Every state that it takes on the way is reachable: it comes from the
empty trace by declarations and single steps. The seeds are the entry points
with the states that they were declared with.
-/

namespace WidthTrace.Trace

/-- An entry point with the state that it is declared with. -/
abbrev Seed := Address × CpuState

/-- What a trace can be asked to do. -/
inductive Request where
  | enter (entry : Address) (state : CpuState)
  | explore (entry : Address) (state : CpuState)
  | run

/-- The seed that a request declares. -/
def Request.seed? : Request → Option Seed
  | .enter entry state | .explore entry state => some (entry, state)
  | .run => none

/-- The seeds that requests declare, in order. -/
def seeds (requests : List Request) : List Seed :=
  requests.filterMap Request.seed?

def perform (image : Image) (trace : Trace) : Request → Trace
  | .enter entry state => trace.enter entry state
  | .explore entry state => trace.explore image entry state
  | .run => trace.run image

/-- The trace after a sequence of requests. -/
def history (image : Image) (requests : List Request) : Trace :=
  requests.foldl (perform image) empty

theorem history_concat (image : Image) (requests : List Request) (request : Request) :
    history image (requests ++ [request]) = (history image requests).perform image request := by
  rw [history, List.foldl_append]
  rfl

theorem seeds_concat (requests : List Request) (request : Request) :
    seeds (requests ++ [request]) = seeds requests ++ request.seed?.toList := by
  rw [seeds, List.filterMap_append]
  cases request <;> rfl

/-- A trace that can come about, with the seeds declared so far. -/
inductive Reachable (image : Image) : List Seed → Trace → Prop where
  | empty : Reachable image [] empty
  | enter {seeds : List Seed} {trace : Trace} (entry : Address) (state : CpuState)
      (before : Reachable image seeds trace) :
      Reachable image (seeds ++ [(entry, state)]) (trace.enter entry state)
  | step {seeds : List Seed} {trace : Trace} (before : Reachable image seeds trace) :
      Reachable image seeds (trace.step image)

theorem Reachable.run {image : Image} {seeds : List Seed} {trace : Trace}
    (reached : Reachable image seeds trace) : Reachable image seeds (trace.run image) :=
  run_preserves image (fun _ before => before.step) reached

/-- What declarations and advances preserve holds of every reachable trace. -/
theorem Reachable.invariant {image : Image} {motive : List Seed → Trace → Prop}
    (initial : motive [] Trace.empty)
    (enter : ∀ seeds trace entry state, motive seeds trace →
      motive (seeds ++ [(entry, state)]) (trace.enter entry state))
    (advance : ∀ seeds trace next, motive seeds trace → Advance image trace next →
      motive seeds next)
    {seeds : List Seed} {trace : Trace} (reached : Reachable image seeds trace) :
    motive seeds trace := by
  induction reached with
  | empty => exact initial
  | enter entry state before ih => exact enter _ _ entry state ih
  | step before ih => exact step_preserves image ih fun next => advance _ _ next ih

theorem reachable_history (image : Image) (requests : List Request) :
    Reachable image (seeds requests) (history image requests) := by
  induction requests using List.reverseRecOn with
  | nil => exact .empty
  | append_singleton requests request ih =>
      rw [history_concat, seeds_concat]
      cases request with
      | enter entry state => exact .enter entry state ih
      | explore entry state => exact (Reachable.enter entry state ih).run
      | run =>
          rw [Request.seed?, Option.toList_none, List.append_nil]
          exact ih.run

/-- Requests lead from one reachable trace to another, which has their seeds as well. -/
theorem Reachable.requests {image : Image} {declared : List Seed} {trace : Trace}
    (reached : Reachable image declared trace) (further : List Request) :
    Reachable image (declared ++ seeds further) (further.foldl (perform image) trace) := by
  induction further generalizing declared trace with
  | nil => rwa [seeds, List.filterMap_nil, List.append_nil]
  | cons request rest ih =>
      cases request with
      | enter entry state =>
          have later := ih (.enter entry state reached)
          rwa [List.append_assoc] at later
      | explore entry state =>
          have later := ih (Reachable.enter entry state reached).run
          rwa [List.append_assoc] at later
      | run => exact ih reached.run

/-- Between requests no path is in progress. -/
theorem current_history (image : Image) (requests : List Request) :
    (history image requests).current = none := by
  induction requests using List.reverseRecOn with
  | nil => rfl
  | append_singleton requests request ih =>
      rw [history_concat]
      cases request with
      | enter entry state => exact ih
      | explore entry state => exact (isIdle_iff.mp (isIdle_run image _)).1
      | run => exact (isIdle_iff.mp (isIdle_run image _)).1

end WidthTrace.Trace
