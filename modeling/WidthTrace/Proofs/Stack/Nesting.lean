import Mathlib.Logic.Relation
import WidthTrace.Proofs.Stack.Balance

/-!
# Well-nested code

Code is well nested if every pull undoes the innermost push that is still open and moves
as many bytes as that push did. Calls, returns and changes of the widths may stand
anywhere in between. At each point the movements inside the routine add up to those of
the open pushes, which also account for the counts of every pair. Nothing is found once
all pushes are closed.
-/

namespace WidthTrace

namespace CpuState

variable {state before after : CpuState} {mnemonic : StackMnemonic} {pair : StackPair}

theorem countOf_concat (mnemonic : StackMnemonic) (ops : List StackOp) (op : StackOp) :
    countOf mnemonic (ops ++ [op]) =
      countOf mnemonic ops + if op.mnemonic = mnemonic then 1 else 0 := by
  simp only [countOf, List.countP_append, List.countP_singleton, beq_iff_eq]

/-! ## Movements of one state -/

/-- The flag that governs an instruction, if there is one, selects words. -/
def selectsWords (state : CpuState) (mnemonic : StackMnemonic) : Bool :=
  mnemonic.governingFlag?.any fun flag => state.width flag = .known .word

theorem stackDelta_eq (state : CpuState) (mnemonic : StackMnemonic) :
    state.stackDelta mnemonic =
      if state.selectsWords mnemonic then 2 * mnemonic.baseDelta else mnemonic.baseDelta := by
  rw [stackDelta, selectsWords]
  cases mnemonic.governingFlag? with
  | none => rfl
  | some flag => simp only [Option.any_some, decide_eq_true_eq]

/-- A pull undoes the push of its pair if the widths select the same size. -/
theorem stackDelta_pull (paired : pair ∈ StackPair.all)
    (alike : state.selectsWords pair.pull = before.selectsWords pair.push) :
    state.stackDelta pair.pull = -before.stackDelta pair.push := by
  rw [stackDelta_eq, stackDelta_eq, alike, StackPair.baseDelta_pull_of_mem_all paired]
  split
  · exact Int.mul_neg 2 _
  · rfl

theorem localOps_record (state : CpuState) (address : Address) (mnemonic : StackMnemonic) :
    (state.record address mnemonic).localOps =
      if mnemonic.isCallOrReturn then state.localOps
      else state.localOps ++ [⟨address, mnemonic, state.stackDelta mnemonic,
        state.depth + state.stackDelta mnemonic⟩] := by
  rw [localOps, stackOps_record, List.filter_append, List.filter_singleton]
  cases mnemonic.isCallOrReturn with
  | true => exact List.append_nil _
  | false => rfl

theorem localOps_record_inside (state : CpuState) (address : Address)
    (inside : mnemonic.isCallOrReturn = false) :
    (state.record address mnemonic).localOps =
      state.localOps ++ [⟨address, mnemonic, state.stackDelta mnemonic,
        state.depth + state.stackDelta mnemonic⟩] := by
  rw [localOps_record, inside]
  rfl

theorem localOps_record_outside (state : CpuState) (address : Address)
    (outside : mnemonic.isCallOrReturn = true) :
    (state.record address mnemonic).localOps = state.localOps := by
  rw [localOps_record, if_pos outside]

/-- The widths or the mode change, and nothing moves. -/
inductive Resized : CpuState → CpuState → Prop where
  | clearFlags (state : CpuState) (mask : UInt8) : Resized state (state.clearFlags mask)
  | setFlags (state : CpuState) (mask : UInt8) : Resized state (state.setFlags mask)
  | restoreFlags (state : CpuState) : Resized state state.restoreFlags
  | exchangeMode (state : CpuState) : Resized state state.exchangeMode
  | withWidth (state : CpuState) (flag : WidthFlag) (width : Width) :
      Resized state (state.withWidth flag width)

theorem Resized.history_eq (resized : Resized before after) : after.history = before.history := by
  cases resized with
  | withWidth flag width => cases flag <;> rfl
  | _ => rfl

theorem Resized.localOps_eq (resized : Resized before after) :
    after.localOps = before.localOps := by
  rw [localOps, localOps, stackOps, stackOps, resized.history_eq]

end CpuState

namespace StackPair

variable {pair other : StackPair}

/-- No two pairs share an instruction, and no pull is a push. -/
theorem apart_of_mem_all (paired : pair ∈ all) (listed : other ∈ all) :
    (pair.push = other.push ↔ pair = other) ∧ (pair.pull = other.pull ↔ pair = other) ∧
      pair.push ≠ other.pull := by
  have all_apart : ∀ pair ∈ all, ∀ other ∈ all,
      (pair.push = other.push ↔ pair = other) ∧ (pair.pull = other.pull ↔ pair = other) ∧
        pair.push ≠ other.pull := by
    decide
  exact all_apart pair paired other listed

end StackPair

/-- A push that has not been pulled yet, and the state under which it was made. -/
structure OpenPush where
  pair : StackPair
  paired : pair ∈ StackPair.all
  state : CpuState

/-- The bytes that the push left on the stack. -/
def OpenPush.delta (push : OpenPush) : Int :=
  push.state.stackDelta push.pair.push

/-- A point in well-nested code: the state there and the open pushes, innermost first. -/
structure Nesting where
  state : CpuState
  opened : List OpenPush

namespace Nesting

/-- A pull closes the innermost open push. It is of the same pair, and its governing flag selects
words exactly if it did so at the push. -/
inductive Step : Nesting → Nesting → Prop where
  | resize {before after : CpuState} (opened : List OpenPush) (resized : before.Resized after) :
      Step ⟨before, opened⟩ ⟨after, opened⟩
  | pass (state : CpuState) (opened : List OpenPush) (address : Address)
      (mnemonic : StackMnemonic) (outside : mnemonic.isCallOrReturn = true) :
      Step ⟨state, opened⟩ ⟨state.record address mnemonic, opened⟩
  | push (state : CpuState) (opened : List OpenPush) (address : Address) (pair : StackPair)
      (paired : pair ∈ StackPair.all) :
      Step ⟨state, opened⟩ ⟨state.record address pair.push, ⟨pair, paired, state⟩ :: opened⟩
  | pull (state : CpuState) (opened : List OpenPush) (address : Address) {push : OpenPush}
      (alike : state.selectsWords push.pair.pull = push.state.selectsWords push.pair.push) :
      Step ⟨state, push :: opened⟩ ⟨state.record address push.pair.pull, opened⟩

/-- The open pushes account for what the movements and the counts of each pair exceed by. -/
structure Accounted (nesting : Nesting) : Prop where
  balance : Finding.balance nesting.state.localOps = (nesting.opened.map OpenPush.delta).sum
  counts : ∀ pair ∈ StackPair.all,
    CpuState.countOf pair.push nesting.state.localOps =
      CpuState.countOf pair.pull nesting.state.localOps +
        nesting.opened.countP fun push => push.pair = pair

variable {before after : Nesting}

theorem accounted_start {start : CpuState} (fresh : start.history = []) :
    Accounted ⟨start, []⟩ := by
  have noOps : start.localOps = [] := by
    rw [CpuState.localOps, CpuState.stackOps, fresh]
    rfl
  constructor
  · rw [noOps]
    rfl
  · intro pair paired
    rw [noOps]
    rfl

/-- Only the movements inside the routine count. -/
theorem Accounted.congr {before after : CpuState} {opened : List OpenPush}
    (accounted : Accounted ⟨before, opened⟩) (same : after.localOps = before.localOps) :
    Accounted ⟨after, opened⟩ := by
  constructor
  · rw [same]
    exact accounted.balance
  · rw [same]
    exact accounted.counts

theorem Accounted.push {state : CpuState} {opened : List OpenPush}
    (accounted : Accounted ⟨state, opened⟩) (address : Address) {pair : StackPair}
    (paired : pair ∈ StackPair.all) :
    Accounted ⟨state.record address pair.push, ⟨pair, paired, state⟩ :: opened⟩ := by
  have ops := CpuState.localOps_record_inside state address
    (StackPair.inside_of_mem_all paired).1
  constructor
  case balance =>
    rw [ops, Finding.balance_concat, accounted.balance, List.map_cons, List.sum_cons,
      Int.add_comm]
    rfl
  case counts =>
    intro other listed
    obtain ⟨pushes, _, apart⟩ := StackPair.apart_of_mem_all paired listed
    have counted := accounted.counts other listed
    rw [ops, CpuState.countOf_concat, CpuState.countOf_concat, counted, List.countP_cons]
    simp only [pushes, apart, decide_eq_true_eq, if_false]
    omega

theorem Accounted.pull {state : CpuState} {push : OpenPush} {opened : List OpenPush}
    (accounted : Accounted ⟨state, push :: opened⟩) (address : Address)
    (alike : state.selectsWords push.pair.pull = push.state.selectsWords push.pair.push) :
    Accounted ⟨state.record address push.pair.pull, opened⟩ := by
  have ops := CpuState.localOps_record_inside state address
    (StackPair.inside_of_mem_all push.paired).2
  constructor
  case balance =>
    have undone : state.stackDelta push.pair.pull = -push.delta :=
      CpuState.stackDelta_pull push.paired alike
    rw [ops, Finding.balance_concat, accounted.balance, List.map_cons, List.sum_cons]
    dsimp only
    omega
  case counts =>
    intro other listed
    obtain ⟨_, pulls, _⟩ := StackPair.apart_of_mem_all push.paired listed
    have apart := (StackPair.apart_of_mem_all listed push.paired).2.2
    have counted := accounted.counts other listed
    rw [List.countP_cons] at counted
    rw [ops, CpuState.countOf_concat, CpuState.countOf_concat]
    simp only [pulls, apart.symm, decide_eq_true_eq, if_false] at counted ⊢
    omega

theorem Accounted.step (accounted : before.Accounted) (step : before.Step after) :
    after.Accounted := by
  cases step with
  | resize opened resized =>
      exact accounted.congr resized.localOps_eq
  | pass state opened address mnemonic outside =>
      exact accounted.congr (CpuState.localOps_record_outside state address outside)
  | push state opened address pair paired => exact accounted.push address paired
  | pull state opened address alike => exact accounted.pull address alike

theorem Accounted.steps (accounted : before.Accounted)
    (steps : Relation.ReflTransGen Step before after) : after.Accounted := by
  induction steps with
  | refl => exact accounted
  | tail _ step ih => exact ih.step step

end Nesting

namespace CpuState

/-- Well-nested code leads from one state to the other: no push is open at its start or at its
end. -/
def WellNested (start state : CpuState) : Prop :=
  Relation.ReflTransGen Nesting.Step ⟨start, []⟩ ⟨state, []⟩

/-- After well-nested code from the start of a routine, the movements inside the routine cancel and
nothing is found at a return. -/
theorem wellNested_code_is_clean {start state : CpuState} (fresh : start.history = [])
    (nested : start.WellNested state) (address : Address) :
    state.balanceFindings address = [] ∧ Finding.balance state.localOps = 0 := by
  have accounted := (Nesting.accounted_start fresh).steps nested
  have balanced : Finding.balance state.localOps = 0 := accounted.balance
  refine ⟨balanceFindings_eq_nil_iff.mpr ⟨balanced, fun pair paired => ?_⟩, balanced⟩
  have counted := accounted.counts pair paired
  rwa [(countOf_pair paired).1, (countOf_pair paired).2] at counted

/-- A word is pushed from the accumulator, which then holds bytes until it pulls that word again.
Inside, an index register is saved around a call, and the status around all of it. -/
def nestedSaves : CpuState :=
  let pushed :=
    ((ofWidths (.known .word) (.known .byte)).record ⟨2, 0x8000⟩ .php).record ⟨2, 0x8001⟩ .pha
  let called := (((pushed.setFlags 0x20).record ⟨2, 0x8004⟩ .phx).record ⟨2, 0x8005⟩ .jsl)
  let pulled := ((called.record ⟨2, 0x8009⟩ .plx).clearFlags 0x20).record ⟨2, 0x800C⟩ .pla
  (pulled.record ⟨2, 0x800D⟩ .plp).restoreFlags

theorem wellNested_nestedSaves :
    (ofWidths (.known .word) (.known .byte)).WellNested nestedSaves := by
  refine .head (.push _ _ ⟨2, 0x8000⟩ ⟨.php, .plp⟩ (by decide)) ?_
  refine .head (.push _ _ ⟨2, 0x8001⟩ ⟨.pha, .pla⟩ (by decide)) ?_
  refine .head (.resize _ (.setFlags _ 0x20)) ?_
  refine .head (.push _ _ ⟨2, 0x8004⟩ ⟨.phx, .plx⟩ (by decide)) ?_
  refine .head (.pass _ _ ⟨2, 0x8005⟩ .jsl rfl) ?_
  refine .head (.pull _ _ ⟨2, 0x8009⟩ (by decide)) ?_
  refine .head (.resize _ (.clearFlags _ 0x20)) ?_
  refine .head (.pull _ _ ⟨2, 0x800C⟩ (by decide)) ?_
  refine .head (.pull _ _ ⟨2, 0x800D⟩ (by decide)) ?_
  exact .single (.resize _ (.restoreFlags _))

theorem nestedSaves_is_clean :
    (ofWidths (.known .word) (.known .byte)).history = [] ∧
    (ofWidths (.known .word) (.known .byte)).WellNested nestedSaves ∧
    nestedSaves.localOps.map StackOp.delta = [1, 2, 1, -1, -2, -1] ∧
    nestedSaves.balanceFindings ⟨2, 0x800E⟩ = [] ∧ Finding.balance nestedSaves.localOps = 0 :=
  ⟨rfl, wellNested_nestedSaves, by decide,
    wellNested_code_is_clean rfl wellNested_nestedSaves ⟨2, 0x800E⟩⟩

end CpuState

end WidthTrace
