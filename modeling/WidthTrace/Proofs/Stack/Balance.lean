import Mathlib.Algebra.BigOperators.Group.List.Basic
import Mathlib.Algebra.Order.Ring.Int
import WidthTrace.Stack.Balance

/-!
# What a clean verdict on the stack says

Nothing is found at a return if the movements inside the routine cancel and every pair
of a push and a pull has equal counts. The counts settle the bytes of a pair whose
movements are all of one size. Registers whose width changes between their pushes and
pulls may trade bytes with each other, and with pushes that no pull belongs to.
-/

namespace WidthTrace

namespace Finding

theorem balance_cons (op : StackOp) (ops : List StackOp) :
    balance (op :: ops) = op.delta + balance ops := rfl

theorem balance_concat (ops : List StackOp) (op : StackOp) :
    balance (ops ++ [op]) = balance ops + op.delta := by
  induction ops with
  | nil => exact Int.add_comm op.delta 0
  | cons first rest ih => rw [List.cons_append, balance_cons, ih, balance_cons, Int.add_assoc]

/-- The movements of each mnemonic, all mnemonics together. -/
theorem balance_eq_sum (ops : List StackOp) :
    balance ops = (StackMnemonic.all.map fun mnemonic =>
      balance (ops.filter fun op => op.mnemonic == mnemonic)).sum := by
  induction ops with
  | nil => rfl
  | cons op rest ih =>
      have split (mnemonic : StackMnemonic) :
          balance ((op :: rest).filter fun op => op.mnemonic == mnemonic) =
            (if mnemonic = op.mnemonic then op.delta else 0) +
              balance (rest.filter fun op => op.mnemonic == mnemonic) := by
        rw [List.filter_cons]
        by_cases same : mnemonic = op.mnemonic
        · simp [same, balance_cons]
        · simp [same, Ne.symm same]
      have once : StackMnemonic.all.count op.mnemonic = 1 := by
        cases op.mnemonic <;> rfl
      rw [balance_cons, ih]
      simp only [split, List.sum_map_add, List.sum_map_ite_eq, once]
      simp

/-- Movements of one size add up to their number times that size. -/
theorem balance_of_delta {ops : List StackOp} {size : Int} (sized : ∀ op ∈ ops, op.delta = size) :
    balance ops = ops.length * size := by
  induction ops with
  | nil => simp [balance]
  | cons op rest ih =>
      have first : op.delta = size := sized op List.mem_cons_self
      have others := ih fun op later => sized op (List.mem_cons_of_mem _ later)
      rw [balance_cons, first, others, List.length_cons, Nat.cast_succ, Int.add_mul, Int.one_mul,
        Int.add_comm]

end Finding

/-- The pairs belong to the movements inside a routine. -/
theorem StackPair.inside_of_mem_all {pair : StackPair} (paired : pair ∈ all) :
    pair.push.isCallOrReturn = false ∧ pair.pull.isCallOrReturn = false := by
  revert pair
  decide

namespace CpuState

/-- The history was recorded from its start, under widths that may have changed in between. -/
inductive Recorded : CpuState → Prop where
  | start (m x : Width) (emulation : Bool) : Recorded ⟨m, x, emulation, []⟩
  | record {state : CpuState} (before : Recorded state) (address : Address)
      (mnemonic : StackMnemonic) : Recorded (state.record address mnemonic)
  | resize {state : CpuState} (before : Recorded state) (m x : Width) (emulation : Bool) :
      Recorded ⟨m, x, emulation, state.history⟩

variable {state : CpuState} {address : Address} {pair : StackPair} {mnemonic : StackMnemonic}

/-- The bytes that an instruction pushed in all, or pulled if negative. -/
def bytesOf (state : CpuState) (mnemonic : StackMnemonic) : Int :=
  Finding.balance (state.stackOps.filter fun op => op.mnemonic == mnemonic)

/-- The bytes that a pair pushed beyond those that it pulled. -/
def excess (state : CpuState) (pair : StackPair) : Int :=
  state.bytesOf pair.push + state.bytesOf pair.pull

/-- All movements of the pair are of one size. -/
def MovesEvenly (state : CpuState) (pair : StackPair) : Prop :=
  ∃ size, ∀ op ∈ state.stackOps, op.mnemonic = pair.push ∨ op.mnemonic = pair.pull →
    op.delta.natAbs = size

/-! ## The movements inside the routine -/

theorem filter_localOps (inside : mnemonic.isCallOrReturn = false) :
    (state.localOps.filter fun op => op.mnemonic == mnemonic) =
      state.stackOps.filter fun op => op.mnemonic == mnemonic := by
  rw [localOps, List.filter_filter]
  refine List.filter_congr fun op _ => ?_
  by_cases same : op.mnemonic = mnemonic
  · simp [same, inside]
  · simp [same]

theorem filter_localOps_eq_nil (outside : mnemonic.isCallOrReturn = true) :
    (state.localOps.filter fun op => op.mnemonic == mnemonic) = [] := by
  rw [List.filter_eq_nil_iff]
  intro op listed same
  rw [localOps, List.mem_filter, beq_iff_eq.mp same, outside] at listed
  cases listed.2

theorem balance_filter_localOps (mnemonic : StackMnemonic) :
    Finding.balance (state.localOps.filter fun op => op.mnemonic == mnemonic) =
      if mnemonic.isCallOrReturn then 0 else state.bytesOf mnemonic := by
  split
  · rename_i outside
    rw [filter_localOps_eq_nil outside]
    rfl
  · rename_i inside
    rw [filter_localOps (Bool.eq_false_iff.mpr inside)]
    rfl

/-- The movements inside the routine are those of the pairs and of the pushes that no pull belongs
to. -/
theorem balance_localOps (state : CpuState) :
    Finding.balance state.localOps = (StackPair.all.map state.excess).sum +
      (state.bytesOf .phk + state.bytesOf .pea + state.bytesOf .pei + state.bytesOf .per) := by
  rw [Finding.balance_eq_sum]
  simp only [balance_filter_localOps, StackMnemonic.all, StackMnemonic.isCallOrReturn,
    StackPair.all, excess, List.map_cons, List.map_nil, List.sum_cons, List.sum_nil,
    Bool.false_eq_true, if_true, if_false]
  omega

theorem countOf_localOps (inside : mnemonic.isCallOrReturn = false) :
    countOf mnemonic state.localOps = countOf mnemonic state.stackOps := by
  rw [countOf, countOf, List.countP_eq_length_filter, filter_localOps inside,
    List.countP_eq_length_filter]

theorem countOf_pair (paired : pair ∈ StackPair.all) :
    countOf pair.push state.localOps = countOf pair.push state.stackOps ∧
      countOf pair.pull state.localOps = countOf pair.pull state.stackOps := by
  obtain ⟨push, pull⟩ := StackPair.inside_of_mem_all paired
  exact ⟨countOf_localOps push, countOf_localOps pull⟩

/-- Nothing is found exactly if the movements cancel and the counts of every pair agree. -/
theorem balanceFindings_eq_nil_iff :
    state.balanceFindings address = [] ↔ Finding.balance state.localOps = 0 ∧
      ∀ pair ∈ StackPair.all,
        countOf pair.push state.stackOps = countOf pair.pull state.stackOps := by
  have counts : (∀ pair ∈ StackPair.all,
      countOf pair.push state.localOps = countOf pair.pull state.localOps) ↔
      ∀ pair ∈ StackPair.all,
        countOf pair.push state.stackOps = countOf pair.pull state.stackOps := by
    refine forall₂_congr fun pair paired => ?_
    rw [(countOf_pair paired).1, (countOf_pair paired).2]
  simp only [balanceFindings, List.append_eq_nil_iff, List.filterMap_eq_nil_iff,
    ite_eq_left_iff, reduceCtorEq, imp_false, not_not, counts]

/-! ## Recorded movements -/

/-- A movement is as long as its mnemonic says, or twice as long if a flag governs it. -/
theorem Recorded.delta_cases (recorded : state.Recorded) :
    ∀ op ∈ state.history, op.delta = op.mnemonic.baseDelta ∨
      op.mnemonic.governingFlag? ≠ none ∧ op.delta = 2 * op.mnemonic.baseDelta := by
  induction recorded with
  | start m x emulation =>
      intro op listed
      cases listed
  | @record state before address mnemonic ih =>
      intro op listed
      rcases List.mem_cons.mp listed with rfl | earlier
      · change state.stackDelta mnemonic = _ ∨ _ ∧ state.stackDelta mnemonic = _
        unfold stackDelta
        split
        · rename_i flag governed
          split
          · exact .inr ⟨by simp [governed], rfl⟩
          · exact .inl rfl
        · exact .inl rfl
      · exact ih op earlier
  | resize before m x emulation ih => exact ih

theorem mem_history_of_mem_stackOps {op : StackOp} (listed : op ∈ state.stackOps) :
    op ∈ state.history :=
  List.mem_reverse.mp listed

/-- The widths decide how far a movement goes, but not in which direction. -/
theorem Recorded.sign_delta (recorded : state.Recorded) {op : StackOp}
    (listed : op ∈ state.stackOps) : op.delta.sign = op.mnemonic.baseDelta.sign := by
  rcases recorded.delta_cases op (mem_history_of_mem_stackOps listed) with once | ⟨_, twice⟩
  · rw [once]
  · rw [twice, Int.sign_mul]
    exact Int.one_mul _

/-- A pair that no flag governs always moves by the same size. -/
theorem Recorded.movesEvenly (recorded : state.Recorded) (paired : pair ∈ StackPair.all)
    (fixed : pair.push.governingFlag? = none) : state.MovesEvenly pair := by
  have alike : ∀ pair ∈ StackPair.all, pair.pull.governingFlag? = pair.push.governingFlag? := by
    decide
  refine ⟨pair.push.baseDelta.natAbs, fun op listed moves => ?_⟩
  have ungoverned : op.mnemonic.governingFlag? = none := by
    rcases moves with pushes | pulls
    · rw [pushes, fixed]
    · rw [pulls, alike pair paired, fixed]
  have once : op.delta = op.mnemonic.baseDelta :=
    (recorded.delta_cases op (mem_history_of_mem_stackOps listed)).resolve_right fun twice =>
      twice.1 ungoverned
  rcases moves with pushes | pulls
  · rw [once, pushes]
  · rw [once, pulls, StackPair.baseDelta_pull_of_mem_all paired, Int.natAbs_neg]

/-- With equal counts, a pair whose movements are all of one size pulls what it pushed. -/
theorem Recorded.excess_eq_zero (recorded : state.Recorded) (paired : pair ∈ StackPair.all)
    (counts : countOf pair.push state.stackOps = countOf pair.pull state.stackOps)
    (even : state.MovesEvenly pair) : state.excess pair = 0 := by
  obtain ⟨size, sized⟩ := even
  have directions : ∀ pair ∈ StackPair.all,
      pair.push.baseDelta.sign = 1 ∧ pair.pull.baseDelta.sign = -1 := by
    decide
  obtain ⟨upwards, downwards⟩ := directions pair paired
  have pushed : ∀ op ∈ state.stackOps.filter fun op => op.mnemonic == pair.push,
      op.delta = size := by
    intro op kept
    obtain ⟨listed, pushes⟩ := List.mem_filter.mp kept
    rw [beq_iff_eq] at pushes
    rw [← Int.sign_mul_natAbs op.delta, recorded.sign_delta listed, pushes, upwards,
      sized op listed (.inl pushes), Int.one_mul]
  have pulled : ∀ op ∈ state.stackOps.filter fun op => op.mnemonic == pair.pull,
      op.delta = -size := by
    intro op kept
    obtain ⟨listed, pulls⟩ := List.mem_filter.mp kept
    rw [beq_iff_eq] at pulls
    rw [← Int.sign_mul_natAbs op.delta, recorded.sign_delta listed, pulls, downwards,
      sized op listed (.inr pulls), Int.neg_one_mul]
  rw [countOf, countOf, List.countP_eq_length_filter, List.countP_eq_length_filter] at counts
  rw [excess, bytesOf, bytesOf, Finding.balance_of_delta pushed, Finding.balance_of_delta pulled,
    counts, Int.mul_neg, Int.add_right_neg]

/-! ## The verdict -/

/--
If nothing is found at a return, every pair has as many pushes as pulls. A pair pulls the bytes that
it pushed if all its movements are of one size, as those of the pairs that no flag governs are. What
the other pairs push beyond what they pull is made up for among them and the pushes that no pull
belongs to.
-/
theorem clean_verdict_settles_even_pairs (recorded : state.Recorded)
    (clean : state.balanceFindings address = []) :
    (∀ pair ∈ StackPair.all,
      countOf pair.push state.stackOps = countOf pair.pull state.stackOps) ∧
    (∀ pair ∈ StackPair.all, pair.push.governingFlag? = none ∨ state.MovesEvenly pair →
      state.bytesOf pair.push = -state.bytesOf pair.pull) ∧
    state.excess ⟨.pha, .pla⟩ + state.excess ⟨.phx, .plx⟩ + state.excess ⟨.phy, .ply⟩ +
      (state.bytesOf .phk + state.bytesOf .pea + state.bytesOf .pei + state.bytesOf .per) = 0 := by
  obtain ⟨balanced, counts⟩ := balanceFindings_eq_nil_iff.mp clean
  have even : ∀ pair ∈ StackPair.all,
      pair.push.governingFlag? = none ∨ state.MovesEvenly pair → state.excess pair = 0 := by
    intro pair paired sized
    have moves := sized.elim (recorded.movesEvenly paired) id
    exact recorded.excess_eq_zero paired (counts pair paired) moves
  refine ⟨counts, ?even, ?rest⟩
  case even =>
    intro pair paired sized
    have settled := even pair paired sized
    rw [excess] at settled
    omega
  case rest =>
    rw [balance_localOps] at balanced
    have banks := even ⟨.phb, .plb⟩ (by decide) (.inl rfl)
    have directs := even ⟨.phd, .pld⟩ (by decide) (.inl rfl)
    have statuses := even ⟨.php, .plp⟩ (by decide) (.inl rfl)
    simp only [StackPair.all, List.map_cons, List.map_nil, List.sum_cons, List.sum_nil] at balanced
    omega

/-- A word and a byte are pushed from two registers, and pulled after both have changed their
widths. -/
def swappedWidths : CpuState :=
  let pushed :=
    ((ofWidths (.known .word) (.known .byte)).record ⟨2, 0x8000⟩ .pha).record ⟨2, 0x8001⟩ .phx
  let resized : CpuState := ⟨.known .byte, .known .word, false, pushed.history⟩
  (resized.record ⟨2, 0x8002⟩ .pla).record ⟨2, 0x8003⟩ .plx

theorem recorded_swappedWidths : swappedWidths.Recorded := by
  have started : Recorded (ofWidths (.known .word) (.known .byte)) := .start _ _ _
  have pushed := (started.record ⟨2, 0x8000⟩ .pha).record ⟨2, 0x8001⟩ .phx
  have resized := pushed.resize (.known .byte) (.known .word) false
  exact (resized.record ⟨2, 0x8002⟩ .pla).record ⟨2, 0x8003⟩ .plx

/-- The accumulator pulls one byte less than it pushed, an index register one more, and nothing is
found. -/
theorem clean_verdict_can_hide_traded_bytes :
    swappedWidths.Recorded ∧ swappedWidths.balanceFindings ⟨2, 0x8004⟩ = [] ∧
    (⟨.pha, .pla⟩ : StackPair) ∈ StackPair.all ∧
    swappedWidths.bytesOf .pha = 2 ∧ swappedWidths.bytesOf .pla = -1 ∧
    swappedWidths.bytesOf .phx = 1 ∧ swappedWidths.bytesOf .plx = -2 :=
  ⟨recorded_swappedWidths, by decide, by decide, by decide, by decide, by decide, by decide⟩

theorem even_pair_settled_beside_swappedWidths :
    let state := (swappedWidths.record ⟨2, 0x8004⟩ .phy).record ⟨2, 0x8005⟩ .ply
    state.Recorded ∧ state.balanceFindings ⟨2, 0x8006⟩ = [] ∧
    state.MovesEvenly ⟨.phy, .ply⟩ ∧ ¬ state.MovesEvenly ⟨.pha, .pla⟩ ∧
    state.bytesOf .phy = -state.bytesOf .ply ∧ state.bytesOf .phy = 2 ∧
    state.excess ⟨.pha, .pla⟩ + state.excess ⟨.phx, .plx⟩ + state.excess ⟨.phy, .ply⟩ +
      (state.bytesOf .phk + state.bytesOf .pea + state.bytesOf .pei + state.bytesOf .per) = 0 := by
  intro state
  have recorded : state.Recorded :=
    (recorded_swappedWidths.record ⟨2, 0x8004⟩ .phy).record ⟨2, 0x8005⟩ .ply
  have clean : state.balanceFindings ⟨2, 0x8006⟩ = [] := by decide
  have even : state.MovesEvenly ⟨.phy, .ply⟩ := ⟨2, by decide⟩
  have uneven : ¬ state.MovesEvenly ⟨.pha, .pla⟩ := by
    rintro ⟨size, sized⟩
    have word := sized ⟨⟨2, 0x8000⟩, .pha, 2, 2⟩ (by decide) (.inl rfl)
    have byte := sized ⟨⟨2, 0x8002⟩, .pla, -1, 2⟩ (by decide) (.inr rfl)
    exact absurd (word.trans byte.symm) (by decide)
  obtain ⟨_, settled, rest⟩ := clean_verdict_settles_even_pairs recorded clean
  exact ⟨recorded, clean, even, uneven, settled ⟨.phy, .ply⟩ (by decide) (.inr even), by decide,
    rest⟩

end CpuState

end WidthTrace
