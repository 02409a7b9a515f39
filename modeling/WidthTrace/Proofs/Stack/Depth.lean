import WidthTrace.Proofs.Stack.Balance

/-!
# Depths of the stack

A recorded movement notes the depth that it leads to, which is the sum of the movements up to
it. No movement is longer than four bytes, so the depth is at most four times the number of
movements.
-/

namespace WidthTrace

namespace StackMnemonic

theorem natAbs_baseDelta_le (mnemonic : StackMnemonic) : mnemonic.baseDelta.natAbs ≤ 4 := by
  cases mnemonic <;> decide

/-- A register that holds a byte is pushed and pulled as one. -/
theorem natAbs_baseDelta_of_governed {mnemonic : StackMnemonic} {flag : WidthFlag}
    (governed : mnemonic.governingFlag? = some flag) : mnemonic.baseDelta.natAbs = 1 := by
  revert governed
  cases mnemonic <;> decide +revert

end StackMnemonic

theorem Finding.natAbs_balance_le {ops : List StackOp} {longest : Nat}
    (bounded : ∀ op ∈ ops, op.delta.natAbs ≤ longest) :
    (balance ops).natAbs ≤ longest * ops.length := by
  induction ops with
  | nil => exact Nat.zero_le _
  | cons op rest ih =>
      have first := bounded op List.mem_cons_self
      have others := ih fun op later => bounded op (List.mem_cons_of_mem _ later)
      calc (balance (op :: rest)).natAbs
        _ ≤ op.delta.natAbs + (balance rest).natAbs := Int.natAbs_add_le _ _
        _ ≤ longest + longest * rest.length := Nat.add_le_add first others
        _ = longest * (op :: rest).length := by rw [List.length_cons, Nat.mul_succ, Nat.add_comm]

namespace CpuState.Recorded

variable {state : CpuState}

theorem depth_eq (recorded : state.Recorded) : state.depth = Finding.balance state.stackOps := by
  induction recorded with
  | start m x emulation => rfl
  | record before address mnemonic ih =>
      rw [depth_record, stackOps_record, Finding.balance_concat, ih]
  | resize before m x emulation ih => exact ih

/-- A movement notes the sum of all movements up to it. -/
theorem depth_of_split (recorded : state.Recorded) {before after : List StackOp} {op : StackOp}
    (split : state.stackOps = before ++ op :: after) :
    op.depth = Finding.balance (before ++ [op]) := by
  induction recorded generalizing after with
  | start m x emulation => simp [stackOps] at split
  | record earlier address mnemonic ih =>
      rw [stackOps_record] at split
      rcases List.eq_nil_or_concat' after with rfl | ⟨shorter, last, rfl⟩
      · obtain ⟨rfl, same⟩ := List.append_inj' split rfl
        cases same
        rw [Finding.balance_concat, ← earlier.depth_eq]
      · rw [← List.cons_append, ← List.append_assoc] at split
        exact ih (List.append_inj' split rfl).1
  | resize earlier m x emulation ih => exact ih split

theorem natAbs_delta_le (recorded : state.Recorded) {op : StackOp} (listed : op ∈ state.stackOps) :
    op.delta.natAbs ≤ 4 := by
  rcases recorded.delta_cases op (mem_history_of_mem_stackOps listed) with once | ⟨governed, twice⟩
  · rw [once]
    exact op.mnemonic.natAbs_baseDelta_le
  · obtain ⟨flag, governs⟩ := Option.ne_none_iff_exists'.mp governed
    rw [twice, Int.natAbs_mul, StackMnemonic.natAbs_baseDelta_of_governed governs]
    decide

end CpuState.Recorded

end WidthTrace
