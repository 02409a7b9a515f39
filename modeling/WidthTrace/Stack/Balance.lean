import WidthTrace.Finding

/-!
# Stack balance at returns

When a routine returns, the movements of the stack pointer that it made itself
should cancel, and every register that it pushed should have been pulled again.
-/

namespace WidthTrace.CpuState

def countOf (mnemonic : StackMnemonic) (ops : List StackOp) : Nat :=
  ops.countP fun op => op.mnemonic == mnemonic

/-- What the history of a state says at the return at `address`: first a sum of movements other than
zero, then each pair of a push and a pull whose counts differ. -/
def balanceFindings (state : CpuState) (address : Address) : List Finding :=
  let ops := state.localOps
  let imbalance :=
    if Finding.balance ops = 0 then [] else [Finding.stackImbalance address ops]
  let pairs := StackPair.all.filterMap fun pair =>
    let pushes := countOf pair.push ops
    let pulls := countOf pair.pull ops
    if pushes = pulls then none else some (Finding.unbalancedPair address pair pushes pulls)
  imbalance ++ pairs

end WidthTrace.CpuState
