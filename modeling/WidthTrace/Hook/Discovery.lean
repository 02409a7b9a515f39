import WidthTrace.Cartridge.Image
import WidthTrace.Hook.Basic
import WidthTrace.SymbolTable.Basic

/-!
# Discovering hooks

Wherever the bytes of an image read as a long call to an address that has a name,
that address is taken for a hook.
-/

namespace WidthTrace.Hook

/-- The opcode of a long call. -/
def longCall : UInt8 := 0x22

/-- The target of the long call that the bytes contain at a position. -/
def longCallAt? (bytes : ByteArray) (position : Nat) : Option Address := do
  let call ← bytes[position]?
  let low ← bytes[position + 1]?
  let middle ← bytes[position + 2]?
  let bank ← bytes[position + 3]?
  if call = longCall then some (.ofBytes low middle bank) else none

/-- The named targets of long calls, in the order of their first occurrences. -/
def discover (image : Image) (symbols : SymbolTable) : List Hook :=
  let targets := (List.range image.bytes.size).filterMap (longCallAt? image.bytes)
  (targets.filter symbols.contains).eraseDups.map fun target =>
    plain (symbols.render target) target .jsl

end WidthTrace.Hook
