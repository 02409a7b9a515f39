import WidthTrace.Cpu.State
import WidthTrace.SourceLocation

/-!
# Hooks

A hook is a declared address with an optional contract on the register widths at
its entry and at its exits. A width that the contract leaves unknown is free.
-/

namespace WidthTrace

/-- How a hook is entered. Data is no code, and `other` holds any kind not known here. -/
inductive HookKind where
  | jsl
  | jsr
  | jml
  | jmp
  | patch
  | data
  | other (text : String)
deriving DecidableEq, Repr

namespace HookKind

/-- Reads a kind without regard to the case of ASCII letters. -/
def ofText (text : String) : HookKind :=
  match String.ofList (text.toList.map Char.toLower) with
  | "jsl" => .jsl
  | "jsr" => .jsr
  | "jml" => .jml
  | "jmp" => .jmp
  | "patch" => .patch
  | "data" => .data
  | _ => .other text

def text : HookKind → String
  | .jsl => "jsl"
  | .jsr => "jsr"
  | .jml => "jml"
  | .jmp => "jmp"
  | .patch => "patch"
  | .data => "data"
  | .other text => text

end HookKind

structure Hook where
  name : String
  address : Address
  kind : HookKind
  entry : Option CpuState
  exit : Option CpuState
  skip : Bool
  source : Option SourceLocation
deriving DecidableEq, Repr

namespace Hook

/-- A hook without a contract. -/
def plain (name : String) (address : Address) (kind : HookKind) : Hook :=
  ⟨name, address, kind, none, none, false, none⟩

/-- The hook's contract takes part in the checks. -/
def isValidated (hook : Hook) : Bool :=
  !hook.skip && hook.kind != .data

end Hook

end WidthTrace
