import WidthTrace.Hook.Basic
import WidthTrace.Json.Printer
import WidthTrace.Text.Blank

/-!
# Manifest entries

An entry is an object with an address and, optionally, widths, a name, a kind and
a source location. Of several faults the first is reported: the object itself,
then the address, then the widths, those of the entry before those of the exit.
-/

namespace WidthTrace.Manifest

open Json (Value)

inductive EntryError where
  | notAnObject
  | missingAddress
  | invalidAddress (value : Value)
  | invalidWidth (field : String) (value : Value)

def EntryError.message : EntryError → String
  | .notAnObject => "entry is not an object"
  | .missingAddress => "missing address"
  | .invalidAddress value => "invalid address " ++ value.text
  | .invalidWidth field value => "invalid width for " ++ field ++ ": " ++ value.text

/-- Numbers reach this bound in no notation. -/
def numberBound : Nat := Nat.pow 2 64

/-- A number in text, between blanks: hexadecimal after `0x`, `0X` or `$`, and decimal otherwise. -/
def numberOfText? (text : String) : Option Nat :=
  match Text.trim text.toList with
  | '0' :: 'x' :: digits => Text.Numeral.read? 16 numberBound digits
  | '0' :: 'X' :: digits => Text.Numeral.read? 16 numberBound digits
  | '$' :: digits => Text.Numeral.read? 16 numberBound digits
  | digits => Text.Numeral.read? 10 numberBound digits

/-- An integer or a text that gives the 24 bits of an address. -/
def address? (value : Value) : Option Address :=
  let number :=
    match value with
    | .number (.natural n) => some n
    | .string text => numberOfText? text
    | _ => none
  (number.filter (· < Address.count)).map Address.ofNat

/-- The size of a float that is exactly 8 or 16. -/
def sizeOfFloat? (value : Float) : Option RegisterSize :=
  if value == 8 then some .byte else if value == 16 then some .word else none

def sizeOfBits? (bits : Nat) : Option RegisterSize :=
  (RegisterSize.ofBits bits).toOption

/-- A register size: the number of its bits, or whether it is one byte. -/
def size? : Value → Option RegisterSize
  | .bool true => some .byte
  | .bool false => some .word
  | .number (.natural n) => sizeOfBits? n
  | .number (.float value) => sizeOfFloat? value
  | .string text => (numberOfText? text).bind sizeOfBits?
  | _ => none

/-- The width that a field gives; an absent field and null leave it unknown. -/
def width (members : List (String × Value)) (field : String) : Except EntryError Width :=
  match Value.member? members field with
  | none | some .null => .ok .unknown
  | some value =>
      match size? value with
      | some size => .ok (.known size)
      | none => .error (.invalidWidth field value)

/-- The contract of two widths, if either is known. -/
def contract? (m x : Width) : Option CpuState :=
  if m.isKnown || x.isKnown then some (.ofWidths m x) else none

def text? (members : List (String × Value)) (field : String) : Option String :=
  match Value.member? members field with
  | some (.string text) => some text
  | _ => none

def isTrue (members : List (String × Value)) (field : String) : Bool :=
  match Value.member? members field with
  | some (.bool value) => value
  | _ => false

/-- The name of a hook whose entry gives none. -/
def defaultName (address : Address) : String :=
  "hook_" ++ Text.Numeral.paddedHex 6 address.raw

/-- The hook that an entry declares; `defaultKind` is the kind of an entry that gives none. -/
def hookOfValue (value : Value) (defaultKind : String) : Except EntryError Hook := do
  let .object members := value | throw .notAnObject
  let some addressValue := Value.member? members "address" | throw .missingAddress
  let some address := address? addressValue | throw (.invalidAddress addressValue)
  let entryM ← width members "expected_m"
  let entryX ← width members "expected_x"
  let exitM ← width members "expected_exit_m"
  let exitX ← width members "expected_exit_x"
  return {
    name := (text? members "name").getD (defaultName address)
    address
    kind := .ofText ((text? members "kind").getD defaultKind)
    entry := contract? entryM entryX
    exit := contract? exitM exitX
    skip := isTrue members "skip_abi" || isTrue members "skip_validation"
    source := (text? members "source").bind SourceLocation.ofText? }

end WidthTrace.Manifest
