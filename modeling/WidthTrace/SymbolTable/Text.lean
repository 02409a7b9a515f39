import WidthTrace.SymbolTable.Basic
import WidthTrace.Text.Blank

/-!
# Symbol files

A symbol file consists of sections, each opened by a line that starts with a
bracket. Only sections headed `[labels]` are read; there a line gives the bank
and the offset of an address in hexadecimal, and its name. Blank lines, comments
and malformed lines are passed over.
-/

namespace WidthTrace.SymbolTable

open Text

/-- The address `BB:OOOO` and the first word after it. -/
def entry? (line : List Char) : Option (Address × String) := do
  let (location, rest) ← splitFirst? isBlank line
  let (bank, offset) ← splitFirst? (· == ':') location
  let bank ← Numeral.read? 16 0x100 bank
  let offset ← Numeral.read? 16 0x10000 offset
  let name ← firstWord? rest
  return (⟨UInt8.ofNat bank, UInt16.ofNat offset⟩, String.ofList name)

/-- What a line is, before its section is considered. -/
inductive Line where
  | ignored
  | header (labels : Bool)
  | other (text : List Char)
deriving DecidableEq, Repr

/-- Classifies a line from which the blanks at both ends have been removed. -/
def Line.ofTrimmed : List Char → Line
  | [] => .ignored
  | ';' :: _ => .ignored
  | '[' :: rest => .header ('[' :: rest == "[labels]".toList)
  | text => .other text

/-- A table under construction, and whether the current section is read. -/
structure Reader where
  table : SymbolTable
  reading : Bool

def Reader.line (reader : Reader) (line : List Char) : Reader :=
  match Line.ofTrimmed (trim line) with
  | .ignored => reader
  | .header labels => { reader with reading := labels }
  | .other text =>
      if reader.reading then
        match entry? text with
        | some (address, name) => { reader with table := reader.table.insert address name }
        | none => reader
      else reader

/-- The table that a symbol file describes. -/
def ofText (text : String) : SymbolTable :=
  ((lines text.toList).foldl Reader.line ⟨empty, false⟩).table

end WidthTrace.SymbolTable
