import WidthTrace.Text.Blank
import WidthTrace.Text.Numeral

/-!
# Source locations

A file and a line of assembly source, written `file:line`. The line follows the
last colon, so that the file may itself contain colons.
-/

namespace WidthTrace

structure SourceLocation where
  file : String
  line : UInt32
deriving DecidableEq, Repr

namespace SourceLocation

def text (location : SourceLocation) : String :=
  s!"{location.file}:{location.line.toNat}"

/-- Reads a nonempty file, a colon, and a line number that may stand between blanks. -/
def ofText? (text : String) : Option SourceLocation := do
  let (file, line) ← Text.splitLast? (· == ':') text.toList
  if file.isEmpty then none
  else
    let line ← Text.Numeral.read? 10 0x100000000 (Text.trim line)
    return ⟨String.ofList file, UInt32.ofNat line⟩

end SourceLocation

end WidthTrace
