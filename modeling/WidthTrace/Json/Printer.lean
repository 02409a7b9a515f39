import WidthTrace.Decimal.Shortest
import WidthTrace.Json.Value

/-!
# Writing JSON values

Values are written without spaces, the members of objects in the order of their
keys. Characters outside ASCII stand for themselves. Floats are written with the
fewest digits that read back, and always with a point or an exponent.
-/

namespace WidthTrace.Json

/-- Control characters and the two marks of strings are escaped, by a letter where there is one. -/
def escape (c : Char) : List Char :=
  match c with
  | '"' => ['\\', '"']
  | '\\' => ['\\', '\\']
  | '\x08' => ['\\', 'b']
  | '\x0c' => ['\\', 'f']
  | '\n' => ['\\', 'n']
  | '\r' => ['\\', 'r']
  | '\t' => ['\\', 't']
  | c =>
      if c < ' ' then
        ['\\', 'u', '0', '0', Nat.digitChar (c.toNat / 16), Nat.digitChar (c.toNat % 16)]
      else [c]

def quote (text : String) : String :=
  String.ofList ('"' :: text.toList.flatMap escape ++ ['"'])

/-- The exponents of the leading digit for which a float is written without an exponent are those
from `-5` to `15`. -/
def isPositional (leading : Int) : Bool :=
  -5 ≤ leading && leading ≤ 15

/-- Digits with a point before or between or after them: `exponent` is that of the last digit. -/
def positionalText (digits : List Char) (exponent : Int) : String :=
  if 0 ≤ exponent then String.ofList (digits ++ List.replicate exponent.toNat '0') ++ ".0"
  else
    let places := (-exponent).toNat
    let padded := digits.leftpad (places + 1) '0'
    let cut := padded.length - places
    String.ofList (padded.take cut ++ '.' :: padded.drop cut)

/-- One digit, a point and the remaining digits if there are any, and the exponent with its sign. -/
def exponentText (digits : List Char) (leading : Int) : String :=
  let mantissa :=
    match digits with
    | first :: second :: rest => first :: '.' :: second :: rest
    | short => short
  String.ofList mantissa ++ "e" ++ (if leading < 0 then "" else "+") ++ toString leading

def unsignedFloatText (value : Decimal.Binary) : String :=
  match Decimal.shortest? value with
  | none => "0.0"
  | some scaled =>
      let digits := Nat.toDigits 10 scaled.digits
      let leading := scaled.exponent + (digits.length - 1 : Nat)
      if isPositional leading then positionalText digits scaled.exponent
      else exponentText digits leading

def floatText (value : Float) : String :=
  let value := Decimal.Binary.ofFloat value
  if value.negative then "-" ++ unsignedFloatText value else unsignedFloatText value

def Number.text : Number → String
  | .natural n => toString n
  | .negative n => "-" ++ toString n
  | .float value => floatText value

mutual

def Value.text : Value → String
  | .null => "null"
  | .bool true => "true"
  | .bool false => "false"
  | .number value => value.text
  | .string value => quote value
  | .array items => "[" ++ ",".intercalate (Value.texts items) ++ "]"
  | .object members => "\x7b" ++ ",".intercalate (Value.memberTexts members) ++ "\x7d"

def Value.texts : List Value → List String
  | [] => []
  | value :: rest => value.text :: Value.texts rest

def Value.memberTexts : List (String × Value) → List String
  | [] => []
  | (key, value) :: rest => (quote key ++ ":" ++ value.text) :: Value.memberTexts rest

end

end WidthTrace.Json
