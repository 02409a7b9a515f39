/-!
# Written numbers

Unsigned numbers in a radix of at most sixteen. Writing uses the standard
library's digit lists, in lower case; reading takes letters in either case,
allows one leading plus sign and any number of leading zeros, and refuses a
number that reaches the caller's bound.
-/

namespace WidthTrace.Text.Numeral

/-- The value of a decimal digit or of a letter `a` to `f`, if it is a digit of the radix. -/
def digit? (radix : Nat) (c : Char) : Option Nat :=
  let value :=
    if '0' ≤ c ∧ c ≤ '9' then some (c.toNat - '0'.toNat)
    else if 'a' ≤ c ∧ c ≤ 'f' then some (c.toNat - 'a'.toNat + 10)
    else if 'A' ≤ c ∧ c ≤ 'F' then some (c.toNat - 'A'.toNat + 10)
    else none
  value.filter (· < radix)

/-- Reads a run of digits, most significant first; no digits at all count as zero. -/
def value? (radix : Nat) (digits : List Char) : Option Nat :=
  digits.foldlM (fun n c => (digit? radix c).map (radix * n + ·)) 0

/-- The text without one leading plus sign. -/
def unsigned : List Char → List Char
  | '+' :: rest => rest
  | text => text

/-- Reads a whole text as a number below `bound`. -/
def read? (radix bound : Nat) (text : List Char) : Option Nat :=
  let digits := unsigned text
  if digits.isEmpty then none else (value? radix digits).filter (· < bound)

/-- Lower-case hexadecimal without padding. -/
def hex (n : Nat) : String :=
  String.ofList (Nat.toDigits 16 n)

/-- Upper-case hexadecimal, filled with zeros on the left up to `width` digits. -/
def paddedHex (width n : Nat) : String :=
  String.ofList (((Nat.toDigits 16 n).map Char.toUpper).leftpad width '0')

/-- A decimal number that always shows its sign. -/
def signed (n : Int) : String :=
  if n < 0 then toString n else "+" ++ toString n

end WidthTrace.Text.Numeral
