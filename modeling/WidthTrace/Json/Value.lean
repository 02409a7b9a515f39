import WidthTrace.Json.Tree

/-!
# JSON values

Numbers written as integers that fit 64 bits stay integers, and all others are
floats. The members of an object are kept in the order of their keys, each key
once. Interpreting a tree fails on a lone surrogate, on a number beyond the range
of floats, and on nesting beyond a given depth.
-/

namespace WidthTrace.Json

/-- `negative n` is the integer `-n`. -/
inductive Number where
  | natural (n : Nat)
  | negative (n : Nat)
  | float (value : Float)

inductive Value where
  | null
  | bool (value : Bool)
  | number (value : Number)
  | string (value : String)
  | array (items : List Value)
  | object (members : List (String × Value))

namespace Number

def digitValue (c : Char) : Nat :=
  c.toNat - '0'.toNat

/-- Appends digits to a significand as long as it stays below 2 ^ 64. The digits that were not
appended are returned as well. -/
def extend (significand : Nat) : List Char → Nat × List Char
  | [] => (significand, [])
  | c :: rest =>
      let longer := 10 * significand + digitValue c
      if longer < Nat.pow 2 64 then extend longer rest else (significand, c :: rest)

def powerOfTen (exponent : Nat) : Float :=
  Float.ofScientific 1 false exponent

/-- The largest exponent whose power of ten is a finite float. -/
def maxExponent : Nat := 308

/-- Multiplies by a power of ten, or divides by one, as often as needed for the largest power. A
result beyond the range of floats is refused. -/
def scale? (value : Float) (exponent : Int) : Option Float :=
  if 0 ≤ exponent then
    if exponent ≤ maxExponent then
      let scaled := value * powerOfTen exponent.toNat
      if scaled.isInf then none else some scaled
    else if value == 0 then some value
    else none
  else if -maxExponent ≤ exponent then some (value / powerOfTen (-exponent).toNat)
  else if value == 0 then some value
  else scale? (value / powerOfTen maxExponent) (exponent + maxExponent)
termination_by (-exponent).toNat
decreasing_by
  simp only [maxExponent] at *
  omega

def exponentValue : Option (Bool × List Char) → Int
  | none => 0
  | some (isNegative, digits) =>
      let value := digits.foldl (fun n c => 10 * n + digitValue c) 0
      if isNegative then -value else value

def float? (text : NumberText) : Option Float :=
  let (leading, dropped) := extend 0 text.integer
  let fraction := text.fraction.getD []
  let (significand, ignored) := extend leading fraction
  let exponent : Int := dropped.length - (fraction.length - ignored.length : Nat)
  (scale? (UInt64.ofNat significand).toFloat (exponent + exponentValue text.exponent)).map
    fun value => if text.negative then -value else value

/-- The number of a text. Negative zero is a float. -/
def ofText? (text : NumberText) : Option Number :=
  match text.fraction, text.exponent, extend 0 text.integer with
  | none, none, (n, []) =>
      if ¬ text.negative then some (.natural n)
      else if 0 < n ∧ n ≤ Nat.pow 2 63 then some (.negative n)
      else (float? text).map .float
  | _, _, _ => (float? text).map .float

end Number

namespace Piece

/-- The character of two code units that form a surrogate pair. -/
def pair? (high low : Nat) : Option Char :=
  if 0xD800 ≤ high ∧ high < 0xDC00 ∧ 0xDC00 ≤ low ∧ low < 0xE000 then
    some (Char.ofNat (0x10000 + (high - 0xD800) * 0x400 + (low - 0xDC00)))
  else none

/-- Joins surrogate pairs and refuses lone surrogates; `chars` come before, latest first. -/
def join? (pieces : List Piece) (chars : List Char) : Option (List Char) :=
  match pieces with
  | [] => some chars.reverse
  | .char c :: rest => join? rest (c :: chars)
  | .unit high :: .unit low :: rest =>
      match pair? high low with
      | some c => join? rest (c :: chars)
      | none =>
          if 0xD800 ≤ high ∧ high < 0xE000 then none
          else join? (.unit low :: rest) (Char.ofNat high :: chars)
  | .unit code :: rest =>
      if 0xD800 ≤ code ∧ code < 0xE000 then none else join? rest (Char.ofNat code :: chars)

def text? (pieces : List Piece) : Option String :=
  (join? pieces []).map String.ofList

end Piece

namespace Value

/-- Puts a member at its place in the order of keys, in place of any member with its key. -/
def insertMember (key : String) (value : Value) :
    List (String × Value) → List (String × Value)
  | [] => [(key, value)]
  | (other, kept) :: rest =>
      if key < other then (key, value) :: (other, kept) :: rest
      else if key = other then (key, value) :: rest
      else (other, kept) :: insertMember key value rest

def ofMembers (members : List (String × Value)) : Value :=
  .object (members.foldl (fun kept (key, value) => insertMember key value kept) [])

/-- The value of a tree with at most `depth` containers inside each other. -/
def ofTree? (depth : Nat) (tree : Tree) : Option Value :=
  match tree, depth with
  | .null, _ => some .null
  | .bool value, _ => some (.bool value)
  | .number text, _ => (Number.ofText? text).map .number
  | .string pieces, _ => (Piece.text? pieces).map .string
  | .array _, 0 => none
  | .object _, 0 => none
  | .array items, depth + 1 => (items.mapM (ofTree? depth)).map .array
  | .object members, depth + 1 =>
      (members.mapM fun (key, tree) => do
        let key ← Piece.text? key
        let value ← ofTree? depth tree
        return (key, value)).map ofMembers

/-- Containers may be nested this deep. -/
def maxDepth : Nat := 127

/-- The value of a text. -/
def ofText? (text : String) : Option Value :=
  (Tree.ofText? text).bind (ofTree? maxDepth)

/-- The member of an object's members with a given key. -/
def member? (members : List (String × Value)) (key : String) : Option Value :=
  (members.find? fun member => member.1 == key).map Prod.snd

end Value

end WidthTrace.Json
