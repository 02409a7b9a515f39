/-!
# Lexemes of JSON text

A text is cut into lexemes before any of them is interpreted. Numbers keep their
digits, and strings keep their escaped code units, so that a value that nobody
asks for need only be well formed.
-/

namespace WidthTrace.Json

/-- The parts of a written number; the exponent comes with its sign, which is true if negative. -/
structure NumberText where
  negative : Bool
  integer : List Char
  fraction : Option (List Char)
  exponent : Option (Bool × List Char)
deriving DecidableEq, Repr

/-- A character of a string, or a code unit given by its four hexadecimal digits. -/
inductive Piece where
  | char (c : Char)
  | unit (code : Nat)
deriving DecidableEq, Repr

inductive Token where
  | openArray
  | closeArray
  | openObject
  | closeObject
  | comma
  | colon
  | null
  | bool (value : Bool)
  | number (text : NumberText)
  | string (pieces : List Piece)
deriving DecidableEq, Repr

namespace Token

def isSpace (c : Char) : Bool :=
  c == ' ' || c == '\n' || c == '\t' || c == '\r'

/-- The character that a one-letter escape stands for. -/
def escaped? : Char → Option Char
  | '"' => some '"'
  | '\\' => some '\\'
  | '/' => some '/'
  | 'b' => some '\x08'
  | 'f' => some '\x0c'
  | 'n' => some '\n'
  | 'r' => some '\r'
  | 't' => some '\t'
  | _ => none

def hexDigit? (c : Char) : Option Nat :=
  if '0' ≤ c ∧ c ≤ '9' then some (c.toNat - '0'.toNat)
  else if 'a' ≤ c ∧ c ≤ 'f' then some (c.toNat - 'a'.toNat + 10)
  else if 'A' ≤ c ∧ c ≤ 'F' then some (c.toNat - 'A'.toNat + 10)
  else none

def codeUnit? (a b c d : Char) : Option Nat := do
  let a ← hexDigit? a
  let b ← hexDigit? b
  let c ← hexDigit? c
  let d ← hexDigit? d
  return ((a * 16 + b) * 16 + c) * 16 + d

/-- Reads on from inside a string up to its closing quote; `pieces` come before, latest first. -/
def string? (text : List Char) (pieces : List Piece) : Option (List Piece × List Char) :=
  match text with
  | [] => none
  | '"' :: rest => some (pieces.reverse, rest)
  | '\\' :: 'u' :: a :: b :: c :: d :: rest =>
      match codeUnit? a b c d with
      | some code => string? rest (.unit code :: pieces)
      | none => none
  | '\\' :: c :: rest =>
      match escaped? c with
      | some c => string? rest (.char c :: pieces)
      | none => none
  | c :: rest => if c < ' ' then none else string? rest (.char c :: pieces)

/-- The digits at the start of a text, which must be there, and the rest. -/
def digits? (text : List Char) : Option (List Char × List Char) :=
  match text.takeWhile Char.isDigit with
  | [] => none
  | digits => some (digits, text.dropWhile Char.isDigit)

/-- The digits before the point: a zero stands alone. -/
def integer? (text : List Char) : Option (List Char × List Char) :=
  match digits? text with
  | some ('0' :: _ :: _, _) => none
  | result => result

def fraction? : List Char → Option (Option (List Char) × List Char)
  | '.' :: rest => (digits? rest).map fun (digits, rest) => (some digits, rest)
  | text => some (none, text)

/-- The sign of an exponent, which is true if negative, and the rest. -/
def exponentSign : List Char → Bool × List Char
  | '+' :: rest => (false, rest)
  | '-' :: rest => (true, rest)
  | text => (false, text)

def exponentDigits? (text : List Char) : Option (Option (Bool × List Char) × List Char) :=
  let (negative, rest) := exponentSign text
  (digits? rest).map fun (digits, rest) => (some (negative, digits), rest)

def exponent? : List Char → Option (Option (Bool × List Char) × List Char)
  | 'e' :: rest => exponentDigits? rest
  | 'E' :: rest => exponentDigits? rest
  | text => some (none, text)

/-- Reads a number from its first digit on. -/
def number? (negative : Bool) (text : List Char) : Option (NumberText × List Char) := do
  let (integer, rest) ← integer? text
  let (fraction, rest) ← fraction? rest
  let (exponent, rest) ← exponent? rest
  return (⟨negative, integer, fraction, exponent⟩, rest)

/-- The first lexeme of a text that starts with one. -/
def next? : List Char → Option (Token × List Char)
  | '[' :: rest => some (.openArray, rest)
  | ']' :: rest => some (.closeArray, rest)
  | '{' :: rest => some (.openObject, rest)
  | '}' :: rest => some (.closeObject, rest)
  | ',' :: rest => some (.comma, rest)
  | ':' :: rest => some (.colon, rest)
  | 'n' :: 'u' :: 'l' :: 'l' :: rest => some (.null, rest)
  | 't' :: 'r' :: 'u' :: 'e' :: rest => some (.bool true, rest)
  | 'f' :: 'a' :: 'l' :: 's' :: 'e' :: rest => some (.bool false, rest)
  | '"' :: rest => (string? rest []).map fun (pieces, rest) => (.string pieces, rest)
  | '-' :: rest => (number? true rest).map fun (written, rest) => (.number written, rest)
  | text => (number? false text).map fun (written, rest) => (.number written, rest)

theorem length_string? {text rest : List Char} {pieces result : List Piece}
    (found : string? text pieces = some (result, rest)) : rest.length < text.length := by
  fun_induction string? text pieces with
  | case1 => cases found
  | case2 => cases found; exact Nat.lt_succ_self _
  | case3 | case5 | case8 =>
      rename_i ih
      have := ih found
      simp only [List.length_cons]
      omega
  | case4 | case6 | case7 => cases found

theorem length_digits? {text digits rest : List Char} (found : digits? text = some (digits, rest)) :
    rest.length < text.length := by
  unfold digits? at found
  split at found
  · cases found
  · rename_i nonempty
    cases found
    have split := congrArg List.length
      (List.takeWhile_append_dropWhile (p := Char.isDigit) (l := text))
    rw [List.length_append] at split
    have := List.length_pos_iff.mpr nonempty
    omega

theorem length_integer? {text digits rest : List Char}
    (found : integer? text = some (digits, rest)) : rest.length < text.length := by
  unfold integer? at found
  split at found
  · cases found
  · exact length_digits? found

theorem length_fraction? {text rest : List Char} {digits : Option (List Char)}
    (found : fraction? text = some (digits, rest)) : rest.length ≤ text.length := by
  unfold fraction? at found
  split at found
  · obtain ⟨⟨_, _⟩, read, same⟩ := Option.map_eq_some_iff.mp found
    cases same
    have := length_digits? read
    simp only [List.length_cons]
    omega
  · cases found
    exact Nat.le_refl _

theorem length_exponentSign (text : List Char) : (exponentSign text).2.length ≤ text.length := by
  unfold exponentSign
  split <;> simp

theorem length_exponentDigits? {text rest : List Char} {exponent : Option (Bool × List Char)}
    (found : exponentDigits? text = some (exponent, rest)) : rest.length < text.length := by
  obtain ⟨⟨_, _⟩, read, same⟩ := Option.map_eq_some_iff.mp found
  cases same
  exact Nat.lt_of_lt_of_le (length_digits? read) (length_exponentSign text)

theorem length_exponent? {text rest : List Char} {exponent : Option (Bool × List Char)}
    (found : exponent? text = some (exponent, rest)) : rest.length ≤ text.length := by
  unfold exponent? at found
  split at found
  · exact Nat.le_succ_of_le (Nat.le_of_lt (length_exponentDigits? found))
  · exact Nat.le_succ_of_le (Nat.le_of_lt (length_exponentDigits? found))
  · cases found
    exact Nat.le_refl _

theorem length_number? {negative : Bool} {text rest : List Char} {number : NumberText}
    (found : number? negative text = some (number, rest)) : rest.length < text.length := by
  simp only [number?, Option.bind_eq_bind, Option.bind_eq_some_iff, Prod.exists] at found
  obtain ⟨_, _, integer, _, _, fraction, _, _, exponent, same⟩ := found
  cases same
  have := length_integer? integer
  have := length_fraction? fraction
  have := length_exponent? exponent
  omega

theorem length_next? {text rest : List Char} {token : Token}
    (found : next? text = some (token, rest)) : rest.length < text.length := by
  unfold next? at found
  split at found
  case h_10 =>
    obtain ⟨⟨_, _⟩, read, same⟩ := Option.map_eq_some_iff.mp found
    cases same
    exact Nat.lt_succ_of_lt (length_string? read)
  case h_11 =>
    obtain ⟨⟨_, _⟩, read, same⟩ := Option.map_eq_some_iff.mp found
    cases same
    exact Nat.lt_succ_of_lt (length_number? read)
  case h_12 =>
    obtain ⟨⟨_, _⟩, read, same⟩ := Option.map_eq_some_iff.mp found
    cases same
    exact length_number? read
  all_goals
    cases found
    simp only [List.length_cons]
    omega

/-- The lexemes of a whole text; `tokens` come before, latest first. -/
def scan (text : List Char) (tokens : List Token) : Option (List Token) :=
  match text with
  | [] => some tokens.reverse
  | c :: rest =>
      if isSpace c then scan rest tokens
      else
        match found : next? (c :: rest) with
        | some (token, rest) =>
            have := length_next? found
            scan rest (token :: tokens)
        | none => none
termination_by text.length
decreasing_by
  · exact Nat.lt_succ_self _
  · assumption

/-- The lexemes of a text, unless it is no sequence of lexemes. -/
def ofText? (text : List Char) : Option (List Token) :=
  scan text []

end Token

end WidthTrace.Json
