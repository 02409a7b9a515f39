/-!
# Blank characters, words and lines

The blanks are the twenty-five code points with the Unicode property
White_Space. Trimming, words and lines are operations on lists of characters.
-/

namespace WidthTrace.Text

/-- The ranges of the property White_Space, both ends included. -/
def blankRanges : List (Nat × Nat) :=
  [(0x09, 0x0D), (0x20, 0x20), (0x85, 0x85), (0xA0, 0xA0), (0x1680, 0x1680), (0x2000, 0x200A),
    (0x2028, 0x2029), (0x202F, 0x202F), (0x205F, 0x205F), (0x3000, 0x3000)]

def isBlank (c : Char) : Bool :=
  blankRanges.any fun range => range.1 ≤ c.toNat && c.toNat ≤ range.2

/-- The text without the blanks at its end. -/
def trimEnd (text : List Char) : List Char :=
  (text.reverse.dropWhile isBlank).reverse

/-- The text without the blanks at either end. -/
def trim (text : List Char) : List Char :=
  trimEnd (text.dropWhile isBlank)

/-- The first run of characters that are not blank. -/
def firstWord? (text : List Char) : Option (List Char) :=
  match (text.dropWhile isBlank).takeWhile fun c => !isBlank c with
  | [] => none
  | word => some word

/-- Cuts the text at every line feed, which belongs to neither side. -/
def lines (text : List Char) : List (List Char) :=
  let (first, rest) := text.foldr
    (fun c (line, rest) => if c = '\n' then ([], line :: rest) else (c :: line, rest)) ([], [])
  first :: rest

/-- The text before the first occurrence of `mark` and the text after it. -/
def splitFirst? (mark : Char → Bool) (text : List Char) : Option (List Char × List Char) :=
  match text.dropWhile fun c => !mark c with
  | [] => none
  | _ :: after => some (text.takeWhile fun c => !mark c, after)

/-- The text before the last occurrence of `mark` and the text after it. -/
def splitLast? (mark : Char → Bool) (text : List Char) : Option (List Char × List Char) :=
  (splitFirst? mark text.reverse).map fun (after, before) => (before.reverse, after.reverse)

end WidthTrace.Text
