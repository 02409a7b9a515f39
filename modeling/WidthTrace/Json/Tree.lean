import WidthTrace.Json.Token

/-!
# The shape of JSON text

A tree is a well-formed text whose numbers and strings have not been interpreted
yet. It is built from the lexemes one by one with a stack of open containers, so
that nesting may be as deep as the text is long.
-/

namespace WidthTrace.Json

inductive Tree where
  | null
  | bool (value : Bool)
  | number (text : NumberText)
  | string (pieces : List Piece)
  | array (items : List Tree)
  | object (members : List (List Piece × Tree))

namespace Tree

/-- An open container with its parts so far, latest first. A `member` waits for the value of a
key. -/
inductive Frame where
  | array (items : List Tree)
  | object (members : List (List Piece × Tree))
  | member (members : List (List Piece × Tree)) (key : List Piece)

/-- What may come next. -/
inductive Expected where
  | value
  | valueOrEnd
  | key
  | keyOrEnd
  | colon
  | separator
  | nothing (tree : Tree)

structure Builder where
  frames : List Frame
  expected : Expected

namespace Builder

def start : Builder := ⟨[], .value⟩

/-- Puts a complete value where it belongs. -/
def put (tree : Tree) : List Frame → Option Builder
  | [] => some ⟨[], .nothing tree⟩
  | .array items :: frames => some ⟨.array (tree :: items) :: frames, .separator⟩
  | .member members key :: frames => some ⟨.object ((key, tree) :: members) :: frames, .separator⟩
  | .object _ :: _ => none

/-- Ends the innermost container. -/
def close (token : Token) : List Frame → Option Builder
  | .array items :: frames =>
      if token = .closeArray then put (.array items.reverse) frames else none
  | .object members :: frames =>
      if token = .closeObject then put (.object members.reverse) frames else none
  | _ => none

/-- Goes on after a comma. -/
def separate : List Frame → Option Builder
  | .array items :: frames => some ⟨.array items :: frames, .value⟩
  | .object members :: frames => some ⟨.object members :: frames, .key⟩
  | _ => none

/-- Starts a value; a container stays open. -/
def begin (token : Token) (frames : List Frame) : Option Builder :=
  match token with
  | .null => put .null frames
  | .bool value => put (.bool value) frames
  | .number text => put (.number text) frames
  | .string pieces => put (.string pieces) frames
  | .openArray => some ⟨.array [] :: frames, .valueOrEnd⟩
  | .openObject => some ⟨.object [] :: frames, .keyOrEnd⟩
  | _ => none

/-- Reads the key of a member. -/
def name (token : Token) : List Frame → Option Builder
  | .object members :: frames =>
      match token with
      | .string key => some ⟨.member members key :: frames, .colon⟩
      | _ => none
  | _ => none

def next (builder : Builder) (token : Token) : Option Builder :=
  let frames := builder.frames
  match builder.expected with
  | .value => begin token frames
  | .valueOrEnd => if token = .closeArray then close token frames else begin token frames
  | .key => name token frames
  | .keyOrEnd => if token = .closeObject then close token frames else name token frames
  | .colon => if token = .colon then some ⟨frames, .value⟩ else none
  | .separator => if token = .comma then separate frames else close token frames
  | .nothing _ => none

end Builder

/-- The tree of a whole sequence of lexemes. -/
def ofTokens? (tokens : List Token) : Option Tree := do
  let builder ← tokens.foldlM Builder.next .start
  match builder.expected with
  | .nothing tree => some tree
  | _ => none

/-- The tree of a text. -/
def ofText? (text : String) : Option Tree :=
  (Token.ofText? text.toList).bind ofTokens?

end Tree

end WidthTrace.Json
