namespace SmallScheme.Text

/-!
# One-line excerpts

An error message shows a piece of the text around the place it is about.  Places are offsets in
the UTF-8 encoding of the text, and may lie inside a character or beyond the end: the piece always
consists of whole characters.
-/

/-- The number of bytes of a text in UTF-8. -/
def byteSize : List Char → Nat
  | [] => 0
  | character :: rest => character.utf8Size + byteSize rest

/-- The longest beginning of at most so many bytes, and the rest. -/
def splitBytes : Nat → List Char → List Char × List Char
  | _, [] => ([], [])
  | budget, character :: rest =>
      if character.utf8Size ≤ budget then
        let (before, after) := splitBytes (budget - character.utf8Size) rest
        (character :: before, after)
      else
        ([], character :: rest)

/-- How many bytes an excerpt shows before the offset it is about. -/
def excerptLead : Nat := 20

/-- How many bytes an excerpt shows in all. -/
def excerptWidth : Nat := 100

/-- Put a piece of text on one line: carriage returns go, line feeds become spaces. -/
def onOneLine (piece : List Char) : List Char :=
  (piece.filter (· ≠ '\r')).map fun character => if character = '\n' then ' ' else character

/-- The piece of a text around an offset, with marks where text was cut off. -/
def excerpt
    (text : List Char)
    (offset : Nat) : List Char :=
  let (before, fromStart) := splitBytes (offset - excerptLead) text
  let (piece, after) := splitBytes excerptWidth fromStart
  let lead := if before.isEmpty then [] else ['.', '.', '.']
  let tail := if after.isEmpty then [] else ['.', '.', '.']
  lead ++ onOneLine piece ++ tail

/-- Splitting loses nothing. -/
theorem splitBytes_append
    (budget : Nat)
    (text : List Char) :
    (splitBytes budget text).1 ++ (splitBytes budget text).2 = text := by
  induction text generalizing budget with
  | nil => rfl
  | cons character rest inductionHypothesis =>
      rw [splitBytes]
      split
      · simp [inductionHypothesis]
      · rfl

end SmallScheme.Text

namespace SmallScheme

/-!
## Why a text cannot be read

A reading error has a cause and an excerpt of the text around the place where reading stopped.
Places are byte offsets in UTF-8.
-/

/-- Data may be nested at most so deep. -/
def maxNesting : Nat := 256

/-- What kept a text from being read. -/
inductive ReadCause
  | tooDeep
  | endOfText
  | badNumber (position : Nat)
  | badEscape (position : Nat)
  | badRegex (position : Nat)
  | strayClose (position : Nat)
  | badForm (start : String)
  | trailing (rest : String)
  deriving Repr, DecidableEq

/-- The class of a reading error, which tells whether more text could mend it. -/
inductive ReadErrorKind
  | invalidSyntax
  | incomplete
  | tooDeeplyNested
  | trailingContent
  deriving Repr, DecidableEq

/-- A reading error. -/
structure ReadError where
  cause : ReadCause
  excerpt : String
  deriving Repr, DecidableEq

namespace ReadCause

/-- The class that a cause belongs to. -/
def kind : ReadCause → ReadErrorKind
  | .tooDeep => .tooDeeplyNested
  | .endOfText => .incomplete
  | .trailing _ => .trailingContent
  | _ => .invalidSyntax

/-- The sentence that describes a cause. -/
def message : ReadCause → String
  | .tooDeep =>
      "Expression too deeply nested (max depth: " ++ Nat.repr maxNesting ++ ")"
  | .endOfText => "Unexpected end of input"
  | .badNumber position => "Invalid number literal at position " ++ Nat.repr position
  | .badEscape position => "Unknown escape sequence at position " ++ Nat.repr position
  | .badRegex position => "Invalid regex literal at position " ++ Nat.repr position
  | .strayClose position => "Unexpected ')' at position " ++ Nat.repr position
  | .badForm start => "Invalid syntax near '" ++ start ++ "'"
  | .trailing rest => "Unexpected remaining input: '" ++ rest ++ "'"

end ReadCause

namespace ReadError

/-- The error with the excerpt around an offset. -/
def around
    (cause : ReadCause)
    (text : List Char)
    (offset : Nat) : ReadError where
  cause := cause
  excerpt := String.ofList (Text.excerpt text offset)

def kind (error : ReadError) : ReadErrorKind :=
  error.cause.kind

/-- More text could complete what was read. -/
def isIncomplete (error : ReadError) : Bool :=
  error.kind = .incomplete

/-- A message and an excerpt as they are shown together. -/
def shown (message excerpt : String) : String :=
  "ParseError: " ++ message ++ "\nContext: " ++ excerpt

end ReadError

end SmallScheme
