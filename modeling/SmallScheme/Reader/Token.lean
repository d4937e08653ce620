import SmallScheme.Datum.Basic
import SmallScheme.Decimal.Reading
import SmallScheme.Text.CodeRange

namespace SmallScheme.Reader

/-!
# Tokens

A token is a longest run of characters none of which is a delimiter.  It denotes a number when it
looks like one, and then it must be one; otherwise it names a symbol.
-/

/-- The character ends a token. -/
def isDelimiter (character : Char) : Bool :=
  Text.isBlank character || character = '(' || character = ')' || character = '\x22' ||
    character = ';' || character = '\x27' || character = '\x60' || character = ','

/-- The token that a text starts with, and the text after it. -/
def spanToken (text : List Char) : List Char × List Char :=
  text.span fun character => !isDelimiter character

/-- Nothing of a token goes on at the start of this text. -/
def endsToken : List Char → Bool
  | [] => true
  | character :: _ => isDelimiter character

/-- An optional sign and an optional point come before a digit. -/
def looksNumeric (token : List Char) : Bool :=
  let unsigned := (Decimal.splitSign token).2
  let body :=
    match unsigned with
    | '.' :: rest => rest
    | _ => unsigned
  match body with
  | character :: _ => character.isDigit
  | [] => false

/-- What a token is, seen as a number. -/
inductive NumeralReading
  | notNumeric
  | malformed
  | number (datum : Datum)

/-- The reals that are written as words. -/
def namedReal? (token : List Char) : Option Float :=
  if token = "+inf.0".toList then
    some (1.0 / 0.0)
  else if token = "-inf.0".toList then
    some (-1.0 / 0.0)
  else if token = "+nan.0".toList || token = "-nan.0".toList then
    some (0.0 / 0.0)
  else
    none

/--
Read a token as a number.  A whole number out of range is malformed, not a real: a real has a
point or an exponent mark.
-/
def readNumeral (token : List Char) : NumeralReading :=
  match namedReal? token with
  | some value => .number (.real value)
  | none =>
      if looksNumeric token then
        match Decimal.integer? 10 token with
        | some value => .number (.integer value)
        | none =>
            if token.any fun character => character = '.' || character = 'e' || character = 'E' then
              match Decimal.real? token with
              | some value => .number (.real value)
              | none => .malformed
            else
              .malformed
      else
        .notNumeric

/-- The character that a name of several letters stands for. -/
def namedCharacter? (name : List Char) : Option Char :=
  match String.ofList name with
  | "space" => some ' '
  | "newline" => some '\n'
  | "linefeed" => some '\n'
  | "tab" => some '\t'
  | "return" => some '\r'
  | "null" => some '\x00'
  | "nul" => some '\x00'
  | "delete" => some '\x7f'
  | "escape" => some '\x1b'
  | "alarm" => some '\x07'
  | "backspace" => some '\x08'
  | _ =>
      match name with
      | 'x' :: '+' :: digits => codeCharacter? digits
      | 'x' :: digits => codeCharacter? digits
      | _ => none
where
  /-- The character with the code point that hexadecimal digits denote. -/
  codeCharacter? (digits : List Char) : Option Char := do
    let code ← Decimal.natural? 16 digits
    guard code.isValidChar
    return Char.ofNat code

/-- The character that a letter stands for after a backslash in a text literal. -/
def textEscape? : Char → Option Char
  | 'n' => some '\n'
  | 't' => some '\t'
  | 'r' => some '\r'
  | '0' => some '\x00'
  | 'a' => some '\x07'
  | '\\' => some '\\'
  | '\x22' => some '\x22'
  | _ => none

end SmallScheme.Reader
