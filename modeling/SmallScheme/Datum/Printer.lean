import SmallScheme.Datum.Basic
import SmallScheme.Decimal.RealText
import SmallScheme.Text.Quoted

namespace SmallScheme.Datum

/-!
# Writing data

The written form of a datum.  Where a datum stands in the tail of a pair, its own parentheses are
left out: a list continues there, and anything else follows a dot.
-/

/-- The digits of a natural number. -/
def naturalChars (number : Nat) : List Char :=
  Nat.toDigits 10 number

/-- A whole number with a minus when it is negative. -/
def integerChars (number : Int) : List Char :=
  if number < 0 then
    '-' :: naturalChars number.natAbs
  else
    naturalChars number.natAbs

/-- One character inside a text literal. -/
def textCharacter (character : Char) : List Char :=
  if character = '\x22' then
    ['\\', '\x22']
  else if character = '\\' then
    ['\\', '\\']
  else if character = '\n' then
    ['\\', 'n']
  else if character = '\t' then
    ['\\', 't']
  else if character = '\r' then
    ['\\', 'r']
  else
    [character]

def textChars (text : String) : List Char :=
  '\x22' :: (text.toList.flatMap textCharacter ++ ['\x22'])

/-- The name by which a character is written, if it has one. -/
def characterName? (character : Char) : Option String :=
  if character = ' ' then some "space"
  else if character = '\n' then some "newline"
  else if character = '\t' then some "tab"
  else if character = '\r' then some "return"
  else if character = '\x00' then some "null"
  else if character = '\x7f' then some "delete"
  else if character = '\x1b' then some "escape"
  else if character = '\x07' then some "alarm"
  else if character = '\x08' then some "backspace"
  else none

def characterChars (character : Char) : List Char :=
  ['#', '\\'] ++
    match characterName? character with
    | some name => name.toList
    | none => [character]

/-- Pieces with one space between neighbours. -/
def spaced : List (List Char) → List Char
  | [] => []
  | [piece] => piece
  | piece :: rest => piece ++ ' ' :: spaced rest

/-- Pieces with one line feed between neighbours. -/
def lined : List (List Char) → List Char
  | [] => []
  | [piece] => piece
  | piece :: rest => piece ++ '\n' :: lined rest

/-- Where a datum is written: by itself, or as the tail of a pair that has been opened. -/
inductive Place
  | whole
  | tail
  deriving Repr, DecidableEq

/-- Put text that is not a list at a place. -/
def Place.wrap
    (place : Place)
    (written : List Char) : List Char :=
  match place with
  | .whole => written
  | .tail => [' ', '.', ' '] ++ written ++ [')']

mutual

/-- The written form of a datum at a place. -/
def render
    (place : Place) : Datum → List Char
  | .nil =>
      match place with
      | .whole => ['(', ')']
      | .tail => [')']
  | .pair head tail =>
      let opening :=
        match place with
        | .whole => '('
        | .tail => ' '
      opening :: (render .whole head ++ render .tail tail)
  | .unspecified => place.wrap "#<unspecified>".toList
  | .integer value => place.wrap (integerChars value.toInt)
  | .real value => place.wrap (Decimal.RealFormat.literal.text value).toList
  | .boolean value => place.wrap ['#', if value then 't' else 'f']
  | .character value => place.wrap (characterChars value)
  | .text value => place.wrap (textChars value)
  | .symbol name => place.wrap name.toList
  | .vector items => place.wrap ("#(".toList ++ spaced (renderAll items) ++ [')'])
  | .bytevector bytes =>
      place.wrap
        ("#u8(".toList ++ spaced (bytes.map fun byte => naturalChars byte.toNat) ++ [')'])
  | .marked mark inner => place.wrap (mark.sigil ++ render .whole inner)
  | .regex pattern => place.wrap ("#/".toList ++ pattern.toList ++ ['/'])
  | .program forms => place.wrap (lined (renderAll forms))
  | .circular items => place.wrap ('(' :: (spaced (renderAll items) ++ " ...)".toList))
  | .handle _ shown => place.wrap shown.toList

def renderAll : List Datum → List (List Char)
  | [] => []
  | item :: rest => render .whole item :: renderAll rest

end

/-- The written form of a datum. -/
def written (datum : Datum) : String :=
  String.ofList (render .whole datum)

/-- The form of a datum that names its kind, used when a value is inspected. -/
def inspected (datum : Datum) : String :=
  match datum with
  | .nil => "Nil"
  | .unspecified => "Unspecified"
  | .integer _ => "Integer(" ++ datum.written ++ ")"
  | .real value => "Real(" ++ Decimal.RealFormat.bare.text value ++ ")"
  | .text value => "String(" ++ Text.quotedText value ++ ")"
  | .boolean value => if value then "Bool(true)" else "Bool(false)"
  | .character value => "Char(" ++ Text.quotedSingle value ++ ")"
  | .symbol name => "Symbol(" ++ name ++ ")"
  | .pair _ _ => "List(" ++ datum.written ++ ")"
  | .circular _ => "List(" ++ datum.written ++ ")"
  | _ => datum.written

end SmallScheme.Datum
