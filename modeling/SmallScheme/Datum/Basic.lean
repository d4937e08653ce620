namespace SmallScheme

/-!
# Data

A datum is a finite tree: what the reader makes of a text, and what is shown of a value.  Besides
the data that have a written form there are two leaves for values that have none: a list whose
chain of pairs returns to itself, cut where it does, and an object known only by its kind and its
text.
-/

/-- The four abbreviations that stand before a datum. -/
inductive Mark
  | quote
  | quasiquote
  | unquote
  | unquoteSplicing
  deriving Repr, DecidableEq

/-- A finite tree of data. -/
inductive Datum
  | nil
  | unspecified
  | integer (value : Int64)
  | real (value : Float)
  | boolean (value : Bool)
  | character (value : Char)
  | text (value : String)
  | symbol (name : String)
  | pair (head tail : Datum)
  | vector (items : List Datum)
  | bytevector (bytes : List UInt8)
  | marked (mark : Mark) (inner : Datum)
  | regex (pattern : String)
  | program (forms : List Datum)
  | circular (items : List Datum)
  | handle (kind shown : String)
  deriving Inhabited

namespace Mark

/-- The keyword of the long form. -/
def keyword : Mark → String
  | .quote => "quote"
  | .quasiquote => "quasiquote"
  | .unquote => "unquote"
  | .unquoteSplicing => "unquote-splicing"

/-- The characters of the abbreviation. -/
def sigil : Mark → List Char
  | .quote => ['\x27']
  | .quasiquote => ['\x60']
  | .unquote => [',']
  | .unquoteSplicing => [',', '@']

end Mark

namespace Datum

/-- A list of data that ends in the given datum. -/
def listWithTail
    (items : List Datum)
    (tail : Datum) : Datum :=
  items.foldr .pair tail

def ofList (items : List Datum) : Datum :=
  listWithTail items .nil

end Datum

end SmallScheme
