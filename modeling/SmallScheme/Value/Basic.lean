import SmallScheme.Datum.Basic
import SmallScheme.Number
import SmallScheme.Primitive.Operation

namespace SmallScheme

/-!
# Values

A value is either complete in itself or the address of an object in the store.  Everything that
can be changed, that can be told apart from an equal object, or that has parts lives in the store,
so values themselves are flat.
-/

/--
A lexical scope: the address of its own frame and those of the frames around it, innermost first.
The last one is the root.
-/
structure Scope where
  frame : Nat
  outer : List Nat
  deriving Repr, DecidableEq, Inhabited

/-- A value, complete in itself or the address of an object. -/
inductive Value
  | nil
  | unspecified
  | integer (value : Int64)
  | real (value : Float)
  | boolean (value : Bool)
  | character (value : Char)
  | symbol (name : String)
  /-- An identifier that a macro put into an expansion; it belongs to the macro's own scope. -/
  | scoped (name : String) (home : Scope)
  | text (address : Nat)
  | pair (address : Nat)
  | vector (address : Nat)
  | bytevector (address : Nat)
  /-- An abbreviated form: its mark, and the address of the form under it. -/
  | marked (mark : Mark) (address : Nat)
  | regex (pattern : String)
  | program (address : Nat)
  | procedure (address : Nat)
  | primitive (operation : Primitive)
  | special (form : SpecialForm)
  | transformer (address : Nat)
  | escape (identity : Nat)
  | parameter (address : Nat)
  | condition (address : Nat)
  | foreign (address : Nat)
  deriving Inhabited

namespace Value

/-- The name of the kind of a value, as error messages and answers show it. -/
def kindName : Value → String
  | .nil => "empty list"
  | .unspecified => "unspecified"
  | .integer _ => "number"
  | .real _ => "number"
  | .text _ => "string"
  | .boolean _ => "boolean"
  | .character _ => "character"
  | .symbol _ => "symbol"
  | .scoped _ _ => "symbol"
  | .pair _ => "pair"
  | .vector _ => "vector"
  | .bytevector _ => "bytevector"
  | .marked .quote _ => "quoted form"
  | .marked .quasiquote _ => "quoted form"
  | .marked .unquote _ => "unquoted form"
  | .marked .unquoteSplicing _ => "unquoted form"
  | .regex _ => "regex"
  | .program _ => "program"
  | .procedure _ => "procedure"
  | .primitive _ => "builtin function"
  | .special _ => "special form"
  | .transformer _ => "syntax"
  | .escape _ => "continuation"
  | .parameter _ => "parameter"
  | .condition _ => "error object"
  | .foreign _ => "foreign object"

/-- Everything but the boolean false counts as true. -/
def isTrue : Value → Bool
  | .boolean false => false
  | _ => true

def isNil : Value → Bool
  | .nil => true
  | _ => false

def isUnspecified : Value → Bool
  | .unspecified => true
  | _ => false

/-- The name of an identifier, be it plain or put there by a macro. -/
def identifier? : Value → Option String
  | .symbol name => some name
  | .scoped name _ => some name
  | _ => none

/-- The value is an identifier of this name. -/
def isNamed
    (value : Value)
    (name : String) : Bool :=
  value.identifier? = some name

/-- What can be applied to evaluated operands. -/
def isProcedure : Value → Bool
  | .procedure _ => true
  | .primitive _ => true
  | .escape _ => true
  | .parameter _ => true
  | .foreign _ => true
  | _ => false

/-- The number that a value is. -/
def number? : Value → Option Number
  | .integer value => some (.exact value)
  | .real value => some (.real value)
  | _ => none

/-- The kinds of value that are complete in themselves and have a literal. -/
def isAtom : Value → Bool
  | .integer _ => true
  | .real _ => true
  | .boolean _ => true
  | .character _ => true
  | .text _ => true
  | _ => false

/-- The real that an atom stands for: a number itself, or the code point of a character. -/
def projection? : Value → Option Float
  | .integer value => some (realOfWord value)
  | .real value => some value
  | .character value => some value.toNat.toFloat
  | _ => none

def ofNumber : Number → Value
  | .exact value => .integer value
  | .real value => .real value

def ofNat (count : Nat) : Value :=
  .integer (Int64.ofNat count)

end Value

end SmallScheme
