import SmallScheme.Store.View

namespace SmallScheme

/-!
# Signatures of native functions

A native function works on integers, texts and so on, not on values.  Its signature says what each
operand must be and whether further operands of one kind may follow.  Adapting a function checks
the number of operands first, then reads them from left to right, and only when all of them have
been read does the function run.
-/

/-- What an operand of a native function must be. -/
inductive OperandKind
  | any
  | integer
  | index
  | number
  | boolean
  | text
  /-- A text that is handed on as the object it is. -/
  | textObject
  | symbol
  | byte
  deriving Repr, DecidableEq

namespace OperandKind

/-- What a native function receives for an operand. -/
@[reducible]
def Carrier : OperandKind → Type
  | .any => Value
  | .integer => Int64
  | .index => Nat
  | .number => Number
  | .boolean => Bool
  | .text => String
  | .textObject => Nat
  | .symbol => String
  | .byte => UInt8

/-- The fault of an operand of another kind. -/
def refuse
    (store : Store)
    (wanted : String)
    (value : Value) : Fault :=
  store.telling value fun text => .type (.expected wanted text)

/-- Read an operand. -/
def read (store : Store) : (kind : OperandKind) → Value → Except Fault kind.Carrier
  | .any, value => .ok value
  | .integer, .integer value => .ok value
  | .integer, other => .error (refuse store "integer" other)
  | .index, .integer value =>
      if 0 ≤ value.toInt then
        .ok value.toInt.toNat
      else
        .error (refuse store "non-negative integer" (.integer value))
  | .index, other => .error (refuse store "non-negative integer" other)
  | .number, value =>
      match value.number? with
      | some found => .ok found
      | none => .error (refuse store "number" value)
  | .boolean, .boolean value => .ok value
  | .boolean, other => .error (refuse store "boolean" other)
  | .text, .text address => .ok (store.textAt address)
  | .text, other => .error (refuse store "string" other)
  | .textObject, .text address => .ok address
  | .textObject, other => .error (refuse store "string" other)
  | .symbol, value =>
      match value.identifier? with
      | some name => .ok name
      | none => .error (refuse store "symbol" value)
  | .byte, .integer value =>
      if 0 ≤ value.toInt && value.toInt ≤ 255 then
        .ok (UInt8.ofNat value.toInt.toNat)
      else
        .error (.type (.byteRange value))
  | .byte, other => .error (refuse store "byte" other)

/-- Read several operands of one kind from left to right. -/
def readAll
    (store : Store)
    (kind : OperandKind) : List Value → Except Fault (List kind.Carrier)
  | [] => .ok []
  | value :: rest => do
      let item ← kind.read store value
      let items ← readAll store kind rest
      return item :: items

end OperandKind

/-- The kinds of the operands, and the kind of any further ones. -/
structure Signature where
  fixed : List OperandKind
  rest : Option OperandKind
  deriving Repr, DecidableEq

namespace Signature

/-- The type of a native function with these operands. -/
@[reducible]
def BodyOf : List OperandKind → Option OperandKind → Type
  | [], none => StoreM Value
  | [], some kind => List kind.Carrier → StoreM Value
  | kind :: kinds, rest => kind.Carrier → BodyOf kinds rest

/-- The type of a native function with this signature. -/
@[reducible]
def Body (signature : Signature) : Type :=
  BodyOf signature.fixed signature.rest

/-- The numbers of operands that fit the signature. -/
def arity (signature : Signature) : Arity :=
  match signature.rest with
  | none => .exactly signature.fixed.length
  | some _ => .atLeast signature.fixed.length

/-- Read the operands and run the function on them; a missing operand refuses the call. -/
def feed :
    (fixed : List OperandKind) →
    (rest : Option OperandKind) →
    BodyOf fixed rest →
    List Value →
    StoreM Value
  | [], none, body, _ => body
  | [], some kind, body, operands => do
      let items ← fun store => (kind.readAll store operands, store)
      body items
  | _ :: _, _, _, [] => throw (.arity 1 0 none)
  | kind :: kinds, rest, body, operand :: operands => do
      let item ← fun store => (kind.read store operand, store)
      feed kinds rest (body item) operands

/-- The function on values that a native function amounts to. -/
def adapt
    (signature : Signature)
    (body : signature.Body)
    (operands : List Value) : StoreM Value :=
  match signature.arity.refuses? operands.length with
  | some bound => throw (.arity bound operands.length none)
  | none => feed signature.fixed signature.rest body operands

/-- The signature of a function of values. -/
def values (count : Nat) : Signature :=
  ⟨List.replicate count .any, none⟩

end Signature

end SmallScheme
