import SmallScheme.Primitive.Signature
import SmallScheme.Store.Equality

namespace SmallScheme

/-!
# Equivalences, pairs, lists and tests of kind
-/

namespace Equivalence

def run : Equivalence → List Value → StoreM Value
  | .negation => (Signature.values 1).adapt fun value => return .boolean !value.isTrue
  | .same =>
      (Signature.values 2).adapt fun first second =>
        StoreM.view fun store => .boolean (store.identical first second)
  | .equivalent =>
      (Signature.values 2).adapt fun first second =>
        StoreM.view fun store => .boolean (store.identical first second)
  | .alike =>
      (Signature.values 2).adapt fun first second =>
        StoreM.view fun store => .boolean (store.equal first second)

end Equivalence

namespace Listing

/-- The address of a pair, for an operation that needs one. -/
def pairAddress (operation : String) (value : Value) : StoreM Nat :=
  match value with
  | .pair address => return address
  | other =>
      StoreM.failTelling other fun text => .type (.operand operation "pair" text)

/-- The pair that a value is, for an operation that needs one. -/
def pairOf (operation : String) (value : Value) : StoreM Pair := do
  let address ← pairAddress operation value
  StoreM.view fun store => store.pairAt address

/-- The items of a proper list, for an operation that needs one. -/
def itemsOf (operation : String) (value : Value) : StoreM (List Value) := do
  match ← StoreM.view fun store => store.listItems? value with
  | some items => return items
  | none =>
      StoreM.fail fun store => .type (.operand operation "proper list" (store.shape value))

/-- Join lists; every list but the last is copied, starting with the one before the last. -/
def joinAll (lists : List Value) : StoreM Value :=
  match lists.reverse with
  | [] => return .nil
  | last :: earlier =>
      earlier.foldlM
        (fun joined list => do
          let items ← Store.listItems list
          StoreM.change (Store.newListWithTail items joined))
        last

def run : Listing → List Value → StoreM Value
  | .head => (Signature.values 1).adapt fun pair => return (← pairOf "car" pair).head
  | .tail => (Signature.values 1).adapt fun pair => return (← pairOf "cdr" pair).tail
  | .cons =>
      (Signature.values 2).adapt fun head tail => StoreM.change (Store.newPair head tail)
  | .setHead =>
      (Signature.values 2).adapt fun pair head => do
        let address ← pairAddress "set-car!" pair
        StoreM.change fun store => (.unspecified, store.setHead address head)
  | .setTail =>
      (Signature.values 2).adapt fun pair tail => do
        let address ← pairAddress "set-cdr!" pair
        StoreM.change fun store => (.unspecified, store.setTail address tail)
  | .list => Signature.adapt ⟨[], some .any⟩ fun items => StoreM.change (Store.newList items)
  | .length =>
      (Signature.values 1).adapt fun list => return .ofNat (← itemsOf "length" list).length
  | .append => Signature.adapt ⟨[], some .any⟩ joinAll
  | .reverse =>
      (Signature.values 1).adapt fun list => do
        let items ← itemsOf "reverse" list
        StoreM.change (Store.newListFrom items .nil)

end Listing

namespace KindTest

/-- The value is of the kind. -/
def holds (store : Store) : KindTest → Value → Bool
  | .nil, value => value.isNil
  | .pair, .pair _ => true
  | .list, value => store.isList value
  | .symbol, value => value.identifier?.isSome
  | .procedure, value => value.isProcedure
  | .number, value => value.number?.isSome
  | .integer, .integer _ => true
  | .integer, .real value => Decimal.isWhole value
  | .text, .text _ => true
  | .boolean, .boolean _ => true
  | .character, .character _ => true
  | .vector, .vector _ => true
  | .bytevector, .bytevector _ => true
  | .regex, .regex _ => true
  | .condition, .condition _ => true
  | _, _ => false

def run (test : KindTest) : List Value → StoreM Value :=
  (Signature.values 1).adapt fun value =>
    StoreM.view fun store => .boolean (test.holds store value)

end KindTest

end SmallScheme
