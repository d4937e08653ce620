import SmallScheme.Primitive.Signature
import SmallScheme.Regex.Engine

namespace SmallScheme

/-!
# Vectors, bytevectors, texts and conditions
-/

/-- Fail because a value is not what an operation needs. -/
def refuseKind {α : Type} (wanted : String) (value : Value) : StoreM α :=
  StoreM.fail fun store => OperandKind.refuse store wanted value

namespace Sequence

/-- The address and the items of a vector. -/
def vectorOf (value : Value) : StoreM (Nat × Array Value) :=
  match value with
  | .vector address => StoreM.view fun store => (address, store.vectorAt address)
  | other => refuseKind "vector" other

/-- The address and the bytes of a bytevector. -/
def bytevectorOf (value : Value) : StoreM (Nat × Array UInt8) :=
  match value with
  | .bytevector address => StoreM.view fun store => (address, store.bytevectorAt address)
  | other => refuseKind "bytevector" other

/-- The item at an index. -/
def itemAt {α : Type} (items : Array α) (index : Nat) : StoreM α :=
  match items[index]? with
  | some item => return item
  | none => throw (.evaluation (.indexRange index items.size))

/-- Fail unless the index is below the length. -/
def checkIndex (index length : Nat) : StoreM Unit :=
  if index < length then return () else throw (.evaluation (.indexRange index length))

/-- The address of a vector and its length. -/
def vectorSize (value : Value) : StoreM (Nat × Nat) :=
  match value with
  | .vector address => StoreM.view fun store => (address, (store.vectorAt address).size)
  | other => refuseKind "vector" other

/-- The address of a bytevector and its length. -/
def bytevectorSize (value : Value) : StoreM (Nat × Nat) :=
  match value with
  | .bytevector address => StoreM.view fun store => (address, (store.bytevectorAt address).size)
  | other => refuseKind "bytevector" other

def run : Sequence → List Value → StoreM Value
  | .vector =>
      Signature.adapt ⟨[], some .any⟩ fun items =>
        StoreM.change (Store.newVector items.toArray)
  | .makeVector =>
      Signature.adapt ⟨[.index], some .any⟩ fun length fill =>
        StoreM.change (Store.newVector (Array.replicate length (fill.headD .unspecified)))
  | .vectorItem =>
      Signature.adapt ⟨[.any, .index], none⟩ fun vector index => do
        let (_, items) ← vectorOf vector
        itemAt items index
  | .setVectorItem =>
      Signature.adapt ⟨[.any, .index, .any], none⟩ fun vector index item => do
        let (address, size) ← vectorSize vector
        checkIndex index size
        StoreM.change fun store => (.unspecified, store.setVectorItem address index item)
  | .vectorLength =>
      (Signature.values 1).adapt fun vector => return .ofNat (← vectorSize vector).2
  | .vectorToList =>
      (Signature.values 1).adapt fun vector => do
        let (_, items) ← vectorOf vector
        StoreM.change (Store.newList items.toList)
  | .listToVector =>
      (Signature.values 1).adapt fun list => do
        let items ← Store.listItems list
        StoreM.change (Store.newVector items.toArray)
  | .bytevector =>
      Signature.adapt ⟨[], some .byte⟩ fun bytes =>
        StoreM.change (Store.newBytevector bytes.toArray)
  | .byteItem =>
      Signature.adapt ⟨[.any, .index], none⟩ fun bytevector index => do
        let (_, bytes) ← bytevectorOf bytevector
        return .ofNat (← itemAt bytes index).toNat
  | .setByteItem =>
      Signature.adapt ⟨[.any, .index, .any], none⟩ fun bytevector index value => do
        let byte ← fun store => (OperandKind.read store .byte value, store)
        let (address, size) ← bytevectorSize bytevector
        checkIndex index size
        StoreM.change fun store => (.unspecified, store.setByteItem address index byte)
  | .bytevectorLength =>
      (Signature.values 1).adapt fun bytevector => return .ofNat (← bytevectorSize bytevector).2

end Sequence

namespace Textual

def run (engine : Regex.Engine) : Textual → List Value → StoreM Value
  | .append =>
      Signature.adapt ⟨[], some .text⟩ fun texts =>
        StoreM.change (Store.newText (String.join texts))
  | .length =>
      Signature.adapt ⟨[.text], none⟩ fun text => return .ofNat text.length
  | .symbolToText =>
      Signature.adapt ⟨[.symbol], none⟩ fun name => StoreM.change (Store.newText name)
  | .textToSymbol =>
      Signature.adapt ⟨[.text], none⟩ fun text => return .symbol text
  | .numberToText =>
      Signature.adapt ⟨[.number], none⟩ fun number =>
        StoreM.change (Store.newText number.written)
  | .regexMatches =>
      Signature.adapt ⟨[.any, .text], none⟩ fun pattern text =>
        match pattern with
        | .regex pattern =>
            return .boolean (engine.isMatch pattern text)
        | other => refuseKind "regex" other

end Textual

namespace Signalling

/-- The condition that a value is. -/
def conditionOf (value : Value) : StoreM Condition :=
  match value with
  | .condition address => StoreM.view fun store => store.conditionAt address
  | other => refuseKind "error object" other

/-- The text with which a condition is raised: a text itself, or the written form of a value. -/
def messageOf : Value → StoreM String
  | .text address => StoreM.view fun store => store.textAt address
  | other => do
      match ← StoreM.view fun store => store.written? other with
      | some text => return text
      | none => throw (.evaluation .endless)

def run : Signalling → List Value → StoreM Value
  | .error =>
      Signature.adapt ⟨[.any], some .any⟩ fun message irritants => do
        let message ← messageOf message
        let condition ← StoreM.change (Store.newCondition ⟨message, irritants⟩)
        throw (.structured condition)
  | .raise =>
      (Signature.values 1).adapt fun value =>
        match value with
        | .condition address => throw (.structured address)
        | other => throw (.raised other)
  | .message =>
      (Signature.values 1).adapt fun value => do
        let condition ← conditionOf value
        StoreM.change (Store.newText condition.message)
  | .irritants =>
      (Signature.values 1).adapt fun value => do
        let condition ← conditionOf value
        StoreM.change (Store.newList condition.irritants)

end Signalling

end SmallScheme
