import SmallScheme.Proofs.Store.Growth
import SmallScheme.Proofs.Store.Primitive

namespace SmallScheme

/-!
# What primitives change

Whether a primitive succeeds or fails, every object that was there before is as it was.  The four
mutators are the one exception: a mutator first checks all of its operands and then writes to the
slot that they address.  If a check fails, it has not touched the store.

Main result.
* `primitives_change_only_what_they_address`: in every store and on every list of operands, whether
  or not their number is declared, a primitive adds objects or writes to the one slot it addresses.
-/

namespace Store

/-- Whatever is in the first table is at the same address of the second one. -/
def IsKeptIn {Object : Type} (objects others : Array Object) : Prop :=
  ∀ ⦃address : Nat⦄ ⦃object : Object⦄,
    objects[address]? = some object → others[address]? = some object

/-- The second store has all objects of the first one as they were, and perhaps fresh ones. -/
structure Extends (before after : Store) : Prop where
  texts : IsKeptIn before.texts after.texts
  pairs : IsKeptIn before.pairs after.pairs
  vectors : IsKeptIn before.vectors after.vectors
  bytevectors : IsKeptIn before.bytevectors after.bytevectors
  conditions : IsKeptIn before.conditions after.conditions
  /-- Primitives add no objects of other kinds, parameters and procedures among them. -/
  others :
    { after with
        texts := before.texts, pairs := before.pairs, vectors := before.vectors,
        bytevectors := before.bytevectors, conditions := before.conditions } =
      before

/-- A store extends itself. -/
theorem Extends.refl
    (store : Store) :
    store.Extends store :=
  ⟨fun _ _ => id, fun _ _ => id, fun _ _ => id, fun _ _ => id, fun _ _ => id, rfl⟩

/-- Objects are kept when one is added behind them. -/
theorem IsKeptIn.push
    {Object : Type}
    {objects others : Array Object}
    (isKept : IsKeptIn objects others)
    (added : Object) :
    IsKeptIn objects (others.push added) :=
  fun _ _ found => getElem?_push_of_some (isKept found)

instance Extends.survivesAdding
    {before : Store} :
    SurvivesAdding before.Extends where
  newText text _ extended :=
    { extended with texts := extended.texts.push text }
  newPair head tail _ extended :=
    { extended with pairs := extended.pairs.push ⟨head, tail⟩ }
  newVector items _ extended :=
    { extended with vectors := extended.vectors.push items }
  newBytevector bytes _ extended :=
    { extended with bytevectors := extended.bytevectors.push bytes }
  newCondition condition _ extended :=
    { extended with conditions := extended.conditions.push condition }

end Store

/-! ## Slots -/

/-- A part of an object that mutators write to. -/
inductive Slot
  | head (address : Nat)
  | tail (address : Nat)
  | item (address index : Nat)
  | byte (address index : Nat)
  deriving Repr, DecidableEq

namespace Store

/-- What a slot holds; a slot of an object that is not there holds nothing. -/
def content? (store : Store) : Slot → Option Value
  | .head address => store.pairs[address]?.map Pair.head
  | .tail address => store.pairs[address]?.map Pair.tail
  | .item address index => store.vectors[address]?.bind fun items => items[index]?
  | .byte address index =>
      (store.bytevectors[address]?.bind fun bytes => bytes[index]?).map fun byte =>
        .ofNat byte.toNat

/-- The slot holds the value afterwards, and nothing else is different. -/
structure Puts (slot : Slot) (value : Value) (before after : Store) : Prop where
  written : after.content? slot = (before.content? slot).map fun _ => value
  kept : ∀ other, other ≠ slot → after.content? other = before.content? other
  pairs : after.pairs.size = before.pairs.size
  vectors : after.vectors.size = before.vectors.size
  bytevectors : after.bytevectors.size = before.bytevectors.size
  others :
    { after with
        pairs := before.pairs, vectors := before.vectors, bytevectors := before.bytevectors } =
      before

variable (address index : Nat) (value : Value) (store : Store)

/-- To set a head puts the value there and nowhere else. -/
theorem puts_setHead :
    Puts (.head address) value store (store.setHead address value) where
  written := by
    simp [content?, setHead, Array.getElem?_modify, Function.comp_def]
  kept other different := by
    cases other with
    | head place =>
        have apart : address ≠ place := fun same => different (congrArg Slot.head same.symm)
        simp [content?, setHead, Array.getElem?_modify, apart]
    | tail place =>
        simp only [content?, setHead, Array.getElem?_modify]
        split <;> simp [Function.comp_def]
    | item place index => rfl
    | byte place index => rfl
  pairs := Array.size_modify
  vectors := rfl
  bytevectors := rfl
  others := rfl

/-- To set a tail puts the value there and nowhere else. -/
theorem puts_setTail :
    Puts (.tail address) value store (store.setTail address value) where
  written := by
    simp [content?, setTail, Array.getElem?_modify, Function.comp_def]
  kept other different := by
    cases other with
    | head place =>
        simp only [content?, setTail, Array.getElem?_modify]
        split <;> simp [Function.comp_def]
    | tail place =>
        have apart : address ≠ place := fun same => different (congrArg Slot.tail same.symm)
        simp [content?, setTail, Array.getElem?_modify, apart]
    | item place index => rfl
    | byte place index => rfl
  pairs := Array.size_modify
  vectors := rfl
  bytevectors := rfl
  others := rfl

/-- An array with one item replaced, as seen from one index. -/
theorem bind_modify_setIfInBounds
    {Item : Type}
    (arrays : Array (Array Item))
    (item : Item)
    (place other : Nat) :
    ((arrays.modify address fun items => items.setIfInBounds index item)[place]?.bind
        fun items => items[other]?) =
      if place = address ∧ other = index then
        (arrays[place]?.bind fun items => items[other]?).map fun _ => item
      else
        arrays[place]?.bind fun items => items[other]? := by
  rw [Array.getElem?_modify]
  cases found : arrays[place]? with
  | none => simp
  | some items =>
      by_cases samePlace : address = place
      · simp only [samePlace, if_true, Option.map_some, Option.bind_some, true_and,
          Array.getElem?_setIfInBounds]
        by_cases sameIndex : index = other
        · subst sameIndex
          by_cases inside : index < items.size <;> simp [inside]
        · simp [sameIndex, Ne.symm sameIndex]
      · simp [samePlace, Ne.symm samePlace]

/-- To set an item of a vector puts the value there and nowhere else. -/
theorem puts_setVectorItem :
    Puts (.item address index) value store (store.setVectorItem address index value) where
  written := by
    simp only [content?, setVectorItem, bind_modify_setIfInBounds, and_self, if_true]
  kept other different := by
    cases other with
    | head place => rfl
    | tail place => rfl
    | item place other =>
        have apart : ¬(place = address ∧ other = index) :=
          fun same => different (congrArg₂ Slot.item same.1 same.2)
        simp only [content?, setVectorItem, bind_modify_setIfInBounds, if_neg apart]
    | byte place index => rfl
  pairs := rfl
  vectors := Array.size_modify
  bytevectors := rfl
  others := rfl

/-- To set a byte of a bytevector puts the byte there and nowhere else. -/
theorem puts_setByteItem
    (byte : UInt8) :
    Puts (.byte address index) (.ofNat byte.toNat) store
      (store.setByteItem address index byte) where
  written := by
    simp [content?, setByteItem, bind_modify_setIfInBounds, Function.comp_def]
  kept other different := by
    cases other with
    | head place => rfl
    | tail place => rfl
    | item place index => rfl
    | byte place other =>
        have apart : ¬(place = address ∧ other = index) :=
          fun same => different (congrArg₂ Slot.byte same.1 same.2)
        simp only [content?, setByteItem, bind_modify_setIfInBounds, if_neg apart]
  pairs := rfl
  vectors := rfl
  bytevectors := Array.size_modify
  others := rfl

end Store

/-! ## Checks come first -/

/-- The operation fails and leaves the store as it is, or it succeeds as described. -/
def StoreM.Settles
    {Answer : Type}
    (action : StoreM Answer)
    (store : Store)
    (done : Answer → Store → Prop) : Prop :=
  (∃ fault, action store = (.error fault, store)) ∨
    ∃ answer after, action store = (.ok answer, after) ∧ done answer after

/-- A check tells something about its result and leaves the store as it is. -/
def StoreM.Checks
    {Answer : Type}
    (action : StoreM Answer)
    (store : Store)
    (passed : Answer → Prop) : Prop :=
  action.Settles store fun answer after => after = store ∧ passed answer

variable {First Second : Type}

/-- What comes after a check that has been passed starts from the same store. -/
theorem StoreM.Settles.bind
    {store : Store}
    {first : StoreM First}
    {rest : First → StoreM Second}
    {passed : First → Prop}
    {done : Second → Store → Prop}
    (checks : first.Checks store passed)
    (settles : ∀ answer, passed answer → (rest answer).Settles store done) :
    (first >>= rest).Settles store done := by
  obtain ⟨fault, failed⟩ | ⟨answer, after, succeeded, sameStore, holds⟩ := checks
  · refine .inl ⟨fault, ?_⟩
    change ExceptT.bindCont rest (first store).1 (first store).2 = _
    rw [failed]
    rfl
  · have sameRun : (first >>= rest) store = rest answer store := by
      change ExceptT.bindCont rest (first store).1 (first store).2 = _
      rw [succeeded, sameStore]
      rfl
    unfold Settles
    rw [sameRun]
    exact settles answer holds

open StoreM

/-- The reading of an operand only checks it. -/
theorem OperandKind.checks_read
    (kind : OperandKind)
    (value : Value)
    (store : Store) :
    Checks (fun store => (kind.read store value, store)) store fun item =>
      kind.read store value = .ok item := by
  cases found : kind.read store value with
  | error fault => exact .inl ⟨fault, congrArg (·, store) found⟩
  | ok item => exact .inr ⟨item, store, congrArg (·, store) found, rfl, rfl⟩

/-- Only whole numbers that are not negative are read as indices. -/
theorem OperandKind.read_index_eq_ok
    {store : Store}
    {value : Value}
    {index : Nat}
    (read : OperandKind.read store .index value = .ok index) :
    ∃ word : Int64, value = .integer word ∧ 0 ≤ word.toInt ∧ index = word.toInt.toNat := by
  cases value with
  | integer word =>
      change (if 0 ≤ word.toInt then _ else _) = _ at read
      split at read
      case isTrue natural => exact ⟨word, rfl, natural, (Except.ok.inj read).symm⟩
      case isFalse => cases read
  | _ => cases read

/-- Only whole numbers up to 255 are read as bytes, and the byte stands for the number. -/
theorem OperandKind.read_byte_eq_ok
    {store : Store}
    {value : Value}
    {byte : UInt8}
    (read : OperandKind.read store .byte value = .ok byte) :
    ∃ word : Int64,
      value = .integer word ∧ 0 ≤ word.toInt ∧ word.toInt ≤ 255 ∧
        Value.ofNat byte.toNat = .integer word := by
  cases value with
  | integer word =>
      change (if (_ && _) = true then _ else _) = _ at read
      split at read
      case isFalse => cases read
      case isTrue inRange =>
        obtain ⟨natural, small⟩ :=
          (Bool.and_eq_true _ _).mp inRange |>.imp of_decide_eq_true of_decide_eq_true
        refine ⟨word, rfl, natural, small, ?_⟩
        have sameByte : byte.toNat = word.toInt.toNat := by
          rw [← Except.ok.inj read, UInt8.toNat_ofNat']
          omega
        rw [sameByte, Value.ofNat, ← Int64.ofInt_eq_ofNat, Int.toNat_of_nonneg natural,
          Int64.ofInt_toInt]
  | _ => cases read

/-- To ask for the address of a pair only checks the value. -/
theorem Listing.checks_pairAddress
    (operation : String)
    (value : Value)
    (store : Store) :
    Checks (pairAddress operation value) store fun address => value = .pair address := by
  cases value with
  | pair address => exact .inr ⟨address, store, rfl, rfl, rfl⟩
  | _ => exact .inl ⟨_, rfl⟩

namespace Sequence

/-- To ask for the size of a vector only checks the value. -/
theorem checks_vectorSize
    (value : Value)
    (store : Store) :
    Checks (vectorSize value) store fun found =>
      value = .vector found.1 ∧ found.2 = (store.vectorAt found.1).size := by
  cases value with
  | vector address => exact .inr ⟨(address, _), store, rfl, rfl, rfl, rfl⟩
  | _ => exact .inl ⟨_, rfl⟩

/-- To ask for the size of a bytevector only checks the value. -/
theorem checks_bytevectorSize
    (value : Value)
    (store : Store) :
    Checks (bytevectorSize value) store fun found =>
      value = .bytevector found.1 ∧ found.2 = (store.bytevectorAt found.1).size := by
  cases value with
  | bytevector address => exact .inr ⟨(address, _), store, rfl, rfl, rfl, rfl⟩
  | _ => exact .inl ⟨_, rfl⟩

/-- To check an index changes nothing, and an accepted one is within the length. -/
theorem checks_checkIndex
    (index length : Nat)
    (store : Store) :
    Checks (checkIndex index length) store fun _ => index < length := by
  unfold checkIndex
  split
  case isTrue inside => exact .inr ⟨(), store, rfl, rfl, inside⟩
  case isFalse => exact .inl ⟨_, rfl⟩

end Sequence

/-! ## Mutators -/

/--
The operands of the mutator have all passed their checks: they address the slot and give the value
it is to hold.
-/
inductive Primitive.Addresses (store : Store) : Primitive → List Value → Slot → Value → Prop
  | head (address : Nat) (value : Value) :
      Addresses store (.listing .setHead) [.pair address, value] (.head address) value
  | tail (address : Nat) (value : Value) :
      Addresses store (.listing .setTail) [.pair address, value] (.tail address) value
  | item {address : Nat} {index : Int64} (value : Value) :
      0 ≤ index.toInt →
      index.toInt < (store.vectorAt address).size →
      Addresses store (.sequence .setVectorItem) [.vector address, .integer index, value]
        (.item address index.toInt.toNat) value
  | byte {address : Nat} {index byte : Int64} :
      0 ≤ index.toInt →
      index.toInt < (store.bytevectorAt address).size →
      0 ≤ byte.toInt →
      byte.toInt ≤ 255 →
      Addresses store (.sequence .setByteItem) [.bytevector address, .integer index, .integer byte]
        (.byte address index.toInt.toNat) (.integer byte)

/-- The mutator writes to a slot that its operands address. -/
def Primitive.Writes
    (primitive : Primitive)
    (operands : List Value)
    (before after : Store) : Prop :=
  ∃ slot value, primitive.Addresses before operands slot value ∧ before.Puts slot value after

open Primitive Signature

/-- An operation that replaces one part of a pair. -/
private theorem settles_replacement
    {operation : String}
    {replace : Nat → Value → Store → Store}
    {writes : List Value → Store → Store → Prop}
    (replaces :
      ∀ address value store, writes [.pair address, value] store (replace address value store))
    (operands : List Value)
    (store : Store) :
    Settles
      ((Signature.values 2).adapt
        (fun pair value => do
          let address ← Listing.pairAddress operation pair
          StoreM.change fun store => (.unspecified, replace address value store))
        operands)
      store fun _ => writes operands store := by
  match operands with
  | [] => exact .inl ⟨_, rfl⟩
  | [_] => exact .inl ⟨_, rfl⟩
  | [pair, value] =>
      refine .bind (OperandKind.checks_read .any pair store) fun _ read => ?_
      cases read
      refine .bind (OperandKind.checks_read .any value store) fun _ read => ?_
      cases read
      refine .bind (Listing.checks_pairAddress operation pair store) fun address isPair => ?_
      subst isPair
      exact .inr ⟨_, _, rfl, replaces address value store⟩
  | _ :: _ :: _ :: _ => exact .inl ⟨_, rfl⟩

/-- To set an item of a vector writes it once every check has been passed, and not before. -/
private theorem settles_setVectorItem
    (operands : List Value)
    (store : Store) :
    (Sequence.setVectorItem.run operands).Settles store fun _ =>
      (Primitive.sequence .setVectorItem).Writes operands store := by
  match operands with
  | [] => exact .inl ⟨_, rfl⟩
  | [_] => exact .inl ⟨_, rfl⟩
  | [_, _] => exact .inl ⟨_, rfl⟩
  | [vector, index, value] =>
      refine .bind (OperandKind.checks_read .any vector store) fun _ read => ?_
      cases read
      refine .bind (OperandKind.checks_read .index index store) fun place read => ?_
      obtain ⟨word, rfl, natural, rfl⟩ := OperandKind.read_index_eq_ok read
      refine .bind (OperandKind.checks_read .any value store) fun _ read => ?_
      cases read
      refine .bind (Sequence.checks_vectorSize vector store) fun found isVector => ?_
      obtain ⟨rfl, sameSize⟩ := isVector
      refine .bind (Sequence.checks_checkIndex _ _ store) fun _ inside => ?_
      have inVector : word.toInt < (store.vectorAt found.1).size := by omega
      exact .inr ⟨_, _, rfl, _, _, .item value natural inVector, Store.puts_setVectorItem ..⟩
  | _ :: _ :: _ :: _ :: _ => exact .inl ⟨_, rfl⟩

/-- To set a byte writes it once every check has been passed, and not before. -/
private theorem settles_setByteItem
    (operands : List Value)
    (store : Store) :
    (Sequence.setByteItem.run operands).Settles store fun _ =>
      (Primitive.sequence .setByteItem).Writes operands store := by
  match operands with
  | [] => exact .inl ⟨_, rfl⟩
  | [_] => exact .inl ⟨_, rfl⟩
  | [_, _] => exact .inl ⟨_, rfl⟩
  | [bytevector, index, value] =>
      refine .bind (OperandKind.checks_read .any bytevector store) fun _ read => ?_
      cases read
      refine .bind (OperandKind.checks_read .index index store) fun place read => ?_
      obtain ⟨word, rfl, natural, rfl⟩ := OperandKind.read_index_eq_ok read
      refine .bind (OperandKind.checks_read .any value store) fun _ read => ?_
      cases read
      refine .bind (OperandKind.checks_read .byte value store) fun byte read => ?_
      obtain ⟨content, rfl, least, most, sameByte⟩ := OperandKind.read_byte_eq_ok read
      refine .bind (Sequence.checks_bytevectorSize bytevector store) fun found isBytevector => ?_
      obtain ⟨rfl, sameSize⟩ := isBytevector
      refine .bind (Sequence.checks_checkIndex _ _ store) fun _ inside => ?_
      have inBytevector : word.toInt < (store.bytevectorAt found.1).size := by omega
      have puts := Store.puts_setByteItem found.1 word.toInt.toNat store byte
      rw [sameByte] at puts
      exact .inr ⟨_, _, rfl, _, _, .byte natural inBytevector least most, puts⟩
  | _ :: _ :: _ :: _ :: _ => exact .inl ⟨_, rfl⟩

namespace Primitive

/-- A mutator refuses its operands without a trace, or it writes to the slot they address. -/
theorem settles_mutator
    {primitive : Primitive}
    (host : Host)
    (mutates : primitive.isMutator = true)
    (operands : List Value)
    (store : Store) :
    (primitive.run host operands).Settles store fun _ => primitive.Writes operands store := by
  unfold isMutator at mutates
  split at mutates
  case h_1 =>
    refine settles_replacement (fun address value store => ?_) operands store
    exact ⟨_, _, .head address value, Store.puts_setHead ..⟩
  case h_2 =>
    refine settles_replacement (fun address value store => ?_) operands store
    exact ⟨_, _, .tail address value, Store.puts_setTail ..⟩
  case h_3 => exact settles_setVectorItem operands store
  case h_4 => exact settles_setByteItem operands store
  case h_5 => cases mutates

/-- What a call of a primitive may leave behind. -/
inductive Effect
    (primitive : Primitive)
    (operands : List Value)
    (before : Store) :
    Except Fault Value × Store → Prop
  /-- A mutator that fails has not touched the store; the others may have added objects. -/
  | failed {fault : Fault} {after : Store} :
      before.Extends after →
      (primitive.isMutator = true → after = before) →
      Effect primitive operands before (.error fault, after)
  | added {answer : Value} {after : Store} :
      primitive.isMutator = false →
      before.Extends after →
      Effect primitive operands before (.ok answer, after)
  | written {answer : Value} {after : Store} :
      primitive.isMutator = true →
      primitive.Writes operands before after →
      Effect primitive operands before (.ok answer, after)

/-- A primitive that is none of the host has no effect but its own. -/
theorem effect_run
    {primitive : Primitive}
    (host : Host)
    (own : primitive.isForeign = false)
    (operands : List Value)
    (before : Store) :
    primitive.Effect operands before (primitive.run host operands before) := by
  cases mutates : primitive.isMutator with
  | true =>
      obtain ⟨fault, failed⟩ | ⟨answer, after, succeeded, writes⟩ :=
        settles_mutator host mutates operands before
      · rw [failed]
        exact .failed (.refl before) fun _ => rfl
      · rw [succeeded]
        exact .written mutates writes
  | false =>
      have extended : before.Extends (primitive.run host operands before).2 :=
        keeps_run host own mutates operands before (.refl before)
      rcases ran : primitive.run host operands before with ⟨fault | answer, after⟩
      · rw [ran] at extended
        exact .failed extended fun isMutator => by cases mutates.symm.trans isMutator
      · rw [ran] at extended
        exact .added mutates extended

/-- The primitives of a root scope are all of the language itself. -/
theorem isForeign_eq_false_of_mem :
    ∀ primitive ∈ all, primitive.isForeign = false := by
  decide

end Primitive

/--
Whatever the store and the operands are, a primitive of the root scope leaves all objects as they
were if it fails, and if it succeeds it has added objects at most, unless it is a mutator: then its
operands have passed all checks, and exactly the slot that they address holds another value.  This
is so for the function itself, whatever the number of operands, and for the primitive with its
declared arity.
-/
theorem primitives_change_only_what_they_address
    {primitive : Primitive}
    (registered : primitive ∈ Primitive.all)
    (host : Host)
    (operands : List Value)
    (before : Store) :
    primitive.Effect operands before (primitive.run host operands before) ∧
      primitive.Effect operands before (primitive.apply host operands before) := by
  have own := Primitive.isForeign_eq_false_of_mem primitive registered
  have ran := Primitive.effect_run host own operands before
  refine ⟨ran, ?_⟩
  unfold Primitive.apply
  cases primitive.arity.refuses? operands.length with
  | some bound => exact .failed (.refl before) fun _ => rfl
  | none => exact ran

/-- A vector is stored in itself: its own slot is the one that changes. -/
theorem a_vector_is_stored_in_itself :
    let before := (Store.empty.newVector #[.nil, .boolean true]).2
    let primitive := Primitive.sequence .setVectorItem
    let operands := [.vector 0, .integer 1, .vector 0]
    primitive ∈ Primitive.all ∧
      primitive.Effect operands before (primitive.run .absent operands before) ∧
      primitive.Effect operands before (primitive.apply .absent operands before) ∧
      (primitive.run .absent operands before).2.vectors = #[#[.nil, .vector 0]] := by
  intro before primitive operands
  have registered : primitive ∈ Primitive.all := by decide
  have effects := primitives_change_only_what_they_address registered .absent operands before
  exact ⟨registered, effects.1, effects.2, rfl⟩

end SmallScheme
