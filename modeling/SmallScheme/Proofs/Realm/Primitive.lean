import SmallScheme.Primitive.Basic
import SmallScheme.Proofs.Realm.Filling

namespace SmallScheme

/-!
# Primitives within a realm

A primitive that is given values of the realm reads and changes nothing but what belongs to it.
-/

variable
  {realm : Realm}
  {size : Sizes}
  {value : Value}
  {values operands : List Value}

/-- What has been read of an operand belongs to the realm. -/
def OperandKind.Fits (realm : Realm) (size : Sizes) : (kind : OperandKind) → kind.Carrier → Prop
  | .any, value => Value.Belongs realm size value
  | _, _ => True

namespace OperandKind

/-- An operand of the realm is read as an item that fits the realm. -/
theorem fits_read
    (kind : OperandKind)
    (belongs : value.Belongs realm size)
    (store : Store)
    (later : Sizes) :
    Result realm (fun _ => kind.Fits realm size) later (kind.read store value) := by
  have refused (wanted : String) (value : Value) :
      (refuse store wanted value).Belongs realm later :=
    store.telling_of value (motive := Fault.Belongs realm later) (fun _ => trivial) trivial
  cases kind with
  | any => exact belongs
  | _ =>
      cases value
      all_goals
        simp only [read]
        repeat' split
        all_goals first | exact refused _ _ | trivial

/-- So are all operands of the rest. -/
theorem fits_readAll
    (kind : OperandKind)
    (belong : AllBelong realm size operands)
    (store : Store)
    (later : Sizes) :
    Result realm (fun _ items => ∀ item ∈ items, kind.Fits realm size item) later
      (kind.readAll store operands) := by
  induction operands with
  | nil => exact nofun
  | cons operand rest inductionHypothesis =>
      refine (kind.fits_read belong.head store later).bind fun item fits => ?_
      refine (inductionHypothesis belong.tail).bind fun items all => ?_
      exact List.forall_mem_cons.mpr ⟨fits, all⟩

end OperandKind

namespace Signature

/-- Given operands of the realm, the native function stays within it. -/
def BodyStays (realm : Realm) (size : Sizes) :
    (fixed : List OperandKind) → (rest : Option OperandKind) → BodyOf fixed rest → Prop
  | [], none, body => StoreM.Stays realm (Value.Belongs realm) size body
  | [], some kind, body =>
      ∀ items : List kind.Carrier,
        (∀ item ∈ items, kind.Fits realm size item) →
        StoreM.Stays realm (Value.Belongs realm) size (body items)
  | kind :: kinds, rest, body =>
      ∀ item : kind.Carrier,
        kind.Fits realm size item →
        BodyStays realm size kinds rest (body item)

/-- A body that stays with fitting items does so with operands of the realm. -/
private theorem stays_feed
    {fixed : List OperandKind}
    {rest : Option OperandKind}
    {body : BodyOf fixed rest}
    (stays : BodyStays realm size fixed rest body)
    (belong : AllBelong realm size operands) :
    StoreM.Stays realm (Value.Belongs realm) size (feed fixed rest body operands) := by
  induction fixed generalizing operands with
  | nil =>
      cases rest with
      | none => exact stays
      | some kind =>
          refine (StoreM.Stays.look fun store _ => kind.fits_readAll belong store _).bind
            fun later items grown fits => ?_
          exact (stays items fits).mono grown
  | cons kind kinds inductionHypothesis =>
      cases operands with
      | nil => exact .throw trivial
      | cons operand operands =>
          refine (StoreM.Stays.look fun store _ => kind.fits_read belong.head store _).bind
            fun later item grown fits => ?_
          exact (inductionHypothesis (stays item fits) belong.tail).mono grown

/-- An operation stays within the realm if its body does. -/
theorem stays_adapt
    {signature : Signature}
    {body : signature.Body}
    (stays : BodyStays realm size signature.fixed signature.rest body)
    (belong : AllBelong realm size operands) :
    StoreM.Stays realm (Value.Belongs realm) size (signature.adapt body operands) := by
  unfold adapt
  split
  · exact .throw trivial
  · exact stays_feed stays belong

end Signature

open Signature

/-! Numbers. -/

/-- Numbers belong to every realm. -/
private theorem ofNumber_belongs
    (number : Number) :
    (Value.ofNumber number).Belongs realm size := by
  cases number <;> trivial

/-- A result that does not fit is a fault without a value. -/
private theorem stays_fitting
    {operation : String}
    {result : Option Number} :
    StoreM.Stays realm (fun _ _ => True) size (fitting operation result) := by
  unfold fitting
  split
  · exact .pure fun _ _ => trivial
  · exact .throw trivial

private theorem stays_divideNumbers
    {dividend divisor : Number} :
    StoreM.Stays realm (fun _ _ => True) size (divideNumbers dividend divisor) := by
  unfold divideNumbers
  split
  · exact .throw trivial
  · exact stays_fitting

private theorem stays_wholeDivision
    {part : Int → Int → Int}
    {dividend divisor : Int64} :
    StoreM.Stays realm (Value.Belongs realm) size (wholeDivision part dividend divisor) := by
  unfold wholeDivision
  split
  · exact .throw trivial
  · split
    · exact .pure fun _ _ => trivial
    · exact .throw trivial

/-- A number that has been worked out is no pair. -/
private theorem stays_numeric
    {action : StoreM Number}
    (stays : StoreM.Stays realm (fun _ _ => True) size action) :
    StoreM.Stays realm (Value.Belongs realm) size (do return .ofNumber (← action)) :=
  stays.bind fun _ number _ _ => .pure fun _ _ => ofNumber_belongs number

/-- Numbers are folded outside of the store. -/
private theorem stays_foldNumbers
    {combine : Number → Number → StoreM Number}
    (stays :
      ∀ {later first second}, StoreM.Stays realm (fun _ _ => True) later (combine first second))
    {first : Number}
    {rest : List Number} :
    StoreM.Stays realm (Value.Belongs realm) size (Arithmetic.foldNumbers combine first rest) := by
  refine stays_numeric ?_
  induction rest generalizing size first with
  | nil => exact .pure fun _ _ => trivial
  | cons number rest inductionHypothesis =>
      rw [List.foldlM_cons]
      exact stays.bind fun _ _ _ _ => inductionHypothesis

/-- Arithmetic answers with a number. -/
private theorem stays_arithmetic
    (operation : Arithmetic)
    (belong : AllBelong realm size operands) :
    StoreM.Stays realm (Value.Belongs realm) size (operation.run operands) := by
  cases operation with
  | add => exact stays_adapt (fun _ _ => stays_foldNumbers stays_fitting) belong
  | multiply => exact stays_adapt (fun _ _ => stays_foldNumbers stays_fitting) belong
  | subtract =>
      refine stays_adapt (fun first _ rest _ => ?_) belong
      cases rest with
      | nil => exact stays_numeric stays_fitting
      | cons => exact stays_foldNumbers stays_fitting
  | divide =>
      refine stays_adapt (fun first _ rest _ => ?_) belong
      cases rest with
      | nil => exact stays_numeric stays_divideNumbers
      | cons => exact stays_foldNumbers stays_divideNumbers
  | quotient => exact stays_adapt (fun _ _ _ _ => stays_wholeDivision) belong
  | remainder => exact stays_adapt (fun _ _ _ _ => stays_wholeDivision) belong
  | modulo => exact stays_adapt (fun _ _ _ _ => stays_wholeDivision) belong
  | absolute => exact stays_adapt (fun _ _ => stays_numeric stays_fitting) belong
  | maximum => exact stays_adapt (fun _ _ _ _ => .pure fun _ _ => ofNumber_belongs _) belong
  | minimum => exact stays_adapt (fun _ _ _ _ => .pure fun _ _ => ofNumber_belongs _) belong

/-- Comparisons answer with a truth value. -/
private theorem stays_comparison
    (relation : Comparison)
    (belong : AllBelong realm size operands) :
    StoreM.Stays realm (Value.Belongs realm) size (relation.run operands) :=
  stays_adapt (fun _ _ _ _ => .pure fun _ _ => trivial) belong

/-! Equivalences, pairs, lists and tests of kind. -/

/-- Equivalences answer with a truth value. -/
private theorem stays_equivalence
    (operation : Equivalence)
    (belong : AllBelong realm size operands) :
    StoreM.Stays realm (Value.Belongs realm) size (operation.run operands) := by
  cases operation with
  | negation => exact stays_adapt (fun _ _ => .pure fun _ _ => trivial) belong
  | same => exact stays_adapt (fun _ _ _ _ => .view fun _ _ => trivial) belong
  | equivalent => exact stays_adapt (fun _ _ _ _ => .view fun _ _ => trivial) belong
  | alike => exact stays_adapt (fun _ _ _ _ => .view fun _ _ => trivial) belong

/-- Tests for kinds answer with a truth value. -/
private theorem stays_kindTest
    (test : KindTest)
    (belong : AllBelong realm size operands) :
    StoreM.Stays realm (Value.Belongs realm) size (test.run operands) :=
  stays_adapt (fun _ _ => .view fun _ _ => trivial) belong

/-- The pair that is looked up is one of the realm. -/
private theorem stays_pairAddress
    {operation : String}
    (belongs : value.Belongs realm size) :
    StoreM.Stays realm realm.owns size (Listing.pairAddress operation value) := by
  unfold Listing.pairAddress
  split
  · exact .pure fun _ grown => realm.owns_mono belongs grown
  · exact .failTelling fun _ _ => trivial

/-- What the pair holds belongs to the realm. -/
private theorem stays_pairOf
    {operation : String}
    (belongs : value.Belongs realm size) :
    StoreM.Stays realm (Pair.Belongs realm) size (Listing.pairOf operation value) :=
  (stays_pairAddress belongs).bind fun _ _ _ owned =>
    .view fun _ reaches => reaches.holds.pairAt (realm.owns_mono owned reaches.grown)

/-- The items of the list belong to the realm. -/
private theorem stays_itemsOf
    {operation : String}
    (belongs : value.Belongs realm size) :
    StoreM.Stays realm (AllBelong realm) size (Listing.itemsOf operation value) := by
  have looked :
      StoreM.Stays realm
        (fun later found => ∀ items, found = some items → AllBelong realm later items) size
        (StoreM.view fun store => store.listItems? value) :=
    .view fun store reaches items found =>
      reaches.holds.listItems? (belongs.mono reaches.grown) found
  refine looked.bind fun later found grown belong => ?_
  cases found with
  | none => exact .fail fun _ _ => trivial
  | some items => exact .pure fun _ more => (belong items rfl).mono more

/-- Lists are joined by fresh pairs, and the last is left as it is. -/
private theorem stays_joinAll
    (belong : AllBelong realm size values) :
    StoreM.Stays realm (Value.Belongs realm) size (Listing.joinAll values) := by
  unfold Listing.joinAll
  split
  case h_1 => exact .pure fun _ _ => trivial
  case h_2 last earlier shape =>
    have all : AllBelong realm size (last :: earlier) := shape ▸ belong.reverse
    have lastBelongs := all.head
    have earlierBelong := all.tail
    clear all shape belong
    induction earlier generalizing size last with
    | nil => exact .answer lastBelongs
    | cons list rest inductionHypothesis =>
        rw [List.foldlM_cons]
        have joined :
            StoreM.Stays realm (Value.Belongs realm) size
              (Store.listItems list >>= fun items =>
                StoreM.change (Store.newListWithTail items last)) :=
          (Store.stays_listItems earlierBelong.head).bind fun later items grown inList =>
            .change (Store.makes_newListWithTail inList (lastBelongs.mono grown))
        exact joined.bind fun later extended grown isExtended =>
          inductionHypothesis extended isExtended (earlierBelong.tail.mono grown)

/-- Operations on lists read, make and change pairs of the realm only. -/
private theorem stays_listing
    (operation : Listing)
    (belong : AllBelong realm size operands) :
    StoreM.Stays realm (Value.Belongs realm) size (operation.run operands) := by
  cases operation with
  | head =>
      refine stays_adapt (fun pair (isPair : Value.Belongs realm size pair) => ?_) belong
      exact (stays_pairOf isPair).bind fun _ _ _ parts => .answer parts.1
  | tail =>
      refine stays_adapt (fun pair (isPair : Value.Belongs realm size pair) => ?_) belong
      exact (stays_pairOf isPair).bind fun _ _ _ parts => .answer parts.2
  | cons => exact stays_adapt (fun _ head _ tail => .change (Store.makes_newPair head tail)) belong
  | setHead =>
      refine stays_adapt (fun pair (isPair : Value.Belongs realm size pair) head isHead => ?_)
        belong
      exact (stays_pairAddress isPair).bind fun _ _ grown owned =>
        Store.stays_setHead owned (Value.Belongs.mono isHead grown)
  | setTail =>
      refine stays_adapt (fun pair (isPair : Value.Belongs realm size pair) tail isTail => ?_)
        belong
      exact (stays_pairAddress isPair).bind fun _ _ grown owned =>
        Store.stays_setTail owned (Value.Belongs.mono isTail grown)
  | list => exact stays_adapt (fun _ items => .change (Store.makes_newList items)) belong
  | length =>
      refine stays_adapt (fun list (isList : Value.Belongs realm size list) => ?_) belong
      exact (stays_itemsOf isList).bind fun _ _ _ _ => .pure fun _ _ => trivial
  | append => exact stays_adapt (fun _ lists => stays_joinAll lists) belong
  | reverse =>
      refine stays_adapt (fun list (isList : Value.Belongs realm size list) => ?_) belong
      refine (stays_itemsOf isList).bind fun later items _ inList => ?_
      exact .change (Store.makes_newListFrom inList
        (show Value.Belongs realm later .nil from trivial))

/-! Vectors, bytevectors, texts and conditions. -/

private theorem stays_refuseKind
    {Answer : Type}
    {fine : Sizes → Answer → Prop}
    {wanted : String} :
    StoreM.Stays realm fine size (refuseKind wanted value) :=
  .failTelling fun _ _ => trivial

/-- The items of the vector belong to the realm. -/
private theorem stays_vectorOf
    (belongs : value.Belongs realm size) :
    StoreM.Stays realm (fun later found => AllBelong realm later found.2.toList) size
      (Sequence.vectorOf value) := by
  unfold Sequence.vectorOf
  split
  case h_1 address =>
    exact .view fun _ reaches =>
      reaches.holds.vectorAt (realm.ownsVector_mono belongs reaches.grown)
  case h_2 => exact stays_refuseKind

private theorem stays_bytevectorOf :
    StoreM.Stays realm (fun _ _ => True) size (Sequence.bytevectorOf value) := by
  unfold Sequence.bytevectorOf
  split
  · exact .view fun _ _ => trivial
  · exact stays_refuseKind

/-- The vector that is looked up is one of the realm. -/
private theorem stays_vectorSize
    (belongs : value.Belongs realm size) :
    StoreM.Stays realm (fun later found => realm.ownsVector later found.1) size
      (Sequence.vectorSize value) := by
  unfold Sequence.vectorSize
  split
  case h_1 address =>
    exact .view fun _ reaches => realm.ownsVector_mono belongs reaches.grown
  case h_2 => exact stays_refuseKind

private theorem stays_bytevectorSize :
    StoreM.Stays realm (fun _ _ => True) size (Sequence.bytevectorSize value) := by
  unfold Sequence.bytevectorSize
  split
  · exact .view fun _ _ => trivial
  · exact stays_refuseKind

/-- An item that is there is fine if all items are. -/
private theorem stays_itemAt
    {Item : Type}
    {fine : Sizes → Item → Prop}
    {items : Array Item}
    {index : Nat}
    (areFine : ∀ item ∈ items, ∀ later, size ≤ later → fine later item) :
    StoreM.Stays realm fine size (Sequence.itemAt items index) := by
  unfold Sequence.itemAt
  split
  case h_1 item found =>
    exact .pure (areFine item (Array.mem_of_getElem? found))
  case h_2 => exact .throw trivial

private theorem stays_checkIndex
    {index length : Nat} :
    StoreM.Stays realm (fun _ _ => True) size (Sequence.checkIndex index length) := by
  unfold Sequence.checkIndex
  split
  · exact .pure fun _ _ => trivial
  · exact .throw trivial

/-- Operations on vectors read, make and change vectors of the realm only. -/
private theorem stays_sequence
    (operation : Sequence)
    (belong : AllBelong realm size operands) :
    StoreM.Stays realm (Value.Belongs realm) size (operation.run operands) := by
  cases operation with
  | vector =>
    exact stays_adapt (fun _ items => .change (Store.makes_newVector_toArray items)) belong
  | makeVector =>
      refine stays_adapt (fun length _ fill (isFill : AllBelong realm size fill) => ?_) belong
      refine .change (Store.makes_newVector fun item member => ?_)
      obtain ⟨-, rfl⟩ := List.mem_replicate.mp (Array.toList_replicate ▸ member)
      cases fill with
      | nil => trivial
      | cons first rest => exact isFill.head
  | vectorItem =>
      refine stays_adapt (fun vector isVector index _ => ?_) belong
      refine (stays_vectorOf isVector).bind fun later found _ inVector => ?_
      exact stays_itemAt fun item member _ grown =>
        Value.Belongs.mono (inVector item (Array.mem_toList_iff.mpr member)) grown
  | setVectorItem =>
      refine stays_adapt (fun vector isVector index _ item isItem => ?_) belong
      refine (stays_vectorSize isVector).bind fun _ _ grown owned =>
        stays_checkIndex.bind fun _ _ more _ => ?_
      exact Store.stays_setVectorItem (realm.ownsVector_mono owned more)
        (Value.Belongs.mono isItem (le_trans grown more))
  | vectorLength =>
      refine stays_adapt (fun vector isVector => ?_) belong
      exact (stays_vectorSize isVector).bind fun _ _ _ _ => .pure fun _ _ => trivial
  | vectorToList =>
      refine stays_adapt (fun vector isVector => ?_) belong
      exact (stays_vectorOf isVector).bind fun _ _ _ items => .change (Store.makes_newList items)
  | listToVector =>
      refine stays_adapt (fun list (isList : Value.Belongs realm size list) => ?_) belong
      exact (Store.stays_listItems isList).bind fun _ _ _ items =>
        .change (Store.makes_newVector_toArray items)
  | bytevector => exact stays_adapt (fun _ _ => .change (Store.makes_newBytevector _)) belong
  | byteItem =>
      refine stays_adapt (fun bytevector _ index _ => ?_) belong
      refine stays_bytevectorOf.bind fun _ _ _ _ => ?_
      exact (stays_itemAt fun _ _ _ _ => trivial).bind fun _ (_ : UInt8) _ (_ : True) =>
        .pure fun _ _ => trivial
  | setByteItem =>
      refine stays_adapt (fun bytevector _ index _ byte isByte => ?_) belong
      refine (StoreM.Stays.look fun store _ => OperandKind.byte.fits_read isByte store _).bind
        fun _ _ _ _ => ?_
      refine stays_bytevectorSize.bind fun _ _ _ _ => stays_checkIndex.bind fun _ _ _ _ => ?_
      exact Store.stays_setByteItem
  | bytevectorLength =>
      refine stays_adapt (fun bytevector _ => ?_) belong
      exact stays_bytevectorSize.bind fun _ _ _ _ => .pure fun _ _ => trivial

/-- Operations on texts answer with texts and lists of texts. -/
private theorem stays_textual
    (engine : Regex.Engine)
    (operation : Textual)
    (belong : AllBelong realm size operands) :
    StoreM.Stays realm (Value.Belongs realm) size (operation.run engine operands) := by
  cases operation with
  | append => exact stays_adapt (fun _ _ => .change (Store.makes_newText _)) belong
  | length => exact stays_adapt (fun _ _ => .pure fun _ _ => trivial) belong
  | symbolToText => exact stays_adapt (fun _ _ => .change (Store.makes_newText _)) belong
  | textToSymbol => exact stays_adapt (fun _ _ => .pure fun _ _ => trivial) belong
  | numberToText => exact stays_adapt (fun _ _ => .change (Store.makes_newText _)) belong
  | regexMatches =>
      refine stays_adapt (fun pattern _ text _ => ?_) belong
      dsimp only
      split
      · exact .pure fun _ _ => trivial
      · exact stays_refuseKind

/-- The irritants of a condition belong to the realm. -/
private theorem stays_conditionOf :
    StoreM.Stays realm (fun later condition => AllBelong realm later condition.irritants) size
      (Signalling.conditionOf value) := by
  unfold Signalling.conditionOf
  split
  · exact .view fun _ reaches => reaches.holds.conditionAt _
  · exact stays_refuseKind

private theorem stays_messageOf :
    StoreM.Stays realm (fun _ _ => True) size (Signalling.messageOf value) := by
  have looked {Answer : Type} (look : Store → Answer) :
      StoreM.Stays realm (fun _ _ => True) size (StoreM.view look) :=
    .view fun _ _ => trivial
  unfold Signalling.messageOf
  split
  · exact looked _
  · refine (looked _).bind fun _ text _ _ => ?_
    cases text with
    | some text => exact .pure fun _ _ => trivial
    | none => exact .throw trivial

/-- What is raised belongs to the realm, and so does what a condition is asked for. -/
private theorem stays_signalling
    (operation : Signalling)
    (belong : AllBelong realm size operands) :
    StoreM.Stays realm (Value.Belongs realm) size (operation.run operands) := by
  cases operation with
  | error =>
      refine stays_adapt (fun message _ irritants (given : AllBelong realm size irritants) => ?_)
        belong
      refine stays_messageOf.bind fun _ message grown _ => ?_
      exact (StoreM.Stays.change (Store.makes_newCondition (given.mono grown))).bind
        fun _ _ _ _ => .throw trivial
  | raise =>
      refine stays_adapt (fun value (isValue : Value.Belongs realm size value) => ?_) belong
      cases value with
      | condition address => exact .throw trivial
      | _ => exact StoreM.Stays.throw (show (Fault.raised _).Belongs realm size from isValue)
  | message =>
      refine stays_adapt (fun value _ => ?_) belong
      exact stays_conditionOf.bind fun _ _ _ _ => .change (Store.makes_newText _)
  | irritants =>
      refine stays_adapt (fun value _ => ?_) belong
      exact stays_conditionOf.bind fun _ _ _ irritants => .change (Store.makes_newList irritants)

/-- A primitive stays within the realm if the functions of the host do. -/
theorem Primitive.stays_apply
    {host : Host}
    (primitive : Primitive)
    (functions :
      ∀ name, StoreM.Stays realm (Value.Belongs realm) size (host.function name operands))
    (belong : AllBelong realm size operands) :
    StoreM.Stays realm (Value.Belongs realm) size (primitive.apply host operands) := by
  unfold Primitive.apply
  split
  · exact .throw trivial
  · cases primitive with
    | arithmetic operation => exact stays_arithmetic operation belong
    | comparison relation => exact stays_comparison relation belong
    | equivalence operation => exact stays_equivalence operation belong
    | listing operation => exact stays_listing operation belong
    | kindTest test => exact stays_kindTest test belong
    | sequence operation => exact stays_sequence operation belong
    | textual operation => exact stays_textual _ operation belong
    | signalling operation => exact stays_signalling operation belong
    | «foreign» name _ => exact functions name

end SmallScheme
