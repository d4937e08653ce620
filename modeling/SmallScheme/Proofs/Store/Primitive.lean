import SmallScheme.Proofs.Store.Lexical
import SmallScheme.Proofs.Store.Refusal

namespace SmallScheme

/-!
# What primitives do to the store

Four primitives write to an object that is there already.  All the others only add objects, so they
keep every property that survives added objects.  No primitive touches the frames or the procedures;
only the functions of the host could, so a primitive keeps a lexical property if the functions of
the host keep it.
-/

/-- The primitive writes to an object that is there already. -/
def Primitive.isMutator : Primitive → Bool
  | .listing .setHead => true
  | .listing .setTail => true
  | .sequence .setVectorItem => true
  | .sequence .setByteItem => true
  | _ => false

variable {sound : Store → Prop}

namespace Signature

/-- The native function keeps the property, whatever operands it reads. -/
@[reducible]
def BodyKeeps
    (sound : Store → Prop) :
    (fixed : List OperandKind) → (rest : Option OperandKind) → BodyOf fixed rest → Prop
  | [], none, body => StoreM.Keeps sound body
  | [], some _, body => ∀ items, StoreM.Keeps sound (body items)
  | _ :: kinds, rest, body => ∀ item, BodyKeeps sound kinds rest (body item)

/-- Operands are read before the body runs, and a refusal changes nothing. -/
private theorem keeps_feed
    (fixed : List OperandKind)
    (rest : Option OperandKind)
    (body : BodyOf fixed rest)
    (keeps : BodyKeeps sound fixed rest body)
    (operands : List Value) :
    StoreM.Keeps sound (feed fixed rest body operands) := by
  induction fixed generalizing operands with
  | nil =>
      cases rest with
      | none =>
          exact keeps
      | some kind =>
          exact .bind (.read _) keeps
  | cons kind kinds inductionHypothesis =>
      cases operands with
      | nil =>
          exact .throw _
      | cons operand operands =>
          exact .bind (.read _) fun item => inductionHypothesis _ (keeps item) _

/-- An operation keeps what its body keeps. -/
theorem keeps_adapt
    {signature : Signature}
    {body : signature.Body}
    (keeps : BodyKeeps sound signature.fixed signature.rest body)
    (operands : List Value) :
    StoreM.Keeps sound (signature.adapt body operands) := by
  unfold adapt
  split
  · exact .throw _
  · exact keeps_feed _ _ _ keeps _

end Signature

open Signature

/-! Numbers. -/

/-- A result is only checked. -/
private theorem keeps_fitting
    (operation : String)
    (result : Option Number) :
    StoreM.Keeps sound (fitting operation result) := by
  cases result with
  | none =>
      exact .throw _
  | some number =>
      exact .pure _

private theorem keeps_divideNumbers
    (dividend divisor : Number) :
    StoreM.Keeps sound (divideNumbers dividend divisor) := by
  unfold divideNumbers
  split
  · exact .throw _
  · exact keeps_fitting _ _

private theorem keeps_wholeDivision
    (part : Int → Int → Int)
    (dividend divisor : Int64) :
    StoreM.Keeps sound (wholeDivision part dividend divisor) := by
  unfold wholeDivision
  split
  · exact .throw _
  · split
    · exact .pure _
    · exact .throw _

/-- Numbers are folded without a change to the store. -/
private theorem keeps_foldNumbers
    {combine : Number → Number → StoreM Number}
    (keeps : ∀ first second, StoreM.Keeps sound (combine first second))
    (first : Number)
    (rest : List Number) :
    StoreM.Keeps sound (Arithmetic.foldNumbers combine first rest) :=
  .bind (.foldlM keeps _ _) fun _ => .pure _

/-- Arithmetic changes no store. -/
private theorem keeps_arithmetic
    (operation : Arithmetic)
    (operands : List Value) :
    StoreM.Keeps sound (operation.run operands) := by
  cases operation with
  | add =>
      exact keeps_adapt (fun _ => keeps_foldNumbers (fun _ _ => keeps_fitting _ _) _ _) _
  | multiply =>
      exact keeps_adapt (fun _ => keeps_foldNumbers (fun _ _ => keeps_fitting _ _) _ _) _
  | subtract =>
      refine keeps_adapt (fun first rest => ?_) _
      dsimp only
      split
      · exact .bind (keeps_fitting _ _) fun _ => .pure _
      · exact keeps_foldNumbers (fun _ _ => keeps_fitting _ _) _ _
  | divide =>
      refine keeps_adapt (fun first rest => ?_) _
      dsimp only
      split
      · exact .bind (keeps_divideNumbers _ _) fun _ => .pure _
      · exact keeps_foldNumbers keeps_divideNumbers _ _
  | quotient =>
      exact keeps_adapt (keeps_wholeDivision _) _
  | remainder =>
      exact keeps_adapt (keeps_wholeDivision _) _
  | modulo =>
      exact keeps_adapt (keeps_wholeDivision _) _
  | absolute =>
      exact keeps_adapt (fun _ => .bind (keeps_fitting _ _) fun _ => .pure _) _
  | maximum =>
      exact keeps_adapt (fun _ _ => .pure _) _
  | minimum =>
      exact keeps_adapt (fun _ _ => .pure _) _

/-- Comparisons change no store. -/
private theorem keeps_comparison
    (relation : Comparison)
    (operands : List Value) :
    StoreM.Keeps sound (relation.run operands) :=
  keeps_adapt (fun _ _ => .pure _) _

/-! Equivalences, pairs, lists and tests of kind. -/

/-- Equivalences only look at the store. -/
private theorem keeps_equivalence
    (operation : Equivalence)
    (operands : List Value) :
    StoreM.Keeps sound (operation.run operands) := by
  cases operation with
  | negation =>
      exact keeps_adapt (fun _ => .pure _) _
  | same =>
      exact keeps_adapt (fun _ _ => .view _) _
  | equivalent =>
      exact keeps_adapt (fun _ _ => .view _) _
  | alike =>
      exact keeps_adapt (fun _ _ => .view _) _

/-- A pair is looked up, and what is no pair is refused. -/
private theorem keeps_pairAddress
    (operation : String)
    (value : Value) :
    StoreM.Keeps sound (Listing.pairAddress operation value) := by
  unfold Listing.pairAddress
  split
  · exact .pure _
  · exact .fail _

private theorem keeps_pairOf
    (operation : String)
    (value : Value) :
    StoreM.Keeps sound (Listing.pairOf operation value) :=
  .bind (keeps_pairAddress _ _) fun _ => .view _

/-- The items of a list are read. -/
private theorem keeps_itemsOf
    (operation : String)
    (value : Value) :
    StoreM.Keeps sound (Listing.itemsOf operation value) := by
  refine .bind (.view _) fun items => ?_
  split
  · exact .pure _
  · exact .fail _

/-- Kinds are only looked at. -/
private theorem keeps_kindTest
    (test : KindTest)
    (operands : List Value) :
    StoreM.Keeps sound (test.run operands) :=
  keeps_adapt (fun _ => .view _) _

/-! Vectors, bytevectors, texts and conditions. -/

/-- A vector is looked up, and what is no vector is refused. -/
private theorem keeps_vectorOf
    (value : Value) :
    StoreM.Keeps sound (Sequence.vectorOf value) := by
  unfold Sequence.vectorOf
  split
  · exact .view _
  · exact .fail _

/-- A bytevector is looked up, and what is no bytevector is refused. -/
private theorem keeps_bytevectorOf
    (value : Value) :
    StoreM.Keeps sound (Sequence.bytevectorOf value) := by
  unfold Sequence.bytevectorOf
  split
  · exact .view _
  · exact .fail _

private theorem keeps_vectorSize
    (value : Value) :
    StoreM.Keeps sound (Sequence.vectorSize value) := by
  unfold Sequence.vectorSize
  split
  · exact .view _
  · exact .fail _

private theorem keeps_bytevectorSize
    (value : Value) :
    StoreM.Keeps sound (Sequence.bytevectorSize value) := by
  unfold Sequence.bytevectorSize
  split
  · exact .view _
  · exact .fail _

/-- An item is looked up by its index. -/
private theorem keeps_itemAt
    {Item : Type}
    (items : Array Item)
    (index : Nat) :
    StoreM.Keeps sound (Sequence.itemAt items index) := by
  unfold Sequence.itemAt
  split
  · exact .pure _
  · exact .throw _

/-- An index is only checked. -/
private theorem keeps_checkIndex
    (index length : Nat) :
    StoreM.Keeps sound (Sequence.checkIndex index length) := by
  unfold Sequence.checkIndex
  split
  · exact .pure _
  · exact .throw _

/-- A condition is looked up, and what is none is refused. -/
private theorem keeps_conditionOf
    (value : Value) :
    StoreM.Keeps sound (Signalling.conditionOf value) := by
  unfold Signalling.conditionOf
  split
  · exact .view _
  · exact .fail _

variable [Store.SurvivesAdding sound]

/-- A fresh text is no scope. -/
private theorem keeps_newText
    (text : String) :
    StoreM.Keeps sound (StoreM.change (Store.newText text)) :=
  .change fun _ => Store.SurvivesAdding.newText text

/-- A fresh vector is no scope. -/
private theorem keeps_newVector
    (items : Array Value) :
    StoreM.Keeps sound (StoreM.change (Store.newVector items)) :=
  .change fun _ => Store.SurvivesAdding.newVector items

/-- Operations on lists that are no mutators add objects at most. -/
private theorem keeps_listing
    (operation : Listing)
    (still : (Primitive.listing operation).isMutator = false)
    (operands : List Value) :
    StoreM.Keeps sound (operation.run operands) := by
  cases operation with
  | head =>
      exact keeps_adapt (fun _ => .bind (keeps_pairOf _ _) fun _ => .pure _) _
  | tail =>
      exact keeps_adapt (fun _ => .bind (keeps_pairOf _ _) fun _ => .pure _) _
  | cons =>
      refine keeps_adapt (fun head tail => .change fun _ => ?_) _
      exact Store.SurvivesAdding.newPair head tail
  | setHead =>
      cases still
  | setTail =>
      cases still
  | list =>
      exact keeps_adapt (fun _ => Store.keeps_newList _) _
  | length =>
      exact keeps_adapt (fun _ => .bind (keeps_itemsOf _ _) fun _ => .pure _) _
  | append =>
      refine keeps_adapt (fun lists => ?_) _
      unfold Listing.joinAll
      split
      · exact .pure _
      · refine .foldlM (fun joined list => .bind (Store.keeps_listItems _) fun items => ?_) _ _
        exact Store.keeps_newListWithTail _ _
  | reverse =>
      exact keeps_adapt (fun _ => .bind (keeps_itemsOf _ _) fun _ => Store.keeps_newListFrom _ _) _

/-- Operations on vectors that are no mutators add objects at most. -/
private theorem keeps_sequence
    (operation : Sequence)
    (still : (Primitive.sequence operation).isMutator = false)
    (operands : List Value) :
    StoreM.Keeps sound (operation.run operands) := by
  cases operation with
  | vector =>
      exact keeps_adapt (fun _ => keeps_newVector _) _
  | makeVector =>
      exact keeps_adapt (fun _ _ => keeps_newVector _) _
  | vectorItem =>
      exact keeps_adapt (fun _ _ => .bind (keeps_vectorOf _) fun _ => keeps_itemAt _ _) _
  | setVectorItem =>
      cases still
  | vectorLength =>
      exact keeps_adapt (fun _ => .bind (keeps_vectorSize _) fun _ => .pure _) _
  | vectorToList =>
      exact keeps_adapt (fun _ => .bind (keeps_vectorOf _) fun _ => Store.keeps_newList _) _
  | listToVector =>
      exact keeps_adapt (fun _ => .bind (Store.keeps_listItems _) fun _ => keeps_newVector _) _
  | bytevector =>
      refine keeps_adapt (fun bytes => .change fun _ => ?_) _
      exact Store.SurvivesAdding.newBytevector bytes.toArray
  | byteItem =>
      refine keeps_adapt (fun bytevector index => .bind (keeps_bytevectorOf _) fun found => ?_) _
      exact .bind (keeps_itemAt _ _) fun _ => .pure _
  | setByteItem =>
      cases still
  | bytevectorLength =>
      exact keeps_adapt (fun _ => .bind (keeps_bytevectorSize _) fun _ => .pure _) _

/-- Operations on texts add texts at most. -/
private theorem keeps_textual
    (engine : Regex.Engine)
    (operation : Textual)
    (operands : List Value) :
    StoreM.Keeps sound (operation.run engine operands) := by
  cases operation with
  | append =>
      exact keeps_adapt (fun _ => keeps_newText _) _
  | length =>
      exact keeps_adapt (fun _ => .pure _) _
  | symbolToText =>
      exact keeps_adapt (fun _ => keeps_newText _) _
  | textToSymbol =>
      exact keeps_adapt (fun _ => .pure _) _
  | numberToText =>
      exact keeps_adapt (fun _ => keeps_newText _) _
  | regexMatches =>
      refine keeps_adapt (fun pattern text => ?_) _
      change StoreM.Keeps sound _
      dsimp only
      split
      · exact .pure _
      · exact .fail _

omit [Store.SurvivesAdding sound] in
/-- The message of a condition is made a text. -/
private theorem keeps_messageOf
    (value : Value) :
    StoreM.Keeps sound (Signalling.messageOf value) := by
  unfold Signalling.messageOf
  split
  · exact .view _
  · refine .bind (.view _) fun text => ?_
    cases text with
    | some text => exact .pure _
    | none => exact .throw _

/-- To signal makes a condition at most, and unwinds. -/
private theorem keeps_signalling
    (operation : Signalling)
    (operands : List Value) :
    StoreM.Keeps sound (operation.run operands) := by
  cases operation with
  | error =>
      refine keeps_adapt (fun message irritants => .bind (keeps_messageOf _) fun text => ?_) _
      refine .bind (.change fun _ => ?_) fun _ => .throw _
      exact Store.SurvivesAdding.newCondition ⟨text, irritants⟩
  | raise =>
      refine keeps_adapt (fun (value : Value) => ?_) _
      cases value <;> exact .throw _
  | message =>
      exact keeps_adapt (fun _ => .bind (keeps_conditionOf _) fun _ => keeps_newText _) _
  | irritants =>
      exact keeps_adapt (fun _ => .bind (keeps_conditionOf _) fun _ => Store.keeps_newList _) _

namespace Primitive

/-- A primitive of the language that is no mutator only adds objects. -/
theorem keeps_run
    {primitive : Primitive}
    (host : Host)
    (own : primitive.isForeign = false)
    (still : primitive.isMutator = false)
    (operands : List Value) :
    StoreM.Keeps sound (primitive.run host operands) := by
  cases primitive with
  | arithmetic operation => exact keeps_arithmetic _ _
  | comparison relation => exact keeps_comparison _ _
  | equivalence operation => exact keeps_equivalence _ _
  | listing operation => exact keeps_listing _ still _
  | kindTest test => exact keeps_kindTest _ _
  | sequence operation => exact keeps_sequence _ still _
  | textual operation => exact keeps_textual _ _ _
  | signalling operation => exact keeps_signalling _ _
  | «foreign» name _ => cases own

/-- What a mutator writes to is outside the lexical part. -/
private theorem keeps_mutator
    {sound : Store → Prop}
    [Store.Lexical sound]
    {primitive : Primitive}
    (host : Host)
    (mutates : primitive.isMutator = true)
    (operands : List Value) :
    StoreM.Keeps sound (primitive.run host operands) := by
  unfold isMutator at mutates
  split at mutates
  case h_1 =>
    refine keeps_adapt (fun pair head => .bind (keeps_pairAddress _ _) fun address => ?_) _
    exact Store.keeps_outside (fun _ => rfl) fun _ => rfl
  case h_2 =>
    refine keeps_adapt (fun pair tail => .bind (keeps_pairAddress _ _) fun address => ?_) _
    exact Store.keeps_outside (fun _ => rfl) fun _ => rfl
  case h_3 =>
    refine keeps_adapt (fun vector index item => .bind (keeps_vectorSize _) fun found => ?_) _
    refine .bind (keeps_checkIndex _ _) fun _ => ?_
    exact Store.keeps_outside (fun _ => rfl) fun _ => rfl
  case h_4 =>
    refine keeps_adapt (fun bytevector index value => .bind (.read _) fun byte => ?_) _
    refine .bind (keeps_bytevectorSize _) fun found => .bind (keeps_checkIndex _ _) fun _ => ?_
    exact Store.keeps_outside (fun _ => rfl) fun _ => rfl
  case h_5 =>
    cases mutates

/-- A primitive keeps of the lexical part what the functions of the host keep. -/
theorem keeps_apply
    {sound : Store → Prop}
    [Store.Lexical sound]
    {host : Host}
    (functions : ∀ name operands, StoreM.Keeps sound (host.function name operands))
    (primitive : Primitive)
    (operands : List Value) :
    StoreM.Keeps sound (primitive.apply host operands) := by
  unfold apply
  split
  · exact .throw _
  · cases mutates : primitive.isMutator with
    | true => exact keeps_mutator host mutates operands
    | false =>
        cases own : primitive.isForeign with
        | false => exact keeps_run host own mutates operands
        | true =>
            cases primitive with
            | «foreign» name _ => exact functions _ _
            | _ => cases own

end Primitive

end SmallScheme
