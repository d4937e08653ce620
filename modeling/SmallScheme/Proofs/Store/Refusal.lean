import SmallScheme.Primitive.Basic

namespace SmallScheme

/-!
# Faults of primitives

A primitive refuses a number of operands by its declared arity or not at all.  Every function behind
the declaration fits it: once the declared arity has accepted the operands, whatever fault the
primitive ends with is about their values.  Only functions of the host could do otherwise.
-/

/-- The operation ends with none of these faults. -/
def StoreM.Avoids {Answer : Type} (blamed : Fault → Prop) (action : StoreM Answer) : Prop :=
  ∀ store fault, (action store).1 = .error fault → ¬blamed fault

/-- The operation never fails because of a number of operands. -/
def StoreM.NeverRefuses {Answer : Type} (action : StoreM Answer) : Prop :=
  ∀ store expected given expression,
    (action store).1 ≠ .error (.arity expected given expression)

variable
  {First Second Answer : Type}

namespace StoreM.Avoids

variable {blamed : Fault → Prop}

theorem pure
    (answer : Answer) :
    Avoids blamed (Pure.pure answer : StoreM Answer) :=
  fun _ _ => nofun

theorem view
    (look : Store → Answer) :
    Avoids blamed (StoreM.view look) :=
  fun _ _ => nofun

theorem change
    (action : Store → Answer × Store) :
    Avoids blamed (StoreM.change action) :=
  fun _ _ => nofun

theorem throw
    {fault : Fault}
    (other : ¬blamed fault) :
    Avoids blamed (MonadExcept.throw fault : StoreM Answer) := by
  intro store thrown same
  exact Except.error.inj same ▸ other

theorem fail
    {fault : Store → Fault}
    (other : ∀ store, ¬blamed (fault store)) :
    Avoids blamed (StoreM.fail fault : StoreM Answer) := by
  intro store thrown same
  exact Except.error.inj same ▸ other store

theorem bind
    {first : StoreM First}
    {rest : First → StoreM Second}
    (avoidsFirst : Avoids blamed first)
    (avoidsRest : ∀ answer, Avoids blamed (rest answer)) :
    Avoids blamed (first >>= rest) := by
  intro store fault
  change (ExceptT.bindCont rest (first store).1 (first store).2).1 = _ → _
  cases ended : (first store).1 with
  | ok answer => exact avoidsRest answer _ fault
  | error own => exact fun same => Except.error.inj same ▸ avoidsFirst store own ended

/-- A loop avoids the fault if every turn of it does. -/
theorem foldlM
    {action : First → Second → StoreM First}
    (avoids : ∀ sofar item, Avoids blamed (action sofar item))
    (items : List Second)
    (start : First) :
    Avoids blamed (items.foldlM action start) := by
  induction items generalizing start with
  | nil => exact pure start
  | cons item rest inductionHypothesis =>
      rw [List.foldlM_cons]
      exact bind (avoids start item) inductionHypothesis

theorem mapM
    {action : First → StoreM Second}
    {items : List First}
    (avoids : ∀ item ∈ items, Avoids blamed (action item)) :
    Avoids blamed (items.mapM action) := by
  induction items with
  | nil => exact pure []
  | cons item rest inductionHypothesis =>
      obtain ⟨avoidsItem, avoidsRest⟩ := List.forall_mem_cons.mp avoids
      rw [List.mapM_cons]
      exact bind avoidsItem fun answer => bind (inductionHypothesis avoidsRest) fun _ => pure _

end StoreM.Avoids

namespace StoreM.NeverRefuses

/-- To refuse no number of operands is to avoid the faults that are about such numbers. -/
theorem iff_avoids
    {action : StoreM Answer} :
    NeverRefuses action ↔
      Avoids (fun fault => ∃ expected given expression, fault = .arity expected given expression)
        action := by
  constructor
  · rintro never store fault ended ⟨expected, given, expression, rfl⟩
    exact never store expected given expression ended
  · intro avoids store expected given expression ended
    exact avoids store _ ended ⟨expected, given, expression, rfl⟩

theorem pure
    (answer : Answer) :
    NeverRefuses (Pure.pure answer : StoreM Answer) :=
  iff_avoids.mpr (.pure answer)

theorem view
    (look : Store → Answer) :
    NeverRefuses (StoreM.view look) :=
  iff_avoids.mpr (.view look)

theorem change
    (action : Store → Answer × Store) :
    NeverRefuses (StoreM.change action) :=
  iff_avoids.mpr (.change action)

/-- Faults of every other sort may be thrown. -/
theorem throw
    {fault : Fault}
    (other : ∀ expected given expression, fault ≠ .arity expected given expression) :
    NeverRefuses (MonadExcept.throw fault : StoreM Answer) := by
  refine iff_avoids.mpr (.throw ?_)
  rintro ⟨expected, given, expression, same⟩
  exact other expected given expression same

/-- A fault may tell what the store holds, if it is not about a number of operands. -/
theorem fail
    {fault : Store → Fault}
    (other : ∀ store expected given expression, fault store ≠ .arity expected given expression) :
    NeverRefuses (StoreM.fail fault : StoreM Answer) := by
  refine iff_avoids.mpr (.fail fun store => ?_)
  rintro ⟨expected, given, expression, same⟩
  exact other store expected given expression same

/-- A fault may quote a value, if it is not about a number of operands. -/
theorem failTelling
    {value : Value}
    {fault : String → Fault}
    (other : ∀ text expected given expression, fault text ≠ .arity expected given expression) :
    NeverRefuses (StoreM.failTelling value fault : StoreM Answer) := by
  refine .fail fun store expected given expression => ?_
  exact store.telling_of value (motive := (· ≠ .arity expected given expression))
    (fun text => other text expected given expression) nofun

theorem bind
    {first : StoreM First}
    {rest : First → StoreM Second}
    (neverFirst : NeverRefuses first)
    (neverRest : ∀ answer, NeverRefuses (rest answer)) :
    NeverRefuses (first >>= rest) :=
  iff_avoids.mpr
    (.bind (iff_avoids.mp neverFirst) fun answer => iff_avoids.mp (neverRest answer))

theorem foldlM
    {action : First → Second → StoreM First}
    (never : ∀ sofar item, NeverRefuses (action sofar item))
    (items : List Second)
    (start : First) :
    NeverRefuses (items.foldlM action start) :=
  iff_avoids.mpr (.foldlM (fun sofar item => iff_avoids.mp (never sofar item)) items start)

end StoreM.NeverRefuses

open StoreM

theorem Store.neverRefuses_listItems
    (value : Value) :
    NeverRefuses (Store.listItems value) := by
  refine .bind (.view _) fun items => ?_
  split
  · exact .pure _
  · exact .fail nofun

/-! Operands are read by their kinds. -/

namespace OperandKind

/-- An operand of another kind is refused for its kind. -/
theorem refuse_ne_arity
    (store : Store)
    (wanted : String)
    (value : Value)
    (expected given : Nat)
    (expression : Option String) :
    refuse store wanted value ≠ .arity expected given expression := by
  unfold refuse
  exact store.telling_of value (motive := (· ≠ .arity expected given expression)) nofun nofun

/-- An operand that is of the wrong kind is refused with a fault of its own. -/
theorem neverRefuses_read
    (kind : OperandKind)
    (value : Value) :
    NeverRefuses (fun store => (kind.read store value, store) : StoreM kind.Carrier) := by
  intro store expected given expression
  change read store kind value ≠ _
  have refused (wanted : String) (value : Value) :
      (.error (refuse store wanted value) : Except Fault kind.Carrier) ≠
        .error (.arity expected given expression) :=
    fun same => refuse_ne_arity _ _ _ _ _ _ (Except.error.inj same)
  unfold read
  split
  all_goals first | exact refused _ _ | rintro ⟨⟩ |
    (split <;> first | exact refused _ _ | rintro ⟨⟩)

theorem neverRefuses_readAll
    (kind : OperandKind)
    (values : List Value) :
    NeverRefuses
      (fun store => (kind.readAll store values, store) : StoreM (List kind.Carrier)) := by
  intro store expected given expression
  induction values with
  | nil => exact nofun
  | cons value rest inductionHypothesis =>
      have never := neverRefuses_read kind value store expected given expression
      dsimp only [readAll] at never inductionHypothesis ⊢
      cases read : kind.read store value with
      | error fault =>
          intro same
          exact never (read.trans (congrArg _ (Except.error.inj same)))
      | ok item =>
          cases others : kind.readAll store rest with
          | error fault =>
              intro same
              exact inductionHypothesis (others.trans (congrArg _ (Except.error.inj same)))
          | ok items => exact nofun

end OperandKind

namespace Signature

/-- The native function never refuses, whatever operands it reads. -/
@[reducible]
def BodyNeverRefuses :
    (fixed : List OperandKind) → (rest : Option OperandKind) → BodyOf fixed rest → Prop
  | [], none, body => NeverRefuses body
  | [], some _, body => ∀ items, NeverRefuses (body items)
  | _ :: kinds, rest, body => ∀ item, BodyNeverRefuses kinds rest (body item)

/-- With enough operands for the fixed kinds none is missing. -/
private theorem neverRefuses_feed
    (fixed : List OperandKind)
    (rest : Option OperandKind)
    (body : BodyOf fixed rest)
    (never : BodyNeverRefuses fixed rest body)
    (operands : List Value)
    (enough : fixed.length ≤ operands.length) :
    NeverRefuses (feed fixed rest body operands) := by
  induction fixed generalizing operands with
  | nil =>
      cases rest with
      | none => exact never
      | some kind => exact .bind (kind.neverRefuses_readAll _) never
  | cons kind kinds inductionHypothesis =>
      cases operands with
      | nil => cases enough
      | cons operand operands =>
          refine .bind (kind.neverRefuses_read _) fun item => ?_
          exact inductionHypothesis _ (never item) _ (Nat.le_of_succ_le_succ enough)

/-- Only the count of operands is refused, so that a body that never does refuses nothing. -/
theorem neverRefuses_adapt
    {signature : Signature}
    {body : signature.Body}
    {operands : List Value}
    (accepts : signature.arity.accepts operands.length)
    (never : BodyNeverRefuses signature.fixed signature.rest body) :
    NeverRefuses (signature.adapt body operands) := by
  have enough : signature.fixed.length ≤ operands.length := by
    unfold arity at accepts
    cases rest : signature.rest with
    | none =>
        rw [rest] at accepts
        exact Nat.le_of_eq accepts.symm
    | some kind =>
        rw [rest] at accepts
        exact accepts
  unfold adapt
  rw [Arity.refuses?_eq_none_iff.mpr accepts]
  exact neverRefuses_feed _ _ _ never _ enough

end Signature

open Signature

/-! Numbers. -/

/-- A result that does not fit a word is an overflow. -/
private theorem neverRefuses_fitting
    (operation : String)
    (result : Option Number) :
    NeverRefuses (fitting operation result) := by
  cases result with
  | none => exact .throw nofun
  | some number => exact .pure _

/-- A division by zero is refused with a fault of its own. -/
private theorem neverRefuses_divideNumbers
    (dividend divisor : Number) :
    NeverRefuses (divideNumbers dividend divisor) := by
  unfold divideNumbers
  split
  · exact .throw nofun
  · exact neverRefuses_fitting _ _

/-- Whole divisions are refused for a zero divisor and for overflow only. -/
private theorem neverRefuses_wholeDivision
    (part : Int → Int → Int)
    (dividend divisor : Int64) :
    NeverRefuses (wholeDivision part dividend divisor) := by
  unfold wholeDivision
  split
  · exact .throw nofun
  · split
    · exact .pure _
    · exact .throw nofun

/-- Operands that are folded are all taken. -/
private theorem neverRefuses_foldNumbers
    {combine : Number → Number → StoreM Number}
    (never : ∀ first second, NeverRefuses (combine first second))
    (first : Number)
    (rest : List Number) :
    NeverRefuses (Arithmetic.foldNumbers combine first rest) :=
  .bind (.foldlM never _ _) fun _ => .pure _

variable {operands : List Value}

/-- Arithmetic takes any operands whose count it accepts. -/
private theorem neverRefuses_arithmetic
    (operation : Arithmetic)
    (accepts : (Primitive.arithmetic operation).arity.accepts operands.length) :
    NeverRefuses (operation.run operands) := by
  cases operation with
  | add =>
      exact neverRefuses_adapt (Nat.zero_le _) fun _ =>
        neverRefuses_foldNumbers (fun _ _ => neverRefuses_fitting _ _) _ _
  | multiply =>
      exact neverRefuses_adapt (Nat.zero_le _) fun _ =>
        neverRefuses_foldNumbers (fun _ _ => neverRefuses_fitting _ _) _ _
  | subtract =>
      refine neverRefuses_adapt accepts fun first rest => ?_
      cases rest with
      | nil => exact .bind (neverRefuses_fitting _ _) fun _ => .pure _
      | cons => exact neverRefuses_foldNumbers (fun _ _ => neverRefuses_fitting _ _) _ _
  | divide =>
      refine neverRefuses_adapt accepts fun first rest => ?_
      cases rest with
      | nil => exact .bind (neverRefuses_divideNumbers _ _) fun _ => .pure _
      | cons => exact neverRefuses_foldNumbers neverRefuses_divideNumbers _ _
  | quotient => exact neverRefuses_adapt accepts (neverRefuses_wholeDivision _)
  | remainder => exact neverRefuses_adapt accepts (neverRefuses_wholeDivision _)
  | modulo => exact neverRefuses_adapt accepts (neverRefuses_wholeDivision _)
  | absolute =>
      exact neverRefuses_adapt accepts fun _ => .bind (neverRefuses_fitting _ _) fun _ => .pure _
  | maximum => exact neverRefuses_adapt accepts fun _ _ => .pure _
  | minimum => exact neverRefuses_adapt accepts fun _ _ => .pure _

/-- Comparisons take any operands whose count they accept. -/
private theorem neverRefuses_comparison
    (relation : Comparison)
    (accepts : (Primitive.comparison relation).arity.accepts operands.length) :
    NeverRefuses (relation.run operands) :=
  neverRefuses_adapt (Nat.le_of_succ_le accepts) fun _ _ => .pure _

/-! Equivalences, pairs, lists and tests of kind. -/

/-- Equivalences take any two operands. -/
private theorem neverRefuses_equivalence
    (operation : Equivalence)
    (accepts : (Primitive.equivalence operation).arity.accepts operands.length) :
    NeverRefuses (operation.run operands) := by
  cases operation with
  | negation => exact neverRefuses_adapt accepts fun _ => .pure _
  | same => exact neverRefuses_adapt accepts fun _ _ => .view _
  | equivalent => exact neverRefuses_adapt accepts fun _ _ => .view _
  | alike => exact neverRefuses_adapt accepts fun _ _ => .view _

/-- What is no pair is refused for its kind. -/
private theorem neverRefuses_pairAddress
    (operation : String)
    (value : Value) :
    NeverRefuses (Listing.pairAddress operation value) := by
  unfold Listing.pairAddress
  split
  · exact .pure _
  · exact .failTelling nofun

private theorem neverRefuses_pairOf
    (operation : String)
    (value : Value) :
    NeverRefuses (Listing.pairOf operation value) :=
  .bind (neverRefuses_pairAddress _ _) fun _ => .view _

/-- What is no list is refused for its kind. -/
private theorem neverRefuses_itemsOf
    (operation : String)
    (value : Value) :
    NeverRefuses (Listing.itemsOf operation value) := by
  refine .bind (.view _) fun items => ?_
  split
  · exact .pure _
  · exact .fail nofun

/-- Operations on lists take any operands whose count they accept. -/
private theorem neverRefuses_listing
    (operation : Listing)
    (accepts : (Primitive.listing operation).arity.accepts operands.length) :
    NeverRefuses (operation.run operands) := by
  cases operation with
  | head =>
      exact neverRefuses_adapt accepts fun _ => .bind (neverRefuses_pairOf _ _) fun _ => .pure _
  | tail =>
      exact neverRefuses_adapt accepts fun _ => .bind (neverRefuses_pairOf _ _) fun _ => .pure _
  | cons => exact neverRefuses_adapt accepts fun _ _ => .change _
  | setHead =>
      exact neverRefuses_adapt accepts fun _ _ =>
        .bind (neverRefuses_pairAddress _ _) fun _ => .change _
  | setTail =>
      exact neverRefuses_adapt accepts fun _ _ =>
        .bind (neverRefuses_pairAddress _ _) fun _ => .change _
  | list => exact neverRefuses_adapt (Nat.zero_le _) fun _ => .change _
  | length =>
      exact neverRefuses_adapt accepts fun _ => .bind (neverRefuses_itemsOf _ _) fun _ => .pure _
  | append =>
      refine neverRefuses_adapt (Nat.zero_le _) fun lists => ?_
      unfold Listing.joinAll
      split
      · exact .pure _
      · refine .foldlM (fun joined list => ?_) _ _
        exact .bind (Store.neverRefuses_listItems _) fun items => .change _
  | reverse =>
      exact neverRefuses_adapt accepts fun _ => .bind (neverRefuses_itemsOf _ _) fun _ => .change _

/-- Every operand may be tested for a kind. -/
private theorem neverRefuses_kindTest
    (test : KindTest)
    (accepts : (Primitive.kindTest test).arity.accepts operands.length) :
    NeverRefuses (test.run operands) :=
  neverRefuses_adapt accepts fun _ => .view _

/-! Vectors, bytevectors, texts and conditions. -/

/-- To refuse an operand for its kind is not to refuse a count. -/
private theorem neverRefuses_refuseKind
    (wanted : String)
    (value : Value) :
    NeverRefuses (refuseKind wanted value : StoreM Answer) :=
  .fail fun store => OperandKind.refuse_ne_arity store wanted value

private theorem neverRefuses_vectorOf
    (value : Value) :
    NeverRefuses (Sequence.vectorOf value) := by
  unfold Sequence.vectorOf
  split
  · exact .view _
  · exact neverRefuses_refuseKind _ _

private theorem neverRefuses_bytevectorOf
    (value : Value) :
    NeverRefuses (Sequence.bytevectorOf value) := by
  unfold Sequence.bytevectorOf
  split
  · exact .view _
  · exact neverRefuses_refuseKind _ _

private theorem neverRefuses_vectorSize
    (value : Value) :
    NeverRefuses (Sequence.vectorSize value) := by
  unfold Sequence.vectorSize
  split
  · exact .view _
  · exact neverRefuses_refuseKind _ _

private theorem neverRefuses_bytevectorSize
    (value : Value) :
    NeverRefuses (Sequence.bytevectorSize value) := by
  unfold Sequence.bytevectorSize
  split
  · exact .view _
  · exact neverRefuses_refuseKind _ _

/-- An index that is out of range is refused as such. -/
private theorem neverRefuses_itemAt
    {Item : Type}
    (items : Array Item)
    (index : Nat) :
    NeverRefuses (Sequence.itemAt items index) := by
  unfold Sequence.itemAt
  split
  · exact .pure _
  · exact .throw nofun

private theorem neverRefuses_checkIndex
    (index length : Nat) :
    NeverRefuses (Sequence.checkIndex index length) := by
  unfold Sequence.checkIndex
  split
  · exact .pure _
  · exact .throw nofun

/-- Operations on vectors take any operands whose count they accept. -/
private theorem neverRefuses_sequence
    (operation : Sequence)
    (accepts : (Primitive.sequence operation).arity.accepts operands.length) :
    NeverRefuses (operation.run operands) := by
  cases operation with
  | vector => exact neverRefuses_adapt (Nat.zero_le _) fun _ => .change _
  | makeVector => exact neverRefuses_adapt accepts.1 fun _ _ => .change _
  | vectorItem =>
      exact neverRefuses_adapt accepts fun _ _ =>
        .bind (neverRefuses_vectorOf _) fun _ => neverRefuses_itemAt _ _
  | setVectorItem =>
      exact neverRefuses_adapt accepts fun _ _ _ =>
        .bind (neverRefuses_vectorSize _) fun _ =>
          .bind (neverRefuses_checkIndex _ _) fun _ => .change _
  | vectorLength =>
      exact neverRefuses_adapt accepts fun _ => .bind (neverRefuses_vectorSize _) fun _ => .pure _
  | vectorToList =>
      exact neverRefuses_adapt accepts fun _ => .bind (neverRefuses_vectorOf _) fun _ => .change _
  | listToVector =>
      exact neverRefuses_adapt accepts fun _ =>
        .bind (Store.neverRefuses_listItems _) fun _ => .change _
  | bytevector => exact neverRefuses_adapt (Nat.zero_le _) fun _ => .change _
  | byteItem =>
      exact neverRefuses_adapt accepts fun _ _ =>
        .bind (neverRefuses_bytevectorOf _) fun _ =>
          .bind (neverRefuses_itemAt _ _) fun _ => .pure _
  | setByteItem =>
      exact neverRefuses_adapt accepts fun _ _ _ =>
        .bind (OperandKind.neverRefuses_read .byte _) fun _ =>
          .bind (neverRefuses_bytevectorSize _) fun _ =>
            .bind (neverRefuses_checkIndex _ _) fun _ => .change _
  | bytevectorLength =>
      exact neverRefuses_adapt accepts fun _ =>
        .bind (neverRefuses_bytevectorSize _) fun _ => .pure _

/-- Operations on texts take any operands whose count they accept. -/
private theorem neverRefuses_textual
    (engine : Regex.Engine)
    (operation : Textual)
    (accepts : (Primitive.textual operation).arity.accepts operands.length) :
    NeverRefuses (operation.run engine operands) := by
  cases operation with
  | append => exact neverRefuses_adapt (Nat.zero_le _) fun _ => .change _
  | length => exact neverRefuses_adapt accepts fun _ => .pure _
  | symbolToText => exact neverRefuses_adapt accepts fun _ => .change _
  | textToSymbol => exact neverRefuses_adapt accepts fun _ => .pure _
  | numberToText => exact neverRefuses_adapt accepts fun _ => .change _
  | regexMatches =>
      refine neverRefuses_adapt accepts fun (pattern : Value) text => ?_
      change NeverRefuses _
      dsimp only
      split
      · exact .pure _
      · exact neverRefuses_refuseKind _ _

/-- What is no condition is refused for its kind. -/
private theorem neverRefuses_conditionOf
    (value : Value) :
    NeverRefuses (Signalling.conditionOf value) := by
  unfold Signalling.conditionOf
  split
  · exact .view _
  · exact neverRefuses_refuseKind _ _

private theorem neverRefuses_messageOf
    (value : Value) :
    NeverRefuses (Signalling.messageOf value) := by
  unfold Signalling.messageOf
  split
  · exact .view _
  · refine .bind (.view _) fun text => ?_
    cases text with
    | some text => exact .pure _
    | none => exact .throw nofun

/-- What is raised may be any operand, and it is no fault about a count. -/
private theorem neverRefuses_signalling
    (operation : Signalling)
    (accepts : (Primitive.signalling operation).arity.accepts operands.length) :
    NeverRefuses (operation.run operands) := by
  cases operation with
  | error =>
      exact neverRefuses_adapt accepts fun _ _ =>
        .bind (neverRefuses_messageOf _) fun _ => .bind (.change _) fun _ => .throw nofun
  | raise =>
      refine neverRefuses_adapt accepts fun (value : Value) => ?_
      cases value <;> exact .throw nofun
  | message =>
      exact neverRefuses_adapt accepts fun _ =>
        .bind (neverRefuses_conditionOf _) fun _ => .change _
  | irritants =>
      exact neverRefuses_adapt accepts fun _ =>
        .bind (neverRefuses_conditionOf _) fun _ => .change _

/-- The primitive is a function of the host. -/
def Primitive.isForeign : Primitive → Bool
  | .foreign _ _ => true
  | _ => false

/-- What the declared arity accepts, only a function of the host could still refuse. -/
theorem Primitive.neverRefuses_run
    {primitive : Primitive}
    (host : Host)
    (own : primitive.isForeign = false)
    (accepts : primitive.arity.accepts operands.length) :
    NeverRefuses (primitive.run host operands) := by
  cases primitive with
  | arithmetic operation => exact neverRefuses_arithmetic _ accepts
  | comparison relation => exact neverRefuses_comparison _ accepts
  | equivalence operation => exact neverRefuses_equivalence _ accepts
  | listing operation => exact neverRefuses_listing _ accepts
  | kindTest test => exact neverRefuses_kindTest _ accepts
  | sequence operation => exact neverRefuses_sequence _ accepts
  | textual operation => exact neverRefuses_textual _ _ accepts
  | signalling operation => exact neverRefuses_signalling _ accepts
  | «foreign» name declared => cases own

end SmallScheme
