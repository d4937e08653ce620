import SmallScheme.Datum.Printer
import SmallScheme.Store.Chain

namespace SmallScheme

/-!
# Values as data

What a value looks like: the finite tree that is unfolded from the store.  A chain of pairs is
followed by a second walk at half the speed; where the first is about to step onto the pair the
second has reached, the chain is circular and the list is cut.
-/

namespace Store

/-- How the unfolding of a chain ends. -/
inductive ChainView
  | closed (tail : Value)
  | revisits

/--
The heads along a chain of pairs from an address, put before the reversed list `sofar`.  The
follower moves on every second step.
-/
def unfoldChain
    (store : Store) : Nat → Bool → Nat → List Value → Nat → List Value × ChainView
  | 0, _, _, sofar, _ => (sofar.reverse, .revisits)
  | steps + 1, follows, follower, sofar, address =>
      match store.pairs[address]? with
      | none => (sofar.reverse, .closed (.pair address))
      | some pair =>
          let follower :=
            if follows then
              match store.pair? (.pair follower) with
              | some ⟨_, .pair next⟩ => next
              | _ => follower
            else
              follower
          let sofar := pair.head :: sofar
          match pair.tail with
          | .pair next =>
              if next = follower then
                (sofar.reverse, .revisits)
              else
                unfoldChain store steps (!follows) follower sofar next
          | tail => (sofar.reverse, .closed tail)

/-- The name of a procedure in angle brackets. -/
def procedureText (store : Store) (address : Nat) : String :=
  match store.procedures[address]?.bind Procedure.name with
  | some name => "#<procedure " ++ name ++ ">"
  | none => "#<procedure>"

/-- The message of a condition and its irritants in angle brackets. -/
def irritatedText (message : String) (irritants : List Datum) : String :=
  let shown := irritants.flatMap fun irritant => ' ' :: Datum.render .whole irritant
  String.ofList ("#<error ".toList ++ Datum.textChars message ++ shown ++ ['>'])

/-- The datum that shows a value, unless some part of it lies too many levels deep. -/
def datumWithin? (store : Store) : Nat → Value → Option Datum
  | 0, _ => none
  | depth + 1, value =>
      let handle (text : String) : Option Datum := some (.handle value.kindName text)
      match value with
      | .nil => some .nil
      | .unspecified => some .unspecified
      | .integer value => some (.integer value)
      | .real value => some (.real value)
      | .boolean value => some (.boolean value)
      | .character value => some (.character value)
      | .symbol name => some (.symbol name)
      | .scoped name _ => handle name
      | .text address => some (.text (store.textAt address))
      | .pair address => do
          let (heads, ending) :=
            store.unfoldChain (2 * store.pairs.size + 2) false address [] address
          let items ← heads.mapM (datumWithin? store depth)
          match ending with
          | .closed tail => return Datum.listWithTail items (← datumWithin? store depth tail)
          | .revisits => return .circular items
      | .vector address => do
          return .vector (← (store.vectorAt address).toList.mapM (datumWithin? store depth))
      | .bytevector address => some (.bytevector (store.bytevectorAt address).toList)
      | .marked mark address => do
          return .marked mark (← datumWithin? store depth (store.markedAt address))
      | .regex pattern => some (.regex pattern)
      | .program address => do
          return .program (← (store.programAt address).mapM (datumWithin? store depth))
      | .procedure address => handle (store.procedureText address)
      | .primitive operation => handle ("#<builtin-function:" ++ operation.name ++ ">")
      | .special form => handle ("#<special-form:" ++ form.name ++ ">")
      | .transformer address =>
          let name := (store.transformers[address]?.map Transformer.name).getD ""
          handle ("#<syntax " ++ name ++ ">")
      | .escape _ => handle "#<continuation>"
      | .parameter _ => handle "#<parameter>"
      | .condition address => do
          let condition := store.conditionAt address
          let irritants ← condition.irritants.mapM (datumWithin? store depth)
          handle (irritatedText condition.message irritants)
      | .foreign address =>
          let name := (store.foreigns[address]?.map ForeignObject.name).getD ""
          handle ("#<foreign " ++ name ++ ">")

/--
The datum that shows a value.  There is none for a value that contains itself otherwise than along
the tail of a list: unfolding it never comes to an end.
-/
def datum? (store : Store) (value : Value) : Option Datum :=
  store.datumWithin? (Fuel.ample + store.extent + 1) value

/-- The text of a value, if it has an end. -/
def written? (store : Store) (value : Value) : Option String :=
  (store.datum? value).map Datum.written

/-- The fault whose message quotes a value. -/
def telling (store : Store) (value : Value) (fault : String → Fault) : Fault :=
  match store.written? value with
  | some text => fault text
  | none => .evaluation .endless

/-- A fault that quotes a value either does so or never comes about. -/
theorem telling_of
    {motive : Fault → Prop}
    (store : Store)
    (value : Value)
    {fault : String → Fault}
    (quoted : ∀ text, motive (fault text))
    (endless : motive (.evaluation .endless)) :
    motive (store.telling value fault) := by
  unfold telling
  split
  · exact quoted _
  · exact endless

end Store

/-- Fail with a message that quotes a value. -/
def StoreM.failTelling {α : Type} (value : Value) (fault : String → Fault) : StoreM α :=
  StoreM.fail fun store => store.telling value fault

end SmallScheme
