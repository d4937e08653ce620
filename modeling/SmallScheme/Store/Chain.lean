import SmallScheme.Store.Basic

namespace SmallScheme.Store

/-!
# Chains of pairs

From a value one follows the tails of pairs until something that is not a pair.  To find out whether
there is such an end, two walks start together, and one of them takes two steps whenever the other
takes one.  If the chain ends, the faster walk comes to the end; if it is circular, the faster walk
catches up with the slower one.
-/

/-- What comes of a round of two walks along a chain. -/
inductive Race
  /-- The leader has come to a value that is not a pair. -/
  | ended (ending : Value)
  /-- Leader and follower have come to the same pair. -/
  | met
  /-- They go on from here. -/
  | apart (follower leader : Value)

def isSamePair : Value → Value → Bool
  | .pair left, .pair right => left = right
  | _, _ => false

/-- The tail of a pair; any other value stays what it is. -/
def tailOf (store : Store) (value : Value) : Value :=
  match store.pair? value with
  | some pair => pair.tail
  | none => value

/-- In a round the leader takes two steps and the follower takes one. -/
def raceRound (store : Store) (follower leader : Value) : Race :=
  match store.pair? leader with
  | none => .ended leader
  | some first =>
      match store.pair? first.tail with
      | none => .ended first.tail
      | some second =>
          if isSamePair (store.tailOf follower) second.tail then
            .met
          else
            .apart (store.tailOf follower) second.tail

/--
What comes of so many rounds: the end of the chain, or `some none` where the walks have met; nothing
if more rounds are needed.
-/
def raceWithin (store : Store) : Nat → Value → Value → Option (Option Value)
  | 0, _, _ => none
  | rounds + 1, follower, leader =>
      match store.raceRound follower leader with
      | .ended ending => some (some ending)
      | .met => some none
      | .apart follower leader => raceWithin store rounds follower leader

/--
The first value of a chain that is not a pair, or `none` for a circular chain.  One round for each
pair and one more are always enough.
-/
def chainEnd? (store : Store) (value : Value) : Option Value :=
  (store.raceWithin (store.pairs.size + 1) value value).join

/-- The heads along a chain, put before the reversed list `sofar`, and what the walk ends at. -/
def chainWithin (store : Store) : Nat → List Value → Value → List Value × Value
  | 0, sofar, value => (sofar.reverse, value)
  | steps + 1, sofar, value =>
      match store.pair? value with
      | some pair => chainWithin store steps (pair.head :: sofar) pair.tail
      | none => (sofar.reverse, value)

/-- The heads along a chain and the value it ends at. -/
def chain (store : Store) (value : Value) : List Value × Value :=
  store.chainWithin store.pairs.size [] value

/-- The chain of the value never ends. -/
def isCircular (store : Store) (value : Value) : Bool :=
  (store.chainEnd? value).isNone

def isList (store : Store) (value : Value) : Bool :=
  match store.chainEnd? value with
  | some .nil => true
  | _ => false

/-- The items of a proper list. -/
def listItems? (store : Store) (value : Value) : Option (List Value) :=
  if store.isList value then some (store.chain value).1 else none

/-- The length of a proper list. -/
def listLength? (store : Store) (value : Value) : Option Nat :=
  (store.listItems? value).map List.length

/-- A short description for messages that must not write the whole value. -/
def shape (store : Store) (value : Value) : String :=
  match value with
  | .pair _ =>
      match store.chainEnd? value with
      | none => "circular list"
      | some .nil => "list"
      | some _ => "improper list"
  | _ => value.kindName

/-- The items of a proper list, or a fault that tells the shape of the value. -/
def listItems (value : Value) : StoreM (List Value) := do
  match ← StoreM.view fun store => store.listItems? value with
  | some items => return items
  | none => StoreM.fail fun store => .type (.expected "a proper list" (store.shape value))

end SmallScheme.Store
