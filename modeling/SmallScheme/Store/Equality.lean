import SmallScheme.Store.Chain

namespace SmallScheme.Store

/-!
# When values are the same

Two values are *identical* when they are the same atom or the same object.  They are *equal* when
they are identical or have equal parts throughout.  The unspecified value is never the same as
anything, and a circular list is equal only to itself.
-/

/-- The same atom or the same object. -/
def identical (store : Store) : Value → Value → Bool
  | .nil, .nil => true
  | .integer first, .integer second => first = second
  | .real first, .real second => first == second
  | .boolean first, .boolean second => first = second
  | .character first, .character second => first = second
  | .text first, .text second =>
      first = second || ((store.textAt first).isEmpty && (store.textAt second).isEmpty)
  | .symbol first, .symbol second => first = second
  | .symbol first, .scoped second _ => first = second
  | .scoped first _, .symbol second => first = second
  | .scoped first _, .scoped second _ => first = second
  | .pair first, .pair second => first = second
  | .vector first, .vector second => first = second
  | .bytevector first, .bytevector second => first = second
  | .procedure first, .procedure second => first = second
  | .primitive first, .primitive second => first = second
  | .special first, .special second => first = second
  | .transformer first, .transformer second => first = second
  | .escape first, .escape second => first = second
  | .parameter first, .parameter second => first = second
  | .condition first, .condition second => first = second
  | .foreign first, .foreign second => first = second
  | _, _ => false

/-- Two lists of the same length whose items agree place by place. -/
def agree (same : Value → Value → Bool) : List Value → List Value → Bool
  | [], [] => true
  | first :: firsts, second :: seconds => same first second && agree same firsts seconds
  | _, _ => false

/--
Equality of values, looking at most so many parts deep.  On entering a list it is asked first
whether the list is circular; along the list that need not be asked again.
-/
def equalWithin (store : Store) : Nat → Bool → Value → Value → Bool
  | 0, _, _, _ => false
  | depth + 1, entering, first, second =>
      match first, second with
      | .pair left, .pair right =>
          if entering && (store.isCircular first || store.isCircular second) then
            left = right
          else if left = right then
            true
          else
            match store.pairs[left]?, store.pairs[right]? with
            | some leftPair, some rightPair =>
                if equalWithin store depth true leftPair.head rightPair.head then
                  equalWithin store depth false leftPair.tail rightPair.tail
                else
                  false
            | _, _ => false
      | .text left, .text right => store.textAt left = store.textAt right
      | .vector left, .vector right =>
          agree (equalWithin store depth true) (store.vectorAt left).toList
            (store.vectorAt right).toList
      | .bytevector left, .bytevector right =>
          (store.bytevectorAt left).toList = (store.bytevectorAt right).toList
      | .marked leftMark left, .marked rightMark right =>
          leftMark = rightMark &&
            equalWithin store depth true (store.markedAt left) (store.markedAt right)
      | .regex left, .regex right => left = right
      | .program left, .program right =>
          agree (equalWithin store depth true) (store.programAt left) (store.programAt right)
      | .condition left, .condition right =>
          let leftCondition := store.conditionAt left
          let rightCondition := store.conditionAt right
          left = right ||
            (leftCondition.message = rightCondition.message &&
              agree (equalWithin store depth true) leftCondition.irritants
                rightCondition.irritants)
      | _, _ => store.identical first second

/--
The same atom, the same object, or objects with equal parts.  Comparing values that contain
themselves otherwise than along the tail of a list may never come to an end.
-/
def equal (store : Store) (first second : Value) : Bool :=
  store.equalWithin (Fuel.ample + store.extent + 1) true first second

end SmallScheme.Store
