import SmallScheme.Store.Equality

namespace SmallScheme.Store

/-!
# Comparisons that tell whether they end

The comparison for equality once more, now with no answer where it would have to look deeper than it
may.  An answer means that the comparison ends there, and it is the one that `equalWithin` gives.
-/

/--
Whether items agree place by place, as far as the comparisons of items end.  No items of lists that
differ in length are compared.
-/
def agree? (same? : Value → Value → Option Bool) : List Value → List Value → Option Bool
  | [], [] => some true
  | first :: firsts, second :: seconds => do
      if firsts.length = seconds.length then
        if ← same? first second then agree? same? firsts seconds else return false
      else
        return false
  | _, _ => some false

/-- Equality of values, unless it takes to look more than so many parts deep. -/
def compareWithin? (store : Store) : Nat → Bool → Value → Value → Option Bool
  | 0, _, _, _ => none
  | depth + 1, entering, first, second =>
      match first, second with
      | .pair left, .pair right =>
          if entering && (store.isCircular first || store.isCircular second) then
            some (left = right)
          else if left = right then
            some true
          else
            match store.pairs[left]?, store.pairs[right]? with
            | some leftPair, some rightPair => do
                if ← compareWithin? store depth true leftPair.head rightPair.head then
                  compareWithin? store depth false leftPair.tail rightPair.tail
                else
                  return false
            | _, _ => some false
      | .text left, .text right => some (store.textAt left = store.textAt right)
      | .vector left, .vector right =>
          agree? (compareWithin? store depth true) (store.vectorAt left).toList
            (store.vectorAt right).toList
      | .bytevector left, .bytevector right =>
          some ((store.bytevectorAt left).toList = (store.bytevectorAt right).toList)
      | .marked leftMark left, .marked rightMark right =>
          if leftMark = rightMark then
            compareWithin? store depth true (store.markedAt left) (store.markedAt right)
          else
            some false
      | .regex left, .regex right => some (left = right)
      | .program left, .program right =>
          agree? (compareWithin? store depth true) (store.programAt left) (store.programAt right)
      | .condition left, .condition right =>
          let leftCondition := store.conditionAt left
          let rightCondition := store.conditionAt right
          if left = right then
            some true
          else if leftCondition.message = rightCondition.message then
            agree? (compareWithin? store depth true) leftCondition.irritants
              rightCondition.irritants
          else
            some false
      | _, _ => some (store.identical first second)

variable
  {store : Store}
  {first second : Value}

theorem agree_of_length_ne
    {same : Value → Value → Bool}
    {firsts seconds : List Value}
    (otherLength : firsts.length ≠ seconds.length) :
    agree same firsts seconds = false := by
  fun_induction agree same firsts seconds with
  | case1 => exact (otherLength rfl).elim
  | case2 first firsts second seconds inductionHypothesis =>
      rw [inductionHypothesis fun sameLength => otherLength (congrArg Nat.succ sameLength),
        Bool.and_false]
  | case3 => rfl

theorem agree_eq_of_agree?
    {same? : Value → Value → Option Bool}
    {same : Value → Value → Bool}
    (answers :
      ∀ {first second answer}, same? first second = some answer → same first second = answer)
    {firsts seconds : List Value}
    {answer : Bool}
    (answered : agree? same? firsts seconds = some answer) :
    agree same firsts seconds = answer := by
  fun_induction agree? same? firsts seconds with
  | case1 => exact Option.some.inj answered
  | case2 first firsts second seconds sameLength inductionHypothesis =>
      obtain ⟨answerHere, compared, rest⟩ := Option.bind_eq_some_iff.mp answered
      rw [agree, answers compared]
      cases answerHere with
      | true => exact inductionHypothesis rest
      | false => exact Option.some.inj rest
  | case3 first firsts second seconds otherLength =>
      obtain rfl := Option.some.inj answered
      rw [agree, agree_of_length_ne otherLength, Bool.and_false]
  | case4 firsts seconds notBothEmpty notBothItems =>
      rw [agree]
      · exact Option.some.inj answered
      · exact notBothEmpty
      · exact notBothItems

/-- A comparison that ends has the answer of the one that is cut off. -/
theorem equalWithin_of_compareWithin?
    {depth : Nat}
    {entering answer : Bool}
    (answered : store.compareWithin? depth entering first second = some answer) :
    store.equalWithin depth entering first second = answer := by
  induction depth generalizing entering first second answer with
  | zero => cases answered
  | succ depth inductionHypothesis =>
      unfold compareWithin? at answered
      split at answered
      case h_1 left right =>
        -- The other comparison is opened last, as splits of the first one would reach into it.
        split at answered
        case isTrue circular =>
          rw [equalWithin, if_pos circular]
          exact Option.some.inj answered
        case isFalse notCircular =>
          split at answered
          case isTrue same =>
            rw [equalWithin, if_neg notCircular, if_pos same]
            exact Option.some.inj answered
          case isFalse different =>
            split at answered
            case h_1 leftFound rightFound =>
              rw [equalWithin, if_neg notCircular, if_neg different]
              obtain ⟨answerHere, compared, rest⟩ := Option.bind_eq_some_iff.mp answered
              simp only [leftFound, rightFound, inductionHypothesis compared]
              cases answerHere with
              | true => exact inductionHypothesis rest
              | false => exact Option.some.inj rest
            case h_2 missing =>
              rw [equalWithin, if_neg notCircular, if_neg different]
              split
              case h_1 leftFound rightFound => exact (missing _ _ leftFound rightFound).elim
              case h_2 => exact Option.some.inj answered
      case h_3 => exact agree_eq_of_agree? inductionHypothesis answered
      case h_5 =>
        rw [equalWithin]
        split at answered
        case isTrue same => simpa [same] using inductionHypothesis answered
        case isFalse different => simpa [different] using answered
      case h_7 => exact agree_eq_of_agree? inductionHypothesis answered
      case h_8 =>
        rw [equalWithin]
        dsimp only at answered
        split at answered
        case isTrue same => simpa [same] using answered
        case isFalse different =>
          split at answered
          case isTrue sameMessage =>
            simpa [different, sameMessage] using agree_eq_of_agree? inductionHypothesis answered
          case isFalse otherMessage => simpa [different, otherMessage] using answered
      case h_9 =>
        unfold equalWithin
        split <;> grind
      all_goals exact Option.some.inj answered

end SmallScheme.Store
