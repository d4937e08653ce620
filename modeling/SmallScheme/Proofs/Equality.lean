import SmallScheme.Proofs.Membership
import SmallScheme.Proofs.RelatedLists
import SmallScheme.Proofs.Store.Parts
import SmallScheme.Store.Comparison

namespace SmallScheme

/-!
# Equality of values

Equality looks at one level of two values and leaves their parts to itself.  What one level asks of
the parts is a relation that is symmetric and transitive if the relation of the parts is, and by
induction on the depth so is equality.
-/

namespace Value

/-- The value is compared by what it is made of, which is in the store, or never the same. -/
def isComposite : Value → Bool
  | .text _ => true
  | .pair _ => true
  | .vector _ => true
  | .bytevector _ => true
  | .marked _ _ => true
  | .regex _ => true
  | .program _ => true
  | .condition _ => true
  | _ => false

/-- Nothing is equal to the value, not even the value itself. -/
def IsUnequalToItself : Value → Prop
  | .unspecified => True
  | .real value => value.isNaN = true
  | _ => False

/-- The value is compared by what it contains even with itself. -/
def isOpen : Value → Bool
  | .vector _ => true
  | .marked _ _ => true
  | .program _ => true
  | _ => false

end Value

def Identity.isComposite : Identity → Bool
  | .text _ => true
  | .itself value => value.isComposite
  | _ => false

namespace Store

variable
  {store : Store}
  {first second third : Value}
  {depth : Nat}
  {entering : Bool}

/-- Lists agree if they are as long and their items agree one by one. -/
theorem agree_iff_forall₂
    {same : Value → Value → Bool}
    {firsts seconds : List Value} :
    agree same firsts seconds = true ↔
      List.Forall₂ (fun first second => same first second = true) firsts seconds := by
  fun_induction agree same firsts seconds with
  | case1 => simp
  | case2 first firsts second seconds inductionHypothesis => simp [inductionHypothesis]
  | case3 firsts seconds notBothEmpty notBothItems =>
      simp only [Bool.false_eq_true, false_iff]
      intro related
      cases related with
      | nil => exact notBothEmpty rfl rfl
      | cons => exact notBothItems _ _ _ _ rfl rfl

/-- Two values are equal on one level, where their parts are related as they are to be. -/
inductive Corresponds
    (store : Store)
    (inner : Bool → Value → Value → Prop) : Bool → Value → Value → Prop
  | samePair {entering : Bool} {address : Nat} :
      Corresponds store inner entering (.pair address) (.pair address)
  | pairs {entering : Bool} {left right : Nat} {leftPair rightPair : Pair}
      (ends : entering = true →
        store.isCircular (.pair left) = false ∧ store.isCircular (.pair right) = false)
      (leftFound : store.pairs[left]? = some leftPair)
      (rightFound : store.pairs[right]? = some rightPair)
      (heads : inner true leftPair.head rightPair.head)
      (tails : inner false leftPair.tail rightPair.tail) :
      Corresponds store inner entering (.pair left) (.pair right)
  | texts {entering : Bool} {left right : Nat}
      (same : store.textAt left = store.textAt right) :
      Corresponds store inner entering (.text left) (.text right)
  | vectors {entering : Bool} {left right : Nat}
      (items :
        List.Forall₂ (inner true) (store.vectorAt left).toList (store.vectorAt right).toList) :
      Corresponds store inner entering (.vector left) (.vector right)
  | bytevectors {entering : Bool} {left right : Nat}
      (same : (store.bytevectorAt left).toList = (store.bytevectorAt right).toList) :
      Corresponds store inner entering (.bytevector left) (.bytevector right)
  | marked {entering : Bool} {mark : Mark} {left right : Nat}
      (forms : inner true (store.markedAt left) (store.markedAt right)) :
      Corresponds store inner entering (.marked mark left) (.marked mark right)
  | regex {entering : Bool} {pattern : String} :
      Corresponds store inner entering (.regex pattern) (.regex pattern)
  | programs {entering : Bool} {left right : Nat}
      (forms : List.Forall₂ (inner true) (store.programAt left) (store.programAt right)) :
      Corresponds store inner entering (.program left) (.program right)
  | sameCondition {entering : Bool} {address : Nat} :
      Corresponds store inner entering (.condition address) (.condition address)
  | conditions {entering : Bool} {left right : Nat}
      (messages : (store.conditionAt left).message = (store.conditionAt right).message)
      (irritants :
        List.Forall₂ (inner true) (store.conditionAt left).irritants
          (store.conditionAt right).irritants) :
      Corresponds store inner entering (.condition left) (.condition right)
  | atoms {entering : Bool} {first second : Value}
      (isAtom : first.isComposite = false)
      (alsoAtom : second.isComposite = false)
      (same : store.identical first second = true) :
      Corresponds store inner entering first second

namespace Corresponds

variable
  {inner outer : Bool → Value → Value → Prop}

/-- Whatever corresponds does so the other way round. -/
theorem symm
    (corresponds : store.Corresponds inner entering first second)
    (converse :
      ∀ {entering first second}, inner entering first second → outer entering second first) :
    store.Corresponds outer entering second first := by
  have each {firsts seconds : List Value}
      (related : List.Forall₂ (inner true) firsts seconds) :
      List.Forall₂ (outer true) seconds firsts :=
    (related.imp fun _ _ => converse).flip
  cases corresponds with
  | samePair => exact .samePair
  | pairs ends leftFound rightFound heads tails =>
      exact .pairs (fun enters => (ends enters).symm) rightFound leftFound (converse heads)
        (converse tails)
  | texts same => exact .texts same.symm
  | vectors items => exact .vectors (each items)
  | bytevectors same => exact .bytevectors same.symm
  | marked forms => exact .marked (converse forms)
  | regex => exact .regex
  | programs forms => exact .programs (each forms)
  | sameCondition => exact .sameCondition
  | conditions messages irritants => exact .conditions messages.symm (each irritants)
  | atoms isAtom alsoAtom same => exact .atoms alsoAtom isAtom (identical_comm .. ▸ same)

/-- What corresponds to the same corresponds. -/
theorem trans
    (corresponds : store.Corresponds inner entering first second)
    (alsoCorresponds : store.Corresponds inner entering second third)
    (transitive :
      ∀ {entering first second third},
        inner entering first second → inner entering second third → inner entering first third) :
    store.Corresponds inner entering first third := by
  have each {firsts seconds thirds : List Value}
      (related : List.Forall₂ (inner true) firsts seconds)
      (alsoRelated : List.Forall₂ (inner true) seconds thirds) :
      List.Forall₂ (inner true) firsts thirds := by
    refine forall₂_trans ?_ related alsoRelated
    exact fun _ _ _ _ => transitive
  cases corresponds with
  | samePair => exact alsoCorresponds
  | pairs ends leftFound found heads tails =>
      cases alsoCorresponds with
      | samePair => exact .pairs ends leftFound found heads tails
      | pairs alsoEnds alsoFound rightFound alsoHeads alsoTails =>
          cases found.symm.trans alsoFound
          exact .pairs (fun enters => ⟨(ends enters).1, (alsoEnds enters).2⟩) leftFound rightFound
            (transitive heads alsoHeads) (transitive tails alsoTails)
      | atoms isAtom => cases isAtom
  | texts same =>
      cases alsoCorresponds with
      | texts alsoSame => exact .texts (same.trans alsoSame)
      | atoms isAtom => cases isAtom
  | vectors items =>
      cases alsoCorresponds with
      | vectors alsoItems => exact .vectors (each items alsoItems)
      | atoms isAtom => cases isAtom
  | bytevectors same =>
      cases alsoCorresponds with
      | bytevectors alsoSame => exact .bytevectors (same.trans alsoSame)
      | atoms isAtom => cases isAtom
  | marked forms =>
      cases alsoCorresponds with
      | marked alsoForms => exact .marked (transitive forms alsoForms)
      | atoms isAtom => cases isAtom
  | regex => exact alsoCorresponds
  | programs forms =>
      cases alsoCorresponds with
      | programs alsoForms => exact .programs (each forms alsoForms)
      | atoms isAtom => cases isAtom
  | sameCondition => exact alsoCorresponds
  | conditions messages irritants =>
      cases alsoCorresponds with
      | sameCondition => exact .conditions messages irritants
      | conditions alsoMessages alsoIrritants =>
          exact .conditions (messages.trans alsoMessages) (each irritants alsoIrritants)
      | atoms isAtom => cases isAtom
  | atoms isAtom _ same =>
      cases alsoCorresponds with
      | atoms _ alsoAtom alsoSame =>
          exact .atoms isAtom alsoAtom (identical_trans same alsoSame)
      | _ => contradiction

end Corresponds

/-- Whether a value has parts is told by its identity. -/
theorem isComposite_of_identity?
    {common : Identity}
    (isCommon : store.identity? first = some common) :
    first.isComposite = common.isComposite := by
  cases first with
  | real value =>
      obtain ⟨_, _, rfl⟩ := Option.map_eq_some_iff.mp isCommon
      rfl
  | _ => cases isCommon <;> rfl

/-- Identical values both have parts, or neither has. -/
theorem isComposite_eq_of_identical
    (same : store.identical first second = true) :
    first.isComposite = second.isComposite := by
  obtain ⟨common, isFirst, isSecond⟩ := identical_iff.mp same
  rw [isComposite_of_identity? isFirst, isComposite_of_identity? isSecond]

/-- What is identical is an atom, unless it is of a kind that is compared by what it is made of. -/
theorem isAtom_of_identical
    (same : store.identical first second = true)
    (noPairs : ∀ left right, first = .pair left → second ≠ .pair right)
    (noTexts : ∀ left right, first = .text left → second ≠ .text right)
    (noVectors : ∀ left right, first = .vector left → second ≠ .vector right)
    (noBytevectors : ∀ left right, first = .bytevector left → second ≠ .bytevector right)
    (noConditions : ∀ left right, first = .condition left → second ≠ .condition right) :
    first.isComposite = false := by
  cases first with
  | pair left =>
      cases second with
      | pair right => exact (noPairs left right rfl rfl).elim
      | _ => cases same
  | text left =>
      cases second with
      | text right => exact (noTexts left right rfl rfl).elim
      | _ => cases same
  | vector left =>
      cases second with
      | vector right => exact (noVectors left right rfl rfl).elim
      | _ => cases same
  | bytevector left =>
      cases second with
      | bytevector right => exact (noBytevectors left right rfl rfl).elim
      | _ => cases same
  | condition left =>
      cases second with
      | condition right => exact (noConditions left right rfl rfl).elim
      | _ => cases same
  | marked | regex | program => cases same
  | _ => rfl

/-- Values that are equal to a depth correspond, with parts that are equal to less. -/
theorem Corresponds.of_equalWithin
    (equal : store.equalWithin (depth + 1) entering first second = true) :
    store.Corresponds
      (fun entering first second => store.equalWithin depth entering first second = true)
      entering first second := by
  unfold equalWithin at equal
  split at equal
  case h_1 left right =>
    split at equal
    case isTrue =>
      rw [of_decide_eq_true equal]
      exact .samePair
    case isFalse notCircular =>
      split at equal
      case isTrue same =>
        rw [same]
        exact .samePair
      case isFalse =>
        split at equal
        case h_1 leftFound rightFound =>
          split at equal
          case isTrue heads =>
            exact .pairs (by simpa using notCircular) leftFound rightFound heads equal
          case isFalse => cases equal
        case h_2 => cases equal
  case h_2 => exact .texts (of_decide_eq_true equal)
  case h_3 => exact .vectors (agree_iff_forall₂.mp equal)
  case h_4 => exact .bytevectors (of_decide_eq_true equal)
  case h_5 =>
    obtain ⟨sameMark, forms⟩ := Bool.and_eq_true_iff.mp equal
    rw [of_decide_eq_true sameMark]
    exact .marked forms
  case h_6 =>
    rw [of_decide_eq_true equal]
    exact .regex
  case h_7 => exact .programs (agree_iff_forall₂.mp equal)
  case h_8 left right =>
    rcases Bool.or_eq_true_iff.mp equal with same | alike
    · rw [of_decide_eq_true same]
      exact .sameCondition
    · obtain ⟨sameMessage, irritants⟩ := Bool.and_eq_true_iff.mp alike
      exact .conditions (of_decide_eq_true sameMessage) (agree_iff_forall₂.mp irritants)
  case h_9 noPairs noTexts noVectors noBytevectors _ _ _ noConditions =>
    have isAtom : first.isComposite = false :=
      isAtom_of_identical equal noPairs noTexts noVectors noBytevectors noConditions
    exact .atoms isAtom (isComposite_eq_of_identical equal ▸ isAtom) equal

/-- Values correspond only if they are equal to a depth more. -/
theorem equalWithin_of_corresponds
    (corresponds :
      store.Corresponds
        (fun entering first second => store.equalWithin depth entering first second = true)
        entering first second) :
    store.equalWithin (depth + 1) entering first second = true := by
  cases corresponds with
  | samePair => simp [equalWithin]
  | pairs ends leftFound rightFound heads tails =>
      simp only [equalWithin, leftFound, rightFound, heads, tails]
      split
      case isTrue circular =>
        simp only [Bool.and_eq_true, Bool.or_eq_true] at circular
        rcases circular.2 with isCircular | isCircular
        · cases isCircular.symm.trans (ends circular.1).1
        · cases isCircular.symm.trans (ends circular.1).2
      case isFalse => simp
  | texts same => simpa [equalWithin] using same
  | vectors items => exact agree_iff_forall₂.mpr items
  | bytevectors same => simpa [equalWithin] using same
  | marked forms => simpa [equalWithin] using forms
  | regex => simp [equalWithin]
  | programs forms => exact agree_iff_forall₂.mpr forms
  | sameCondition => simp [equalWithin]
  | conditions messages irritants =>
      simp [equalWithin, messages, agree_iff_forall₂.mpr irritants]
  | atoms isAtom alsoAtom same =>
      unfold equalWithin
      split
      case h_9 => exact same
      all_goals cases isAtom

/-- To be equal to some depth is to correspond on one level and to be equal further down. -/
theorem equalWithin_succ_iff :
    store.equalWithin (depth + 1) entering first second = true ↔
      store.Corresponds
        (fun entering first second => store.equalWithin depth entering first second = true)
        entering first second :=
  ⟨Corresponds.of_equalWithin, equalWithin_of_corresponds⟩

/-- Equality to a depth is symmetric. -/
theorem equalWithin_symm
    (equal : store.equalWithin depth entering first second = true) :
    store.equalWithin depth entering second first = true := by
  induction depth generalizing entering first second with
  | zero => cases equal
  | succ depth inductionHypothesis =>
      exact equalWithin_succ_iff.mpr ((equalWithin_succ_iff.mp equal).symm inductionHypothesis)

/-- Equality to a depth is transitive. -/
theorem equalWithin_trans
    (equal : store.equalWithin depth entering first second = true)
    (alsoEqual : store.equalWithin depth entering second third = true) :
    store.equalWithin depth entering first third = true := by
  induction depth generalizing entering first second third with
  | zero => cases equal
  | succ depth inductionHypothesis =>
      have corresponds := equalWithin_succ_iff.mp equal
      have alsoCorresponds := equalWithin_succ_iff.mp alsoEqual
      exact equalWithin_succ_iff.mpr (corresponds.trans alsoCorresponds inductionHypothesis)

/-! Comparisons end. -/

/-- If all items can be compared, so can the lists. -/
theorem exists_agree?
    {same? : Value → Value → Option Bool}
    {firsts : List Value}
    (answered : ∀ first ∈ firsts, ∀ second, ∃ answer, same? first second = some answer)
    (seconds : List Value) :
    ∃ answer, agree? same? firsts seconds = some answer := by
  induction firsts generalizing seconds with
  | nil => cases seconds <;> exact ⟨_, rfl⟩
  | cons first firsts inductionHypothesis =>
      obtain ⟨answeredFirst, answered⟩ := List.forall_mem_cons.mp answered
      cases seconds with
      | nil => exact ⟨_, rfl⟩
      | cons second seconds =>
          obtain ⟨here, isHere⟩ := answeredFirst second
          rw [agree?, isHere]
          split
          case isTrue =>
            cases here with
            | true => exact inductionHypothesis answered seconds
            | false => exact ⟨_, rfl⟩
          case isFalse => exact ⟨_, rfl⟩

/--
Comparing a value without cycles with any other value ends.  Every step comes to fewer places: the
one into contents, as they do not lead back, and the one to a tail, as the chain was seen to end.
-/
theorem exists_compareWithin?
    (noCycle : store.HasNoCycle first)
    (ends : entering = false → store.isCircular first = false)
    (enough : (store.placesFrom first).card < depth)
    (second : Value) :
    ∃ answer, store.compareWithin? depth entering first second = some answer := by
  induction depth generalizing entering first second with
  | zero => cases enough
  | succ depth inductionHypothesis =>
      have inside {part : Value}
          (contained : part ∈ store.contents first)
          (other : Value) :
          ∃ answer, store.compareWithin? depth true part other = some answer := by
        have fewer := noCycle.card_placesFrom_lt_of_mem contained
        exact inductionHypothesis (noCycle.reached (.single (.inl contained))) (by nofun) (by omega)
          other
      unfold compareWithin?
      split
      case h_1 left right =>
        split
        case isTrue => exact ⟨_, rfl⟩
        case isFalse notCircular =>
          split
          case isTrue => exact ⟨_, rfl⟩
          case isFalse =>
            split
            case h_1 leftPair rightPair leftFound rightFound =>
              have leftEnds : store.isCircular (.pair left) = false := by
                cases entering with
                | true => simp_all
                | false => exact ends rfl
              have isTail : store.HasTail (.pair left) leftPair.tail := ⟨leftPair, leftFound, rfl⟩
              have fewer := noCycle.card_placesFrom_lt_of_tail leftEnds isTail
              have isHead : leftPair.head ∈ store.contents (.pair left) := by
                simp [contents, leftFound]
              obtain ⟨here, isHere⟩ := inside isHead rightPair.head
              rw [isHere]
              cases here with
              | false => exact ⟨_, rfl⟩
              | true =>
                  exact inductionHypothesis (noCycle.reached (.single (.inr isTail)))
                    (fun _ => isCircular_tail isTail leftEnds) (by omega) rightPair.tail
            case h_2 => exact ⟨_, rfl⟩
      case h_3 => exact exists_agree? (fun _ contained => inside contained) _
      case h_5 leftMark left _ _ =>
        split
        case isTrue =>
          have present := noCycle.present (.refl : store.LeadsTo (.marked leftMark left) _)
          exact inside (by simp [contents, markedAt, present]) _
        case isFalse => exact ⟨_, rfl⟩
      case h_7 => exact exists_agree? (fun _ contained => inside contained) _
      case h_8 =>
        dsimp only
        split
        case isTrue => exact ⟨_, rfl⟩
        case isFalse =>
          split
          case isTrue => exact exists_agree? (fun _ contained => inside contained) _
          case isFalse => exact ⟨_, rfl⟩
      all_goals exact ⟨_, rfl⟩

/-- A comparison of lists that has an answer keeps it when more is compared. -/
theorem agree?_mono
    {same? other? : Value → Value → Option Bool}
    (answers :
      ∀ {answer first second}, same? first second = some answer → other? first second = some answer)
    {firsts seconds : List Value}
    {answer : Bool}
    (answered : agree? same? firsts seconds = some answer) :
    agree? other? firsts seconds = some answer := by
  fun_induction agree? same? firsts seconds with
  | case1 => exact answered
  | case2 first firsts second seconds sameLength inductionHypothesis =>
      obtain ⟨here, compared, rest⟩ := Option.bind_eq_some_iff.mp answered
      rw [agree?, if_pos sameLength, answers compared]
      cases here with
      | true => exact inductionHypothesis rest
      | false => exact rest
  | case3 first firsts second seconds otherLength => rw [agree?, if_neg otherLength, ← answered]
  | case4 firsts seconds notBothEmpty notBothItems =>
      rw [agree?]
      · exact answered
      · exact notBothEmpty
      · exact notBothItems

/-- A comparison that ends does not change if one may look deeper. -/
theorem compareWithin?_mono
    {more : Nat}
    {answer : Bool}
    (answered : store.compareWithin? depth entering first second = some answer)
    (enough : depth ≤ more) :
    store.compareWithin? more entering first second = some answer := by
  induction depth generalizing entering first second answer more with
  | zero => cases answered
  | succ depth inductionHypothesis =>
      obtain ⟨more, rfl⟩ : ∃ less, more = less + 1 := ⟨more - 1, by omega⟩
      have inside {entering answer : Bool} {first second : Value}
          (answered : store.compareWithin? depth entering first second = some answer) :
          store.compareWithin? more entering first second = some answer :=
        inductionHypothesis answered (by omega)
      unfold compareWithin? at answered
      split at answered
      case h_1 left right =>
        rw [compareWithin?]
        split at answered
        case isTrue circular => rw [if_pos circular, answered]
        case isFalse notCircular =>
          rw [if_neg notCircular]
          split at answered
          case isTrue same => rw [if_pos same, answered]
          case isFalse different =>
            rw [if_neg different]
            split at answered
            case h_1 leftFound rightFound =>
              obtain ⟨here, isHere, rest⟩ := Option.bind_eq_some_iff.mp answered
              rw [inside isHere]
              cases here with
              | true => exact inside rest
              | false => exact rest
            case h_2 missing => grind
      case h_3 => exact agree?_mono inside answered
      case h_5 =>
        rw [compareWithin?]
        split at answered
        case isTrue same => rw [if_pos same, inside answered]
        case isFalse different => rw [if_neg different, answered]
      case h_7 => exact agree?_mono inside answered
      case h_8 =>
        rw [compareWithin?]
        dsimp only at answered ⊢
        split at answered
        case isTrue same => rw [if_pos same, answered]
        case isFalse different =>
          rw [if_neg different]
          split at answered
          case isTrue sameMessage =>
            rw [if_pos sameMessage]
            exact agree?_mono inside answered
          case isFalse otherMessage => rw [if_neg otherMessage, answered]
      case h_9 =>
        unfold compareWithin?
        split <;> grind
      all_goals exact answered

/-- To any depth that is large enough the comparison of a value without cycles has one answer. -/
theorem compareWithin?_eq_equal
    (noCycle : store.HasNoCycle first)
    (enough : store.extent < depth)
    (second : Value) :
    store.compareWithin? depth true first second = some (store.equal first second) := by
  have fewest := store.card_placesFrom_le first
  obtain ⟨answer, answered⟩ :
      ∃ answer, store.compareWithin? (store.extent + 1) true first second = some answer :=
    exists_compareWithin? noCycle (by nofun) (by omega) second
  have ample := compareWithin?_mono answered (Nat.le_add_left _ Fuel.ample)
  rw [compareWithin?_mono answered enough, equal, Nat.add_assoc,
    equalWithin_of_compareWithin? ample]

/-! Values compared with themselves. -/

/-- The first value is compared with itself by what it contains, and contains the second one. -/
def Exposes (store : Store) (whole part : Value) : Prop :=
  whole.isOpen = true ∧ part ∈ store.contents whole

/--
Nothing that is not equal to itself is come to through vectors, marked forms and programs alone.
Pairs and conditions shield what they contain: each of them is equal to itself at once.
-/
def IsSteady (store : Store) (value : Value) : Prop :=
  ∀ part, Relation.ReflTransGen store.Exposes value part → ¬part.IsUnequalToItself

/-- A value is steady if it is equal to itself and exposes steady parts only. -/
theorem isSteady_iff :
    store.IsSteady first ↔
      ¬first.IsUnequalToItself ∧ ∀ part, store.Exposes first part → store.IsSteady part := by
  constructor
  · intro isSteady
    refine ⟨isSteady first .refl, fun part exposes last leads => ?_⟩
    exact isSteady last (.head exposes leads)
  · rintro ⟨notUnequal, areSteady⟩ last leads
    rcases leads.cases_head with rfl | ⟨part, exposes, further⟩
    · exact notUnequal
    · exact areSteady part exposes last further

/-- What exposes nothing is steady if it is equal to itself. -/
theorem isSteady_iff_of_closed
    (closed : first.isOpen = false) :
    store.IsSteady first ↔ ¬first.IsUnequalToItself := by
  rw [isSteady_iff, and_iff_left_iff_imp]
  rintro _ part ⟨isOpen, _⟩
  cases isOpen.symm.trans closed

/-- What is compared by its contents is steady if they are. -/
theorem isSteady_iff_of_open
    (isOpen : first.isOpen = true) :
    store.IsSteady first ↔ ∀ part ∈ store.contents first, store.IsSteady part := by
  have notUnequal : ¬first.IsUnequalToItself := by
    cases first <;> first | exact id | cases isOpen
  rw [isSteady_iff, and_iff_right notUnequal]
  simp [Exposes, isOpen]

/-- A list agrees with itself if its items do. -/
theorem agree?_self_iff
    {same? : Value → Value → Option Bool}
    {Accepted : Value → Prop}
    {items : List Value}
    {answer : Bool}
    (decides : ∀ {item answer}, same? item item = some answer → (answer = true ↔ Accepted item))
    (answered : agree? same? items items = some answer) :
    answer = true ↔ ∀ item ∈ items, Accepted item := by
  induction items with
  | nil =>
      cases answered
      simp
  | cons item items inductionHypothesis =>
      rw [agree?, if_pos rfl] at answered
      obtain ⟨here, isHere, rest⟩ := Option.bind_eq_some_iff.mp answered
      have acceptedHere := decides isHere
      cases here with
      | true => simp [inductionHypothesis rest, acceptedHere.mp rfl]
      | false =>
          cases rest
          simp [mt acceptedHere.mpr Bool.false_ne_true]

/-- Without parts all values but two kinds are equal to themselves. -/
theorem hasIdentity_iff_of_atom
    (isAtom : first.isComposite = false) :
    first.HasIdentity ↔ ¬first.IsUnequalToItself := by
  cases first with
  | text | pair | vector | bytevector | marked | regex | program | condition => cases isAtom
  | _ => simp [Value.HasIdentity, Value.IsUnequalToItself]

/-- A comparison of a value with itself that ends finds it equal exactly if it is steady. -/
theorem compareWithin?_self_iff
    {value : Value}
    {answer : Bool}
    (answered : store.compareWithin? depth entering value value = some answer) :
    answer = true ↔ store.IsSteady value := by
  induction depth generalizing entering value answer with
  | zero => cases answered
  | succ depth inductionHypothesis =>
      cases value with
      | vector address =>
          rw [isSteady_iff_of_open rfl]
          exact agree?_self_iff inductionHypothesis answered
      | program address =>
          rw [isSteady_iff_of_open rfl]
          exact agree?_self_iff inductionHypothesis answered
      | marked mark address =>
          rw [isSteady_iff_of_open rfl]
          simp only [compareWithin?, if_true] at answered
          rw [inductionHypothesis answered, markedAt, contents]
          cases store.marked[address]? with
          | none =>
              have isSteady : store.IsSteady .nil := (isSteady_iff_of_closed rfl).mpr id
              simpa using isSteady
          | some inner => simp
      | pair | text | bytevector | regex | condition =>
          rw [isSteady_iff_of_closed rfl]
          simp only [compareWithin?, decide_true, if_true, ite_self, Option.some.injEq] at answered
          simp [← answered, Value.IsUnequalToItself]
      | _ =>
          rw [isSteady_iff_of_closed rfl, ← hasIdentity_iff_of_atom rfl, ← identical_self_iff,
            ← Option.some.inj answered]

/-- Identical values are equal, unless they are vectors. -/
theorem equal_of_identical
    (same : store.identical first second = true)
    (noVector : ∀ address, first ≠ .vector address) :
    store.equal first second = true := by
  refine equalWithin_succ_iff.mpr ?_
  cases first with
  | vector address => exact (noVector address rfl).elim
  | pair left =>
      cases second with
      | pair right =>
          rw [of_decide_eq_true same]
          exact .samePair
      | _ => cases same
  | text left =>
      cases second with
      | text right =>
          refine .texts ?_
          rcases Bool.or_eq_true_iff.mp same with isSame | areEmpty
          · rw [of_decide_eq_true isSame]
          · obtain ⟨leftEmpty, rightEmpty⟩ := Bool.and_eq_true_iff.mp areEmpty
            rw [String.isEmpty_iff.mp leftEmpty, String.isEmpty_iff.mp rightEmpty]
      | _ => cases same
  | bytevector left =>
      cases second with
      | bytevector right =>
          rw [of_decide_eq_true same]
          exact .bytevectors rfl
      | _ => cases same
  | condition left =>
      cases second with
      | condition right =>
          rw [of_decide_eq_true same]
          exact .sameCondition
      | _ => cases same
  | marked | regex | program => cases same
  | _ => exact .atoms rfl (isComposite_eq_of_identical same).symm same

/-- A value without cycles is equal to itself if nothing unsteady is exposed. -/
theorem equal_self_iff
    {value : Value}
    (noCycle : store.HasNoCycle value) :
    store.equal value value = true ↔ store.IsSteady value :=
  compareWithin?_self_iff (compareWithin?_eq_equal noCycle (Nat.lt_succ_self _) value)

/-- A value that is identical to another one is steady, unless it is a vector. -/
theorem isSteady_of_identical
    (same : store.identical first second = true)
    (noVector : ∀ address, first ≠ .vector address) :
    store.IsSteady first := by
  have hasIdentity : first.HasIdentity := by
    obtain ⟨common, isFirst, _⟩ := identical_iff.mp same
    exact identical_self_iff.mp (identical_iff.mpr ⟨common, isFirst, isFirst⟩)
  cases first with
  | vector address => exact (noVector address rfl).elim
  | unspecified | marked | regex | program => exact hasIdentity.elim
  | real value =>
      rw [isSteady_iff_of_closed rfl]
      exact Bool.eq_false_iff.mp hasIdentity
  | _ => exact (isSteady_iff_of_closed rfl).mpr id

end Store

/-! A vector that holds a circular list of ones. -/

def ringInVector : Store :=
  { Store.empty with
    pairs := #[⟨.integer 1, .pair 0⟩]
    vectors := #[#[.pair 0]] }

/-- How far the values are from the ones. -/
def ringRank : Value → Nat
  | .marked _ _ => 3
  | .vector _ => 2
  | .pair _ => 1
  | _ => 0

/-- There is one pair in the store, and it is its own tail. -/
theorem ringInVector_pairs
    {address : Nat}
    {pair : Pair}
    (found : ringInVector.pairs[address]? = some pair) :
    pair = ⟨.integer 1, .pair 0⟩ :=
  List.mem_singleton.mp (Array.mem_toList_iff.mpr (Array.mem_of_getElem? found))

/-- The vector is not among its own contents. -/
theorem ringInVector_hasNoCycle :
    ringInVector.HasNoCycle (.vector 0) := by
  refine Store.hasNoCycle_of_rank ringRank ?_ ?_ ?_
  · intro whole part contained
    cases whole with
    | pair address =>
        obtain ⟨pair, found, rfl⟩ := by simpa [Store.contents] using contained
        rw [ringInVector_pairs found]
        exact Nat.zero_lt_one
    | vector address =>
        cases address with
        | zero =>
            obtain rfl := List.mem_singleton.mp contained
            exact Nat.one_lt_two
        | succ address => exact (List.not_mem_nil contained).elim
    | _ => exact (List.not_mem_nil contained).elim
  · rintro whole part ⟨pair, found, rfl⟩
    cases whole with
    | pair address =>
        rw [ringInVector_pairs found]
        exact Nat.le_refl 1
    | _ => cases found
  · intro mark address outOfRank
    exact absurd outOfRank (Nat.not_le_of_lt (Nat.lt_succ_self 2))

/-- From the vector one comes to the pair and its item. -/
theorem ringInVector_leadsTo
    {part : Value}
    (leads : ringInVector.LeadsTo (.vector 0) part) :
    part = .vector 0 ∨ part = .pair 0 ∨ part = .integer 1 := by
  induction leads with
  | refl => exact .inl rfl
  | tail _ hasPart inductionHypothesis =>
      rcases inductionHypothesis with rfl | rfl | rfl
      · rcases hasPart with contained | ⟨_, ⟨⟩, _⟩
        exact .inr (.inl (List.mem_singleton.mp contained))
      · rcases hasPart with contained | ⟨_, ⟨⟩, rfl⟩
        · exact .inr (.inr (List.mem_singleton.mp contained))
        · exact .inr (.inl rfl)
      · rcases hasPart with contained | ⟨_, ⟨⟩, _⟩
        cases contained

/-- Nothing in the vector is unequal to itself. -/
theorem ringInVector_steady
    (part : Value)
    (leads : ringInVector.LeadsTo (.vector 0) part) :
    ¬part.IsUnequalToItself := by
  rcases ringInVector_leadsTo leads with rfl | rfl | rfl <;> exact id

/--
Identical values are equal, but for vectors.  A vector without cycles is equal to itself exactly if
neither the unspecified value nor not-a-number is come to from it through vectors, marked forms and
programs alone.
-/
theorem identical_values_are_equal_iff
    (host : Host)
    (store : Store) :
    Equivalence.equivalent.AnswersBy host store store.identical ∧
    Equivalence.alike.AnswersBy host store store.equal ∧
    ∀ first second,
      store.identical first second = true →
      ((∀ address, first ≠ .vector address) → store.equal first second = true) ∧
        (store.HasNoCycle first →
          (store.equal first second = true ↔ store.IsSteady first)) := by
  refine ⟨fun _ _ => rfl, fun _ _ => rfl, fun first second same => ?_⟩
  refine ⟨Store.equal_of_identical same, fun noCycle => ?_⟩
  by_cases isVector : ∃ address, first = .vector address
  · obtain ⟨address, rfl⟩ := isVector
    obtain rfl : second = .vector address := by
      cases second with
      | vector other => rw [of_decide_eq_true same]
      | _ => cases same
    exact Store.equal_self_iff noCycle
  · have noVector : ∀ address, first ≠ .vector address := not_exists.mp isVector
    simp only [Store.equal_of_identical same noVector, Store.isSteady_of_identical same noVector]

/-- The vector is equal to itself. -/
theorem vector_of_ring_is_equal_to_itself :
    ringInVector.identical (.vector 0) (.vector 0) = true ∧
      ringInVector.HasNoCycle (.vector 0) ∧
      ringInVector.IsSteady (.vector 0) ∧
      ringInVector.equal (.vector 0) (.vector 0) = true := by
  have same : ringInVector.identical (.vector 0) (.vector 0) = true := rfl
  have isSteady : ringInVector.IsSteady (.vector 0) := fun part leads =>
    ringInVector_steady part (.mono (fun _ _ exposes => Or.inl exposes.2) _ _ leads)
  obtain ⟨-, -, areEqual⟩ := identical_values_are_equal_iff Host.absent ringInVector
  have decided := (areEqual _ _ same).2 ringInVector_hasNoCycle
  exact ⟨same, ringInVector_hasNoCycle, isSteady, decided.mpr isSteady⟩

/-- A vector of the unspecified value is identical to itself, but not equal. -/
theorem vector_of_unspecified_is_not_equal_to_itself :
    ∃ (store : Store) (vector : Value),
      Primitive.apply Host.absent (.equivalence .equivalent) [vector, vector] store =
          (.ok (.boolean true), store) ∧
        Primitive.apply Host.absent (.equivalence .alike) [vector, vector] store =
          (.ok (.boolean false), store) :=
  ⟨{ Store.empty with vectors := #[#[.unspecified]] }, .vector 0, rfl, rfl⟩

/--
Comparing a value without cycles but along tails with another one ends, and no more depth changes
the answer.  Equality is symmetric and transitive, and a value without cycles is equal to itself if
it leads to nothing that is not.
-/
theorem equality_without_cycles
    (host : Host)
    (store : Store) :
    (∀ first second,
      store.HasNoCycle first →
      (∀ depth,
        store.extent < depth →
        store.compareWithin? depth true first second = some (store.equal first second)) ∧
        Primitive.apply host (.equivalence .alike) [first, second] store =
          (.ok (.boolean (store.equal first second)), store)) ∧
    (∀ first second, store.equal first second = store.equal second first) ∧
    (∀ first second third,
      store.equal first second = true →
      store.equal second third = true →
      store.equal first third = true) ∧
    ∀ value,
      store.HasNoCycle value →
      (∀ part, store.LeadsTo value part → ¬part.IsUnequalToItself) →
      store.equal value value = true := by
  refine ⟨fun first second noCycle => ⟨fun depth enough => ?_, rfl⟩, fun first second => ?_,
    fun first second third => Store.equalWithin_trans, ?_⟩
  · exact Store.compareWithin?_eq_equal noCycle enough second
  · exact Bool.eq_iff_iff.mpr ⟨Store.equalWithin_symm, Store.equalWithin_symm⟩
  · intro value noCycle steady
    refine (Store.equal_self_iff noCycle).mpr fun part leads => steady part ?_
    exact Relation.ReflTransGen.mono (fun _ _ exposes => Or.inl exposes.2) _ _ leads

/-- Comparing the vector with itself ends, and it is equal to itself. -/
theorem comparison_of_ring_ends :
    ringInVector.HasNoCycle (.vector 0) ∧
      ringInVector.compareWithin? 3 true (.vector 0) (.vector 0) = some true ∧
      ringInVector.equal (.vector 0) (.vector 0) = true := by
  obtain ⟨ends, -, -, reflexive⟩ := equality_without_cycles Host.absent ringInVector
  have equal := reflexive _ ringInVector_hasNoCycle ringInVector_steady
  have ended := (ends _ (.vector 0) ringInVector_hasNoCycle).1 3 (Nat.lt_succ_self 2)
  rw [equal] at ended
  exact ⟨ringInVector_hasNoCycle, ended, equal⟩

namespace Store

/-- Neither the two lists nor their errors are ever told apart or found equal. -/
theorem errorsOfThemselves_compareWithin?
    (depth : Nat)
    (entering : Bool) :
    errorsOfThemselves.compareWithin? depth entering (.pair 0) (.pair 1) = none ∧
      errorsOfThemselves.compareWithin? depth entering (.condition 0) (.condition 1) = none := by
  induction depth generalizing entering with
  | zero => exact ⟨rfl, rfl⟩
  | succ depth inductionHypothesis =>
      obtain ⟨noPairs, _⟩ := inductionHypothesis true
      obtain ⟨_, noConditions⟩ := inductionHypothesis false
      constructor
      · have notCircular :
            ¬(entering && (errorsOfThemselves.isCircular (.pair 0) ||
              errorsOfThemselves.isCircular (.pair 1))) = true := by
          rw [Bool.and_eq_true]
          exact fun circular => Bool.false_ne_true circular.2
        have first : errorsOfThemselves.pairs[0]? = some ⟨.integer 1, .condition 0⟩ := rfl
        have second : errorsOfThemselves.pairs[1]? = some ⟨.integer 1, .condition 1⟩ := rfl
        rw [compareWithin?, if_neg notCircular, if_neg Nat.zero_ne_one]
        simp only [first, second, noConditions]
        cases depth <;> rfl
      · have irritants : (errorsOfThemselves.conditionAt 0).irritants = [.pair 0] := rfl
        have others : (errorsOfThemselves.conditionAt 1).irritants = [.pair 1] := rfl
        have sameMessage :
            (errorsOfThemselves.conditionAt 0).message =
              (errorsOfThemselves.conditionAt 1).message := rfl
        rw [compareWithin?, if_neg Nat.zero_ne_one, if_pos sameMessage, irritants, others, agree?,
          if_pos rfl, noPairs]
        rfl

end Store

/--
Heads and vectors without cycles are not enough: comparing two lists that end in errors whose
irritants are the lists never comes to an end.
-/
theorem lists_in_their_own_errors_are_never_compared :
    ∃ (store : Store) (first second : Value),
      store.HasNoCycleInSequences first ∧ store.HasNoCycleInSequences second ∧
        ∀ depth, store.compareWithin? depth true first second = none :=
  ⟨errorsOfThemselves, .pair 0, .pair 1, errorsOfThemselves_hasNoCycleInSequences _,
    errorsOfThemselves_hasNoCycleInSequences _,
    fun depth => (Store.errorsOfThemselves_compareWithin? depth true).1⟩

end SmallScheme
