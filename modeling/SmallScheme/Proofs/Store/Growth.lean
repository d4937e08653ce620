import SmallScheme.Proofs.Store.Race
import Mathlib.Data.List.Forall2

namespace SmallScheme

/-!
# Stores that grow

Making lists, vectors and marked forms adds objects to the store and leaves all others as they are.
What is spelled by pairs in a store is spelled by the same pairs after the store has grown.
-/

namespace Store

/-- The second store has everything the first one has, and perhaps more objects with parts. -/
structure Grows (before after : Store) : Prop where
  pairs :
    ∀ {address : Nat} {pair : Pair},
      before.pairs[address]? = some pair → after.pairs[address]? = some pair
  vectors :
    ∀ {address : Nat} {items : Array Value},
      before.vectors[address]? = some items → after.vectors[address]? = some items
  marked :
    ∀ {address : Nat} {inner : Value},
      before.marked[address]? = some inner → after.marked[address]? = some inner
  texts : after.texts = before.texts
  bytevectors : after.bytevectors = before.bytevectors
  frames : after.frames = before.frames

variable
  {before between after store : Store}
  {value ending : Value}
  {items : List Value}

theorem Grows.refl
    (store : Store) :
    store.Grows store :=
  ⟨id, id, id, rfl, rfl, rfl⟩

theorem Grows.trans
    (first : before.Grows between)
    (second : between.Grows after) :
    before.Grows after where
  pairs := second.pairs ∘ first.pairs
  vectors := second.vectors ∘ first.vectors
  marked := second.marked ∘ first.marked
  texts := second.texts.trans first.texts
  bytevectors := second.bytevectors.trans first.bytevectors
  frames := second.frames.trans first.frames

/-- A pair that is there is the one that is looked up. -/
theorem pairAt_eq
    {address : Nat}
    {pair : Pair}
    (found : store.pairs[address]? = some pair) :
    store.pairAt address = pair := by
  rw [pairAt, found]
  rfl

/-- What is found in a table is still found after one more object has been added. -/
theorem getElem?_push_of_some
    {Object : Type}
    {objects : Array Object}
    {address : Nat}
    {object added : Object}
    (found : objects[address]? = some object) :
    (objects.push added)[address]? = some object := by
  obtain ⟨inside, _⟩ := Array.getElem?_eq_some_iff.mp found
  rw [Array.getElem?_push_lt inside, ← found, Array.getElem?_eq_getElem inside]

/-- A fresh pair leaves all others as they are. -/
theorem grows_newPair
    (head tail : Value)
    (store : Store) :
    store.Grows (store.newPair head tail).2 :=
  ⟨getElem?_push_of_some, id, id, rfl, rfl, rfl⟩

/-- A fresh vector leaves all others as they are. -/
theorem grows_newVector
    (items : Array Value)
    (store : Store) :
    store.Grows (store.newVector items).2 :=
  ⟨id, getElem?_push_of_some, id, rfl, rfl, rfl⟩

/-- A fresh marked form leaves all others as they are. -/
theorem grows_newMarked
    (mark : Mark)
    (inner : Value)
    (store : Store) :
    store.Grows (store.newMarked mark inner).2 :=
  ⟨id, id, getElem?_push_of_some, rfl, rfl, rfl⟩

/-! Chains of pairs. -/

/-- Following the tails of pairs from the value, one meets the items and then the ending. -/
inductive Spells (store : Store) : Value → List Value → Value → Prop
  | nothing {ending : Value} : Spells store ending [] ending
  | pair {address : Nat} {head tail ending : Value} {items : List Value} :
      store.pairs[address]? = some ⟨head, tail⟩ →
      Spells store tail items ending →
      Spells store (.pair address) (head :: items) ending

/-- A list is spelled as before when the store has grown. -/
theorem Spells.grows
    (spells : before.Spells value items ending)
    (grows : before.Grows after) :
    after.Spells value items ending := by
  induction spells with
  | nothing => exact .nothing
  | pair found _ inductionHypothesis => exact .pair (grows.pairs found) inductionHypothesis

/-- Items that are spelled one after the other are spelled together. -/
theorem Spells.append
    {middle : Value}
    {others : List Value}
    (spells : store.Spells value items middle)
    (further : store.Spells middle others ending) :
    store.Spells value (items ++ others) ending := by
  induction spells with
  | nothing => exact further
  | pair found _ inductionHypothesis => exact .pair found (inductionHypothesis further)

/-- Between two items the list is somewhere. -/
theorem Spells.split
    {others : List Value}
    (spells : store.Spells value (items ++ others) ending) :
    ∃ middle, store.Spells value items middle ∧ store.Spells middle others ending := by
  induction items generalizing value with
  | nil => exact ⟨value, .nothing, spells⟩
  | cons item rest inductionHypothesis =>
      cases spells with
      | pair found spells =>
          obtain ⟨middle, first, second⟩ := inductionHypothesis spells
          exact ⟨middle, .pair found first, second⟩

/-- There is one way to follow a chain to a value that is no pair. -/
theorem Spells.unique
    {others : List Value}
    {last : Value}
    (spells : store.Spells value items ending)
    (isLast : ∀ address, ending ≠ .pair address)
    (spellsOthers : store.Spells value others last)
    (isLastOther : ∀ address, last ≠ .pair address) :
    items = others ∧ ending = last := by
  induction spells generalizing others with
  | nothing =>
      cases spellsOthers with
      | nothing => exact ⟨rfl, rfl⟩
      | pair _ _ => exact (isLast _ rfl).elim
  | pair found _ inductionHypothesis =>
      cases spellsOthers with
      | nothing => exact (isLastOther _ rfl).elim
      | pair foundOther spellsOthers =>
          cases found.symm.trans foundOther
          obtain ⟨rfl, rfl⟩ := inductionHypothesis isLast spellsOthers
          exact ⟨rfl, rfl⟩

/-- A list ends where no pair is. -/
theorem pair?_eq_none_of_isLast
    (isLast : ∀ address, ending ≠ .pair address) :
    store.pair? ending = none := by
  cases ending with
  | pair address => exact (isLast address rfl).elim
  | _ => rfl

/-- Where items are spelled, pairs are visited, as many as there are items. -/
theorem Spells.exists_visits
    (spells : store.Spells value items ending) :
    ∃ cells, cells.length = items.length ∧ store.Visits value cells ending := by
  induction spells with
  | nothing => exact ⟨[], rfl, .nothing⟩
  | @pair address _ _ _ _ found _ inductionHypothesis =>
      obtain ⟨cells, count, visits⟩ := inductionHypothesis
      exact ⟨address :: cells, congrArg Nat.succ count, .pair found visits⟩

/-- Where pairs are visited, their heads are spelled. -/
theorem Visits.spells
    {cells : List Nat}
    (visits : store.Visits value cells ending) :
    store.Spells value (cells.map fun address => (store.pairAt address).head) ending := by
  induction visits with
  | nothing => exact .nothing
  | pair found _ inductionHypothesis =>
      rw [List.map_cons, pairAt_eq found]
      exact .pair found inductionHypothesis

/-- A chain that ends meets every pair once, so there are no more items than pairs. -/
theorem Spells.length_le
    (spells : store.Spells value items ending)
    (isLast : ∀ address, ending ≠ .pair address) :
    items.length ≤ store.pairs.size := by
  obtain ⟨cells, count, visits⟩ := spells.exists_visits
  exact count ▸ visits.length_le (pair?_eq_none_of_isLast isLast)

/-! The chain of a value. -/

/-- The items that have been walked over are spelled by the list. -/
theorem chainWithin_spells
    (steps : Nat)
    (sofar : List Value)
    (value : Value) :
    ∃ items,
      (store.chainWithin steps sofar value).1 = sofar.reverse ++ items ∧
        store.Spells value items (store.chainWithin steps sofar value).2 := by
  induction steps generalizing sofar value with
  | zero => exact ⟨[], (List.append_nil _).symm, .nothing⟩
  | succ steps inductionHypothesis =>
      unfold chainWithin
      split
      case h_1 pair found =>
        cases value with
        | pair address =>
            obtain ⟨items, same, spells⟩ := inductionHypothesis (pair.head :: sofar) pair.tail
            refine ⟨pair.head :: items, ?_, .pair found spells⟩
            rw [same, List.reverse_cons, List.append_assoc]
            rfl
        | _ => cases found
      case h_2 => exact ⟨[], (List.append_nil _).symm, .nothing⟩

/-- A chain spells its items and ends where the walk does. -/
theorem chain_spells
    (store : Store)
    (value : Value) :
    store.Spells value (store.chain value).1 (store.chain value).2 := by
  obtain ⟨items, same, spells⟩ := store.chainWithin_spells store.pairs.size [] value
  rw [List.reverse_nil, List.nil_append] at same
  rw [← same] at spells
  exact spells

/-- With enough steps all items are walked over. -/
theorem chainWithin_of_spells
    (spells : store.Spells value items ending)
    (isLast : ∀ address, ending ≠ .pair address)
    {steps : Nat}
    (enough : items.length ≤ steps)
    (sofar : List Value) :
    store.chainWithin steps sofar value = (sofar.reverse ++ items, ending) := by
  induction spells generalizing steps sofar with
  | nothing =>
      rw [List.append_nil]
      cases steps with
      | zero => rfl
      | succ steps =>
          unfold chainWithin
          split
          case h_1 pair found =>
            unfold pair? at found
            split at found
            · exact (isLast _ rfl).elim
            · cases found
          case h_2 => rfl
  | pair found _ inductionHypothesis =>
      obtain ⟨steps, rfl⟩ : ∃ fewer, steps = fewer + 1 :=
        ⟨steps - 1, by rw [List.length_cons] at enough; omega⟩
      unfold chainWithin
      rw [pair?, found]
      dsimp only
      rw [inductionHypothesis isLast (Nat.le_of_succ_le_succ enough), List.reverse_cons,
        List.append_assoc]
      rfl

/-- The chain of a list has its items and its ending. -/
theorem chain_of_spells
    (spells : store.Spells value items ending)
    (isLast : ∀ address, ending ≠ .pair address) :
    store.chain value = (items, ending) :=
  chainWithin_of_spells spells isLast (spells.length_le isLast) []

/-- The race comes to the ending of a list. -/
theorem chainEnd?_of_spells
    (spells : store.Spells value items ending)
    (isLast : ∀ address, ending ≠ .pair address) :
    store.chainEnd? value = some ending := by
  obtain ⟨cells, _, visits⟩ := spells.exists_visits
  exact chainEnd?_eq_some_iff.mpr ⟨⟨cells, visits⟩, pair?_eq_none_of_isLast isLast⟩

/-- The items of a proper list are what its pairs spell. -/
theorem listItems?_of_spells
    (spells : store.Spells value items .nil) :
    store.listItems? value = some items := by
  have isLast (address : Nat) : Value.nil ≠ .pair address := nofun
  have isList : store.isList value := by
    rw [isList, chainEnd?_of_spells spells isLast]
  rw [listItems?, if_pos isList, chain_of_spells spells isLast]

/-! Fresh lists. -/

/-- A fresh list is spelled by fresh pairs. -/
theorem newListFrom_spells
    (reversed : List Value)
    (tail : Value)
    (before : Store) :
    before.Grows (before.newListFrom reversed tail).2 ∧
      ∀ {sofar : List Value} {ending : Value},
        before.Spells tail sofar ending →
          (before.newListFrom reversed tail).2.Spells (before.newListFrom reversed tail).1
            (reversed.reverse ++ sofar) ending := by
  induction reversed generalizing tail before with
  | nil =>
      exact ⟨.refl before, id⟩
  | cons item reversed inductionHypothesis =>
      have growsPair := grows_newPair item tail before
      obtain ⟨grows, spells⟩ :=
        inductionHypothesis (before.newPair item tail).1 (before.newPair item tail).2
      refine ⟨growsPair.trans grows, fun {sofar ending} sofarSpells => ?_⟩
      have extended : (before.newPair item tail).2.Spells (before.newPair item tail).1
          (item :: sofar) ending :=
        .pair Array.getElem?_push_size (sofarSpells.grows growsPair)
      rw [List.reverse_cons, List.append_assoc]
      exact spells extended

/-- A fresh list spells the items that it was made of. -/
theorem newListWithTail_spells
    (items : List Value)
    (ending : Value)
    (before : Store) :
    before.Grows (before.newListWithTail items ending).2 ∧
      (before.newListWithTail items ending).2.Spells (before.newListWithTail items ending).1 items
        ending := by
  obtain ⟨grows, spells⟩ := newListFrom_spells items.reverse ending before
  have whole := spells .nothing
  rw [List.reverse_reverse, List.append_nil] at whole
  exact ⟨grows, whole⟩

end Store

/-! Operations that succeed. -/

namespace StoreM

variable
  {First Second : Type}
  {before after : Store}

/-- Two actions succeed if the second does after the first. -/
theorem bind_eq_ok_iff
    {first : StoreM First}
    {rest : First → StoreM Second}
    {answer : Second} :
    (first >>= rest) before = (.ok answer, after) ↔
      ∃ found between,
        first before = (.ok found, between) ∧ rest found between = (.ok answer, after) := by
  change ExceptT.bindCont rest (first before).1 (first before).2 = _ ↔ _
  rcases first before with ⟨fault | found, between⟩
  · constructor
    · intro ran
      cases ran
    · rintro ⟨_, _, ran, _⟩
      cases ran
  · constructor
    · exact fun ran => ⟨found, between, rfl, ran⟩
    · rintro ⟨_, _, ranFirst, ran⟩
      cases ranFirst
      exact ran

/-- To look at the store does not change it. -/
theorem view_bind
    (look : Store → First)
    (rest : First → StoreM Second)
    (store : Store) :
    (view look >>= rest) store = rest (look store) store :=
  rfl

/-- A change always succeeds. -/
theorem change_eq_ok_iff
    {action : Store → First × Store}
    {answer : First} :
    change action before = (.ok answer, after) ↔ action before = (answer, after) := by
  change (Except.ok (action before).1, (action before).2) = _ ↔ _
  constructor
  · intro ran
    cases ran
    rfl
  · intro ran
    rw [ran]

/-- What each item amounts to still holds after the operations for the other items. -/
theorem mapM_forall₂
    {action : First → StoreM Second}
    (holds : Store → First → Second → Prop)
    {items : List First}
    (each :
      ∀ {item : First} {between after : Store} {answer : Second},
        before.Grows between →
        action item between = (.ok answer, after) →
        between.Grows after ∧ holds after item answer)
    (kept :
      ∀ {item : First} {answer : Second} {before after : Store},
        before.Grows after → holds before item answer → holds after item answer)
    {answers : List Second}
    (ran : items.mapM action before = (.ok answers, after)) :
    before.Grows after ∧ List.Forall₂ (holds after) items answers := by
  induction items generalizing before answers with
  | nil =>
      cases ran
      exact ⟨.refl _, .nil⟩
  | cons item rest inductionHypothesis =>
      rw [List.mapM_cons] at ran
      obtain ⟨answer, between, ranItem, ran⟩ := bind_eq_ok_iff.mp ran
      obtain ⟨others, last, ranRest, ran⟩ := bind_eq_ok_iff.mp ran
      cases ran
      obtain ⟨growsItem, holdsItem⟩ := each (.refl before) ranItem
      obtain ⟨growsRest, holdsRest⟩ :=
        inductionHypothesis (fun grows => each (growsItem.trans grows)) ranRest
      exact ⟨growsItem.trans growsRest, .cons (kept growsRest holdsItem) holdsRest⟩

/-- Operations that succeed in every larger store succeed one after the other. -/
theorem mapM_total
    {action : First → StoreM Second}
    (holds : Store → First → Second → Prop)
    {items : List First}
    (each :
      ∀ item ∈ items, ∀ between,
        ∃ answer after,
          action item between = (.ok answer, after) ∧ between.Grows after ∧ holds after item answer)
    (kept :
      ∀ {item : First} {answer : Second} {before after : Store},
        before.Grows after → holds before item answer → holds after item answer)
    (before : Store) :
    ∃ answers after,
      items.mapM action before = (.ok answers, after) ∧ before.Grows after ∧
        List.Forall₂ (holds after) items answers := by
  induction items generalizing before with
  | nil => exact ⟨[], before, rfl, .refl _, .nil⟩
  | cons item rest inductionHypothesis =>
      obtain ⟨eachItem, eachRest⟩ := List.forall_mem_cons.mp each
      obtain ⟨answer, between, ranItem, growsItem, holdsItem⟩ := eachItem before
      obtain ⟨answers, after, ranRest, growsRest, holdsRest⟩ := inductionHypothesis eachRest between
      refine ⟨answer :: answers, after, ?_, growsItem.trans growsRest,
        .cons (kept growsRest holdsItem) holdsRest⟩
      rw [List.mapM_cons]
      exact bind_eq_ok_iff.mpr
        ⟨answer, between, ranItem, bind_eq_ok_iff.mpr ⟨answers, after, ranRest, rfl⟩⟩

end StoreM

/-! Operations that need no store. -/

/-- Only what is done with the items matters. -/
theorem mapM_congr_left
    {First Second : Type}
    {action other : First → Option Second}
    {items : List First}
    (same : ∀ item ∈ items, action item = other item) :
    items.mapM action = items.mapM other := by
  induction items with
  | nil => rfl
  | cons item items inductionHypothesis =>
      obtain ⟨sameItem, same⟩ := List.forall_mem_cons.mp same
      rw [List.mapM_cons, List.mapM_cons, sameItem, inductionHypothesis same]

/-- Operations fail one after the other exactly if one of them does. -/
theorem mapM_ne_none_iff
    {First Second : Type}
    {action : First → Option Second}
    {items : List First} :
    items.mapM action ≠ none ↔ ∀ item ∈ items, action item ≠ none := by
  induction items with
  | nil => simp
  | cons item items inductionHypothesis =>
      rw [List.mapM_cons, List.forall_mem_cons, ← inductionHypothesis]
      cases action item <;> cases items.mapM action <;> simp

/-- Operations succeed one after the other exactly if each of them does. -/
theorem mapM_eq_some_iff
    {First Second : Type}
    {action : First → Option Second}
    {items : List First}
    {answers : List Second} :
    items.mapM action = some answers ↔
      List.Forall₂ (fun item answer => action item = some answer) items answers := by
  induction items generalizing answers with
  | nil => cases answers <;> simp
  | cons item rest inductionHypothesis =>
      rw [List.mapM_cons, List.forall₂_cons_left_iff]
      constructor
      · intro ran
        obtain ⟨answer, ranItem, ran⟩ := Option.bind_eq_some_iff.mp ran
        obtain ⟨others, ranRest, ran⟩ := Option.bind_eq_some_iff.mp ran
        cases ran
        exact ⟨answer, others, ranItem, inductionHypothesis.mp ranRest, rfl⟩
      · rintro ⟨answer, others, ranItem, ranRest, rfl⟩
        exact Option.bind_eq_some_iff.mpr ⟨answer, ranItem,
          Option.bind_eq_some_iff.mpr ⟨others, inductionHypothesis.mpr ranRest, rfl⟩⟩

end SmallScheme
