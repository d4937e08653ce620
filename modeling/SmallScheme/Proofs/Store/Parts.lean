import Mathlib.Data.Finset.Card
import SmallScheme.Proofs.Store.Race

namespace SmallScheme

/-!
# Parts of values

From a value one comes to its parts: to what it contains and, if it is a pair, to its tail.  A value
has no cycle if from nothing that it leads to one comes back through what that contains; coming back
along tails alone is allowed.  From such a value one comes to fewer and fewer places of the store,
so that the extent of the store bounds how deep one can go.
-/

namespace Store

variable
  {store : Store}
  {value whole part : Value}

/-- What a value contains, but for the tail of a pair. -/
def contents (store : Store) : Value → List Value
  | .pair address => (store.pairs[address]?.map Pair.head).toList
  | .vector address => (store.vectorAt address).toList
  | .marked _ address => store.marked[address]?.toList
  | .program address => store.programAt address
  | .condition address => (store.conditionAt address).irritants
  | _ => []

def HasPart (store : Store) (whole part : Value) : Prop :=
  part ∈ store.contents whole ∨ store.HasTail whole part

/-- From the first value one comes to the second one in any number of steps. -/
abbrev LeadsTo (store : Store) : Value → Value → Prop :=
  Relation.ReflTransGen store.HasPart

/--
Every form under a mark that is reached is in the store, and from what a reached value contains one
does not come back to it.  Whatever holds other values counts for this: pairs with their heads, and
vectors, marked forms, programs and conditions.
-/
structure HasNoCycle (store : Store) (value : Value) : Prop where
  present :
    ∀ {mark : Mark} {address : Nat},
      store.LeadsTo value (.marked mark address) → address < store.marked.size
  noReturn :
    ∀ {whole part : Value},
      store.LeadsTo value whole → part ∈ store.contents whole → ¬store.LeadsTo part whole

/--
From the head of a pair that is reached, and from the items of a vector that is reached, one does
not come back to it.  One may come back from what marked forms, programs and conditions contain.
-/
def HasNoCycleInSequences (store : Store) (value : Value) : Prop :=
  ∀ {whole part : Value},
    store.LeadsTo value whole →
    (∃ address, whole = .pair address ∨ whole = .vector address) →
    part ∈ store.contents whole →
    ¬store.LeadsTo part whole

/-- Every pair that is reached is in the store. -/
def HasAllPairs (store : Store) (value : Value) : Prop :=
  ∀ {address : Nat}, store.LeadsTo value (.pair address) → address < store.pairs.size

/-- Pairs that are all there are there for every part. -/
theorem HasAllPairs.reached
    (hasAllPairs : store.HasAllPairs value)
    (leads : store.LeadsTo value part) :
    store.HasAllPairs part :=
  fun further => hasAllPairs (leads.trans further)

/-- A part of a value without cycles has none. -/
theorem HasNoCycle.reached
    (noCycle : store.HasNoCycle value)
    (leads : store.LeadsTo value part) :
    store.HasNoCycle part where
  present further := noCycle.present (leads.trans further)
  noReturn further := noCycle.noReturn (leads.trans further)

/-- Where ranks of values fall into contents and do not rise along tails, there is no cycle. -/
theorem hasNoCycle_of_rank
    (rank : Value → Nat)
    (falls : ∀ {whole part : Value}, part ∈ store.contents whole → rank part < rank whole)
    (holds : ∀ {whole part : Value}, store.HasTail whole part → rank part ≤ rank whole)
    (present :
      ∀ {mark : Mark} {address : Nat},
        rank (.marked mark address) ≤ rank value → address < store.marked.size) :
    store.HasNoCycle value := by
  have below {first last : Value}
      (leads : store.LeadsTo first last) :
      rank last ≤ rank first := by
    induction leads with
    | refl => exact Nat.le_refl _
    | tail _ hasPart inductionHypothesis =>
        rcases hasPart with contained | isTail
        · exact Nat.le_trans (Nat.le_of_lt (falls contained)) inductionHypothesis
        · exact Nat.le_trans (holds isTail) inductionHypothesis
  refine ⟨fun leads => present (below leads), fun _ contained back => ?_⟩
  exact Nat.not_lt_of_le (below back) (falls contained)

/-- Whoever comes from one value to another one goes along tails only, or through some contents. -/
theorem LeadsTo.tails_or_contents
    {first last : Value}
    (leads : store.LeadsTo first last) :
    Relation.ReflTransGen store.HasTail first last ∨
      ∃ whole part,
        store.LeadsTo first whole ∧ part ∈ store.contents whole ∧ store.LeadsTo part last := by
  induction leads with
  | refl => exact .inl .refl
  | @tail between last leads next inductionHypothesis =>
      rcases next with contained | isTail
      · exact .inr ⟨between, last, leads, contained, .refl⟩
      · rcases inductionHypothesis with tails | ⟨whole, part, before, contained, after⟩
        · exact .inl (tails.tail isTail)
        · exact .inr ⟨whole, part, before, contained, after.tail (.inr isTail)⟩

end Store

/-! Lists that come back to themselves through an error. -/

/-- Two lists, each of which ends in an error whose irritant is the list. -/
def errorsOfThemselves : Store :=
  { Store.empty with
    pairs := #[⟨.integer 1, .condition 0⟩, ⟨.integer 1, .condition 1⟩]
    conditions := #[⟨"m", [.pair 0]⟩, ⟨"m", [.pair 1]⟩] }

/-- Each pair of the example has a number before an error object. -/
theorem errorsOfThemselves_pairs
    {address : Nat}
    {pair : Pair}
    (found : errorsOfThemselves.pairs[address]? = some pair) :
    pair.head = .integer 1 ∧ ∃ condition, pair.tail = .condition condition := by
  have member := Array.mem_toList_iff.mpr (Array.mem_of_getElem? found)
  simp only [errorsOfThemselves, List.mem_cons, List.not_mem_nil, or_false] at member
  rcases member with rfl | rfl <;> exact ⟨rfl, _, rfl⟩

/-- Each error object of the example has one of the two pairs for its irritant. -/
theorem errorsOfThemselves_irritants
    {address : Nat}
    {irritant : Value}
    (member : irritant ∈ (errorsOfThemselves.conditionAt address).irritants) :
    irritant = .pair 0 ∨ irritant = .pair 1 := by
  match address with
  | 0 => exact .inl (List.mem_singleton.mp member)
  | 1 => exact .inr (List.mem_singleton.mp member)
  | _ + 2 => exact (List.not_mem_nil member).elim

/-- The example has no cycle through pairs and vectors alone. -/
theorem errorsOfThemselves_hasNoCycleInSequences
    (value : Value) :
    errorsOfThemselves.HasNoCycleInSequences value := by
  rintro whole part - ⟨address, rfl | rfl⟩ contained back
  · obtain ⟨pair, found, rfl⟩ := by simpa [Store.contents] using contained
    -- A number has no parts, so that it leads to itself only.
    rw [(errorsOfThemselves_pairs found).1] at back
    rcases back.cases_head with same | ⟨between, hasPart, _⟩
    · cases same
    · rcases hasPart with inside | ⟨_, ⟨⟩, _⟩
      cases inside
  · exact (List.not_mem_nil contained).elim

/-- The example holds all the pairs it names. -/
theorem errorsOfThemselves_hasAllPairs :
    errorsOfThemselves.HasAllPairs (.pair 0) := by
  intro address leads
  rcases leads.cases_tail with same | ⟨whole, _, contained | ⟨pair, found, isTail⟩⟩
  · cases same
    exact Nat.zero_lt_two
  · cases whole with
    | pair other =>
        obtain ⟨pair, found, isHead⟩ := by simpa [Store.contents] using contained
        cases isHead.symm.trans (errorsOfThemselves_pairs found).1
    | condition other =>
        rcases errorsOfThemselves_irritants contained with same | same <;> cases same
        · exact Nat.zero_lt_two
        · exact Nat.one_lt_two
    | _ => exact (List.not_mem_nil contained).elim
  · cases whole with
    | pair other =>
        obtain ⟨condition, isCondition⟩ := (errorsOfThemselves_pairs found).2
        cases isTail.symm.trans isCondition
    | _ => cases found

namespace Store

variable
  {store : Store}
  {value whole part : Value}

/-! Chains of tails that end. -/

/-- A value is circular exactly where its tails come round. -/
theorem isCircular_eq_false_iff :
    store.isCircular value = false ↔ ¬store.ComesRound value := by
  rw [isCircular, Option.isNone_eq_false_iff, Option.isSome_iff_ne_none, Ne, chainEnd?_eq_none_iff]

/-- The tail of a list that ends does so too. -/
theorem isCircular_tail
    (isTail : store.HasTail whole part)
    (ends : store.isCircular whole = false) :
    store.isCircular part = false := by
  rw [isCircular_eq_false_iff] at ends ⊢
  rintro ⟨pair, leads, back⟩
  exact ends ⟨pair, .head isTail leads, back⟩

/-- A list that ends is not among its own tails. -/
theorem not_tails_self
    (ends : store.isCircular value = false) :
    ¬Relation.TransGen store.HasTail value value :=
  fun back => isCircular_eq_false_iff.mp ends ⟨value, .refl, back⟩

end Store

/-! Places. -/

/-- Where an object with parts is kept. -/
inductive Place
  | pair (address : Nat)
  | vector (address : Nat)
  | marked (address : Nat)
  | program (address : Nat)
  | condition (address : Nat)
  deriving DecidableEq

/-- The place of the object that a value refers to; the mark of a marked form is not part of it. -/
def Value.place? : Value → Option Place
  | .pair address => some (.pair address)
  | .vector address => some (.vector address)
  | .marked _ address => some (.marked address)
  | .program address => some (.program address)
  | .condition address => some (.condition address)
  | _ => none

namespace Store

variable
  {store : Store}
  {value whole part : Value}

def places (store : Store) : Finset Place :=
  (Finset.range store.pairs.size).image .pair ∪ (Finset.range store.vectors.size).image .vector ∪
    (Finset.range store.marked.size).image .marked ∪
    (Finset.range store.programs.size).image .program ∪
    (Finset.range store.conditions.size).image .condition

/-- There are no more places than the store has room for. -/
theorem card_places_le
    (store : Store) :
    store.places.card ≤ store.extent := by
  have card_image_le (count : Nat) (place : Nat → Place) :
      ((Finset.range count).image place).card ≤ count :=
    Finset.card_image_le.trans_eq (Finset.card_range count)
  unfold places extent
  refine (Finset.card_union_le _ _).trans (Nat.add_le_add ?_ (card_image_le _ _))
  refine (Finset.card_union_le _ _).trans (Nat.add_le_add ?_ (card_image_le _ _))
  refine (Finset.card_union_le _ _).trans (Nat.add_le_add ?_ (card_image_le _ _))
  exact (Finset.card_union_le _ _).trans (Nat.add_le_add (card_image_le _ _) (card_image_le _ _))

open Classical in
/-- The places of the store that one comes to from a value. -/
noncomputable def placesFrom (store : Store) (value : Value) : Finset Place :=
  {place ∈ store.places | ∃ part, store.LeadsTo value part ∧ part.place? = some place}

/-- A place is reached from a value exactly where a part of the value is at it. -/
theorem mem_placesFrom
    {place : Place} :
    place ∈ store.placesFrom value ↔
      place ∈ store.places ∧ ∃ part, store.LeadsTo value part ∧ part.place? = some place := by
  simp only [placesFrom, Finset.mem_filter]

/-- No more places are reached than the store has room for. -/
theorem card_placesFrom_le
    (store : Store)
    (value : Value) :
    (store.placesFrom value).card ≤ store.extent := by
  refine (Finset.card_le_card fun place member => ?_).trans store.card_places_le
  exact (mem_placesFrom.mp member).1

/-- From a part that does not lead back one comes to fewer places. -/
theorem card_placesFrom_lt
    {place : Place}
    (isPlace : whole.place? = some place)
    (present : place ∈ store.places)
    (hasPart : store.HasPart whole part)
    (noReturn : ∀ {other : Value}, other.place? = some place → ¬store.LeadsTo part other) :
    (store.placesFrom part).card < (store.placesFrom whole).card := by
  refine Finset.card_lt_card (Finset.ssubset_iff_subset_ne.mpr ⟨fun other member => ?_, ?_⟩)
  · obtain ⟨isThere, last, leads, isOther⟩ := mem_placesFrom.mp member
    exact mem_placesFrom.mpr ⟨isThere, last, .head hasPart leads, isOther⟩
  · intro same
    have member : place ∈ store.placesFrom part :=
      same ▸ mem_placesFrom.mpr ⟨present, whole, .refl, isPlace⟩
    obtain ⟨_, other, leads, isOther⟩ := mem_placesFrom.mp member
    exact noReturn isOther leads

/-- The address of a pair is a place. -/
theorem pair_mem_places
    {address : Nat}
    {pair : Pair}
    (found : store.pairs[address]? = some pair) :
    .pair address ∈ store.places := by
  have present := (Array.getElem?_eq_some_iff.mp found).1
  simp [places, present]

/-- Only objects that are in the store contain anything. -/
theorem exists_place_of_mem_contents
    (contained : part ∈ store.contents whole) :
    ∃ place, whole.place? = some place ∧ place ∈ store.places := by
  cases whole with
  | pair address =>
      obtain ⟨pair, found, _⟩ := by simpa [contents] using contained
      exact ⟨.pair address, rfl, pair_mem_places found⟩
  | vector address =>
      refine ⟨.vector address, rfl, ?_⟩
      by_cases present : address < store.vectors.size
      · simp [places, present]
      · simp [contents, vectorAt, present] at contained
  | marked mark address =>
      refine ⟨.marked address, rfl, ?_⟩
      by_cases present : address < store.marked.size
      · simp [places, present]
      · simp [contents, present] at contained
  | program address =>
      refine ⟨.program address, rfl, ?_⟩
      by_cases present : address < store.programs.size
      · simp [places, present]
      · simp [contents, programAt, present] at contained
  | condition address =>
      refine ⟨.condition address, rfl, ?_⟩
      by_cases present : address < store.conditions.size
      · simp [places, present]
      · have missing := Array.getElem?_eq_none (Nat.le_of_not_lt present)
        rw [contents, conditionAt, missing] at contained
        exact (List.not_mem_nil contained).elim
  | _ => cases contained

/-- Two values that refer to one place contain the same. -/
theorem contents_eq_of_place?_eq
    {other : Value}
    {place : Place}
    (isPlace : whole.place? = some place)
    (samePlace : other.place? = some place) :
    store.contents other = store.contents whole := by
  cases whole <;> cases isPlace <;> cases other <;> cases samePlace <;> rfl

/-- What a value without cycles contains leads to fewer places. -/
theorem HasNoCycle.card_placesFrom_lt_of_mem
    (noCycle : store.HasNoCycle whole)
    (contained : part ∈ store.contents whole) :
    (store.placesFrom part).card < (store.placesFrom whole).card := by
  obtain ⟨place, isPlace, present⟩ := exists_place_of_mem_contents contained
  refine card_placesFrom_lt isPlace present (.inl contained) fun samePlace leads => ?_
  have alsoContained := contents_eq_of_place?_eq isPlace samePlace ▸ contained
  exact noCycle.noReturn (.head (.inl contained) leads) alsoContained leads

/-- So does the tail of a chain that ends. -/
theorem HasNoCycle.card_placesFrom_lt_of_tail
    (noCycle : store.HasNoCycle whole)
    (ends : store.isCircular whole = false)
    (isTail : store.HasTail whole part) :
    (store.placesFrom part).card < (store.placesFrom whole).card := by
  obtain ⟨pair, found, rfl⟩ := isTail
  cases whole with
  | pair address =>
      have isTail : store.HasTail (.pair address) pair.tail := ⟨pair, found, rfl⟩
      refine card_placesFrom_lt rfl (pair_mem_places found) (.inr isTail) ?_
      intro other samePlace leads
      cases other <;> cases samePlace
      rcases leads.tails_or_contents with tails | ⟨whole, part, before, contained, after⟩
      · exact not_tails_self ends (.head' isTail tails)
      · have fromPair := Relation.ReflTransGen.head (.inr isTail) before
        exact noCycle.noReturn fromPair contained (after.trans fromPair)
  | _ => cases found

end Store

end SmallScheme
