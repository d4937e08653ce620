import SmallScheme.Proofs.Store.Outline
import SmallScheme.Store.Equality
import SmallScheme.Store.Form

namespace SmallScheme

/-!
# Values that are alike

Values with the same outline are alike: equality tells atoms with different outlines apart, and what
is like a list or a vector has parts that are like its parts.
-/

/-- An atom that is equal to exactly what is written like it. -/
def Value.IsExact : Value → Prop
  | .nil => True
  | .integer _ => True
  | .boolean _ => True
  | .character _ => True
  | .text _ => True
  | .bytevector _ => True
  | .regex _ => True
  | _ => False

/-- What is compared exactly has no parts, or is a text or a bytevector. -/
theorem Value.IsExact.kind
    {value : Value}
    (isExact : value.IsExact) :
    value.IsBare ∨ (∃ address, value = .text address) ∨ ∃ address, value = .bytevector address := by
  cases value with
  | text address => exact .inr (.inl ⟨address, rfl⟩)
  | bytevector address => exact .inr (.inr ⟨address, rfl⟩)
  | nil | integer _ | boolean _ | character _ | regex _ => exact .inl trivial
  | _ => exact isExact.elim

namespace Store

variable {store before after : Store}

/-- Nothing in the value is inside itself. -/
def IsFinite (store : Store) (value : Value) : Prop :=
  ∃ outline, store.Shows outline value

/-- The values have the same outline. -/
def Alike (store : Store) (first second : Value) : Prop :=
  ∃ outline, store.Shows outline first ∧ store.Shows outline second

section Likeness

variable {first second third value ending : Value}

/-- Values of one outline have one outline. -/
theorem Alike.symm
    (alike : store.Alike first second) :
    store.Alike second first := by
  obtain ⟨outline, showsFirst, showsSecond⟩ := alike
  exact ⟨outline, showsSecond, showsFirst⟩

/-- At one value there is one outline. -/
theorem Alike.trans
    (left : store.Alike first second)
    (right : store.Alike second third) :
    store.Alike first third := by
  obtain ⟨outline, showsFirst, showsSecond⟩ := left
  obtain ⟨other, showsSecond', showsThird⟩ := right
  cases Shows.unique outline other showsSecond showsSecond'
  exact ⟨outline, showsFirst, showsThird⟩

/-- A finite value has its outline. -/
theorem IsFinite.alike
    (isFinite : store.IsFinite value) :
    store.Alike value value := by
  obtain ⟨outline, shows⟩ := isFinite
  exact ⟨outline, shows, shows⟩

/-- Only finite values are alike. -/
theorem Alike.isFinite
    (alike : store.Alike first second) :
    store.IsFinite second := by
  obtain ⟨outline, _, shows⟩ := alike
  exact ⟨outline, shows⟩

/-- A finite value stays finite while the store grows. -/
theorem IsFinite.grows
    (grows : before.Grows after)
    (isFinite : before.IsFinite value) :
    after.IsFinite value := by
  obtain ⟨outline, shows⟩ := isFinite
  exact ⟨outline, shows.grows grows⟩

/-- What is alike stays alike while the store grows. -/
theorem Alike.grows
    (grows : before.Grows after)
    (alike : before.Alike first second) :
    after.Alike first second := by
  obtain ⟨outline, showsFirst, showsSecond⟩ := alike
  exact ⟨outline, showsFirst.grows grows, showsSecond.grows grows⟩

/-- Values that were finite before the store grew are alike only if they were alike before. -/
theorem Alike.of_grows
    (grows : before.Grows after)
    (finiteFirst : before.IsFinite first)
    (finiteSecond : before.IsFinite second)
    (alike : after.Alike first second) :
    before.Alike first second := by
  obtain ⟨outline, showsFirst⟩ := finiteFirst
  obtain ⟨other, showsSecond⟩ := finiteSecond
  obtain ⟨common, commonFirst, commonSecond⟩ := alike
  cases Shows.unique outline common (showsFirst.grows grows) commonFirst
  cases Shows.unique other outline (showsSecond.grows grows) commonSecond
  exact ⟨outline, showsFirst, showsSecond⟩

/-- What is like a spelled list is spelled by items that are like its items. -/
theorem Alike.spells
    {items : List Value}
    (spells : store.Spells first items ending)
    (alike : store.Alike first second) :
    ∃ items' ending',
      store.Spells second items' ending' ∧ List.Forall₂ store.Alike items items' ∧
        store.Alike ending ending' := by
  induction spells generalizing second with
  | nothing => exact ⟨[], second, .nothing, .nil, alike⟩
  | pair found _ inductionHypothesis =>
      obtain ⟨outline, showsFirst, showsSecond⟩ := alike
      obtain ⟨headOutline, tailOutline, _, _, rfl, foundFirst, showsHead, showsTail⟩ :=
        showsFirst.of_pair
      cases found.symm.trans foundFirst
      obtain ⟨address, head, tail, rfl, foundSecond, showsHead', showsTail'⟩ := showsSecond
      obtain ⟨items', ending', spells', alikeItems, alikeEnding⟩ :=
        inductionHypothesis ⟨tailOutline, showsTail, showsTail'⟩
      exact ⟨head :: items', ending', .pair foundSecond spells',
        .cons ⟨headOutline, showsHead, showsHead'⟩ alikeItems, alikeEnding⟩

/-- Lists of values that are like one another, between the same things. -/
theorem Alike.of_spells
    {items items' : List Value}
    {ending' : Value}
    (spells : store.Spells first items ending)
    (spells' : store.Spells second items' ending')
    (alikeItems : List.Forall₂ store.Alike items items')
    (alikeEnding : store.Alike ending ending') :
    store.Alike first second := by
  induction alikeItems generalizing first second with
  | nil =>
      cases spells
      cases spells'
      exact alikeEnding
  | cons alikeItem _ inductionHypothesis =>
      cases spells with
      | pair found spells =>
          cases spells' with
          | pair found' spells' =>
              obtain ⟨head, showsHead, showsHead'⟩ := alikeItem
              obtain ⟨tail, showsTail, showsTail'⟩ := inductionHypothesis spells spells'
              exact ⟨.pair head tail, ⟨_, _, _, rfl, found, showsHead, showsTail⟩,
                ⟨_, _, _, rfl, found', showsHead', showsTail'⟩⟩

/-- A list is finite if its items and its ending are. -/
theorem IsFinite.of_spells
    {items : List Value}
    (spells : store.Spells value items ending)
    (finiteItems : ∀ item ∈ items, store.IsFinite item)
    (finiteEnding : store.IsFinite ending) :
    store.IsFinite value := by
  have alikeItems : List.Forall₂ store.Alike items items :=
    List.forall₂_same.mpr fun item member => (finiteItems item member).alike
  exact (Alike.of_spells spells spells alikeItems finiteEnding.alike).isFinite

/-- Values with the same outlines are alike one by one. -/
theorem forall₂_alike_of_showAll
    {outlines : List Outline}
    {items items' : List Value}
    (showAll : store.ShowAll outlines items)
    (showAll' : store.ShowAll outlines items') :
    List.Forall₂ store.Alike items items' := by
  induction outlines generalizing items items' with
  | nil =>
      cases showAll
      cases showAll'
      exact .nil
  | cons outline rest inductionHypothesis =>
      obtain ⟨_, _, rfl, shows, showRest⟩ := showAll
      obtain ⟨_, _, rfl, shows', showRest'⟩ := showAll'
      exact .cons ⟨outline, shows, shows'⟩ (inductionHypothesis showRest showRest')

/-- Values that are alike one by one have the same outlines. -/
theorem exists_showAll
    {items items' : List Value}
    (alike : List.Forall₂ store.Alike items items') :
    ∃ outlines, store.ShowAll outlines items ∧ store.ShowAll outlines items' := by
  induction alike with
  | nil => exact ⟨[], rfl, rfl⟩
  | cons alikeItem _ inductionHypothesis =>
      obtain ⟨outline, shows, shows'⟩ := alikeItem
      obtain ⟨outlines, showRest, showRest'⟩ := inductionHypothesis
      exact ⟨outline :: outlines, ⟨_, _, rfl, shows, showRest⟩, ⟨_, _, rfl, shows', showRest'⟩⟩

/-- What is like a vector is a vector of items that are alike. -/
theorem Alike.vector
    {address : Nat}
    {items : List Value}
    (found : store.vectors[address]? = some items.toArray)
    (alike : store.Alike (.vector address) second) :
    ∃ address' items',
      second = .vector address' ∧ store.vectors[address']? = some (List.toArray items') ∧
        List.Forall₂ store.Alike items items' := by
  obtain ⟨outline, shows, shows'⟩ := alike
  obtain ⟨outlines, _, rfl, found', showAll⟩ := shows.of_vector
  cases found.symm.trans found'
  obtain ⟨address', items', rfl, foundSecond, showAll'⟩ := shows'
  exact ⟨address', items', rfl, foundSecond, forall₂_alike_of_showAll showAll showAll'⟩

/-- Vectors of items that are alike are alike. -/
theorem Alike.of_vectors
    {address address' : Nat}
    {items items' : List Value}
    (found : store.vectors[address]? = some items.toArray)
    (found' : store.vectors[address']? = some items'.toArray)
    (alike : List.Forall₂ store.Alike items items') :
    store.Alike (.vector address) (.vector address') := by
  obtain ⟨outlines, showAll, showAll'⟩ := exists_showAll alike
  exact ⟨.vector outlines, ⟨address, items, rfl, found, showAll⟩,
    ⟨address', items', rfl, found', showAll'⟩⟩

/-- What is like an identifier is an identifier of the same name. -/
theorem Alike.identifier
    {name : String}
    (identified : first.identifier? = some name)
    (alike : store.Alike first second) :
    second.identifier? = some name := by
  obtain ⟨outline, shows, shows'⟩ := alike
  cases shows.of_identifier identified
  exact shows'

/-- Identifiers of one name are alike, whatever scopes they bring along. -/
theorem Alike.of_identifiers
    {name : String}
    (identified : first.identifier? = some name)
    (identified' : second.identifier? = some name) :
    store.Alike first second :=
  ⟨.identifier name, identified, identified'⟩

/-! Parts of finite values. -/

/-- The items of a list that was finite before the store grew, were there then. -/
theorem IsFinite.spells
    {items : List Value}
    (isFinite : before.IsFinite value)
    (grows : before.Grows after)
    (spells : after.Spells value items ending) :
    before.Spells value items ending ∧ (∀ item ∈ items, before.IsFinite item) ∧
      before.IsFinite ending := by
  induction spells with
  | nothing => exact ⟨.nothing, (fun _ member => nomatch member), isFinite⟩
  | pair found _ inductionHypothesis =>
      obtain ⟨outline, shows⟩ := isFinite
      obtain ⟨head, tail, _, _, rfl, foundBefore, showsHead, showsTail⟩ := shows.of_pair
      cases found.symm.trans (grows.pairs foundBefore)
      obtain ⟨spells, finiteItems, finiteEnding⟩ := inductionHypothesis ⟨tail, showsTail⟩
      exact ⟨.pair foundBefore spells,
        List.forall_mem_cons.mpr ⟨⟨head, showsHead⟩, finiteItems⟩, finiteEnding⟩

/-- A finite vector is there. -/
theorem IsFinite.exists_vector
    {address : Nat}
    (isFinite : store.IsFinite (.vector address)) :
    ∃ items : List Value, store.vectors[address]? = some items.toArray := by
  obtain ⟨outline, shows⟩ := isFinite
  obtain ⟨_, items, _, found, _⟩ := shows.of_vector
  exact ⟨items, found⟩

/-- The items of a finite vector were there before the store has grown. -/
theorem IsFinite.vector
    {address : Nat}
    {items : List Value}
    (isFinite : before.IsFinite (.vector address))
    (grows : before.Grows after)
    (found : after.vectors[address]? = some items.toArray) :
    before.vectors[address]? = some items.toArray ∧ ∀ item ∈ items, before.IsFinite item := by
  obtain ⟨outline, shows⟩ := isFinite
  obtain ⟨outlines, _, rfl, foundBefore, showAll⟩ := shows.of_vector
  cases found.symm.trans (grows.vectors foundBefore)
  refine ⟨foundBefore, fun item member => ?_⟩
  have alike := forall₂_alike_of_showAll showAll showAll
  rw [List.forall₂_same] at alike
  exact (alike item member).isFinite

/-- A finite value is a chain that ends. -/
theorem Shows.exists_spells
    (outline : Outline)
    {value : Value}
    (shows : store.Shows outline value) :
    ∃ items ending, store.Spells value items ending ∧ ∀ address, ending ≠ .pair address := by
  match outline with
  | .pair head tail =>
      obtain ⟨address, headShown, tailShown, rfl, found, _, showsTail⟩ := shows
      obtain ⟨items, ending, spells, isLast⟩ := Shows.exists_spells tail showsTail
      exact ⟨headShown :: items, ending, .pair found spells, isLast⟩
  | .leaf own =>
      obtain ⟨rfl, bare⟩ := shows
      refine ⟨[], _, .nothing, ?_⟩
      rintro address rfl
      exact bare.elim
  | .identifier name =>
      refine ⟨[], _, .nothing, ?_⟩
      rintro address rfl
      cases shows
  | .text text =>
      obtain ⟨_, rfl, _⟩ := shows
      exact ⟨[], _, .nothing, nofun⟩
  | .bytes bytes =>
      obtain ⟨_, rfl, _⟩ := shows
      exact ⟨[], _, .nothing, nofun⟩
  | .vector items =>
      obtain ⟨_, _, rfl, _⟩ := shows
      exact ⟨[], _, .nothing, nofun⟩
  | .marked mark inner =>
      obtain ⟨_, _, rfl, _⟩ := shows
      exact ⟨[], _, .nothing, nofun⟩

/-- A finite value is a list of its items, whatever that ends in. -/
theorem IsFinite.exists_spells
    (isFinite : store.IsFinite value) :
    ∃ items ending, store.Spells value items ending ∧ ∀ address, ending ≠ .pair address := by
  obtain ⟨outline, shows⟩ := isFinite
  exact Shows.exists_spells outline shows

end Likeness

/-! Atoms that equality compares exactly. -/

/-- A value without parts is like itself only. -/
theorem alike_bare_iff
    {value other : Value}
    (bare : value.IsBare) :
    store.Alike value other ↔ other = value := by
  constructor
  · rintro ⟨outline, shows, shows'⟩
    cases shows.of_bare bare
    exact shows'.1
  · rintro rfl
    exact ⟨.leaf other, ⟨rfl, bare⟩, ⟨rfl, bare⟩⟩

/-- Texts are alike if they have the same characters. -/
theorem alike_text_iff
    {address : Nat}
    {other : Value} :
    store.Alike (.text address) other ↔
      ∃ address', other = .text address' ∧ store.textAt address = store.textAt address' := by
  constructor
  · rintro ⟨outline, shows, shows'⟩
    cases shows.of_text
    obtain ⟨address', rfl, same⟩ := shows'
    exact ⟨address', rfl, same.symm⟩
  · rintro ⟨address', rfl, same⟩
    exact ⟨.text _, ⟨address, rfl, rfl⟩, ⟨address', rfl, same.symm⟩⟩

/-- Bytevectors are alike if they have the same bytes. -/
theorem alike_bytevector_iff
    {address : Nat}
    {other : Value} :
    store.Alike (.bytevector address) other ↔
      ∃ address',
        other = .bytevector address' ∧
          (store.bytevectorAt address).toList = (store.bytevectorAt address').toList := by
  constructor
  · rintro ⟨outline, shows, shows'⟩
    cases shows.of_bytevector
    obtain ⟨address', rfl, same⟩ := shows'
    exact ⟨address', rfl, same.symm⟩
  · rintro ⟨address', rfl, same⟩
    exact ⟨.bytes _, ⟨address, rfl, rfl⟩, ⟨address', rfl, same.symm⟩⟩

theorem alike_of_isExact
    {value : Value}
    (isExact : value.IsExact) :
    store.Alike value value := by
  rcases isExact.kind with bare | ⟨address, rfl⟩ | ⟨address, rfl⟩
  · exact (alike_bare_iff bare).mpr rfl
  · exact alike_text_iff.mpr ⟨address, rfl, rfl⟩
  · exact alike_bytevector_iff.mpr ⟨address, rfl, rfl⟩

/-- What is compared exactly is equal to what it is like. -/
theorem equal_iff_alike
    {value other : Value}
    (isExact : value.IsExact) :
    store.equal value other ↔ store.Alike value other := by
  cases value with
  | text address =>
      rw [alike_text_iff]
      cases other <;> simp [equal, equalWithin, identical]
  | bytevector address =>
      rw [alike_bytevector_iff]
      cases other <;> simp [equal, equalWithin, identical]
  | nil =>
      have bare : Value.IsBare (.nil) := trivial
      rw [alike_bare_iff bare]
      cases other <;> simp [equal, equalWithin, identical]
  | integer value =>
      have bare : Value.IsBare (.integer value) := trivial
      rw [alike_bare_iff bare]
      cases other <;> simp [equal, equalWithin, identical, eq_comm]
  | boolean value =>
      have bare : Value.IsBare (.boolean value) := trivial
      rw [alike_bare_iff bare]
      cases other <;> simp [equal, equalWithin, identical, eq_comm]
  | character value =>
      have bare : Value.IsBare (.character value) := trivial
      rw [alike_bare_iff bare]
      cases other <;> simp [equal, equalWithin, identical, eq_comm]
  | regex pattern =>
      have bare : Value.IsBare (.regex pattern) := trivial
      rw [alike_bare_iff bare]
      cases other <;> simp [equal, equalWithin, identical, eq_comm]
  | _ => exact isExact.elim

end Store

/-!
## Unfolded values

The forms that finite values unfold into are normal: a list has items, its tail is no list, and an
identifier shows the name of its value.
-/

namespace Form

/-- The nodes of the form are what the values that they show unfold into. -/
inductive IsUnfolded : Form → Prop
  | atom {value : Value} : IsUnfolded (.atom value)
  | identifier {name : String} {value : Value} :
      value.identifier? = some name → IsUnfolded (.identifier name value)
  | list {items : List Form} {tail : Form} {value : Value} :
      items ≠ [] →
      (∀ item ∈ items, IsUnfolded item) →
      IsUnfolded tail →
      (∀ others last whole, tail ≠ .list others last whole) →
      IsUnfolded (.list items tail value)
  | vector {items : List Form} {value : Value} :
      (∀ item ∈ items, IsUnfolded item) → IsUnfolded (.vector items value)
  | marked {mark : Mark} {inner : Form} {value : Value} :
      IsUnfolded inner → IsUnfolded (.marked mark inner value)

end Form

namespace Store

variable {store : Store}

/-- Only a pair is outlined as a list. -/
theorem formWithin_ne_list
    {value : Value}
    (noPair : ∀ address, value ≠ .pair address)
    (depth : Nat)
    (items : List Form)
    (tail : Form)
    (whole : Value) :
    store.formWithin depth value ≠ .list items tail whole := by
  cases depth with
  | zero => exact nofun
  | succ depth =>
      cases value with
      | pair address => exact (noPair address rfl).elim
      | _ => exact nofun

/-- What is under the mark of a finite value is finite. -/
theorem IsFinite.marked
    {mark : Mark}
    {address : Nat}
    (isFinite : store.IsFinite (.marked mark address)) :
    store.IsFinite (store.markedAt address) := by
  obtain ⟨outline, shows⟩ := isFinite
  obtain ⟨inner, _, rfl, found, showsInner⟩ := shows.of_marked
  rw [markedAt, found]
  exact ⟨inner, showsInner⟩

/-- Finite values unfold into normal forms, to any depth. -/
theorem IsFinite.isUnfolded
    {value : Value}
    (isFinite : store.IsFinite value)
    (depth : Nat) :
    (store.formWithin depth value).IsUnfolded := by
  induction depth generalizing value with
  | zero => exact .atom
  | succ depth inductionHypothesis =>
      cases value with
      | symbol name => exact .identifier rfl
      | «scoped» name scope => exact .identifier rfl
      | pair address =>
          obtain ⟨items, ending, spells, isLast⟩ := isFinite.exists_spells
          obtain ⟨_, finiteItems, finiteEnding⟩ := isFinite.spells (.refl store) spells
          have nonempty : items ≠ [] := by
            rintro rfl
            cases spells
            exact isLast address rfl
          rw [formWithin, chain_of_spells spells isLast]
          refine .list (mt List.map_eq_nil_iff.mp nonempty) (List.forall_mem_map.mpr ?_)
            (inductionHypothesis finiteEnding) (formWithin_ne_list isLast depth)
          exact fun item member => inductionHypothesis (finiteItems item member)
      | vector address =>
          obtain ⟨items, found⟩ := isFinite.exists_vector
          obtain ⟨_, finiteItems⟩ := isFinite.vector (.refl store) found
          rw [formWithin, vectorAt, found]
          refine .vector (List.forall_mem_map.mpr ?_)
          exact fun item member => inductionHypothesis (finiteItems item member)
      | marked mark address => exact .marked (inductionHypothesis isFinite.marked)
      | _ => exact .atom

end Store

end SmallScheme
