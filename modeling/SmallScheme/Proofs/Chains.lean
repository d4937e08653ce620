import SmallScheme.Proofs.Store.Growth

namespace SmallScheme

/-!
# What is said about a chain

A chain of pairs comes round, is a proper list, or ends with something else.  Whether it ends is
found out by a race of two walks, and every operation on lists asks for the outcome of that race
first.  So they all say the same about a value: that it is a list, how long it is, what its items
are, and of what shape it is if a list is asked for and it is none.
-/

/-- A pair is described by its chain and anything else by its kind. -/
def Value.describedBy (chainDescription : String) : Value → String
  | .pair _ => chainDescription
  | value => value.kindName

namespace Store

variable
  {store : Store}
  {value ending : Value}
  {cells : List Nat}

/-- The pairs that are visited on the way to the end are those one comes to. -/
theorem Visits.mem_iff
    {address : Nat}
    (visits : store.Visits value cells ending)
    (isEnd : store.pair? ending = none) :
    address ∈ cells ↔
      (∃ pair, store.pairs[address]? = some pair) ∧
        Relation.ReflTransGen store.HasTail value (.pair address) := by
  constructor
  · intro member
    obtain ⟨before, after, rfl⟩ := List.append_of_mem member
    obtain ⟨middle, first, further⟩ := visits.split
    cases further with
    | pair found _ => exact ⟨⟨_, found⟩, first.leads⟩
  · rintro ⟨⟨pair, found⟩, leads⟩
    obtain ⟨before, first⟩ := exists_visits leads
    obtain ⟨after, last, further, isLast⟩ :
        ∃ after last, store.Visits pair.tail after last ∧ store.pair? last = none := by
      rcases store.exists_visits_or_isEndless pair.tail with
        ⟨after, last, further, isLast⟩ | ⟨next, isNext, endless⟩
      · exact ⟨after, last, further, isLast⟩
      · have comesRound : store.ComesRound pair.tail := isNext ▸ endless.comesRound
        obtain ⟨round, fromTail, back⟩ := comesRound
        have toTail := leads.tail ⟨pair, found, rfl⟩
        exact (visits.not_comesRound isEnd ⟨round, toTail.trans fromTail, back⟩).elim
    have whole := first.append (.pair found further)
    rw [(visits.unique isEnd whole isLast).1]
    exact List.mem_append_right _ List.mem_cons_self

/-- What is in the pairs at the addresses. -/
def headsOf (store : Store) (cells : List Nat) : List Value :=
  cells.map fun address => (store.pairAt address).head

/--
What the operations on lists say about a value: whether it is circular, its items if it is a proper
list, and the description of its chain.
-/
structure IsReadAs
    (store : Store)
    (value : Value)
    (circular : Bool)
    (items? : Option (List Value))
    (chainDescription : String) : Prop where
  isCircular : store.isCircular value = circular
  isList : store.isList value = items?.isSome
  items : store.listItems? value = items?
  length : store.listLength? value = items?.map List.length
  shape : store.shape value = value.describedBy chainDescription
  listItems :
    Store.listItems value store =
      (items?.elim (.error (.type (.expected "a proper list" (store.shape value)))) .ok, store)

theorem listItems_eq_of_listItems?_eq_none
    (notList : store.listItems? value = none) :
    listItems value store =
      (.error (.type (.expected "a proper list" (store.shape value))), store) := by
  rw [listItems, StoreM.view_bind, notList]
  rfl

theorem isReadAs_of_comesRound
    (comesRound : store.ComesRound value) :
    store.IsReadAs value true none "circular list" := by
  have noEnd := chainEnd?_eq_none_iff.mpr comesRound
  have notList : store.isList value = false := by rw [isList, noEnd]
  have noItems : store.listItems? value = none := by simp [listItems?, notList]
  exact
    { isCircular := by rw [isCircular, noEnd]; rfl
      isList := notList
      items := noItems
      length := by rw [listLength?, noItems]
      shape := by cases value <;> simp [shape, noEnd, Value.describedBy]
      listItems := listItems_eq_of_listItems?_eq_none noItems }

/-- A proper list has the heads of the visited pairs as its items. -/
theorem Visits.isReadAs_list
    (visits : store.Visits value cells .nil) :
    store.IsReadAs value false (some (store.headsOf cells)) "list" := by
  have ends := chainEnd?_eq_some_iff.mpr ⟨⟨cells, visits⟩, rfl⟩
  have items := listItems?_of_spells visits.spells
  exact
    { isCircular := by rw [isCircular, ends]; rfl
      isList := by rw [isList, ends]; rfl
      items := items
      length := by rw [listLength?, items]; rfl
      shape := by cases value <;> simp [shape, ends, Value.describedBy]
      listItems := by rw [Store.listItems, StoreM.view_bind, items]; rfl }

theorem Visits.listLength?_eq
    (visits : store.Visits value cells .nil) :
    store.listLength? value = some cells.length := by
  rw [visits.isReadAs_list.length, Option.map_some, headsOf, List.length_map]

theorem Visits.isReadAs_improper
    (visits : store.Visits value cells ending)
    (isEnd : store.pair? ending = none)
    (notNil : ending ≠ .nil) :
    store.IsReadAs value false none "improper list" := by
  have ends := chainEnd?_eq_some_iff.mpr ⟨⟨cells, visits⟩, isEnd⟩
  have notList : store.isList value = false := by
    rw [isList, ends]
    cases ending with
    | nil => exact (notNil rfl).elim
    | _ => rfl
  have noItems : store.listItems? value = none := by simp [listItems?, notList]
  exact
    { isCircular := by rw [isCircular, ends]; rfl
      isList := notList
      items := noItems
      length := by rw [listLength?, noItems]
      shape := by
        cases ending with
        | nil => exact (notNil rfl).elim
        | _ => cases value <;> simp [shape, ends, Value.describedBy]
      listItems := listItems_eq_of_listItems?_eq_none noItems }

end Store

/--
The race along a chain is over after one round for each pair of the store and one more.  It finds no
end if and only if the chain comes round, and otherwise the first value that is not a pair.  All
operations on lists agree with it: on a chain that comes round, on a proper list, which has the
heads of its pairs as its items, one for each pair that is reached, and on a chain that ends with
anything else.
-/
theorem chain_operations_agree
    (store : Store)
    (value : Value) :
    store.raceWithin (store.pairs.size + 1) value value = some (store.chainEnd? value) ∧
      (store.chainEnd? value = none ↔ store.ComesRound value) ∧
      (∀ ending,
        store.chainEnd? value = some ending ↔
          (∃ cells, store.Visits value cells ending) ∧ store.pair? ending = none) ∧
      (store.ComesRound value → store.IsReadAs value true none "circular list") ∧
      (∀ cells,
        store.Visits value cells .nil →
        cells.Nodup ∧
          (∀ address,
            address ∈ cells ↔
              (∃ pair, store.pairs[address]? = some pair) ∧
                Relation.ReflTransGen store.HasTail value (.pair address)) ∧
          store.listLength? value = some cells.length ∧
          store.IsReadAs value false (some (store.headsOf cells)) "list") ∧
      (∀ cells ending,
        store.Visits value cells ending →
        store.pair? ending = none →
        ending ≠ .nil →
        store.IsReadAs value false none "improper list") :=
  ⟨store.raceWithin_eq_chainEnd? value,
    Store.chainEnd?_eq_none_iff,
    fun _ => Store.chainEnd?_eq_some_iff,
    Store.isReadAs_of_comesRound,
    fun _ visits =>
      ⟨visits.nodup rfl, fun _ => visits.mem_iff rfl, visits.listLength?_eq, visits.isReadAs_list⟩,
    fun _ _ visits isEnd notNil => visits.isReadAs_improper isEnd notNil⟩

end SmallScheme
