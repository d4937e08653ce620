import SmallScheme.Proofs.Effects

namespace SmallScheme

/-!
# Calls for the items of a list

A fold calls a procedure for one item after the other, with what it has got so far and the item.  A
call may change the machine; between the calls, the fold only adds objects.  What a call must not
change is what has to be kept: the list, the library, and the objects that have been added since the
fold began, which the procedure has no access to.
-/

/-- Called with the sum so far and an item, it returns a value and leaves the last machine. -/
abbrev Calling :=
  Value → Value → Machine → Value → Machine → Prop

/--
The calls for the items return, one after the other.  Objects may be added before each call, and
the call keeps them, as well as all that has to be kept already.
-/
def CallsReturn (calling : Calling) : List Value → Value → (Store → Prop) → Machine → Prop
  | [], _, _, _ => True
  | item :: rest, sum, kept, machine =>
      ∀ store,
        machine.store.Adds store →
        ∃ value after,
          calling sum item { machine with store } value after ∧
            kept after.store ∧
            machine.store.KeepsAdded store after.store ∧
            CallsReturn calling rest value
              (fun later => kept later ∧ machine.store.KeepsAdded store later) after

/--
It is called for the items one after the other, each time with the value before, and returns the
values.  Nothing but calling it and adding objects leads to the last machine.
-/
inductive CalledInTurn (calling : Calling) :
    List Value → Value → Machine → List Value → Machine → Prop
  | nothing {sum : Value} {machine : Machine} {store : Store} :
      machine.store.Adds store →
      CalledInTurn calling [] sum machine [] { machine with store }
  | item
      {item sum value : Value}
      {items values : List Value}
      {machine between last : Machine}
      {store : Store} :
      machine.store.Adds store →
      calling sum item { machine with store } value between →
      CalledInTurn calling items value between values last →
      CalledInTurn calling (item :: items) sum machine (value :: values) last

variable
  {calling : Calling}
  {items values : List Value}
  {sum list ending : Value}
  {kept others : Store → Prop}
  {machine last : Machine}
  {store : Store}

/-- Fewer things are kept as well. -/
theorem CallsReturn.mono
    (returns : CallsReturn calling items sum kept machine)
    (fewer : ∀ {store}, kept store → others store) :
    CallsReturn calling items sum others machine := by
  induction items generalizing sum kept others machine with
  | nil => trivial
  | cons item items inductionHypothesis =>
      intro store adds
      obtain ⟨value, after, called, isKept, keeps, returns⟩ := returns store adds
      exact ⟨value, after, called, fewer isKept, keeps,
        inductionHypothesis returns fun ⟨isKept, keeps⟩ => ⟨fewer isKept, keeps⟩⟩

/-- Objects that are added before the first call are kept from then on. -/
theorem CallsReturn.adds
    (returns : CallsReturn calling items sum kept machine)
    (adds : machine.store.Adds store) :
    CallsReturn calling items sum
      (fun later => kept later ∧ machine.store.KeepsAdded store later) { machine with store } := by
  cases items with
  | nil => trivial
  | cons item items =>
      intro further addsFurther
      obtain ⟨value, after, called, isKept, keeps, returns⟩ :=
        returns further (adds.trans addsFurther)
      refine ⟨value, after, called, ⟨isKept, keeps.first addsFurther⟩, keeps.last adds, ?_⟩
      exact returns.mono fun ⟨isKept, keeps⟩ =>
        ⟨⟨isKept, keeps.first addsFurther⟩, keeps.last adds⟩

/-- Objects may be added before the first call. -/
theorem CalledInTurn.adds
    (called : CalledInTurn calling items sum { machine with store } values last)
    (adds : machine.store.Adds store) :
    CalledInTurn calling items sum machine values last := by
  cases called with
  | nothing further => exact .nothing (adds.trans further)
  | item further called rest => exact .item (adds.trans further) called rest

/-- Objects may be added after the last call. -/
theorem CalledInTurn.adds_last
    (called : CalledInTurn calling items sum machine values last)
    (adds : last.store.Adds store) :
    CalledInTurn calling items sum machine values { last with store } := by
  induction called with
  | nothing further => exact .nothing (further.trans adds)
  | item further called _ inductionHypothesis =>
      exact .item further called (inductionHypothesis adds)

section Entering

variable
  {enter : Value → Value → Store → Store}

/-- Some of what may be added before a call may be added in calling. -/
theorem CallsReturn.entering
    (returns : CallsReturn calling items sum kept machine)
    (adds : ∀ sum item (store : Store), store.Adds (enter sum item store)) :
    CallsReturn
      (fun sum item ready =>
        calling sum item { ready with store := enter sum item ready.store })
      items sum kept machine := by
  induction items generalizing sum kept machine with
  | nil => trivial
  | cons item items inductionHypothesis =>
      intro store addsStore
      have addsFrame := adds sum item store
      obtain ⟨value, after, called, isKept, keeps, returns⟩ :=
        returns (enter sum item store) (addsStore.trans addsFrame)
      refine ⟨value, after, called, isKept, keeps.first addsFrame, ?_⟩
      exact inductionHypothesis
        (returns.mono fun {_} ⟨isKept, keeps⟩ => ⟨isKept, keeps.first addsFrame⟩)

theorem CalledInTurn.entering
    (called :
      CalledInTurn
        (fun sum item ready =>
          calling sum item { ready with store := enter sum item ready.store })
        items sum machine values last)
    (adds : ∀ sum item (store : Store), store.Adds (enter sum item store)) :
    CalledInTurn calling items sum machine values last := by
  induction called with
  | nothing addsStore => exact .nothing addsStore
  | item addsStore called _ inductionHypothesis =>
      exact .item (addsStore.trans (adds _ _ _)) called inductionHypothesis

end Entering

/-- What objects that are added do not take away. -/
def Store.Lasts (kept : Store → Prop) : Prop :=
  ∀ ⦃store after : Store⦄,
    kept store →
    store.Adds after →
    kept after

theorem Store.Lasts.andKeepsAdded
    {before after : Store}
    (lasts : Store.Lasts kept) :
    Store.Lasts fun later => kept later ∧ before.KeepsAdded after later :=
  fun _ _ ⟨isKept, keeps⟩ adds => ⟨lasts isKept adds, keeps.adds adds⟩

/-- As long as so much is kept, the chain has the very same pairs up to its ending. -/
inductive ChainStays (kept : Store → Prop) : Value → List Value → Value → Prop
  | nothing {ending : Value} : ChainStays kept ending [] ending
  | pair {address : Nat} {item tail ending : Value} {items : List Value} :
      (∀ {store}, kept store → store.pairs[address]? = some ⟨item, tail⟩) →
      ChainStays kept tail items ending →
      ChainStays kept (.pair address) (item :: items) ending

/-- As long as so much is kept, the list has the very same pairs. -/
abbrev StaysSpelled (kept : Store → Prop) (list : Value) (items : List Value) : Prop :=
  ChainStays kept list items .nil

theorem ChainStays.mono
    (stays : ChainStays kept list items ending)
    (fewer : ∀ {store}, others store → kept store) :
    ChainStays others list items ending := by
  induction stays with
  | nothing => exact .nothing
  | pair found _ inductionHypothesis => exact .pair (found ∘ fewer) inductionHypothesis

theorem ChainStays.spells
    (stays : ChainStays kept list items ending)
    (isKept : kept store) :
    store.Spells list items ending := by
  induction stays with
  | nothing => exact .nothing
  | pair found _ inductionHypothesis => exact .pair (found isKept) inductionHypothesis

/-- Every part of the list is still spelled as it was. -/
def Store.KeepsList (before : Store) (list : Value) (after : Store) : Prop :=
  ∀ ⦃items : List Value⦄ ⦃ending : Value⦄,
    before.Spells list items ending → after.Spells list items ending

namespace Store.KeepsList

variable
  {before after later : Store}

theorem refl
    (store : Store)
    (list : Value) :
    store.KeepsList list store :=
  fun _ _ => id

theorem adds
    (keeps : before.KeepsList list after)
    (adds : after.Adds later) :
    before.KeepsList list later :=
  fun _ _ spells => (keeps spells).of_pairs adds.pairs

/-- The first pair is kept, and so is the rest of the list. -/
theorem of_pair
    {address : Nat}
    {item tail : Value}
    (keeps : before.KeepsList (.pair address) after)
    (found : before.pairs[address]? = some ⟨item, tail⟩) :
    after.pairs[address]? = some ⟨item, tail⟩ ∧ before.KeepsList tail after := by
  have here : after.pairs[address]? = some ⟨item, tail⟩ := by
    cases keeps (.pair found .nothing) with
    | pair found spells =>
        cases spells
        exact found
  refine ⟨here, fun _ _ spells => ?_⟩
  cases keeps (.pair found spells) with
  | pair found rest =>
      cases here.symm.trans found
      exact rest

end Store.KeepsList

/-- As much of a chain as is kept stays. -/
theorem ChainStays.of_keepsList
    (spells : store.Spells list items ending)
    (keeps : ∀ {later}, kept later → store.KeepsList list later) :
    ChainStays kept list items ending := by
  induction spells with
  | nothing => exact .nothing
  | pair found _ inductionHypothesis =>
      refine .pair (fun isKept => ((keeps isKept).of_pair found).1) ?_
      exact inductionHypothesis fun isKept => ((keeps isKept).of_pair found).2

/-- A list that has been made stays spelled if it is kept. -/
theorem StaysSpelled.of_newListFrom
    {sofar : List Value}
    (reversed : List Value)
    (stays : StaysSpelled kept list sofar)
    (keeps :
      ∀ {later}, kept later → store.KeepsAdded (store.newListFrom reversed list).2 later) :
    StaysSpelled kept (store.newListFrom reversed list).1 (reversed.reverse ++ sofar) := by
  induction reversed generalizing list sofar store with
  | nil => exact stays
  | cons item reversed inductionHypothesis =>
      have adds := Store.adds_newPair item list store
      rw [List.reverse_cons, List.append_assoc]
      refine inductionHypothesis (.pair (fun isKept => ?_) stays)
        fun isKept => (keeps isKept).last adds
      refine (keeps isKept).pairs (Nat.le_refl _) ?_
      exact
        (Store.adds_newListFrom reversed _ (store.newPair item list).2).pairs
          Array.getElem?_push_size

end SmallScheme
