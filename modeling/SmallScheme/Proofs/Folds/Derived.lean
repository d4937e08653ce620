import SmallScheme.Proofs.Folds.Left

namespace SmallScheme

/-!
# Folds by way of the left one

Folding from the right is folding the reversed list from the left with a procedure that turns its
operands round.  Reducing is folding the rest of the list from its first item.
-/

namespace Primitive

variable
  {store : Store}
  {list : Value}
  {items : List Value}

/-- Reversing a list adds a list. -/
theorem apply_reverse
    (host : Host)
    (spells : store.Spells list items .nil) :
    apply host (.listing .reverse) [list] store =
      (.ok (store.newListFrom items .nil).1, (store.newListFrom items .nil).2) := by
  have listed : Listing.itemsOf "reverse" list store = (.ok items, store) := by
    unfold Listing.itemsOf
    rw [StoreM.view_bind, Store.listItems?_of_spells spells]
    rfl
  change
    (Listing.itemsOf "reverse" list >>= fun items => StoreM.change (Store.newListFrom items .nil))
      store = _
  exact StoreM.bind_eq_ok_iff.mpr ⟨items, store, listed, rfl⟩

end Primitive

namespace Folds

open Script Search

variable
  {host : Host}
  {limit depth left right reduction : Nat}
  {begun store : Store}
  {context : Context}
  {f init list : Value}
  {items : List Value}
  {calling : Calling}
  {kept : Store → Prop}

/-- Reducing the empty list ends with what there is to begin with. -/
theorem reduction_ends
    (sees : begun.Sees ⟨0, []⟩ [("fold-left", .procedure left)])
    (provides : begun.Provides "reduce" ["f", "init", "xs"] Folds.reduction reduction)
    (room : depth + 3 ≤ limit)
    (library : begun.KeepsLibrary store) :
    (Application.apply host (.procedure reduction) [f, init, .nil]).Concludes host limit
      ⟨store, context, depth⟩ init
      ⟨entered ["f", "init", "xs"] [f, init, .nil] store, context, depth⟩ := by
  obtain ⟨-, form, called, found, writes⟩ := provides
  have seesFrame := (library.sees sees).entered [("xs", .nil), ("init", init), ("f", f)]
    (store.namespaces ⟨0, []⟩)
  obtain ⟨_, writesInit, choosing⟩ :=
    @exists_goesOn_if_over host limit depth begun _ context _ form .nil _ _ _ writes
      (library.code.trans (store.adds_withFrame _).keepsCode) seesFrame rfl rfl rfl (by omega)
  cases writesInit.encodes rfl
  exact GoesOn.concludes
    (.trans_at_once (Application.goesOn_apply (library.procedures found) (by decide) rfl) choosing)
    (concludes_tail_symbol (seesFrame.means rfl) (by omega))

/-- Reducing goes on with folding the rest of the list from its first item. -/
theorem reduction_goes_on
    {address : Nat}
    {item tail : Value}
    (sees : begun.Sees ⟨0, []⟩ [("fold-left", .procedure left)])
    (provides : begun.Provides "reduce" ["f", "init", "xs"] Folds.reduction reduction)
    (room : depth + 3 ≤ limit)
    (library : begun.KeepsLibrary store)
    (pair : store.pairs[address]? = some ⟨item, tail⟩) :
    (Application.apply host (.procedure reduction) [f, init, .pair address]).GoesOn host limit
      ⟨store, context, depth⟩ 2 (Application.apply host (.procedure left) [f, item, tail])
      ⟨entered ["f", "init", "xs"] [f, init, .pair address] store, context, depth⟩ := by
  obtain ⟨-, form, called, found, writes⟩ := provides
  have seesFrame := (library.sees sees).entered [("xs", .pair address), ("init", init), ("f", f)]
    (store.namespaces ⟨0, []⟩)
  have keeps :
      begun.KeepsCode (entered ["f", "init", "xs"] [f, init, .pair address] store) :=
    library.code.trans (store.adds_withFrame _).keepsCode
  obtain ⟨_, writesCall, choosing⟩ :=
    @exists_goesOn_if_over host limit depth begun _ context _ form (.pair address) _ _ _ writes
      keeps seesFrame rfl rfl rfl (by omega)
  obtain ⟨_, spells, areWritten⟩ := Store.Writes.use writesCall
  refine .trans_at_once (Application.goesOn_apply (library.procedures found) (by decide) rfl)
    (.trans_step choosing (.trans_step (goesOn_tail_list spells _) ?_))
  refine Application.goesOn_call spells keeps (by decide) (seesFrame.means rfl) rfl ?_
  exact Machine.servesInTurn_of_means
    (.cons ((Store.means_symbol (seesFrame.means rfl)).mono (by decide))
      (.cons (means_firstItem seesFrame rfl rfl pair)
        (.cons (means_otherItems seesFrame rfl rfl pair) .nil)))
    (by decide) areWritten keeps (by omega)

/-- Reducing calls the procedure for all items but the first one, which it begins with. -/
theorem exists_calledInTurn_of_reduction
    (sees : begun.Sees ⟨0, []⟩ [("fold-left", .procedure left)])
    (providesLeft : begun.Provides "fold-left" ["f", "init", "xs"] Folds.left left)
    (provides : begun.Provides "reduce" ["f", "init", "xs"] Folds.reduction reduction)
    (callable : Callable host limit depth begun f (fun sum item => [sum, item]) calling kept)
    (stays : StaysSpelled kept list items)
    (isKept : kept store)
    (returns : CallsReturn calling items.tail (items.headD init) kept ⟨store, context, depth⟩) :
    ∃ values last,
      CalledInTurn calling items.tail (items.headD init) ⟨store, context, depth⟩ values last ∧
        (Application.apply host (.procedure reduction) [f, init, list]).Concludes host limit
          ⟨store, context, depth⟩ (values.getLastD (items.headD init)) last := by
  have adds : store.Adds (entered ["f", "init", "xs"] [f, init, list] store) :=
    store.adds_withFrame _
  cases stays with
  | nothing =>
      exact ⟨[], _, .nothing adds,
        reduction_ends sees provides callable.room (callable.library isKept)⟩
  | @pair address item tail _ items here stays =>
      obtain ⟨values, last, inTurn, ended⟩ :=
        exists_calledInTurn_of_left sees providesLeft callable.andKeepsAdded (stays.mono And.left)
          ⟨callable.lasts isKept adds, .of_adds (.refl _)⟩ (returns.adds adds)
      exact ⟨values, last, inTurn.adds adds,
        (reduction_goes_on sees provides callable.room (callable.library isKept)
          (here isKept)).concludes ended⟩

/-- Reducing never ends if as many calls return as one likes. -/
theorem isEndless_of_reduction
    (sees : begun.Sees ⟨0, []⟩ [("fold-left", .procedure left)])
    (providesLeft : begun.Provides "fold-left" ["f", "init", "xs"] Folds.left left)
    (provides : begun.Provides "reduce" ["f", "init", "xs"] Folds.reduction reduction)
    (callable : Callable host limit depth begun f (fun sum item => [sum, item]) calling kept)
    (isKept : kept store)
    (onward :
      ∀ count, ∃ items ending,
        count ≤ items.length ∧
          ChainStays kept list items ending ∧
            CallsReturn calling items.tail (items.headD init) kept ⟨store, context, depth⟩) :
    (Application.apply host (.procedure reduction) [f, init, list]).IsEndless host limit
      ⟨store, context, depth⟩ := by
  have adds : store.Adds (entered ["f", "init", "xs"] [f, init, list] store) :=
    store.adds_withFrame _
  obtain ⟨_ | ⟨item, _⟩, _, enough, stays, -⟩ := onward 1
  · cases enough
  cases stays with
  | @pair address _ tail _ _ found _ =>
      have onwardInside (count : Nat) :
          ∃ items ending,
            count ≤ items.length ∧
              ChainStays
                  (fun later =>
                    kept later ∧
                      store.KeepsAdded
                        (entered ["f", "init", "xs"] [f, init, .pair address] store) later)
                  tail items ending ∧
                CallsReturn calling items item
                  (fun later =>
                    kept later ∧
                      store.KeepsAdded
                        (entered ["f", "init", "xs"] [f, init, .pair address] store) later)
                  ⟨entered ["f", "init", "xs"] [f, init, .pair address] store, context, depth⟩ := by
        obtain ⟨_ | ⟨_, items⟩, ending, enough, stays, returns⟩ := onward (count + 1)
        · cases enough
        cases stays with
        | pair alsoFound stays =>
            cases (found isKept).symm.trans (alsoFound isKept)
            exact ⟨items, ending, Nat.le_of_succ_le_succ enough, stays.mono And.left,
              returns.adds adds⟩
      refine (reduction_goes_on sees provides callable.room (callable.library isKept)
        (found isKept)).isEndless ?_
      exact isEndless_of_left sees providesLeft callable.andKeepsAdded
        ⟨callable.lasts isKept adds, .of_adds (.refl _)⟩ onwardInside

/-- What the procedure that turns its operands round is entered with. -/
def turnedFrame (sum item : Value) : List (String × Value) :=
  [("item", item), ("acc", sum)]

/-- The procedure that turns its operands round can be called. -/
structure Turns
    (begun : Store)
    (form : Value)
    (seen : List (String × Value))
    (address : Nat)
    (outer : Scope)
    (store : Store) : Prop where
  sees : store.Sees outer seen
  procedure :
    store.procedures[address]? = some ⟨.fixed ["acc", "item"], [form], outer, none⟩
  code : begun.KeepsCode store

/-- A call that is turned round is one of the procedure, with a frame more. -/
theorem serves_turned
    {address : Nat}
    {outer : Scope}
    {form sum item value : Value}
    {last : Machine}
    (turns : Turns begun form (leftSeen left f init list) address outer store)
    (writes : begun.Writes turnedCall form)
    (applied : Application.takesForms f = false)
    (room : depth + 2 ≤ limit)
    (called :
      Machine.Serves host limit (.call f [item, sum])
        ⟨store.withFrame ⟨turnedFrame sum item, store.namespaces outer⟩, context, depth⟩ value
        last) :
    Machine.Serves host limit (.call (.procedure address) [sum, item]) ⟨store, context, depth⟩
      value last := by
  obtain ⟨after, later, depthAfter⟩ := last
  obtain rfl : depthAfter = depth := called.depth_eq
  obtain ⟨free, concludes⟩ := Machine.serves_call_iff.mp called
  have entered := turns.sees.entered (turnedFrame sum item) (store.namespaces outer)
  have keeps :
      begun.KeepsCode (store.withFrame ⟨turnedFrame sum item, store.namespaces outer⟩) :=
    turns.code.trans (store.adds_withFrame _).keepsCode
  obtain ⟨_, spells, areWritten⟩ := writes.use
  refine Machine.serves_call_iff.mpr ⟨free, GoesOn.concludes (.trans_at_once
    (Application.goesOn_apply turns.procedure (by decide) rfl) (.trans_step
      (goesOn_tail_list spells _)
      (Application.goesOn_call spells keeps (by decide) (entered.means rfl) applied ?_))) concludes⟩
  exact Machine.servesInTurn_of_means
    (.cons (Store.means_symbol (entered.means rfl))
      (.cons (Store.means_symbol (entered.means rfl)) .nil))
    (by decide) areWritten keeps (by omega)

/-- What folding from the right is entered with, and the procedure that it makes. -/
def withTurned (form f init list : Value) (store : Store) : Store :=
  ((entered ["f", "init", "xs"] [f, init, list] store).newProcedure
    ⟨.fixed ["acc", "item"], [form], ⟨store.frames.size, [0]⟩, none⟩).2

/-- What has the procedure has the frame of folding from the right as well. -/
theorem adds_withTurned
    (form f init list : Value)
    (store : Store) :
    store.Adds (withTurned form f init list store) :=
  (store.adds_withFrame _).trans (Store.adds_newProcedure _ _)

theorem sees_withTurned
    {form : Value}
    (sees : begun.Sees ⟨0, []⟩ [("fold-left", .procedure left)])
    (library : begun.KeepsLibrary store) :
    (withTurned form f init list store).Sees ⟨store.frames.size, [0]⟩
      (leftSeen left f init list) :=
  ((library.sees sees).entered [("xs", list), ("init", init), ("f", f)]
    (store.namespaces ⟨0, []⟩)).deepened (Store.adds_newProcedure _ _).frames

/--
Folding from the right goes on with a call of folding from the left.  Its first operands are the
procedure that turns the operands round and what there is to begin with.
-/
theorem exists_right_call
    (sees : begun.Sees ⟨0, []⟩ [("fold-left", .procedure left)])
    (provides : begun.Provides "fold-right" ["f", "init", "xs"] Folds.right right)
    (room : depth + 2 ≤ limit)
    (library : begun.KeepsLibrary store)
    (context : Context)
    (f init list : Value) :
    ∃ turned call forms reversing,
      begun.Writes turnedCall turned ∧
        begun.Spells call (.symbol "fold-left" :: (forms ++ [reversing])) .nil ∧
          begun.Writes (.ofList [.symbol "reverse", .symbol "xs"]) reversing ∧
            Machine.ServesInTurn host limit begun ⟨store.frames.size, [0]⟩ forms
              ⟨entered ["f", "init", "xs"] [f, init, list] store, context, depth⟩
              [.procedure store.procedures.size, init]
              ⟨withTurned turned f init list store, context, depth⟩ ∧
              (Application.apply host (.procedure right) [f, init, list]).GoesOn host limit
                ⟨store, context, depth⟩ 1 (Evaluation.script host ⟨store.frames.size, [0]⟩ call)
                ⟨entered ["f", "init", "xs"] [f, init, list] store, context, depth⟩ := by
  obtain ⟨-, form, called, found, writes⟩ := provides
  obtain ⟨_, spells, _ | ⟨writesLambda, _ | ⟨writesInit, _ | ⟨writesReverse, ⟨⟩⟩⟩⟩⟩ := writes.use
  obtain ⟨_, spellsLambda, _ | ⟨writesNames, _ | @⟨_, turned, _, _, writesTurned, ⟨⟩⟩⟩⟩ :=
    writesLambda.use
  have seesFrame := (library.sees sees).entered [("xs", list), ("init", init), ("f", f)]
    (store.namespaces ⟨0, []⟩)
  have seesTurned := @sees_withTurned left begun store f init list turned sees library
  have keeps : begun.KeepsCode (entered ["f", "init", "xs"] [f, init, list] store) :=
    library.code.trans (store.adds_withFrame _).keepsCode
  have keepsTurned := library.code.trans (adds_withTurned turned f init list store).keepsCode
  have madeProcedure :=
    @Machine.serves_lambda host limit depth begun _ context _ _ _ _ _ spellsLambda writesNames keeps
      (seesFrame.means rfl) (by decide) (by omega)
  have madeInit :=
    @Machine.serves_of_means host limit depth _ context _ _ _ _ begun _
      (Store.means_symbol (seesTurned.means rfl)) rfl writesInit keepsTurned (by omega)
  exact ⟨turned, form, [_, _], _, writesTurned, spells, writesReverse,
    .form keeps madeProcedure (.form keepsTurned madeInit (.nothing _)),
    .trans_at_once (Application.goesOn_apply (library.procedures found) (by decide) rfl)
      (goesOn_tail_list spells _)⟩

/--
Folding from the right makes the procedure that turns its operands round and the reversed list, and
goes on with folding this list from the left.
-/
theorem exists_turns
    (sees : begun.Sees ⟨0, []⟩ [("fold-left", .procedure left)])
    (provides : begun.Provides "fold-right" ["f", "init", "xs"] Folds.right right)
    (room : depth + 2 ≤ limit)
    (library : begun.KeepsLibrary store)
    (listed : store.Spells list items .nil) :
    ∃ form address outer reversed ready,
      begun.Writes turnedCall form ∧
        store.Adds ready ∧
          (∀ {later},
            begun.KeepsLibrary later →
            store.KeepsAdded ready later →
            Turns begun form (leftSeen left f init list) address outer later) ∧
          (∀ {kept : Store → Prop},
            (∀ {later}, kept later → store.KeepsAdded ready later) →
            StaysSpelled kept reversed items.reverse) ∧
          (Application.apply host (.procedure right) [f, init, list]).GoesOn host limit
            ⟨store, context, depth⟩ 1
            (Application.apply host (.procedure left) [.procedure address, init, reversed])
            ⟨ready, context, depth⟩ := by
  obtain ⟨turned, call, forms, reversing, writesTurned, spells, writesReverse, inTurn, entering⟩ :=
    @exists_right_call host limit depth left right begun store sees provides room library context f
      init list
  obtain ⟨_, spellsReverse, areWritten⟩ := writesReverse.use
  let made := withTurned turned f init list store
  let ready := (made.newListFrom items .nil).2
  have addsMade : store.Adds made := adds_withTurned turned f init list store
  have addsList : made.Adds ready := Store.adds_newListFrom _ _ _
  have seesMade : made.Sees ⟨store.frames.size, [0]⟩ (leftSeen left f init list) :=
    sees_withTurned sees library
  have keepsMade := library.code.trans addsMade.keepsCode
  have listedThere : made.Spells list items .nil := listed.of_pairs addsMade.pairs
  refine ⟨turned, store.procedures.size, ⟨store.frames.size, [0]⟩, (made.newListFrom items .nil).1,
    ready, writesTurned, addsMade.trans addsList, fun keepsLibrary keepsAdded => ?_, fun kept => ?_,
    ?_⟩
  · have addsProcedure := Store.adds_newProcedure
      ⟨.fixed ["acc", "item"], [turned], ⟨store.frames.size, [0]⟩, none⟩
      (entered ["f", "init", "xs"] [f, init, list] store)
    have frameThere :
        ready.frames[store.frames.size]? =
          some ⟨[("xs", list), ("init", init), ("f", f)], store.namespaces ⟨0, []⟩⟩ :=
      addsList.frames (addsProcedure.frames Array.getElem?_push_size)
    have procedureThere :
        ready.procedures[store.procedures.size]? =
          some ⟨.fixed ["acc", "item"], [turned], ⟨store.frames.size, [0]⟩, none⟩ :=
      addsList.procedures Array.getElem?_push_size
    exact ⟨(keepsLibrary.sees sees).inside (keepsAdded.frames (Nat.le_refl _) frameThere),
      keepsAdded.procedures (Nat.le_refl _) procedureThere, keepsLibrary.code⟩
  · have stays :=
      StaysSpelled.of_newListFrom items .nothing fun isKept => (kept isKept).last addsMade
    rwa [List.append_nil] at stays
  · have madeOperand :=
      @Machine.servesInTurn_of_means host limit (depth + 1) begun made context _ _ _ _ _
        (.cons (Store.means_symbol (seesMade.means rfl)) .nil) (by decide) areWritten keepsMade
        (by omega)
    have madeList :=
      Machine.serves_evaluate_iff.mpr
        ⟨by omega,
          (Application.goesOn_call spellsReverse keepsMade (by decide) (seesMade.means rfl) rfl
            madeOperand).concludes
            (Application.concludes_primitive (Primitive.apply_reverse host listedThere))⟩
    have seesFrame := (library.sees sees).entered [("xs", list), ("init", init), ("f", f)]
      (store.namespaces ⟨0, []⟩)
    exact entering.trans_step (Application.goesOn_call spells
      (library.code.trans (store.adds_withFrame _).keepsCode) (by decide) (seesFrame.means rfl) rfl
      (inTurn.append (.form keepsMade madeList (.nothing _))))

/--
Folding from the right calls the procedure for the items in the opposite order, each time with the
item and what it has returned before, and ends with what it has returned last.
-/
theorem exists_calledInTurn_of_right
    (sees : begun.Sees ⟨0, []⟩ [("fold-left", .procedure left)])
    (providesLeft : begun.Provides "fold-left" ["f", "init", "xs"] Folds.left left)
    (provides : begun.Provides "fold-right" ["f", "init", "xs"] Folds.right right)
    (callable : Callable host limit depth begun f (fun sum item => [item, sum]) calling kept)
    (stays : StaysSpelled kept list items)
    (isKept : kept store)
    (returns : CallsReturn calling items.reverse init kept ⟨store, context, depth⟩) :
    ∃ values last,
      CalledInTurn calling items.reverse init ⟨store, context, depth⟩ values last ∧
        (Application.apply host (.procedure right) [f, init, list]).Concludes host limit
          ⟨store, context, depth⟩ (values.getLastD init) last := by
  obtain ⟨form, address, outer, reversed, ready, writes, adds, turns, staysReversed, goesOn⟩ :=
    @exists_turns host limit depth left right begun store context f init list items sees provides
      (Nat.le_of_succ_le callable.room) (callable.library isKept) (stays.spells isKept)
  have addsFrame (sum item : Value) (store : Store) :
      store.Adds (store.withFrame ⟨turnedFrame sum item, store.namespaces outer⟩) :=
    store.adds_withFrame _
  have turned :
      Callable host limit depth begun (.procedure address) (fun sum item => [sum, item])
        (fun sum item machine =>
          calling sum item
            { machine with
              store :=
                machine.store.withFrame
                  ⟨turnedFrame sum item, machine.store.namespaces outer⟩ })
        fun later => kept later ∧ store.KeepsAdded ready later :=
    { applied := rfl
      room := callable.room
      lasts := callable.lasts.andKeepsAdded
      library := fun isKept => callable.library isKept.1
      serves := fun isKept called =>
        serves_turned (turns (callable.library isKept.1) isKept.2) writes callable.applied
          (Nat.le_of_succ_le callable.room)
          (callable.serves (callable.lasts isKept.1 (addsFrame _ _ _)) called) }
  obtain ⟨values, last, inTurn, ended⟩ :=
    exists_calledInTurn_of_left sees providesLeft turned (staysReversed And.right)
      ⟨callable.lasts isKept adds, .of_adds (.refl ready)⟩
      ((returns.adds adds).entering addsFrame)
  exact ⟨values, last, (inTurn.entering addsFrame).adds adds, goesOn.concludes ended⟩

end Folds

end SmallScheme
