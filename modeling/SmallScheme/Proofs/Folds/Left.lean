import SmallScheme.Proofs.Folds.Calls
import SmallScheme.Proofs.Folds.Loop

namespace SmallScheme

/-!
# Folding from the left

Each round of the loop has a frame inside the scope of the loop.  What is looked up after the call
of a round is seen from there as before, since the call keeps what has been added.
-/

namespace Folds

open Script Search

variable
  {host : Host}
  {limit depth left loop : Nat}
  {begun store after : Store}
  {context later : Context}
  {inner : Scope}
  {f init xs round list item sum tail ending value : Value}
  {items : List Value}

/-- What is seen from the loop. -/
def leftSeen (left : Nat) (f init xs : Value) : List (String × Value) :=
  seenInside left ["f", "init", "xs"] [f, init, xs]

/-- What a round is entered with. -/
def leftFrame (list sum : Value) : List (String × Value) :=
  [("xs", list), ("acc", sum)]

/-- The last round ends with the sum. -/
theorem left_ends
    (loops : Loops begun round ["acc", "xs"] (leftSeen left f init xs) loop inner store)
    (writes : begun.Writes leftRound round)
    (room : depth + 2 ≤ limit) :
    (Application.apply host (.procedure loop) [sum, .nil]).Concludes host limit
      ⟨store, context, depth⟩ sum
      ⟨store.withFrame ⟨leftFrame .nil sum, store.namespaces inner⟩, context, depth⟩ := by
  have entered := loops.sees.entered (leftFrame .nil sum) (store.namespaces inner)
  obtain ⟨_, writesSum, choosing⟩ :=
    exists_goesOn_if_over writes (loops.code.trans (store.adds_withFrame _).keepsCode) entered rfl
      rfl rfl room
  cases writesSum.encodes rfl
  exact GoesOn.concludes
    (.trans_at_once (Application.goesOn_apply loops.procedure (by decide) rfl) choosing)
    (concludes_tail_symbol (entered.means rfl) (by omega))

/-- A round calls the procedure and goes on with what it returns and the rest of the list. -/
theorem left_goes_on
    {address : Nat}
    (loops : Loops begun round ["acc", "xs"] (leftSeen left f init xs) loop inner store)
    (writes : begun.Writes leftRound round)
    (applied : Application.takesForms f = false)
    (room : depth + 3 ≤ limit)
    (found : store.pairs[address]? = some ⟨item, tail⟩)
    (called :
      Machine.Serves host limit (.call f [sum, item])
        ⟨store.withFrame ⟨leftFrame (.pair address) sum, store.namespaces inner⟩, context, depth⟩
        value ⟨after, later, depth⟩)
    (loopsAfter : Loops begun round ["acc", "xs"] (leftSeen left f init xs) loop inner after)
    (frame :
      after.frames[store.frames.size]? =
        some ⟨leftFrame (.pair address) sum, store.namespaces inner⟩)
    (foundAfter : after.pairs[address]? = some ⟨item, tail⟩) :
    (Application.apply host (.procedure loop) [sum, .pair address]).GoesOn host limit
      ⟨store, context, depth⟩ 2 (Application.apply host (.procedure loop) [value, tail])
      ⟨after, later, depth⟩ := by
  have entered := loops.sees.entered (leftFrame (.pair address) sum) (store.namespaces inner)
  have seesAfter := loopsAfter.sees.inside frame
  have keeps :
      begun.KeepsCode
        (store.withFrame ⟨leftFrame (.pair address) sum, store.namespaces inner⟩) :=
    loops.code.trans (store.adds_withFrame _).keepsCode
  obtain ⟨_, writesNext, choosing⟩ :=
    @exists_goesOn_if_over host limit depth begun _ context _ round (.pair address) _ _ _ writes
      keeps entered rfl rfl rfl (by omega)
  obtain ⟨_, spells, _ | ⟨writesCall, _ | ⟨writesRest, ⟨⟩⟩⟩⟩ := Store.Writes.use writesNext
  obtain ⟨_, spellsCall, writesOperands⟩ := Store.Writes.use writesCall
  have servedCall :=
    Machine.serves_call_form spellsCall keeps (by decide) (entered.means rfl) applied
      (.cons ((Store.means_symbol (entered.means rfl)).mono (by decide))
        (.cons (means_firstItem entered rfl rfl found) .nil))
      (by decide) writesOperands (by omega) called
  have servedRest :
      Machine.Serves host limit (.evaluate ⟨store.frames.size, inner.frames⟩ _)
        ⟨after, later, depth⟩ tail ⟨after, later, depth⟩ :=
    Machine.serves_of_means (means_otherItems seesAfter rfl rfl foundAfter) rfl writesRest
      loopsAfter.code (by omega)
  refine .trans_at_once (Application.goesOn_apply loops.procedure (by decide) rfl)
    (.trans_step choosing (.trans_step (goesOn_tail_list spells _) ?_))
  exact Application.goesOn_call spells keeps (by decide) (entered.means rfl) rfl
    (.form keeps servedCall (.form loopsAfter.code servedRest (.nothing _)))

/--
A procedure can be called for the items of a list, with the operands in this order, as long as so
much is kept.  The call is known to be one of the procedure, and the library is among what is kept.
-/
structure Callable
    (host : Host)
    (limit depth : Nat)
    (begun : Store)
    (f : Value)
    (operands : Value → Value → List Value)
    (calling : Calling)
    (kept : Store → Prop) : Prop where
  applied : Application.takesForms f = false
  room : depth + 3 ≤ limit
  lasts : Store.Lasts kept
  library {store : Store} : kept store → begun.KeepsLibrary store
  serves {sum item value : Value} {ready : Store} {context : Context} {after : Machine} :
    kept ready →
    calling sum item ⟨ready, context, depth⟩ value after →
    Machine.Serves host limit (.call f (operands sum item)) ⟨ready, context, depth⟩ value after

section Calls

variable
  {calling : Calling}
  {kept : Store → Prop}

/-- What has been added may be kept as well. -/
theorem Callable.andKeepsAdded
    {operands : Value → Value → List Value}
    {before ready : Store}
    (callable : Callable host limit depth begun f operands calling kept) :
    Callable host limit depth begun f operands calling
      fun later => kept later ∧ before.KeepsAdded ready later where
  applied := callable.applied
  room := callable.room
  lasts := callable.lasts.andKeepsAdded
  library isKept := callable.library isKept.1
  serves isKept := callable.serves isKept.1

/--
By induction on the items: each round is one call, and the loop goes on where it returns.  So the
loop comes to the ending of the chain, whatever that is.
-/
theorem exists_goesOn_of_loops
    (writes : begun.Writes leftRound round)
    (callable : Callable host limit depth begun f (fun sum item => [sum, item]) calling kept)
    (loops :
      ∀ {store},
        kept store →
        Loops begun round ["acc", "xs"] (leftSeen left f init xs) loop inner store)
    (stays : ChainStays kept list items ending)
    (isKept : kept store)
    (returns : CallsReturn calling items sum kept ⟨store, context, depth⟩) :
    ∃ values after later,
      CalledInTurn calling items sum ⟨store, context, depth⟩ values ⟨after, later, depth⟩ ∧
        kept after ∧
          (Application.apply host (.procedure loop) [sum, list]).GoesOn host limit
            ⟨store, context, depth⟩ (2 * items.length)
            (Application.apply host (.procedure loop) [values.getLastD sum, ending])
            ⟨after, later, depth⟩ := by
  induction items generalizing kept list sum store context with
  | nil =>
      cases stays
      exact ⟨[], store, context, .nothing (.refl store), isKept, .refl _ _⟩
  | cons item items inductionHypothesis =>
      cases stays with
      | @pair address _ tail _ _ found stays =>
          have adds :=
            store.adds_withFrame ⟨leftFrame (.pair address) sum, store.namespaces inner⟩
          obtain ⟨value, ⟨after, later, depthAfter⟩, called, keptAfter, keeps, returns⟩ :=
            returns _ adds
          have served := callable.serves (callable.lasts isKept adds) called
          obtain rfl : depthAfter = depth := served.depth_eq
          obtain ⟨values, last, latest, inTurn, keptLast, goesOn⟩ :=
            inductionHypothesis callable.andKeepsAdded (fun isKept => loops isKept.1)
              (stays.mono And.left) ⟨keptAfter, keeps⟩ returns
          refine ⟨value :: values, last, latest, .item adds called inTurn, keptLast.1, ?_⟩
          rw [List.getLastD_cons]
          exact (left_goes_on (loops isKept) writes callable.applied callable.room (found isKept)
            served (loops keptAfter) (keeps.frames (Nat.le_refl _) Array.getElem?_push_size)
            (found keptAfter)).trans goesOn

/-- What folding from the left makes for its loop, which goes on with the first round. -/
theorem exists_left_loops
    (sees : begun.Sees ⟨0, []⟩ [("fold-left", .procedure left)])
    (provides : begun.Provides "fold-left" ["f", "init", "xs"] Folds.left left)
    (room : depth + 3 ≤ limit)
    (library : begun.KeepsLibrary store)
    (context : Context)
    (f init list : Value) :
    ∃ round loop inner ready,
      begun.Writes leftRound round ∧
        store.Adds ready ∧
          (∀ later,
            begun.KeepsLibrary later →
            store.KeepsAdded ready later →
            Loops begun round ["acc", "xs"] (leftSeen left f init list) loop inner later) ∧
          (Application.apply host (.procedure left) [f, init, list]).GoesOn host limit
            ⟨store, context, depth⟩ 2 (Application.apply host (.procedure loop) [init, list])
            ⟨ready, context, depth⟩ := by
  obtain ⟨-, form, called, found, writes⟩ := provides
  have seesFrame := (library.sees sees).entered [("xs", list), ("init", init), ("f", f)]
    (store.namespaces ⟨0, []⟩)
  have initially {forms : List Value}
      (areWritten : List.Forall₂ begun.Writes [.symbol "init", .symbol "xs"] forms) :
      Machine.ServesInTurn host limit begun ⟨store.frames.size, [0]⟩ forms
        ⟨entered ["f", "init", "xs"] [f, init, list] store, context, depth⟩ [init, list]
        ⟨entered ["f", "init", "xs"] [f, init, list] store, context, depth⟩ :=
    Machine.servesInTurn_of_means
      (.cons (Store.means_symbol (seesFrame.means rfl))
        (.cons (Store.means_symbol (seesFrame.means rfl)) .nil))
      (by decide) areWritten (library.code.trans (store.adds_withFrame _).keepsCode)
      (by omega)
  exact exists_loops [f, init, list] [init, list] sees library (library.procedures found) writes rfl
    (by decide) (by decide) rfl initially

/--
Folding from the left calls the procedure for the items in their order, each time with what it has
returned before and the item, and ends with what it has returned last.
-/
theorem exists_calledInTurn_of_left
    (sees : begun.Sees ⟨0, []⟩ [("fold-left", .procedure left)])
    (provides : begun.Provides "fold-left" ["f", "init", "xs"] Folds.left left)
    (callable : Callable host limit depth begun f (fun sum item => [sum, item]) calling kept)
    (stays : StaysSpelled kept list items)
    (isKept : kept store)
    (returns : CallsReturn calling items init kept ⟨store, context, depth⟩) :
    ∃ values last,
      CalledInTurn calling items init ⟨store, context, depth⟩ values last ∧
        (Application.apply host (.procedure left) [f, init, list]).Concludes host limit
          ⟨store, context, depth⟩ (values.getLastD init) last := by
  obtain ⟨round, loop, inner, ready, writesRound, adds, loops, entering⟩ :=
    @exists_left_loops host limit depth left begun store sees provides callable.room
      (callable.library isKept) context f init list
  have loops {later : Store} (isKept : kept later ∧ store.KeepsAdded ready later) :=
    loops later (callable.library isKept.1) isKept.2
  obtain ⟨values, after, later, inTurn, keptAfter, goesOn⟩ :=
    exists_goesOn_of_loops writesRound callable.andKeepsAdded loops (stays.mono And.left)
      ⟨callable.lasts isKept adds, .of_adds (.refl ready)⟩ (returns.adds adds)
  exact ⟨values, _, (inTurn.adds adds).adds_last (after.adds_withFrame _),
    (entering.trans goesOn).concludes
      (left_ends (loops keptAfter) writesRound (Nat.le_of_succ_le callable.room))⟩

/-- Folding a list from the left never ends if as many calls return as one likes. -/
theorem isEndless_of_left
    (sees : begun.Sees ⟨0, []⟩ [("fold-left", .procedure left)])
    (provides : begun.Provides "fold-left" ["f", "init", "xs"] Folds.left left)
    (callable : Callable host limit depth begun f (fun sum item => [sum, item]) calling kept)
    (isKept : kept store)
    (onward :
      ∀ count, ∃ items ending,
        count ≤ items.length ∧
          ChainStays kept list items ending ∧
            CallsReturn calling items init kept ⟨store, context, depth⟩) :
    (Application.apply host (.procedure left) [f, init, list]).IsEndless host limit
      ⟨store, context, depth⟩ := by
  obtain ⟨round, loop, inner, ready, writesRound, adds, loops, entering⟩ :=
    @exists_left_loops host limit depth left begun store sees provides callable.room
      (callable.library isKept) context f init list
  refine entering.isEndless (isEndless_of_goesOn fun count => ?_)
  obtain ⟨items, ending, enough, stays, returns⟩ := onward count
  obtain ⟨values, after, later, -, -, goesOn⟩ :=
    exists_goesOn_of_loops writesRound callable.andKeepsAdded
      (fun isKept => loops _ (callable.library isKept.1) isKept.2) (stays.mono And.left)
      ⟨callable.lasts isKept adds, .of_adds (.refl ready)⟩ (returns.adds adds)
  exact ⟨_, _, _, by omega, goesOn⟩

end Calls

end Folds

end SmallScheme
