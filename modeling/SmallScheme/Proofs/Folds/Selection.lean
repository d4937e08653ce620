import SmallScheme.Proofs.Folds.Calls
import SmallScheme.Proofs.Folds.Derived

namespace SmallScheme

/-!
# Selecting items

The loop collects the items that are to be kept, the last one first, and turns them round in the
end.  What it has collected are pairs that it has added, so it is there after the next call.
-/

/-- Quoting the empty list gives the empty list. -/
theorem Machine.serves_quoted_nil
    {host : Host}
    {limit depth : Nat}
    {base store : Store}
    {context : Context}
    {scope : Scope}
    {form : Value}
    (writes : base.Writes (.marked .quote .nil) form)
    (keeps : base.KeepsCode store)
    (room : depth < limit) :
    Serves host limit (.evaluate scope form) ⟨store, context, depth⟩ .nil
      ⟨store, context, depth⟩ := by
  cases writes with
  | code encodes => cases encodes
  | @marked _ address inner _ found writesInner =>
      cases writesInner.encodes rfl
      have quoted : store.quoteValue (store.markedAt address) = (.nil, store) := by
        rw [Store.markedAt, keeps.marked found]
        rfl
      have answered :
          StoreM.change (fun store => store.quoteValue (store.markedAt address)) store =
            (.ok .nil, store) :=
        congrArg (fun made : Value × Store => (Except.ok made.1, made.2)) quoted
      refine serves_evaluate_iff.mpr ⟨room, ?_⟩
      exact .of_bind (Script.runsTo_perform answered) (Script.concludes_answer _ _)

namespace Folds

open Script Search

/-- The items for which a true value was returned. -/
def selected (items values : List Value) : List Value :=
  ((items.zip values).filter fun called => called.2.isTrue).map Prod.fst

theorem selected_cons
    (item value : Value)
    (items values : List Value) :
    selected (item :: items) (value :: values) =
      if value.isTrue then item :: selected items values else selected items values := by
  unfold selected
  rw [List.zip_cons_cons, List.filter_cons]
  split <;> rfl

/-- What has been collected after an item, and the store for it. -/
def collect (decision item collection : Value) (store : Store) : Value × Store :=
  if decision.isTrue then store.newPair item collection else (collection, store)

theorem adds_collect
    (decision item collection : Value)
    (store : Store) :
    store.Adds (collect decision item collection store).2 := by
  unfold collect
  split
  · exact store.adds_newPair item collection
  · exact .refl store

variable
  {host : Host}
  {limit depth left loop selection : Nat}
  {begun store after : Store}
  {context later : Context}
  {inner : Scope}
  {keep xs round list item tail ending decision collection : Value}
  {items collected : List Value}

/-- What has been collected stays so if the pair for the item is kept, too. -/
theorem staysSpelled_collect
    {kept : Store → Prop}
    (stays : StaysSpelled kept collection collected)
    (decision item : Value)
    (store : Store) :
    StaysSpelled
      (fun later => kept later ∧ store.KeepsAdded (collect decision item collection store).2 later)
      (collect decision item collection store).1
      (if decision.isTrue then item :: collected else collected) := by
  unfold collect
  split
  · refine .pair (fun isKept => ?_) (stays.mono And.left)
    exact isKept.2.pairs (Nat.le_refl _) Array.getElem?_push_size
  · exact stays.mono And.left

/-- What is seen from the loop. -/
def selectionSeen (left : Nat) (keep xs : Value) : List (String × Value) :=
  seenInside left ["keep?", "xs"] [keep, xs]

/-- What a round is entered with. -/
def selectionFrame (list collection : Value) : List (String × Value) :=
  [("acc", collection), ("xs", list)]

/-- The last round turns round what has been collected. -/
theorem selection_ends
    (loops : Loops begun round ["xs", "acc"] (selectionSeen left keep xs) loop inner store)
    (writes : begun.Writes selectionRound round)
    (room : depth + 2 ≤ limit)
    (spells : store.Spells collection collected .nil) :
    ∃ result last,
      store.Adds last ∧
        last.Spells result collected.reverse .nil ∧
          (Application.apply host (.procedure loop) [.nil, collection]).Concludes host limit
            ⟨store, context, depth⟩ result ⟨last, context, depth⟩ := by
  let ready := store.withFrame ⟨selectionFrame .nil collection, store.namespaces inner⟩
  have adds : store.Adds ready := store.adds_withFrame _
  have sees := loops.sees.entered (selectionFrame .nil collection) (store.namespaces inner)
  have keeps := loops.code.trans adds.keepsCode
  have listed : ready.Spells collection collected .nil := spells.of_pairs adds.pairs
  have reversed := (Store.newListFrom_spells collected .nil ready).2 .nothing
  rw [List.append_nil] at reversed
  refine ⟨_, _, adds.trans (Store.adds_newListFrom collected .nil ready), reversed, ?_⟩
  obtain ⟨_, spellsForm, _ | ⟨writesClause, _⟩⟩ := writes.use
  obtain ⟨_, spellsClause, _ | ⟨writesTest, _ | ⟨writesReverse, ⟨⟩⟩⟩⟩ := writesClause.spells
  obtain ⟨_, spellsTest, _⟩ := writesTest.use
  obtain ⟨_, spellsReverse, areWritten⟩ := writesReverse.use
  have tested :
      Machine.Serves host limit (.evaluate ⟨store.frames.size, inner.frames⟩ _)
        ⟨ready, context, depth⟩ (.boolean true) ⟨ready, context, depth⟩ :=
    Machine.serves_of_means (means_isOver sees rfl rfl) rfl writesTest keeps room
  have inTurn :
      Machine.ServesInTurn host limit begun ⟨store.frames.size, inner.frames⟩ _
        ⟨ready, context, depth⟩ [collection] ⟨ready, context, depth⟩ :=
    Machine.servesInTurn_of_means (.cons (Store.means_symbol (sees.means rfl)) .nil) (by decide)
      areWritten keeps (by omega)
  refine GoesOn.concludes (.trans_at_once
    (Application.goesOn_apply loops.procedure (by decide) rfl) (.trans_step
      (goesOn_tail_list spellsForm _)
      (Application.goesOn_use spellsForm keeps (by decide) (sees.means rfl) rfl))) ?_
  refine GoesOn.concludes (.trans_at_once
    (Special.goesOn_clauses_of_true spellsClause keeps (spellsTest.isNamed_eq_false _)
      (spellsReverse.isNamed_eq_false _) tested rfl) (.trans_step
        (goesOn_tail_list spellsReverse _)
        (Application.goesOn_call spellsReverse keeps (by decide) (sees.means rfl) rfl inTurn))) ?_
  exact Application.concludes_primitive (Primitive.apply_reverse host listed)

section Items

variable
  {address : Nat}
  {scope : Scope}
  {form : Value}

/-- An item that is kept is put before what has been collected. -/
theorem keepItem_goes_on
    (sees :
      store.Sees scope
        (selectionFrame (.pair address) collection ++
          ("loop", .procedure loop) :: selectionSeen left keep xs))
    (keeps : begun.KeepsCode store)
    (writes : begun.Writes keepItem form)
    (room : depth + 3 ≤ limit)
    (found : store.pairs[address]? = some ⟨item, tail⟩) :
    (Script.tail scope form).GoesOn host limit ⟨store, context, depth⟩ 1
      (Application.apply host (.procedure loop) [tail, (store.newPair item collection).1])
      ⟨(store.newPair item collection).2, context, depth⟩ := by
  obtain ⟨_, spells, _ | ⟨writesRest, _ | ⟨writesCons, ⟨⟩⟩⟩⟩ := writes.use
  obtain ⟨_, spellsCons, areWritten⟩ := writesCons.use
  have servedRest :
      Machine.Serves host limit (.evaluate scope _) ⟨store, context, depth⟩ tail
        ⟨store, context, depth⟩ :=
    Machine.serves_of_means (means_otherItems sees rfl rfl found) rfl writesRest keeps (by omega)
  have servedOperands :
      Machine.ServesInTurn host limit begun scope _ ⟨store, context, depth + 1⟩ [item, collection]
        ⟨store, context, depth + 1⟩ :=
    Machine.servesInTurn_of_means
      (.cons (means_firstItem sees rfl rfl found)
        (.cons ((Store.means_symbol (sees.means rfl)).mono (by decide)) .nil))
      (by decide) areWritten keeps (by omega)
  have answers :
      Primitive.apply host (.listing .cons) [item, collection] store =
        (.ok (store.newPair item collection).1, (store.newPair item collection).2) :=
    rfl
  have servedCons :=
    Machine.serves_evaluate_iff.mpr
      ⟨by omega,
        (Application.goesOn_call spellsCons keeps (by decide) (sees.means rfl) rfl
          servedOperands).concludes (Application.concludes_primitive answers)⟩
  exact .trans_step (goesOn_tail_list spells _)
    (Application.goesOn_call spells keeps (by decide) (sees.means rfl) rfl
      (.form keeps servedRest (.form keeps servedCons (.nothing _))))

/-- An item that is not kept is passed over. -/
theorem passItem_goes_on
    (sees :
      store.Sees scope
        (selectionFrame (.pair address) collection ++
          ("loop", .procedure loop) :: selectionSeen left keep xs))
    (keeps : begun.KeepsCode store)
    (writes : begun.Writes passItem form)
    (room : depth + 3 ≤ limit)
    (found : store.pairs[address]? = some ⟨item, tail⟩) :
    (Script.tail scope form).GoesOn host limit ⟨store, context, depth⟩ 1
      (Application.apply host (.procedure loop) [tail, collection]) ⟨store, context, depth⟩ := by
  obtain ⟨_, spells, areWritten⟩ := writes.use
  refine .trans_step (goesOn_tail_list spells _)
    (Application.goesOn_call spells keeps (by decide) (sees.means rfl) rfl ?_)
  exact Machine.servesInTurn_of_means
    (.cons (means_otherItems sees rfl rfl found)
      (.cons ((Store.means_symbol (sees.means rfl)).mono (by decide)) .nil))
    (by decide) areWritten keeps (by omega)

end Items

/-- A round asks about the first item and goes on with the rest and what is collected then. -/
theorem selection_goes_on
    {address : Nat}
    (loops : Loops begun round ["xs", "acc"] (selectionSeen left keep xs) loop inner store)
    (writes : begun.Writes selectionRound round)
    (applied : Application.takesForms keep = false)
    (room : depth + 3 ≤ limit)
    (found : store.pairs[address]? = some ⟨item, tail⟩)
    (called :
      Machine.Serves host limit (.call keep [item])
        ⟨store.withFrame ⟨selectionFrame (.pair address) collection, store.namespaces inner⟩,
          context, depth⟩
        decision ⟨after, later, depth⟩)
    (loopsAfter :
      Loops begun round ["xs", "acc"] (selectionSeen left keep xs) loop inner after)
    (frame :
      after.frames[store.frames.size]? =
        some ⟨selectionFrame (.pair address) collection, store.namespaces inner⟩)
    (foundAfter : after.pairs[address]? = some ⟨item, tail⟩) :
    (Application.apply host (.procedure loop) [.pair address, collection]).GoesOn host limit
      ⟨store, context, depth⟩ 2
      (Application.apply host (.procedure loop)
        [tail, (collect decision item collection after).1])
      ⟨(collect decision item collection after).2, later, depth⟩ := by
  let scope : Scope := ⟨store.frames.size, inner.frames⟩
  let ready :=
    store.withFrame ⟨selectionFrame (.pair address) collection, store.namespaces inner⟩
  have sees := loops.sees.entered (selectionFrame (.pair address) collection)
    (store.namespaces inner)
  have seesAfter := loopsAfter.sees.inside frame
  have keeps : begun.KeepsCode ready := loops.code.trans (store.adds_withFrame _).keepsCode
  obtain ⟨_, spellsForm, _ | ⟨writesOver, _ | ⟨writesAsking, _ | ⟨writesPassing, ⟨⟩⟩⟩⟩⟩ :=
    writes.use
  obtain ⟨_, spellsOver, _ | ⟨writesTest, _ | ⟨_, ⟨⟩⟩⟩⟩ := writesOver.spells
  obtain ⟨_, spellsAsking, _ | ⟨writesCall, _ | ⟨writesKeep, ⟨⟩⟩⟩⟩ := writesAsking.spells
  obtain ⟨_, spellsPassing, _ | ⟨writesPass, ⟨⟩⟩⟩ := writesPassing.use
  obtain ⟨_, spellsTest, _⟩ := writesTest.use
  obtain ⟨_, spellsCall, areWritten⟩ := writesCall.use
  have tested :
      Machine.Serves host limit (.evaluate scope _) ⟨ready, context, depth⟩ (.boolean false)
        ⟨ready, context, depth⟩ :=
    Machine.serves_of_means (means_isOver sees rfl rfl) rfl writesTest keeps (by omega)
  have decided :=
    Machine.serves_call_form spellsCall keeps (by decide) (sees.means rfl) applied
      (.cons (means_firstItem sees rfl rfl found) .nil) (by decide) areWritten (by omega) called
  refine .trans_at_once (Application.goesOn_apply loops.procedure (by decide) rfl)
    (.trans_step (goesOn_tail_list spellsForm _) (.trans_at_once
      (Application.goesOn_use spellsForm keeps (by decide) (sees.means rfl) rfl) ?_))
  refine .trans_at_once (Special.goesOn_clauses_of_false spellsOver keeps
    (spellsTest.isNamed_eq_false _) tested rfl) ?_
  cases chosen : decision.isTrue with
  | true =>
      rw [collect, if_pos chosen]
      obtain ⟨_, spellsKeep, _⟩ := writesKeep.use
      exact .trans_at_once (Special.goesOn_clauses_of_true spellsAsking keeps
        (spellsCall.isNamed_eq_false _) (spellsKeep.isNamed_eq_false _) decided chosen)
        (keepItem_goes_on seesAfter loopsAfter.code writesKeep room foundAfter)
  | false =>
      rw [collect, if_neg (Bool.eq_false_iff.mp chosen)]
      exact .trans_at_once (Special.goesOn_clauses_of_false spellsAsking keeps
        (spellsCall.isNamed_eq_false _) decided chosen) (.trans_at_once
          (Special.goesOn_clauses_of_else spellsPassing loopsAfter.code)
          (passItem_goes_on seesAfter loopsAfter.code writesPass room foundAfter))

section Calls

variable
  {calling : Calling}
  {kept : Store → Prop}
  {sum : Value}

/-- By induction on the items, as for folding from the left. -/
theorem exists_goesOn_of_selectionLoops
    (writes : begun.Writes selectionRound round)
    (callable : Callable host limit depth begun keep (fun _ item => [item]) calling kept)
    (loops :
      ∀ {store},
        kept store →
        Loops begun round ["xs", "acc"] (selectionSeen left keep xs) loop inner store)
    (stays : ChainStays kept list items ending)
    (staysCollected : StaysSpelled kept collection collected)
    (isKept : kept store)
    (returns : CallsReturn calling items sum kept ⟨store, context, depth⟩) :
    ∃ values after later collectionAfter collectedAfter,
      CalledInTurn calling items sum ⟨store, context, depth⟩ values ⟨after, later, depth⟩ ∧
        kept after ∧
          after.Spells collectionAfter collectedAfter .nil ∧
            collectedAfter.reverse = collected.reverse ++ selected items values ∧
              (Application.apply host (.procedure loop) [list, collection]).GoesOn host limit
                ⟨store, context, depth⟩ (2 * items.length)
                (Application.apply host (.procedure loop) [ending, collectionAfter])
                ⟨after, later, depth⟩ := by
  induction items generalizing kept list sum collection collected store context with
  | nil =>
      cases stays
      refine ⟨[], store, context, collection, collected, .nothing (.refl store), isKept,
        staysCollected.spells isKept, ?_, .refl _ _⟩
      rw [selected, List.zip_nil_left, List.filter_nil, List.map_nil, List.append_nil]
  | cons item items inductionHypothesis =>
      cases stays with
      | @pair address _ tail _ _ found stays =>
          have adds :=
            store.adds_withFrame
              ⟨selectionFrame (.pair address) collection, store.namespaces inner⟩
          obtain ⟨decision, ⟨after, later, depthAfter⟩, called, keptAfter, keeps, returns⟩ :=
            returns _ adds
          have served := callable.serves (callable.lasts isKept adds) called
          obtain rfl : depthAfter = depth := served.depth_eq
          have addsCollected := adds_collect decision item collection after
          obtain ⟨values, last, latest, collectionLast, collectedLast, inTurn, keptLast, spells,
              isCollected, goesOn⟩ :=
            inductionHypothesis callable.andKeepsAdded.andKeepsAdded
              (fun isKept => loops isKept.1.1) (stays.mono fun isKept => isKept.1.1)
              (staysSpelled_collect (staysCollected.mono And.left) decision item after)
              ⟨callable.lasts.andKeepsAdded ⟨keptAfter, keeps⟩ addsCollected, .of_adds (.refl _)⟩
              (returns.adds addsCollected)
          refine ⟨decision :: values, last, latest, collectionLast, collectedLast,
            .item adds called (inTurn.adds addsCollected), keptLast.1.1, spells, ?_, ?_⟩
          · rw [isCollected, selected_cons]
            split
            · rw [List.reverse_cons, ← List.append_cons]
            · rfl
          · exact (selection_goes_on (loops isKept) writes callable.applied callable.room
              (found isKept) served (loops keptAfter)
              (keeps.frames (Nat.le_refl _) Array.getElem?_push_size) (found keptAfter)).trans
              goesOn

/-- What selecting makes for its loop, which goes on with the first round. -/
theorem exists_selection_loops
    (sees : begun.Sees ⟨0, []⟩ [("fold-left", .procedure left)])
    (provides : begun.Provides "filter" ["keep?", "xs"] Folds.selection selection)
    (room : depth + 3 ≤ limit)
    (library : begun.KeepsLibrary store)
    (context : Context)
    (keep list : Value) :
    ∃ round loop inner ready,
      begun.Writes selectionRound round ∧
        store.Adds ready ∧
          (∀ later,
            begun.KeepsLibrary later →
            store.KeepsAdded ready later →
            Loops begun round ["xs", "acc"] (selectionSeen left keep list) loop inner later) ∧
          (Application.apply host (.procedure selection) [keep, list]).GoesOn host limit
            ⟨store, context, depth⟩ 2 (Application.apply host (.procedure loop) [list, .nil])
            ⟨ready, context, depth⟩ := by
  obtain ⟨-, form, called, found, writes⟩ := provides
  have seesFrame := (library.sees sees).entered [("xs", list), ("keep?", keep)]
    (store.namespaces ⟨0, []⟩)
  have keeps : begun.KeepsCode (entered ["keep?", "xs"] [keep, list] store) :=
    library.code.trans (store.adds_withFrame _).keepsCode
  have initially {forms : List Value}
      (areWritten : List.Forall₂ begun.Writes [.symbol "xs", .marked .quote .nil] forms) :
      Machine.ServesInTurn host limit begun ⟨store.frames.size, [0]⟩ forms
        ⟨entered ["keep?", "xs"] [keep, list] store, context, depth⟩ [list, .nil]
        ⟨entered ["keep?", "xs"] [keep, list] store, context, depth⟩ := by
    obtain _ | ⟨writesList, _ | ⟨writesNil, ⟨⟩⟩⟩ := areWritten
    have servedList :
        Machine.Serves host limit (.evaluate ⟨store.frames.size, [0]⟩ _)
          ⟨entered ["keep?", "xs"] [keep, list] store, context, depth⟩ list
          ⟨entered ["keep?", "xs"] [keep, list] store, context, depth⟩ :=
      Machine.serves_of_means (Store.means_symbol (seesFrame.means rfl)) rfl writesList keeps
        (by omega)
    exact .form keeps servedList
      (.form keeps (Machine.serves_quoted_nil writesNil keeps (by omega)) (.nothing _))
  exact exists_loops [keep, list] [list, .nil] sees library (library.procedures found) writes rfl
    (by decide) (by decide) rfl initially

/--
Selecting asks the procedure about one item after the other, and ends with a list of the items for
which it has returned a true value.
-/
theorem exists_calledInTurn_of_selection
    (sees : begun.Sees ⟨0, []⟩ [("fold-left", .procedure left)])
    (provides : begun.Provides "filter" ["keep?", "xs"] Folds.selection selection)
    (callable : Callable host limit depth begun keep (fun _ item => [item]) calling kept)
    (stays : StaysSpelled kept list items)
    (isKept : kept store)
    (returns : CallsReturn calling items sum kept ⟨store, context, depth⟩) :
    ∃ values last result,
      CalledInTurn calling items sum ⟨store, context, depth⟩ values last ∧
        last.store.Spells result (selected items values) .nil ∧
          (Application.apply host (.procedure selection) [keep, list]).Concludes host limit
            ⟨store, context, depth⟩ result last := by
  obtain ⟨round, loop, inner, ready, writesRound, adds, loops, entering⟩ :=
    @exists_selection_loops host limit depth left selection begun store sees provides callable.room
      (callable.library isKept) context keep list
  have loops {later : Store} (isKept : kept later ∧ store.KeepsAdded ready later) :=
    loops later (callable.library isKept.1) isKept.2
  obtain ⟨values, after, later, collection, collected, inTurn, keptAfter, spells, isCollected,
      goesOn⟩ :=
    exists_goesOn_of_selectionLoops writesRound callable.andKeepsAdded loops (stays.mono And.left)
      .nothing ⟨callable.lasts isKept adds, .of_adds (.refl ready)⟩ (returns.adds adds)
  obtain ⟨result, last, addsLast, spellsResult, ended⟩ :=
    @selection_ends host limit depth left loop begun after later inner keep list round _ collected
      (loops keptAfter) writesRound (Nat.le_of_succ_le callable.room) spells
  refine ⟨values, _, result, (inTurn.adds adds).adds_last addsLast, ?_,
    (entering.trans goesOn).concludes ended⟩
  rwa [isCollected] at spellsResult

/-- Selecting never ends if as many calls return as one likes. -/
theorem isEndless_of_selection
    (sees : begun.Sees ⟨0, []⟩ [("fold-left", .procedure left)])
    (provides : begun.Provides "filter" ["keep?", "xs"] Folds.selection selection)
    (callable : Callable host limit depth begun keep (fun _ item => [item]) calling kept)
    (isKept : kept store)
    (onward :
      ∀ count, ∃ items ending,
        count ≤ items.length ∧
          ChainStays kept list items ending ∧
            CallsReturn calling items sum kept ⟨store, context, depth⟩) :
    (Application.apply host (.procedure selection) [keep, list]).IsEndless host limit
      ⟨store, context, depth⟩ := by
  obtain ⟨round, loop, inner, ready, writesRound, adds, loops, entering⟩ :=
    @exists_selection_loops host limit depth left selection begun store sees provides callable.room
      (callable.library isKept) context keep list
  refine entering.isEndless (isEndless_of_goesOn fun count => ?_)
  obtain ⟨items, ending, enough, stays, returns⟩ := onward count
  obtain ⟨values, after, later, collection, collected, -, -, -, -, goesOn⟩ :=
    exists_goesOn_of_selectionLoops writesRound callable.andKeepsAdded
      (fun isKept => loops _ (callable.library isKept.1) isKept.2) (stays.mono And.left) .nothing
      ⟨callable.lasts isKept adds, .of_adds (.refl ready)⟩ (returns.adds adds)
  exact ⟨_, _, _, by omega, goesOn⟩

end Calls

end Folds

end SmallScheme
