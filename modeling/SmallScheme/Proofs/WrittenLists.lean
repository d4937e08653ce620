import SmallScheme.Proofs.Reader.Recovery
import SmallScheme.Proofs.Store.View

namespace SmallScheme

/-!
# How lists are written

Main result.  A list without cycles but along its tails is written pair by pair.  A chain that ends
is written with each of its pairs once.  One that comes round is written with each of its pairs, but
not with all of them twice, and then it is cut.
-/

/-! The text of a list. -/

namespace Datum

/-- Pieces are set apart by one blank in front of each but the first. -/
theorem spaced_cons
    (piece : List Char)
    (pieces : List (List Char)) :
    spaced (piece :: pieces) = piece ++ pieces.flatMap (List.cons ' ') := by
  induction pieces generalizing piece with
  | nil => simp [spaced]
  | cons next pieces inductionHypothesis =>
      rw [spaced, inductionHypothesis, List.flatMap_cons]
      · rfl
      · exact nofun

/-- In tail position, items stand with a blank in front of each. -/
theorem render_tail_listWithTail
    (items : List Datum)
    (tail : Datum) :
    render .tail (listWithTail items tail) =
      (renderAll items).flatMap (List.cons ' ') ++ render .tail tail := by
  induction items with
  | nil => rfl
  | cons item items inductionHypothesis =>
      rw [listWithTail, List.foldr_cons, ← listWithTail, render, inductionHypothesis, renderAll,
        List.flatMap_cons, List.append_assoc]
      rfl

/-- A list with a tail is written in parentheses, its items set apart by blanks. -/
theorem render_listWithTail
    {items : List Datum}
    (further : items ≠ [])
    (tail : Datum) :
    render .whole (listWithTail items tail) =
      '(' :: (spaced (renderAll items) ++ render .tail tail) := by
  cases items with
  | nil => exact (further rfl).elim
  | cons item items =>
      rw [listWithTail, List.foldr_cons, ← listWithTail, render, render_tail_listWithTail,
        renderAll, spaced_cons, List.append_assoc]

end Datum

namespace Store

variable
  {store : Store}
  {value ending : Value}
  {address : Nat}
  {cells : List Nat}

/-- No value but a pair is shown as the continuation of a list. -/
theorem not_isList_of_datum?
    {shown : Datum}
    (isEnd : store.pair? ending = none)
    (notNil : ending ≠ .nil)
    (isShown : store.datum? ending = some shown) :
    ¬shown.IsList := by
  cases ending with
  | nil => exact (notNil rfl).elim
  | pair address => cases (datumWithin?_of_missing isEnd _).symm.trans isShown
  | vector | marked | program | condition =>
      obtain ⟨_, _, same⟩ := Option.bind_eq_some_iff.mp isShown
      cases same
      exact id
  | _ =>
      cases isShown
      exact id

/-- The text of a datum is its rendering as a whole. -/
theorem toList_written
    (datum : Datum) :
    datum.written.toList = Datum.render .whole datum :=
  String.toList_ofList

/-- The heads of the pairs at the addresses, with one space between neighbours. -/
def writtenHeads? (store : Store) (cells : List Nat) : Option (List Char) := do
  let texts ← (store.headsOf cells).mapM store.written?
  return Datum.spaced (texts.map String.toList)

/-- What closes a list after its last head. -/
def closing? (store : Store) : Value → Option (List Char)
  | .nil => some [')']
  | ending => (store.written? ending).map fun text => " . ".toList ++ text.toList ++ [')']

/-- What is not the empty list stands at the end of a list behind a dot. -/
theorem closing?_of_ne_nil (isNotNil : ending ≠ .nil) :
    store.closing? ending =
      (store.written? ending).map fun text => " . ".toList ++ text.toList ++ [')'] := by
  unfold closing?
  split
  · exact absurd rfl isNotNil
  · rfl

/-- Cells whose heads are shown have their heads written one after the other. -/
theorem writtenHeads?_eq
    {items : List Datum}
    (shown : (store.headsOf cells).mapM store.datum? = some items) :
    store.writtenHeads? cells = some (Datum.spaced (Datum.renderAll items)) := by
  have texts : (store.headsOf cells).mapM store.written? = some (items.map Datum.written) := by
    refine mapM_eq_some_iff.mpr ?_
    rw [List.forall₂_map_right_iff]
    refine (mapM_eq_some_iff.mp shown).imp fun head item isShown => ?_
    rw [written?, isShown]
    rfl
  have same : (items.map Datum.written).map String.toList = Datum.renderAll items := by
    rw [Datum.renderAll_eq_map, List.map_map]
    exact List.map_congr_left fun item _ => toList_written item
  rw [writtenHeads?, texts, ← same]
  rfl

/-- A list that is cut is written with its heads up to where it is cut. -/
theorem written?_of_revisits
    {shown : Datum}
    (unfolded :
      store.unfoldChain (2 * store.pairs.size + 2) false address [] address =
        (store.headsOf cells, .revisits))
    (noCycle : store.HasNoCycle (.pair address))
    (hasAllPairs : store.HasAllPairs (.pair address))
    (isShown : store.datum? (.pair address) = some shown) :
    ∃ heads text,
      store.writtenHeads? cells = some heads ∧
        store.written? (.pair address) = some text ∧
        text.toList = '(' :: (heads ++ " ...)".toList) := by
  have parts := datum?_pair noCycle hasAllPairs
  rw [isShown, unfolded, chainDatum?] at parts
  obtain ⟨items, showsItems, same⟩ := Option.bind_eq_some_iff.mp parts.symm
  cases same
  refine ⟨_, _, writtenHeads?_eq showsItems, by rw [written?, isShown]; rfl, ?_⟩
  rw [toList_written, Datum.render]
  rfl

/-- A list that is not cut is written with all its heads and what its chain ends with. -/
theorem Visits.written?_eq
    {shown : Datum}
    (visits : store.Visits (.pair address) cells ending)
    (isEnd : store.pair? ending = none)
    (further : cells ≠ [])
    (noCycle : store.HasNoCycle (.pair address))
    (hasAllPairs : store.HasAllPairs (.pair address))
    (isShown : store.datum? (.pair address) = some shown) :
    ∃ heads closing text,
      store.writtenHeads? cells = some heads ∧ store.closing? ending = some closing ∧
        store.written? (.pair address) = some text ∧
        text.toList = '(' :: (heads ++ closing) := by
  have fits := visits.length_le isEnd
  have parts := datum?_pair noCycle hasAllPairs
  rw [isShown, visits.unfoldChain_eq isEnd further (by omega), chainDatum?] at parts
  obtain ⟨items, showsItems, parts⟩ := Option.bind_eq_some_iff.mp parts.symm
  obtain ⟨last, showsLast, same⟩ := Option.bind_eq_some_iff.mp parts
  cases same
  have someItems : items ≠ [] := by
    rintro rfl
    have sameLength := (mapM_eq_some_iff.mp showsItems).length_eq
    exact further (List.map_eq_nil_iff.mp (List.length_eq_zero_iff.mp sameLength))
  have closes : store.closing? ending = some (Datum.render .tail last) := by
    by_cases isNil : ending = .nil
    · subst isNil
      cases showsLast
      rfl
    · rw [Datum.render_tail_of_not_isList (not_isList_of_datum? isEnd isNil showsLast),
        ← toList_written]
      have written : store.written? ending = some last.written := by
        rw [written?, showsLast]
        rfl
      rw [closing?_of_ne_nil isNil, written]
      rfl
  refine ⟨_, _, _, writtenHeads?_eq showsItems, closes, by rw [written?, isShown]; rfl, ?_⟩
  rw [toList_written, Datum.render_listWithTail someItems]

end Store

/--
Of a pair that no contents lead back to, a list is written in finitely many steps, and no more depth
or steps change it.  It is cut if and only if the chain of the pair comes round.  Then all pairs of
the chain have been passed in their order, and less than all of them for a second time.  Otherwise
each pair of the chain is passed once, and the list is closed as the chain ends.
-/
theorem lists_are_written_along_their_chains
    {store : Store}
    {address : Nat}
    (hasAllPairs : store.HasAllPairs (.pair address))
    (noCycle : store.HasNoCycle (.pair address)) :
    (∃ shown,
      store.datum? (.pair address) = some shown ∧
        ∀ depth, store.extent < depth → store.datumWithin? depth (.pair address) = some shown) ∧
      (∀ steps,
        2 * store.pairs.size < steps →
        store.unfoldChain steps false address [] address =
          store.unfoldChain (2 * store.pairs.size + 2) false address [] address) ∧
      ((store.unfoldChain (2 * store.pairs.size + 2) false address [] address).2 = .revisits ↔
        store.ComesRound (.pair address)) ∧
      (store.ComesRound (.pair address) →
        ∃ distinct more again heads text,
          store.PassesRound address distinct more again ∧
            store.writtenHeads? (distinct ++ more) = some heads ∧
            store.written? (.pair address) = some text ∧
            text.toList = '(' :: (heads ++ " ...)".toList)) ∧
      (¬store.ComesRound (.pair address) →
        ∃ cells ending heads closing text,
          store.Visits (.pair address) cells ending ∧ store.pair? ending = none ∧ cells.Nodup ∧
            (∀ cell,
              cell ∈ cells ↔
                (∃ pair, store.pairs[cell]? = some pair) ∧
                  Relation.ReflTransGen store.HasTail (.pair address) (.pair cell)) ∧
            store.writtenHeads? cells = some heads ∧ store.closing? ending = some closing ∧
            store.written? (.pair address) = some text ∧
            text.toList = '(' :: (heads ++ closing)) := by
  have most := store.card_placesFrom_le (.pair address)
  obtain ⟨shown, shows⟩ := noCycle.exists_showsFrom hasAllPairs
  have isShown : store.datum? (.pair address) = some shown := shows _ (by omega)
  refine ⟨⟨shown, isShown, fun depth deep => shows depth (by omega)⟩, ?_⟩
  rcases Store.comesRound_or_exists_visits (Array.getElem?_eq_getElem (hasAllPairs .refl)) with
    comesRound | ⟨cells, ending, visits, isEnd, further⟩
  · obtain ⟨distinct, more, again, passes, unfolded⟩ := comesRound.unfoldChain_eq
    have whole := unfolded _ (Nat.le_add_right _ 2)
    refine ⟨fun steps enough => ?_, ?_, fun _ => ?_, fun ends => (ends comesRound).elim⟩
    · rw [whole, unfolded steps (Nat.le_of_lt enough)]
    · exact iff_of_true (congrArg Prod.snd whole) comesRound
    · obtain ⟨heads, text, isWritten⟩ :=
        Store.written?_of_revisits whole noCycle hasAllPairs isShown
      exact ⟨distinct, more, again, heads, text, passes, isWritten⟩
  · have ends := visits.not_comesRound isEnd
    have fits := visits.length_le isEnd
    have whole {steps : Nat} (enough : cells.length < steps) :=
      visits.unfoldChain_eq isEnd further enough
    refine ⟨fun steps enough => ?_, ?_, fun comesRound => (ends comesRound).elim, fun _ => ?_⟩
    · rw [whole (by omega), whole (by omega)]
    · rw [whole (by omega)]
      exact iff_of_false nofun ends
    · obtain ⟨heads, closing, text, isWritten⟩ :=
        visits.written?_eq isEnd further noCycle hasAllPairs isShown
      exact ⟨cells, ending, heads, closing, text, visits, isEnd, visits.nodup isEnd,
        fun _ => visits.mem_iff isEnd, isWritten⟩

/-! A ring of two pairs after a pair that leads to it. -/

def leadAndRing : Store :=
  { Store.empty with
    pairs := #[⟨.integer 1, .pair 1⟩, ⟨.integer 2, .pair 2⟩, ⟨.integer 3, .pair 1⟩] }

/-- How far the values are from the numbers. -/
def leadAndRingRank : Value → Nat
  | .pair _ => 1
  | .marked _ _ => 2
  | _ => 0

/-- Each cell of the example has a number in its head, and its tail is in the ring. -/
theorem leadAndRing_pairs
    {address : Nat}
    {pair : Pair}
    (found : leadAndRing.pairs[address]? = some pair) :
    (∃ number, pair.head = .integer number) ∧ (pair.tail = .pair 1 ∨ pair.tail = .pair 2) := by
  have member := Array.mem_toList_iff.mpr (Array.mem_of_getElem? found)
  simp only [leadAndRing, List.mem_cons, List.not_mem_nil, or_false] at member
  rcases member with rfl | rfl | rfl <;> simp

/-- All parts are numbers, the second pair and the third one. -/
theorem leadAndRing_parts
    {whole part : Value}
    (hasPart : leadAndRing.HasPart whole part) :
    (∃ number, part = .integer number) ∨ part = .pair 1 ∨ part = .pair 2 := by
  rcases hasPart with contained | ⟨pair, found, rfl⟩
  · cases whole with
    | pair address =>
        obtain ⟨pair, found, rfl⟩ := by simpa [Store.contents] using contained
        exact .inl (leadAndRing_pairs found).1
    | _ => exact (List.not_mem_nil contained).elim
  · cases whole with
    | pair address => exact .inr (leadAndRing_pairs found).2
    | _ => cases found

/-- The example holds all the pairs it names. -/
theorem leadAndRing_hasAllPairs :
    leadAndRing.HasAllPairs (.pair 0) := by
  intro address leads
  rcases leads.cases_tail with same | ⟨_, _, hasPart⟩
  · cases same
    exact Nat.zero_lt_succ 2
  · rcases leadAndRing_parts hasPart with ⟨_, ⟨⟩⟩ | same | same
    · cases same
      exact Nat.one_lt_succ_succ 1
    · cases same
      exact Nat.lt_succ_self 2

/-- The example has no cycle through heads. -/
theorem leadAndRing_hasNoCycle :
    leadAndRing.HasNoCycle (.pair 0) := by
  refine Store.hasNoCycle_of_rank leadAndRingRank ?_ ?_ ?_
  · intro whole part contained
    cases whole with
    | pair address =>
        obtain ⟨pair, found, rfl⟩ := by simpa [Store.contents] using contained
        obtain ⟨number, isNumber⟩ := (leadAndRing_pairs found).1
        rw [isNumber]
        exact Nat.zero_lt_one
    | _ => exact (List.not_mem_nil contained).elim
  · rintro whole part ⟨pair, found, rfl⟩
    cases whole with
    | pair address =>
      rcases (leadAndRing_pairs found).2 with same | same <;> exact same ▸ Nat.le_refl 1
    | _ => cases found
  · intro mark address outOfRank
    exact absurd outOfRank (Nat.not_le_of_lt (Nat.lt_succ_self 1))

/-- The tails of the example come round. -/
theorem leadAndRing_comesRound :
    leadAndRing.ComesRound (.pair 0) :=
  Store.chainEnd?_eq_none_iff.mp rfl

/-- The list is cut after all of its three pairs. -/
theorem ring_is_written_along_its_chain :
    leadAndRing.HasAllPairs (.pair 0) ∧ leadAndRing.HasNoCycle (.pair 0) ∧
      ∃ distinct more again heads text,
        leadAndRing.PassesRound 0 distinct more again ∧
          leadAndRing.writtenHeads? (distinct ++ more) = some heads ∧
          leadAndRing.written? (.pair 0) = some text ∧
          text.toList = '(' :: (heads ++ " ...)".toList) := by
  obtain ⟨_, _, _, comesRound, _⟩ :=
    lists_are_written_along_their_chains leadAndRing_hasAllPairs leadAndRing_hasNoCycle
  exact ⟨leadAndRing_hasAllPairs, leadAndRing_hasNoCycle, comesRound leadAndRing_comesRound⟩

example : leadAndRing.written? (.pair 0) = some "(1 2 3 ...)" := by
  decide +kernel

/--
Heads and vectors without cycles are not enough: a list that ends in an error whose irritant is the
list is never written to its end.
-/
theorem list_in_its_own_error_is_not_written :
    ∃ (store : Store) (address : Nat),
      store.HasAllPairs (.pair address) ∧ store.HasNoCycleInSequences (.pair address) ∧
        ∀ depth, store.datumWithin? depth (.pair address) = none := by
  have isTail : errorsOfThemselves.HasTail (.pair 0) (.condition 0) := ⟨_, rfl, rfl⟩
  have leads : errorsOfThemselves.LeadsTo (.pair 0) (.condition 0) := .single (.inr isTail)
  exact ⟨errorsOfThemselves, 0, errorsOfThemselves_hasAllPairs,
    errorsOfThemselves_hasNoCycleInSequences _,
    Store.datumWithin?_of_return leads (List.mem_singleton_self _) leads⟩

end SmallScheme
