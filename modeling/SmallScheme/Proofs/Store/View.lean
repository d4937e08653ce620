import Mathlib.Data.List.Iterate
import SmallScheme.Proofs.Chains
import SmallScheme.Proofs.Store.Parts
import SmallScheme.Store.View

namespace SmallScheme

/-!
# What is shown of values

A value is shown as a datum.  A chain of pairs is shown pair by pair, and at every second pair a
follower takes a step along the same chain.  Where the next pair is the one the follower stands on,
the chain is cut.  On a chain that ends this never happens.  On a chain that comes round it happens
after each pair has been shown, and before they have all been shown twice.

Main result.  A value is not shown exactly if it leads to one that contains itself otherwise than
along tails, and then it is not shown however deep one looks.
-/

/--
In a sequence that runs into a ring, one comes to the member that stands at half the way.  That is
after the first round is complete and before as many steps have been made once more.
-/
theorem exists_first_at_half
    {next : Nat → Nat}
    {start lead period : Nat}
    (positive : 0 < period)
    (same_iff :
      ∀ {earlier later : Nat},
        earlier < later →
        (next^[earlier] start = next^[later] start ↔
          lead ≤ earlier ∧ period ∣ later - earlier)) :
    ∃ count,
      lead + period ≤ count ∧ count < 2 * (lead + period) ∧
        next^[count] start = next^[count / 2] start ∧
        ∀ earlier, 0 < earlier → earlier < count →
          next^[earlier] start ≠ next^[earlier / 2] start := by
  have atHalf_iff {count : Nat}
      (further : 0 < count) :
      next^[count] start = next^[count / 2] start ↔
        lead ≤ count / 2 ∧ period ∣ count - count / 2 := by
    rw [eq_comm]
    exact same_iff (by omega)
  -- A multiple of the period beyond the lead is the longer half of such a way.
  obtain ⟨rest, led, below, divides⟩ := exists_multiple_between lead positive
  have isRest : 2 * rest - 1 - (2 * rest - 1) / 2 = rest := by omega
  have meetsThere : next^[2 * rest - 1] start = next^[(2 * rest - 1) / 2] start :=
    (atHalf_iff (by omega)).mpr ⟨by omega, isRest.symm ▸ divides⟩
  have meets : ∃ count, 0 < count ∧ next^[count] start = next^[count / 2] start :=
    ⟨2 * rest - 1, by omega, meetsThere⟩
  classical
  obtain ⟨further, meetsFirst⟩ := Nat.find_spec meets
  refine ⟨Nat.find meets, ?_, ?_, meetsFirst, fun earlier before less same => ?_⟩
  · obtain ⟨led, divides⟩ := (atHalf_iff further).mp meetsFirst
    have := Nat.le_of_dvd (by omega) divides
    omega
  · have := Nat.find_min' meets ⟨by omega, meetsThere⟩
    omega
  · exact Nat.find_min meets less ⟨before, same⟩

/-- Up to the end of the first round all members differ, and there are no others. -/
theorem iterate_ring
    {next : Nat → Nat}
    {start lead period : Nat}
    (positive : 0 < period)
    (same_iff :
      ∀ {earlier later : Nat},
        earlier < later →
        (next^[earlier] start = next^[later] start ↔
          lead ≤ earlier ∧ period ∣ later - earlier)) :
    (List.iterate next start (lead + period)).Nodup ∧
      ∀ count, next^[count] start ∈ List.iterate next start (lead + period) := by
  refine ⟨List.nodup_iff_getElem?_ne_getElem?.mpr fun earlier later before inside same => ?_,
    fun count => List.mem_iterate.mpr ?_⟩
  · rw [List.length_iterate] at inside
    rw [List.getElem?_iterate _ _ _ _ inside,
      List.getElem?_iterate _ _ _ _ (Nat.lt_trans before inside), Option.some.injEq,
      same_iff before] at same
    have := Nat.le_of_dvd (Nat.sub_pos_of_lt before) same.2
    omega
  · rcases Nat.lt_or_ge count (lead + period) with inside | outside
    · exact ⟨count, inside, rfl⟩
    · have below := Nat.mod_lt (count - lead) positive
      have isLess := Nat.mod_le (count - lead) period
      refine ⟨lead + (count - lead) % period, by omega, Eq.symm ?_⟩
      refine (same_iff (by omega)).mpr ⟨Nat.le_add_right _ _, ?_⟩
      rw [← Nat.sub_sub]
      exact Nat.dvd_sub_mod _

namespace Store

variable
  {store : Store}
  {value ending : Value}
  {address start done steps : Nat}
  {cells : List Nat}
  {sofar : List Value}

/-! The pairs of which a list is written. -/

/-- The rest of the unfolding of the chain from an address, after the heads of so many pairs. -/
def unfoldRest (store : Store) (start done steps : Nat) (sofar : List Value) :
    List Value × ChainView :=
  store.unfoldChain steps (done % 2 = 1) (store.nextCell^[done / 2] start) sofar
    (store.nextCell^[done] start)

/-- At every second pair the follower takes a step, so that it has made half as many. -/
theorem unfoldRest_succ
    {pair : Pair}
    (found : store.pairs[store.nextCell^[done] start]? = some pair) :
    store.unfoldRest start done (steps + 1) sofar =
      match pair.tail with
      | .pair next =>
          if next = store.nextCell^[(done + 1) / 2] start then
            ((pair.head :: sofar).reverse, .revisits)
          else
            store.unfoldChain steps ((done + 1) % 2 = 1) (store.nextCell^[(done + 1) / 2] start)
              (pair.head :: sofar) next
      | tail => ((pair.head :: sofar).reverse, .closed tail) := by
  have followed :
      (if (done % 2 = 1 : Bool) then store.nextCell (store.nextCell^[done / 2] start)
        else store.nextCell^[done / 2] start) =
        store.nextCell^[(done + 1) / 2] start := by
    by_cases odd : done % 2 = 1
    · have half : (done + 1) / 2 = done / 2 + 1 := by omega
      rw [half, Function.iterate_succ_apply', if_pos (decide_eq_true odd)]
    · have half : (done + 1) / 2 = done / 2 := by omega
      rw [half, if_neg (by simpa using odd)]
  have follows : (!(done % 2 = 1 : Bool)) = ((done + 1) % 2 = 1 : Bool) := by
    rw [← decide_not, decide_eq_decide]
    omega
  rw [← followed, ← follows, unfoldRest, unfoldChain, found]
  rfl

/-- From a pair whose tail is a pair the unfolding goes on, unless the follower stands there. -/
theorem unfoldRest_linked
    {head : Value}
    (found :
      store.pairs[store.nextCell^[done] start]? =
        some ⟨head, .pair (store.nextCell^[done + 1] start)⟩) :
    store.unfoldRest start done (steps + 1) sofar =
      if store.nextCell^[done + 1] start = store.nextCell^[(done + 1) / 2] start then
        ((head :: sofar).reverse, .revisits)
      else
        store.unfoldRest start (done + 1) steps (head :: sofar) :=
  unfoldRest_succ found

/-- With a pair whose tail is no pair the unfolding is over. -/
theorem unfoldRest_last
    {pair : Pair}
    (found : store.pairs[store.nextCell^[done] start]? = some pair)
    (isEnd : store.pair? pair.tail = none)
    (elsewhere : pair.tail ≠ .pair (store.nextCell^[(done + 1) / 2] start)) :
    store.unfoldRest start done (steps + 2) sofar =
      ((pair.head :: sofar).reverse, .closed pair.tail) := by
  rw [unfoldRest_succ found]
  cases isTail : pair.tail with
  | pair last =>
      rw [isTail] at isEnd elsewhere
      have missing : store.pairs[last]? = none := isEnd
      dsimp only
      rw [if_neg fun same => elsewhere (congrArg Value.pair same), unfoldChain, missing]
  | _ => rfl

/-- The heads of cells are the head of the first before those of the others. -/
theorem headsOf_cons
    {pair : Pair}
    (found : store.pairs[address]? = some pair) :
    store.headsOf (address :: cells) = pair.head :: store.headsOf cells := by
  rw [headsOf, List.map_cons, pairAt_eq found, headsOf]

/-- A chain that goes on for ever is cut where the follower stands. -/
theorem unfoldRest_of_isEndless
    (endless : store.IsEndless start)
    {more : Nat}
    (further : 0 < more)
    (meets : store.nextCell^[done + more] start = store.nextCell^[(done + more) / 2] start)
    (apart :
      ∀ earlier, done < earlier → earlier < done + more →
        store.nextCell^[earlier] start ≠ store.nextCell^[earlier / 2] start)
    (enough : more ≤ steps) :
    store.unfoldRest start done steps sofar =
      (sofar.reverse ++
          store.headsOf (List.iterate store.nextCell (store.nextCell^[done] start) more),
        .revisits) := by
  induction steps generalizing done more sofar with
  | zero => omega
  | succ steps inductionHypothesis =>
      obtain ⟨head, found⟩ := endless.exists_head done
      obtain ⟨more, rfl⟩ : ∃ fewer, more = fewer + 1 := ⟨more - 1, by omega⟩
      rw [unfoldRest_linked found, List.iterate, headsOf_cons found,
        ← Function.iterate_succ_apply' store.nextCell done start]
      rcases Nat.eq_zero_or_pos more with rfl | goesOn
      · rw [if_pos meets, List.reverse_cons]
        rfl
      · have sameCount : done + (more + 1) = done + 1 + more := by omega
        rw [sameCount] at meets apart
        rw [if_neg (apart (done + 1) (Nat.lt_succ_self done) (by omega)),
          inductionHypothesis goesOn meets (fun earlier after => apart earlier (by omega))
            (by omega),
          List.reverse_cons, List.append_assoc]
        rfl

/-- A chain that ends is followed to its end. -/
theorem unfoldRest_of_visits
    (visits : store.Visits (.pair (store.nextCell^[done] start)) cells ending)
    (isEnd : store.pair? ending = none)
    (further : cells ≠ [])
    (apart :
      ∀ earlier, done < earlier → earlier < done + cells.length →
        store.nextCell^[earlier] start ≠ store.nextCell^[earlier / 2] start)
    (elsewhere : ending ≠ .pair (store.nextCell^[(done + cells.length) / 2] start))
    (enough : cells.length < steps) :
    store.unfoldRest start done steps sofar =
      (sofar.reverse ++ store.headsOf cells, .closed ending) := by
  induction steps generalizing done cells sofar with
  | zero => omega
  | succ steps inductionHypothesis =>
      generalize standing : store.nextCell^[done] start = address at visits
      cases visits with
      | nothing => exact (further rfl).elim
      | @pair _ pair cells _ found visits =>
          rw [headsOf_cons found]
          rw [← standing] at found
          cases cells with
          | nil =>
              obtain ⟨fewer, rfl⟩ : ∃ fewer, steps = fewer + 1 :=
                ⟨steps - 1, by rw [List.length_singleton] at enough; omega⟩
              obtain rfl := visits.eq_last
              rw [unfoldRest_last found isEnd elsewhere, List.reverse_cons]
              rfl
          | cons next rest =>
              obtain ⟨head, tail⟩ := pair
              obtain rfl : tail = .pair (store.nextCell^[done + 1] start) := by
                rw [Function.iterate_succ_apply', nextCell, found]
                obtain rfl := visits.eq_pair
                rfl
              have sameCount : ∀ count, done + (count + 1) = done + 1 + count := by omega
              rw [List.length_cons, sameCount] at apart elsewhere
              rw [unfoldRest_linked found,
                if_neg (apart (done + 1) (Nat.lt_succ_self done) (by simp)),
                inductionHypothesis visits (List.cons_ne_nil next rest)
                  (fun earlier after => apart earlier (by omega)) elsewhere (by simpa using enough),
                List.reverse_cons, List.append_assoc]
              rfl

/-- What is visited from an address are the pairs that come next. -/
theorem Visits.getElem?_eq
    (visits : store.Visits (.pair start) cells ending)
    {index : Nat}
    (inside : index < cells.length) :
    cells[index]? = some (store.nextCell^[index] start) := by
  induction index generalizing start cells with
  | zero =>
      cases visits with
      | nothing => cases inside
      | pair _ _ => rfl
  | succ index inductionHypothesis =>
      cases visits with
      | nothing => cases inside
      | @pair _ pair rest _ found visits =>
          have inside : index < rest.length := Nat.lt_of_succ_lt_succ inside
          obtain ⟨next, others, rfl⟩ := List.exists_cons_of_length_pos (Nat.zero_lt_of_lt inside)
          obtain ⟨head, tail⟩ := pair
          obtain rfl := visits.eq_pair
          rw [List.getElem?_cons_succ, inductionHypothesis visits inside,
            Function.iterate_succ_apply, nextCell, found]

/-- The heads of all pairs of a chain that ends are written, and what it ends with. -/
theorem Visits.unfoldChain_eq
    (visits : store.Visits (.pair start) cells ending)
    (isEnd : store.pair? ending = none)
    (further : cells ≠ [])
    (enough : cells.length < steps) :
    store.unfoldChain steps false start [] start = (store.headsOf cells, .closed ending) := by
  have halfInside {index : Nat}
      (inside : index ≤ cells.length) :
      index / 2 < cells.length := by
    have := List.length_pos_iff.mpr further
    omega
  have apart : ∀ earlier, 0 < earlier → earlier < 0 + cells.length →
      store.nextCell^[earlier] start ≠ store.nextCell^[earlier / 2] start := by
    intro index positive inside same
    rw [Nat.zero_add] at inside
    have half := halfInside (Nat.le_of_lt inside)
    refine List.nodup_iff_getElem?_ne_getElem?.mp (visits.nodup isEnd) (index / 2) index (by omega)
      inside ?_
    rw [visits.getElem?_eq half, visits.getElem?_eq inside, same]
  have elsewhere : ending ≠ .pair (store.nextCell^[(0 + cells.length) / 2] start) := by
    rintro rfl
    have member := List.mem_of_getElem? (visits.getElem?_eq (halfInside (Nat.le_refl _)))
    obtain ⟨⟨pair, found⟩, _⟩ := (visits.mem_iff isEnd).mp member
    rw [Nat.zero_add] at isEnd
    cases found.symm.trans isEnd
  exact @unfoldRest_of_visits store ending start 0 steps cells [] visits isEnd further apart
    elsewhere enough

/--
The pairs that are passed before a list is cut: all pairs of the chain, and then fewer than all of
them for a second time.  The next pair is the one that stands at half the way.
-/
structure PassesRound
    (store : Store)
    (start : Nat)
    (distinct more : List Nat)
    (again : Nat) : Prop where
  visits : store.Visits (.pair start) (distinct ++ more) (.pair again)
  atHalf : (distinct ++ more)[(distinct ++ more).length / 2]? = some again
  nodup : distinct.Nodup
  mem_iff :
    ∀ cell, cell ∈ distinct ↔ Relation.ReflTransGen store.HasTail (.pair start) (.pair cell)
  fewer : more.length < distinct.length

/-- A chain that comes round is cut after one round and before the end of a second one. -/
theorem ComesRound.unfoldChain_eq
    (comesRound : store.ComesRound (.pair start)) :
    ∃ distinct more again,
      store.PassesRound start distinct more again ∧
        ∀ steps,
          2 * store.pairs.size ≤ steps →
          store.unfoldChain steps false start [] start =
            (store.headsOf (distinct ++ more), .revisits) := by
  have endless : store.IsEndless start := by
    rcases store.exists_visits_or_isEndless (.pair start) with
      ⟨cells, ending, visits, isEnd⟩ | ⟨address, same, endless⟩
    · exact (visits.not_comesRound isEnd comesRound).elim
    · cases same
      exact endless
  obtain ⟨lead, period, positive, fits, same_iff⟩ := endless.exists_ring
  obtain ⟨count, complete, notTwice, meets, apart⟩ := exists_first_at_half positive same_iff
  obtain ⟨distinct, all⟩ := iterate_ring positive same_iff
  obtain ⟨more, rfl⟩ := Nat.exists_eq_add_of_le complete
  have isWhole := List.iterate_add store.nextCell start (lead + period) more
  have passes :
      store.PassesRound start (List.iterate store.nextCell start (lead + period))
        (List.iterate store.nextCell (store.nextCell^[lead + period] start) more)
        (store.nextCell^[lead + period + more] start) :=
    { visits := isWhole ▸ visits_iterate fun earlier _ => endless earlier
      atHalf := by
        rw [← isWhole, List.length_iterate, List.getElem?_iterate _ _ _ _ (by omega), meets]
      nodup := distinct
      mem_iff cell := by
        constructor
        · intro member
          obtain ⟨earlier, _, rfl⟩ := List.mem_iterate.mp member
          simpa using endless.leads 0 earlier
        · intro leads
          obtain ⟨earlier, same⟩ := endless.exists_count leads
          cases same
          exact all earlier
      fewer := by
        rw [List.length_iterate, List.length_iterate]
        omega }
  refine ⟨_, _, _, passes, fun steps enough => ?_⟩
  rw [← isWhole]
  rw [← Nat.zero_add (lead + period + more)] at meets
  exact @unfoldRest_of_isEndless store start 0 steps [] endless _ (by omega) meets
    (fun earlier after before => apart earlier after (by omega)) (by omega)

/-! What a chain is unfolded to. -/

/-- Every cell that is visited has a pair, and one comes to it along tails. -/
theorem Visits.leads_of_mem
    {cell : Nat}
    (visits : store.Visits value cells ending)
    (member : cell ∈ cells) :
    (∃ pair, store.pairs[cell]? = some pair) ∧
      Relation.ReflTransGen store.HasTail value (.pair cell) := by
  obtain ⟨before, after, rfl⟩ := List.append_of_mem member
  obtain ⟨middle, first, further⟩ := visits.split
  cases further with
  | pair found _ => exact ⟨⟨_, found⟩, first.leads⟩

/-- A chain comes round, or it has an end after some pairs. -/
theorem comesRound_or_exists_visits
    {pair : Pair}
    (found : store.pairs[address]? = some pair) :
    store.ComesRound (.pair address) ∨
      ∃ cells ending,
        store.Visits (.pair address) cells ending ∧ store.pair? ending = none ∧ cells ≠ [] := by
  rcases store.exists_visits_or_isEndless (.pair address) with
    ⟨cells, ending, visits, isEnd⟩ | ⟨_, same, endless⟩
  · refine .inr ⟨cells, ending, visits, isEnd, ?_⟩
    rintro rfl
    cases visits.eq_last
    cases found.symm.trans isEnd
  · cases same
    exact .inl endless.comesRound

/-- A chain of pairs is unfolded to heads, those of all pairs that one comes to along tails. -/
theorem exists_unfoldChain_eq
    {pair : Pair}
    (found : store.pairs[address]? = some pair) :
    ∃ cells view,
      store.unfoldChain (2 * store.pairs.size + 2) false address [] address =
          (store.headsOf cells, view) ∧
        ∀ cell,
          cell ∈ cells ↔
            (∃ other, store.pairs[cell]? = some other) ∧
              Relation.ReflTransGen store.HasTail (.pair address) (.pair cell) := by
  rcases comesRound_or_exists_visits found with
    comesRound | ⟨cells, ending, visits, isEnd, further⟩
  · obtain ⟨distinct, more, again, passes, unfolded⟩ := comesRound.unfoldChain_eq
    refine ⟨distinct ++ more, .revisits, unfolded _ (Nat.le_add_right _ 2), fun cell => ?_⟩
    exact ⟨passes.visits.leads_of_mem,
      fun ⟨_, leads⟩ => List.mem_append_left _ ((passes.mem_iff cell).mpr leads)⟩
  · have fits := visits.length_le isEnd
    exact ⟨cells, .closed ending, visits.unfoldChain_eq isEnd further (by omega),
      fun _ => visits.mem_iff isEnd⟩

/-- A head that a chain is unfolded to is that of a pair along its tails. -/
theorem mem_unfoldChain_iff
    {head : Value}
    {pair : Pair}
    (found : store.pairs[address]? = some pair) :
    head ∈ (store.unfoldChain (2 * store.pairs.size + 2) false address [] address).1 ↔
      ∃ cell other,
        Relation.ReflTransGen store.HasTail (.pair address) (.pair cell) ∧
          store.pairs[cell]? = some other ∧ other.head = head := by
  obtain ⟨cells, view, unfolded, mem_iff⟩ := exists_unfoldChain_eq found
  rw [unfolded, headsOf, List.mem_map]
  constructor
  · rintro ⟨cell, member, rfl⟩
    obtain ⟨⟨other, foundCell⟩, leads⟩ := (mem_iff cell).mp member
    exact ⟨cell, other, leads, foundCell, by rw [pairAt_eq foundCell]⟩
  · rintro ⟨cell, other, leads, foundCell, rfl⟩
    exact ⟨cell, (mem_iff cell).mpr ⟨⟨other, foundCell⟩, leads⟩, by rw [pairAt_eq foundCell]⟩

/-- A chain is closed with what one comes to along tails and what has no tail. -/
theorem unfoldChain_closed_iff
    {tail : Value}
    {pair : Pair}
    (found : store.pairs[address]? = some pair) :
    (store.unfoldChain (2 * store.pairs.size + 2) false address [] address).2 = .closed tail ↔
      Relation.ReflTransGen store.HasTail (.pair address) tail ∧ store.pair? tail = none := by
  rcases comesRound_or_exists_visits found with
    comesRound | ⟨cells, ending, visits, isEnd, further⟩
  · obtain ⟨distinct, more, again, passes, unfolded⟩ := comesRound.unfoldChain_eq
    rw [unfolded _ (Nat.le_add_right _ 2)]
    refine ⟨nofun, fun ⟨leads, noPair⟩ => ?_⟩
    exact (not_comesRound_of_pair?_eq_none noPair (comesRound.reached leads)).elim
  · have fits := visits.length_le isEnd
    rw [visits.unfoldChain_eq isEnd further (by omega)]
    constructor
    · rintro ⟨⟩
      exact ⟨visits.leads, isEnd⟩
    · rintro ⟨leads, noPair⟩
      obtain ⟨others, visitsOthers⟩ := exists_visits leads
      rw [(visits.unique isEnd visitsOthers noPair).2]

/-! How deep the parts of a value lie. -/

/-- One comes to fewer places from a part. -/
theorem LeadsTo.card_placesFrom_le
    {part : Value}
    (leads : store.LeadsTo value part) :
    (store.placesFrom part).card ≤ (store.placesFrom value).card := by
  refine Finset.card_le_card fun place member => ?_
  obtain ⟨present, last, further, isPlace⟩ := mem_placesFrom.mp member
  exact mem_placesFrom.mpr ⟨present, last, leads.trans further, isPlace⟩

/-- Along tails one comes to parts. -/
theorem leadsTo_of_tails
    {part : Value}
    (tails : Relation.ReflTransGen store.HasTail value part) :
    store.LeadsTo value part :=
  Relation.ReflTransGen.mono (fun _ _ => .inr) _ _ tails

/-- The part is come to from the value, and it leads to fewer places. -/
def LiesWithin (store : Store) (value part : Value) : Prop :=
  store.LeadsTo value part ∧ (store.placesFrom part).card < (store.placesFrom value).card

/-- What a value without cycles contains lies within it. -/
theorem HasNoCycle.liesWithin
    {part : Value}
    (noCycle : store.HasNoCycle value)
    (contained : part ∈ store.contents value) :
    store.LiesWithin value part :=
  ⟨.single (.inl contained), noCycle.card_placesFrom_lt_of_mem contained⟩

/-- What is written of a chain of pairs lies within the first of the pairs. -/
theorem unfoldChain_liesWithin
    {pair : Pair}
    (found : store.pairs[address]? = some pair)
    (noCycle : store.HasNoCycle (.pair address)) :
    (∀ head ∈ (store.unfoldChain (2 * store.pairs.size + 2) false address [] address).1,
      store.LiesWithin (.pair address) head) ∧
      ∀ tail,
        (store.unfoldChain (2 * store.pairs.size + 2) false address [] address).2 = .closed tail →
        store.LiesWithin (.pair address) tail := by
  constructor
  · intro head member
    obtain ⟨cell, other, tails, foundCell, rfl⟩ := (mem_unfoldChain_iff found).mp member
    have leads := leadsTo_of_tails tails
    have contained : other.head ∈ store.contents (.pair cell) := by simp [contents, foundCell]
    obtain ⟨within, fewer⟩ := (noCycle.reached leads).liesWithin contained
    exact ⟨leads.trans within, Nat.lt_of_lt_of_le fewer leads.card_placesFrom_le⟩
  · intro tail closed
    obtain ⟨tails, noPair⟩ := (unfoldChain_closed_iff found).mp closed
    have ends : store.isCircular (.pair address) = false :=
      isCircular_eq_false_iff.mpr fun comesRound =>
        not_comesRound_of_pair?_eq_none noPair (comesRound.reached tails)
    refine ⟨leadsTo_of_tails tails, ?_⟩
    rcases tails.cases_head with rfl | ⟨next, isTail, further⟩
    · cases found.symm.trans noPair
    · exact Nat.lt_of_le_of_lt (leadsTo_of_tails further).card_placesFrom_le
        (noCycle.card_placesFrom_lt_of_tail ends isTail)

/-! Values that are shown. -/

/-- The datum that shows a chain of pairs, if all its heads and its ending are shown. -/
def chainDatum? (shown? : Value → Option Datum) : List Value × ChainView → Option Datum
  | (heads, .closed tail) => do
      let items ← heads.mapM shown?
      return Datum.listWithTail items (← shown? tail)
  | (heads, .revisits) => do
      return .circular (← heads.mapM shown?)

/-- A pair is shown by its heads and by how its chain of tails ends. -/
theorem datumWithin?_pair
    (depth address : Nat) :
    store.datumWithin? (depth + 1) (.pair address) =
      chainDatum? (store.datumWithin? depth)
        (store.unfoldChain (2 * store.pairs.size + 2) false address [] address) := by
  rw [datumWithin?]
  rcases store.unfoldChain (2 * store.pairs.size + 2) false address [] address with
    ⟨_, _ | _⟩ <;> rfl

/-- A chain is shown alike where its heads and its closing tail are. -/
theorem chainDatum?_congr
    {shown? other? : Value → Option Datum}
    {unfolded : List Value × ChainView}
    (sameHeads : ∀ head ∈ unfolded.1, shown? head = other? head)
    (sameTail : ∀ tail, unfolded.2 = .closed tail → shown? tail = other? tail) :
    chainDatum? shown? unfolded = chainDatum? other? unfolded := by
  obtain ⟨heads, tail | _⟩ := unfolded
  · rw [chainDatum?, chainDatum?, mapM_congr_left sameHeads, sameTail tail rfl]
  · rw [chainDatum?, chainDatum?, mapM_congr_left sameHeads]

/-- To every depth that is large enough the value is shown as the datum. -/
def ShowsFrom (store : Store) (enough : Nat) (value : Value) (shown : Datum) : Prop :=
  ∀ depth, enough ≤ depth → store.datumWithin? depth value = some shown

/-- Where each item is shown from some depth on, all are. -/
theorem exists_showsFrom_each
    {enough : Nat}
    {items : List Value}
    (each : ∀ item ∈ items, ∃ shown, store.ShowsFrom enough item shown) :
    ∃ shown, ∀ depth, enough ≤ depth → items.mapM (store.datumWithin? depth) = some shown := by
  induction items with
  | nil => exact ⟨[], fun _ _ => rfl⟩
  | cons item items inductionHypothesis =>
      obtain ⟨here, each⟩ := List.forall_mem_cons.mp each
      obtain ⟨first, showsFirst⟩ := here
      obtain ⟨others, showsOthers⟩ := inductionHypothesis each
      refine ⟨first :: others, fun depth deep => ?_⟩
      rw [List.mapM_cons, showsFirst depth deep, showsOthers depth deep]
      rfl

/--
A value without cycles is shown.  Each of its parts leads to fewer places, so that one need not look
deeper than there are places.
-/
theorem HasNoCycle.exists_showsFrom
    (noCycle : store.HasNoCycle value)
    (hasAllPairs : store.HasAllPairs value) :
    ∃ shown, store.ShowsFrom ((store.placesFrom value).card + 1) value shown := by
  generalize size : (store.placesFrom value).card = places
  induction places using Nat.strong_induction_on generalizing value with
  | _ places inductionHypothesis =>
      have within {part : Value}
          (lies : store.LiesWithin value part) :
          ∃ shown, store.ShowsFrom places part shown := by
        obtain ⟨leads, fewer⟩ := lies
        obtain ⟨shown, shows⟩ :=
          inductionHypothesis _ (size ▸ fewer) (noCycle.reached leads) (hasAllPairs.reached leads)
            rfl
        exact ⟨shown, fun depth deep => shows depth (by omega)⟩
      have contained :
          ∀ part ∈ store.contents value, ∃ shown, store.ShowsFrom places part shown :=
        fun _ isContained => within (noCycle.liesWithin isContained)
      suffices oneDeeper :
          ∃ shown, ∀ depth, places ≤ depth → store.datumWithin? (depth + 1) value = some shown by
        obtain ⟨shown, shows⟩ := oneDeeper
        refine ⟨shown, fun depth deep => ?_⟩
        obtain ⟨less, rfl⟩ : ∃ less, depth = less + 1 := ⟨depth - 1, by omega⟩
        exact shows less (by omega)
      cases value with
      | pair address =>
          obtain ⟨heads, tail⟩ :=
            unfoldChain_liesWithin (Array.getElem?_eq_getElem (hasAllPairs .refl)) noCycle
          obtain ⟨items, showsItems⟩ :=
            exists_showsFrom_each fun head member => within (heads head member)
          simp only [datumWithin?_pair]
          rcases unfolded :
              store.unfoldChain (2 * store.pairs.size + 2) false address [] address with
            ⟨chainHeads, last | _⟩
          · rw [unfolded] at showsItems tail
            obtain ⟨ending, showsEnding⟩ := within (tail last rfl)
            refine ⟨Datum.listWithTail items ending, fun depth deep => ?_⟩
            rw [chainDatum?, showsItems depth deep, showsEnding depth deep]
            rfl
          · rw [unfolded] at showsItems
            refine ⟨.circular items, fun depth deep => ?_⟩
            rw [chainDatum?, showsItems depth deep]
            rfl
      | vector address =>
          obtain ⟨items, shows⟩ := exists_showsFrom_each contained
          refine ⟨.vector items, fun depth deep => ?_⟩
          rw [datumWithin?, ← contents, shows depth deep]
          rfl
      | marked mark address =>
          have present := noCycle.present .refl
          obtain ⟨inner, shows⟩ :=
            contained (store.markedAt address) (by simp [contents, markedAt, present])
          refine ⟨.marked mark inner, fun depth deep => ?_⟩
          rw [datumWithin?, shows depth deep]
          rfl
      | program address =>
          obtain ⟨forms, shows⟩ := exists_showsFrom_each contained
          refine ⟨.program forms, fun depth deep => ?_⟩
          rw [datumWithin?, ← contents, shows depth deep]
          rfl
      | condition address =>
          obtain ⟨irritants, shows⟩ := exists_showsFrom_each contained
          let message := (store.conditionAt address).message
          refine ⟨.handle (Value.condition address).kindName (irritatedText message irritants),
            fun depth deep => ?_⟩
          rw [datumWithin?, ← contents, shows depth deep]
          rfl
      | _ => exact ⟨_, fun _ _ => rfl⟩

/-- What lies within a value without cycles is shown in it as it is by itself. -/
theorem LiesWithin.datumWithin?_eq
    {part : Value}
    (lies : store.LiesWithin value part)
    (noCycle : store.HasNoCycle value)
    (hasAllPairs : store.HasAllPairs value) :
    store.datumWithin? (Fuel.ample + store.extent) part = store.datum? part := by
  obtain ⟨leads, fewer⟩ := lies
  obtain ⟨shown, shows⟩ :=
    (noCycle.reached leads).exists_showsFrom (hasAllPairs.reached leads)
  have most := store.card_placesFrom_le value
  rw [datum?, shows _ (by omega), shows _ (by omega)]

/-- A pair is shown by what shows the heads and the ending of its chain. -/
theorem datum?_pair
    (noCycle : store.HasNoCycle (.pair address))
    (hasAllPairs : store.HasAllPairs (.pair address)) :
    store.datum? (.pair address) =
      chainDatum? store.datum?
        (store.unfoldChain (2 * store.pairs.size + 2) false address [] address) := by
  obtain ⟨heads, tail⟩ :=
    unfoldChain_liesWithin (Array.getElem?_eq_getElem (hasAllPairs .refl)) noCycle
  rw [datum?, datumWithin?_pair]
  exact chainDatum?_congr
    (fun head member => (heads head member).datumWithin?_eq noCycle hasAllPairs)
    fun last isTail => (tail last isTail).datumWithin?_eq noCycle hasAllPairs

/-- An address without a pair is not shown at any depth. -/
theorem datumWithin?_of_missing
    (missing : store.pairs[address]? = none)
    (depth : Nat) :
    store.datumWithin? depth (.pair address) = none := by
  induction depth with
  | zero => rfl
  | succ depth inductionHypothesis =>
      rw [datumWithin?_pair, unfoldChain, missing]
      simp only [chainDatum?, List.reverse_nil, List.mapM_nil, inductionHypothesis]
      rfl

/-! Values that are not shown. -/

variable
  {part : Value}
  {pair : Pair}

/-- A chain is shown exactly if all its heads are, and what it is closed with. -/
theorem chainDatum?_ne_none_iff
    {shown? : Value → Option Datum}
    {unfolded : List Value × ChainView} :
    chainDatum? shown? unfolded ≠ none ↔
      (∀ head ∈ unfolded.1, shown? head ≠ none) ∧
        ∀ tail, unfolded.2 = .closed tail → shown? tail ≠ none := by
  obtain ⟨heads, tail | _⟩ := unfolded
  · rw [← mapM_ne_none_iff, chainDatum?]
    cases heads.mapM shown? <;> cases shownTail : shown? tail <;> simp [shownTail]
  · rw [← mapM_ne_none_iff, chainDatum?]
    cases heads.mapM shown? <;> simp

/-- A pair is shown exactly if each head along its tails is, and what the tails end with. -/
theorem datumWithin?_pair_ne_none_iff
    {depth : Nat}
    (found : store.pairs[address]? = some pair) :
    store.datumWithin? (depth + 1) (.pair address) ≠ none ↔
      (∀ cell other,
        Relation.ReflTransGen store.HasTail (.pair address) (.pair cell) →
        store.pairs[cell]? = some other →
        store.datumWithin? depth other.head ≠ none) ∧
        ∀ last,
          Relation.ReflTransGen store.HasTail (.pair address) last →
          store.pair? last = none →
          store.datumWithin? depth last ≠ none := by
  simp only [datumWithin?_pair, chainDatum?_ne_none_iff, mem_unfoldChain_iff found,
    unfoldChain_closed_iff found]
  constructor
  · rintro ⟨heads, tails⟩
    exact ⟨fun cell other leads foundCell => heads _ ⟨cell, other, leads, foundCell, rfl⟩,
      fun last leads noPair => tails last ⟨leads, noPair⟩⟩
  · rintro ⟨heads, tails⟩
    refine ⟨?_, fun last ⟨leads, noPair⟩ => tails last leads noPair⟩
    rintro _ ⟨cell, other, leads, foundCell, rfl⟩
    exact heads cell other leads foundCell

/-- What is shown contains only what is shown less deep. -/
theorem shown_of_mem_contents
    {depth : Nat}
    (shown : store.datumWithin? (depth + 1) value ≠ none)
    (contained : part ∈ store.contents value) :
    store.datumWithin? depth part ≠ none := by
  cases value with
  | pair address =>
      obtain ⟨pair, found, rfl⟩ : ∃ pair, store.pairs[address]? = some pair ∧ pair.head = part := by
        simpa [contents] using contained
      exact ((datumWithin?_pair_ne_none_iff found).mp shown).1 address pair .refl found
  | vector address =>
      have all : (store.vectorAt address).toList.mapM (store.datumWithin? depth) ≠ none :=
        fun notShown => shown (by rw [datumWithin?, notShown]; rfl)
      exact mapM_ne_none_iff.mp all part contained
  | marked mark address =>
      have isInner : store.markedAt address = part := by
        rw [markedAt, Option.mem_toList.mp contained, Option.getD_some]
      exact fun notShown => shown (by rw [datumWithin?, isInner, notShown]; rfl)
  | program address =>
      have all : (store.programAt address).mapM (store.datumWithin? depth) ≠ none :=
        fun notShown => shown (by rw [datumWithin?, notShown]; rfl)
      exact mapM_ne_none_iff.mp all part contained
  | condition address =>
      have all : (store.conditionAt address).irritants.mapM (store.datumWithin? depth) ≠ none :=
        fun notShown => shown (by rw [datumWithin?, notShown]; rfl)
      exact mapM_ne_none_iff.mp all part contained
  | _ => cases contained

/-- Along a tail, what is shown needs no more depth. -/
theorem exists_shown_of_hasTail
    {depth : Nat}
    (shown : store.datumWithin? (depth + 1) value ≠ none)
    (isTail : store.HasTail value part) :
    ∃ less ≤ depth + 1, store.datumWithin? less part ≠ none := by
  obtain ⟨pair, isPair, rfl⟩ := id isTail
  cases value with
  | pair address =>
      obtain ⟨heads, ending⟩ := (datumWithin?_pair_ne_none_iff isPair).mp shown
      cases next : store.pair? pair.tail with
      | none => exact ⟨depth, by omega, ending pair.tail (.single isTail) next⟩
      | some following =>
          refine ⟨depth + 1, by omega, ?_⟩
          cases isNext : pair.tail with
          | pair nextAddress =>
              rw [isNext] at isTail next
              exact (datumWithin?_pair_ne_none_iff next).mpr
                ⟨fun cell other leads => heads cell other (.head isTail leads),
                  fun last leads => ending last (.head isTail leads)⟩
          | _ =>
              rw [isNext] at next
              cases next
  | _ => cases isPair

/-- Whatever one comes to from a shown value is shown no deeper. -/
theorem LeadsTo.exists_shown
    {depth : Nat}
    (leads : store.LeadsTo value part)
    (shown : store.datumWithin? depth value ≠ none) :
    ∃ less ≤ depth, store.datumWithin? less part ≠ none := by
  induction leads with
  | refl => exact ⟨depth, Nat.le_refl _, shown⟩
  | @tail whole part _ hasPart inductionHypothesis =>
      obtain ⟨between, within, shown⟩ := inductionHypothesis
      obtain ⟨less, rfl⟩ : ∃ less, between = less + 1 := by
        cases between with
        | zero => exact (shown rfl).elim
        | succ less => exact ⟨less, rfl⟩
      rcases hasPart with contained | isTail
      · exact ⟨less, by omega, shown_of_mem_contents shown contained⟩
      · obtain ⟨less, notDeeper, shownTail⟩ := exists_shown_of_hasTail shown isTail
        exact ⟨less, by omega, shownTail⟩

/-- A value that leads to one which contains itself is not shown, however deep one looks. -/
theorem datumWithin?_of_return
    {whole : Value}
    (leads : store.LeadsTo value whole)
    (contained : part ∈ store.contents whole)
    (back : store.LeadsTo part whole)
    (depth : Nat) :
    store.datumWithin? depth value = none := by
  have noWhole (depth : Nat) : store.datumWithin? depth whole = none := by
    induction depth using Nat.strong_induction_on with
    | _ depth inductionHypothesis =>
        cases depth with
        | zero => rfl
        | succ depth =>
            by_contra shown
            obtain ⟨less, within, shownAgain⟩ :=
              back.exists_shown (shown_of_mem_contents shown contained)
            exact shownAgain (inductionHypothesis less (by omega))
  by_contra shown
  obtain ⟨less, _, shownWhole⟩ := leads.exists_shown shown
  exact shownWhole (noWhole less)

/--
A value is not shown exactly if it leads to one that contains itself, through whatever holds other
values but along tails alone.
-/
theorem datum?_eq_none_iff
    (hasAllPairs : store.HasAllPairs value)
    (present :
      ∀ {mark : Mark} {address : Nat},
        store.LeadsTo value (.marked mark address) → address < store.marked.size) :
    store.datum? value = none ↔
      ∃ whole part,
        store.LeadsTo value whole ∧ part ∈ store.contents whole ∧ store.LeadsTo part whole := by
  constructor
  · intro notShown
    by_contra noReturn
    have noCycle : store.HasNoCycle value :=
      ⟨present, fun leads contained back => noReturn ⟨_, _, leads, contained, back⟩⟩
    obtain ⟨shown, shows⟩ := noCycle.exists_showsFrom hasAllPairs
    have most := store.card_placesFrom_le value
    cases notShown.symm.trans (shows _ (by omega))
  · rintro ⟨whole, part, leads, contained, back⟩
    exact datumWithin?_of_return leads contained back _

/-- What is not shown is not shown by looking deeper either. -/
theorem datumWithin?_eq_none_of_datum?
    (hasAllPairs : store.HasAllPairs value)
    (present :
      ∀ {mark : Mark} {address : Nat},
        store.LeadsTo value (.marked mark address) → address < store.marked.size)
    (notShown : store.datum? value = none)
    (depth : Nat) :
    store.datumWithin? depth value = none := by
  obtain ⟨_, _, leads, contained, back⟩ := (datum?_eq_none_iff hasAllPairs present).mp notShown
  exact datumWithin?_of_return leads contained back depth

end Store

end SmallScheme
