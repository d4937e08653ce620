import Mathlib.Data.Fintype.Pigeonhole
import Mathlib.Dynamics.PeriodicPts.Defs
import Mathlib.Logic.Relation
import SmallScheme.Store.Chain

namespace SmallScheme

/-!
# Walks along chains

A chain either ends, and then it passes each of its pairs once, or it goes on for ever.  There are
only so many pairs, so a chain that goes on for ever runs into a ring: after some pairs that lead
there, the same pairs come again and again.  Two walks at different speeds meet in the ring before
the slower one has gone round it once.
-/

/-! Sequences in which each member determines the next one. -/

section Iterates

variable
  {next : Nat → Nat}
  {start size : Nat}

/-- To be at one place at two times is to go round in the time between. -/
theorem iterate_eq_iff_isPeriodicPt
    {earlier later : Nat}
    (before : earlier < later) :
    next^[earlier] start = next^[later] start ↔
      Function.IsPeriodicPt next (later - earlier) (next^[earlier] start) := by
  rw [Function.IsPeriodicPt, Function.IsFixedPt, ← Function.iterate_add_apply,
    Nat.sub_add_cancel (Nat.le_of_lt before)]
  exact eq_comm

/-- A sequence within bounds comes to a member that it comes back to. -/
theorem exists_periodic_of_bounded
    (bounded : ∀ count, next^[count] start < size) :
    ∃ count, next^[count] start ∈ Function.periodicPts next := by
  have comesBack
      {earlier later : Nat}
      (before : earlier < later)
      (same : next^[earlier] start = next^[later] start) :
      ∃ count, next^[count] start ∈ Function.periodicPts next :=
    ⟨earlier, _, Nat.sub_pos_of_lt before, (iterate_eq_iff_isPeriodicPt before).mp same⟩
  obtain ⟨first, second, different, same⟩ :=
    Fintype.exists_ne_map_eq_of_card_lt
      (fun count : Fin (size + 1) => (⟨next^[count.val] start, bounded count⟩ : Fin size))
      (by simp)
  have same : next^[first.val] start = next^[second.val] start := congrArg Fin.val same
  rcases Nat.lt_or_gt_of_ne (Fin.val_ne_of_ne different) with before | before
  · exact comesBack before same
  · exact comesBack before same.symm

/-- Members are met again after whole periods, from the first one that is met again at all. -/
theorem iterate_eq_iff_of_lead
    {lead : Nat}
    (inRing : next^[lead] start ∈ Function.periodicPts next)
    (least : ∀ count, next^[count] start ∈ Function.periodicPts next → lead ≤ count)
    {earlier later : Nat}
    (before : earlier < later) :
    next^[earlier] start = next^[later] start ↔
      lead ≤ earlier ∧ Function.minimalPeriod next (next^[lead] start) ∣ later - earlier := by
  have samePeriod
      (led : lead ≤ earlier) :
      Function.minimalPeriod next (next^[earlier] start) =
        Function.minimalPeriod next (next^[lead] start) := by
    rw [← Nat.sub_add_cancel led, Function.iterate_add_apply]
    exact Function.minimalPeriod_apply_iterate inRing _
  rw [iterate_eq_iff_isPeriodicPt before, Function.isPeriodicPt_iff_minimalPeriod_dvd]
  constructor
  · intro divides
    have led : lead ≤ earlier := by
      refine least _ ⟨_, Nat.sub_pos_of_lt before, ?_⟩
      exact Function.isPeriodicPt_iff_minimalPeriod_dvd.mpr divides
    exact ⟨led, samePeriod led ▸ divides⟩
  · rintro ⟨led, divides⟩
    exact (samePeriod led).symm ▸ divides

/-- There are only so many different members within bounds. -/
theorem le_of_bounded_of_different
    {total : Nat}
    (bounded : ∀ count, next^[count] start < size)
    (different :
      ∀ {earlier later : Nat},
        earlier < later → later < total → next^[earlier] start ≠ next^[later] start) :
    total ≤ size := by
  have allDifferent :
      Function.Injective fun count : Fin total =>
        (⟨next^[count.val] start, bounded count⟩ : Fin size) := by
    intro first second same
    have same : next^[first.val] start = next^[second.val] start := congrArg Fin.val same
    rcases Nat.lt_trichotomy first.val second.val with before | equal | after
    · exact (different before second.isLt same).elim
    · exact Fin.ext equal
    · exact (different after first.isLt same.symm).elim
  simpa using Fintype.card_le_of_injective _ allDifferent

/-- A sequence within bounds leads to a ring and stays there; all members up to there differ. -/
theorem exists_ring_of_bounded
    (bounded : ∀ count, next^[count] start < size) :
    ∃ lead period,
      0 < period ∧ lead + period ≤ size ∧
        ∀ {earlier later : Nat},
          earlier < later →
          (next^[earlier] start = next^[later] start ↔
            lead ≤ earlier ∧ period ∣ later - earlier) := by
  classical
  have returns := exists_periodic_of_bounded bounded
  have inRing : next^[Nat.find returns] start ∈ Function.periodicPts next := Nat.find_spec returns
  have same_iff {earlier later : Nat} (before : earlier < later) :=
    iterate_eq_iff_of_lead inRing (fun _ => Nat.find_min' returns) before
  refine ⟨Nat.find returns, _, Function.minimalPeriod_pos_of_mem_periodicPts inRing, ?_, same_iff⟩
  -- No member is met again before the end of the first round.
  refine le_of_bounded_of_different bounded fun before inFirstRound same => ?_
  obtain ⟨led, divides⟩ := (same_iff before).mp same
  have := Nat.le_of_dvd (Nat.sub_pos_of_lt before) divides
  omega

/-- A multiple of the period comes after the lead, and not after the end of the first round. -/
theorem exists_multiple_between
    (lead : Nat)
    {period : Nat}
    (positive : 0 < period) :
    ∃ rounds, lead < rounds ∧ rounds ≤ lead + period ∧ period ∣ rounds := by
  have divides : period ∣ lead - lead % period := Nat.dvd_sub_mod lead
  have below := Nat.mod_lt lead positive
  refine ⟨lead - lead % period + period, by omega, by omega, ?_⟩
  exact (Nat.dvd_add_right divides).mpr (Nat.dvd_refl period)

end Iterates

namespace Store

variable
  {store : Store}
  {value whole part last ending : Value}
  {address : Nat}
  {cells : List Nat}

/-! Tails. -/

/-- The second value is the tail of the first one, which is a pair. -/
def HasTail (store : Store) (whole part : Value) : Prop :=
  ∃ pair, store.pair? whole = some pair ∧ pair.tail = part

/-- Along tails one comes from the value to a pair to which one comes back. -/
def ComesRound (store : Store) (value : Value) : Prop :=
  ∃ part,
    Relation.ReflTransGen store.HasTail value part ∧ Relation.TransGen store.HasTail part part

/-- A pair has one tail. -/
theorem HasTail.unique
    {other : Value}
    (isTail : store.HasTail whole part)
    (alsoTail : store.HasTail whole other) :
    part = other := by
  obtain ⟨pair, found, rfl⟩ := isTail
  obtain ⟨same, alsoFound, rfl⟩ := alsoTail
  cases found.symm.trans alsoFound
  rfl

/-- What comes round does so after its first step. -/
theorem ComesRound.tail
    (comesRound : store.ComesRound whole)
    (isTail : store.HasTail whole part) :
    store.ComesRound part := by
  obtain ⟨pair, leads, back⟩ := comesRound
  rcases leads.cases_head with rfl | ⟨between, alsoTail, further⟩
  · obtain ⟨between, alsoTail, further⟩ := Relation.TransGen.head'_iff.mp back
    cases isTail.unique alsoTail
    exact ⟨part, .refl, .tail' further isTail⟩
  · cases isTail.unique alsoTail
    exact ⟨pair, further, back⟩

/-- A chain does not come round at its end. -/
theorem not_comesRound_of_pair?_eq_none
    (isEnd : store.pair? ending = none) :
    ¬store.ComesRound ending := by
  rintro ⟨part, leads, back⟩
  obtain ⟨between, ⟨pair, found, _⟩, _⟩ := Relation.TransGen.head'_iff.mp (.trans_right leads back)
  rw [isEnd] at found
  cases found

/-- Further along the chain it still comes round. -/
theorem ComesRound.reached
    (comesRound : store.ComesRound value)
    (leads : Relation.ReflTransGen store.HasTail value part) :
    store.ComesRound part := by
  induction leads with
  | refl => exact comesRound
  | tail _ isTail inductionHypothesis => exact inductionHypothesis.tail isTail

/-! Pairs that are visited. -/

/-- Along tails from the value one visits the pairs at the addresses and comes to the last value. -/
inductive Visits (store : Store) : Value → List Nat → Value → Prop
  | nothing {last : Value} : Visits store last [] last
  | pair {address : Nat} {pair : Pair} {cells : List Nat} {last : Value} :
      store.pairs[address]? = some pair →
      Visits store pair.tail cells last →
      Visits store (.pair address) (address :: cells) last

/-- Without cells one has not moved. -/
theorem Visits.eq_last
    (visits : store.Visits value [] last) :
    value = last := by
  cases visits
  rfl

/-- The first cell is where one begins. -/
theorem Visits.eq_pair
    (visits : store.Visits value (address :: cells) last) :
    value = .pair address := by
  cases visits
  rfl

/-- Cells that are visited one after the other are visited together. -/
theorem Visits.append
    {middle : Value}
    {others : List Nat}
    (visits : store.Visits value cells middle)
    (further : store.Visits middle others last) :
    store.Visits value (cells ++ others) last := by
  induction visits with
  | nothing => exact further
  | pair found _ inductionHypothesis => exact .pair found (inductionHypothesis further)

/-- Between two cells the walk is somewhere. -/
theorem Visits.split
    {others : List Nat}
    (visits : store.Visits value (cells ++ others) last) :
    ∃ middle, store.Visits value cells middle ∧ store.Visits middle others last := by
  induction cells generalizing value with
  | nil => exact ⟨value, .nothing, visits⟩
  | cons address cells inductionHypothesis =>
      cases visits with
      | pair found visits =>
          obtain ⟨middle, first, second⟩ := inductionHypothesis visits
          exact ⟨middle, .pair found first, second⟩

/-- The cells lie along the tails. -/
theorem Visits.leads
    (visits : store.Visits value cells last) :
    Relation.ReflTransGen store.HasTail value last := by
  induction visits with
  | nothing => exact .refl
  | pair found _ inductionHypothesis => exact .head ⟨_, found, rfl⟩ inductionHypothesis

/-- Along the tails there are cells. -/
theorem exists_visits
    (leads : Relation.ReflTransGen store.HasTail value last) :
    ∃ cells, store.Visits value cells last := by
  induction leads with
  | refl => exact ⟨[], .nothing⟩
  | @tail before after _ isTail inductionHypothesis =>
      obtain ⟨cells, visits⟩ := inductionHypothesis
      obtain ⟨pair, found, rfl⟩ := isTail
      cases before with
      | pair address => exact ⟨_, visits.append (.pair found .nothing)⟩
      | _ => cases found

/-! A chain that ends. -/

section Ending

variable
  (visits : store.Visits value cells ending)
  (isEnd : store.pair? ending = none)

include visits isEnd

/-- A chain that ends does not come round. -/
theorem Visits.not_comesRound :
    ¬store.ComesRound value :=
  fun comesRound => not_comesRound_of_pair?_eq_none isEnd (comesRound.reached visits.leads)

/-- A chain that ends passes each of its pairs once. -/
theorem Visits.nodup :
    cells.Nodup := by
  induction visits with
  | nothing => exact .nil
  | @pair address pair cells ending found visits inductionHypothesis =>
      refine List.nodup_cons.mpr ⟨fun member => ?_, inductionHypothesis isEnd⟩
      obtain ⟨before, after, rfl⟩ := List.append_of_mem member
      obtain ⟨middle, back, further⟩ := visits.split
      cases further with
      | pair foundAgain further =>
          have round : Relation.TransGen store.HasTail (.pair address) (.pair address) :=
            .head' ⟨pair, found, rfl⟩ back.leads
          exact visits.not_comesRound isEnd ⟨_, back.leads, round⟩

/-- No cell is visited twice, so that there are no more than there are pairs. -/
theorem Visits.length_le :
    cells.length ≤ store.pairs.size := by
  have distinct := visits.nodup isEnd
  have inside : cells ⊆ List.range store.pairs.size := by
    clear isEnd distinct
    induction visits with
    | nothing => exact List.nil_subset _
    | pair found _ inductionHypothesis =>
        have present := (Array.getElem?_eq_some_iff.mp found).1
        exact List.cons_subset.mpr ⟨List.mem_range.mpr present, inductionHypothesis⟩
  simpa using (List.subperm_of_subset distinct inside).length_le

end Ending

/-! A chain that goes on for ever. -/

/-- The address of the tail of a pair, or of the pair itself where its tail is no pair. -/
def nextCell (store : Store) (address : Nat) : Nat :=
  match store.pairs[address]? with
  | some ⟨_, .pair next⟩ => next
  | _ => address

/-- The tail of the pair at the address is an address as well. -/
def IsLinked (store : Store) (address : Nat) : Prop :=
  ∃ head, store.pairs[address]? = some ⟨head, .pair (store.nextCell address)⟩

/-- From the pair at the address, tail after tail is an address. -/
def IsEndless (store : Store) (address : Nat) : Prop :=
  ∀ count, store.IsLinked (store.nextCell^[count] address)

/-- A cell is linked if its tail is a pair. -/
theorem isLinked_of_tail
    {head : Value}
    {next : Nat}
    (found : store.pairs[address]? = some ⟨head, .pair next⟩) :
    store.IsLinked address :=
  ⟨head, by rw [nextCell, found]⟩

/-- Where each pair has another one as its tail, one visits the pairs that come next. -/
theorem visits_iterate
    {count : Nat}
    (linked : ∀ earlier < count, store.IsLinked (store.nextCell^[earlier] address)) :
    store.Visits (.pair address) (List.iterate store.nextCell address count)
      (.pair (store.nextCell^[count] address)) := by
  induction count generalizing address with
  | zero => exact .nothing
  | succ count inductionHypothesis =>
      obtain ⟨head, found⟩ := linked 0 (Nat.succ_pos count)
      refine .pair found (inductionHypothesis fun earlier less => ?_)
      exact linked (earlier + 1) (Nat.succ_lt_succ less)

/-- A chain ends, or it goes on for ever. -/
theorem exists_visits_or_isEndless
    (store : Store)
    (value : Value) :
    (∃ cells ending, store.Visits value cells ending ∧ store.pair? ending = none) ∨
      ∃ address, value = .pair address ∧ store.IsEndless address := by
  by_cases isPair : ∃ address, value = .pair address
  · obtain ⟨address, rfl⟩ := isPair
    by_cases endless : store.IsEndless address
    · exact .inr ⟨address, rfl, endless⟩
    · classical
      have last := not_forall.mp endless
      have visits :=
        visits_iterate fun earlier less => Classical.not_not.mp (Nat.find_min last less)
      have notLinked := Nat.find_spec last
      generalize Nat.find last = count at visits notLinked
      cases found : store.pairs[store.nextCell^[count] address]? with
      | none => exact .inl ⟨_, _, visits, found⟩
      | some pair =>
          refine .inl ⟨_, pair.tail, visits.append (.pair found .nothing), ?_⟩
          obtain ⟨head, tail⟩ := pair
          cases tail with
          | pair next => exact (notLinked (isLinked_of_tail found)).elim
          | _ => rfl
  · refine .inl ⟨[], value, .nothing, ?_⟩
    cases value with
    | pair address => exact (isPair ⟨address, rfl⟩).elim
    | _ => rfl

/-- Every cell of an endless chain has a head and leads to the next. -/
theorem IsEndless.exists_head
    (endless : store.IsEndless address)
    (count : Nat) :
    ∃ head,
      store.pairs[store.nextCell^[count] address]? =
        some ⟨head, .pair (store.nextCell^[count + 1] address)⟩ := by
  rw [Function.iterate_succ_apply']
  exact endless count

/-- Every cell of an endless chain is in the store. -/
theorem IsEndless.lt_size
    (endless : store.IsEndless address)
    (count : Nat) :
    store.nextCell^[count] address < store.pairs.size := by
  obtain ⟨head, found⟩ := endless count
  exact (Array.getElem?_eq_some_iff.mp found).1

/-- A chain that goes on for ever runs into a ring. -/
theorem IsEndless.exists_ring
    (endless : store.IsEndless address) :
    ∃ lead period,
      0 < period ∧ lead + period ≤ store.pairs.size ∧
        ∀ {earlier later : Nat},
          earlier < later →
          (store.nextCell^[earlier] address = store.nextCell^[later] address ↔
            lead ≤ earlier ∧ period ∣ later - earlier) :=
  exists_ring_of_bounded endless.lt_size

/-- Each cell of an endless chain has the next one for its tail. -/
theorem IsEndless.hasTail
    (endless : store.IsEndless address)
    (count : Nat) :
    store.HasTail (.pair (store.nextCell^[count] address))
      (.pair (store.nextCell^[count + 1] address)) := by
  obtain ⟨head, found⟩ := endless.exists_head count
  exact ⟨_, found, rfl⟩

/-- An endless chain leads on and on. -/
theorem IsEndless.leads
    (endless : store.IsEndless address)
    (count more : Nat) :
    Relation.ReflTransGen store.HasTail (.pair (store.nextCell^[count] address))
      (.pair (store.nextCell^[count + more] address)) := by
  induction more with
  | zero => exact .refl
  | succ more inductionHypothesis => exact inductionHypothesis.tail (endless.hasTail _)

/-- An endless chain comes round, for there are finitely many pairs. -/
theorem IsEndless.comesRound
    (endless : store.IsEndless address) :
    store.ComesRound (.pair address) := by
  obtain ⟨lead, period, positive, _, same_iff⟩ := endless.exists_ring
  have back : store.nextCell^[lead] address = store.nextCell^[lead + period] address :=
    (same_iff (by omega)).mpr ⟨Nat.le_refl lead, by rw [Nat.add_sub_cancel_left]⟩
  obtain ⟨before, rfl⟩ : ∃ before, period = 1 + before := ⟨period - 1, by omega⟩
  have round := endless.leads (lead + 1) before
  rw [Nat.add_assoc, ← back] at round
  refine ⟨_, ?_, .head' (endless.hasTail lead) round⟩
  simpa using endless.leads 0 lead

/-- Along tails one comes to nothing but the pairs of the chain. -/
theorem IsEndless.exists_count
    (endless : store.IsEndless address)
    (leads : Relation.ReflTransGen store.HasTail (.pair address) part) :
    ∃ count, part = .pair (store.nextCell^[count] address) := by
  induction leads with
  | refl => exact ⟨0, rfl⟩
  | tail _ isTail inductionHypothesis =>
      obtain ⟨count, rfl⟩ := inductionHypothesis
      exact ⟨count + 1, isTail.unique (endless.hasTail count)⟩

/-! The race of two walks. -/

/-- The runners meet only in one pair. -/
theorem eq_of_isSamePair
    {first second : Value}
    (same : isSamePair first second) :
    first = second := by
  unfold isSamePair at same
  split at same
  · rw [of_decide_eq_true same]
  · cases same

/-- The chain from the value ends with the given value or, if none is given, comes round. -/
def ChainEnds (store : Store) (value : Value) : Option Value → Prop
  | some ending => Relation.ReflTransGen store.HasTail value ending ∧ store.pair? ending = none
  | none => store.ComesRound value

/-- Where the race ends, the chain does, and where the walks meet, it comes round. -/
theorem chainEnds_of_raceWithin
    {rounds : Nat}
    {follower leader : Value}
    {answer : Option Value}
    (followed : Relation.ReflTransGen store.HasTail value follower)
    (led : Relation.ReflTransGen store.HasTail follower leader)
    (answered : store.raceWithin rounds follower leader = some answer) :
    store.ChainEnds value answer := by
  induction rounds generalizing follower leader with
  | zero => cases answered
  | succ rounds inductionHypothesis =>
      unfold raceWithin raceRound at answered
      cases foundLeader : store.pair? leader with
      | none =>
          simp only [foundLeader, Option.some.injEq] at answered
          subst answered
          exact ⟨followed.trans led, foundLeader⟩
      | some first =>
          have toFirst : store.HasTail leader first.tail := ⟨first, foundLeader, rfl⟩
          cases foundFirst : store.pair? first.tail with
          | none =>
              simp only [foundLeader, foundFirst, Option.some.injEq] at answered
              subst answered
              exact ⟨(followed.trans led).tail toFirst, foundFirst⟩
          | some second =>
              have toSecond : store.HasTail first.tail second.tail := ⟨second, foundFirst, rfl⟩
              -- The follower steps onto the way to the leader, and stays behind it.
              obtain ⟨behind, foundFollower, ahead⟩ :
                  ∃ pair,
                    store.pair? follower = some pair ∧
                      Relation.TransGen store.HasTail pair.tail second.tail := by
                rcases led.cases_head with rfl | ⟨between, isTail, further⟩
                · exact ⟨first, foundLeader, .single toSecond⟩
                · obtain ⟨pair, found, rfl⟩ := isTail
                  exact ⟨pair, found, .tail' (further.tail toFirst) toSecond⟩
              have reached := followed.tail ⟨behind, foundFollower, rfl⟩
              simp only [foundLeader, foundFirst, tailOf, foundFollower] at answered
              by_cases same : isSamePair behind.tail second.tail
              · rw [if_pos same] at answered
                cases answered
                exact ⟨_, reached, eq_of_isSamePair same ▸ ahead⟩
              · rw [if_neg same] at answered
                exact inductionHypothesis reached ahead.to_reflTransGen answered

/-- On a chain that ends the leader gets there. -/
theorem exists_raceWithin_of_visits
    {leader : Value}
    (visits : store.Visits leader cells ending)
    (isEnd : store.pair? ending = none)
    {rounds : Nat}
    (enough : cells.length < 2 * rounds)
    (follower : Value) :
    ∃ answer, store.raceWithin rounds follower leader = some answer := by
  induction rounds generalizing leader follower cells with
  | zero => omega
  | succ rounds inductionHypothesis =>
      unfold raceWithin
      cases round : store.raceRound follower leader with
      | ended last => exact ⟨_, rfl⟩
      | met => exact ⟨_, rfl⟩
      | apart behind ahead =>
          unfold raceRound at round
          cases visits with
          | nothing => simp [isEnd] at round
          | @pair _ pair _ _ found visits =>
              obtain ⟨head, tail⟩ := pair
              have foundLeader : store.pair? (.pair _) = some ⟨head, tail⟩ := found
              cases visits with
              | nothing => simp [foundLeader, isEnd] at round
              | @pair next second rest _ foundNext visits =>
                  have foundFirst : store.pair? (.pair next) = some second := foundNext
                  have isAhead : second.tail = ahead := by
                    simp only [foundLeader, foundFirst] at round
                    split at round
                    · cases round
                    · exact (Race.apart.inj round).2
                  subst isAhead
                  have fewer : rest.length < 2 * rounds := by
                    simp only [List.length_cons] at enough
                    omega
                  exact inductionHypothesis visits fewer behind

/-- On a chain that goes on for ever the leader catches up with the follower. -/
theorem raceWithin_of_isEndless
    (endless : store.IsEndless address)
    {done more rounds : Nat}
    (further : 0 < more)
    (meets : store.nextCell^[done + more] address = store.nextCell^[2 * (done + more)] address)
    (enough : more ≤ rounds) :
    store.raceWithin rounds (.pair (store.nextCell^[done] address))
        (.pair (store.nextCell^[2 * done] address)) =
      some none := by
  induction rounds generalizing done more with
  | zero => omega
  | succ rounds inductionHypothesis =>
      obtain ⟨_, foundFollower⟩ := endless.exists_head done
      obtain ⟨_, foundLeader⟩ := endless.exists_head (2 * done)
      obtain ⟨_, foundNext⟩ := endless.exists_head (2 * done + 1)
      have twoSteps : 2 * done + 1 + 1 = 2 * (done + 1) := by omega
      rw [twoSteps] at foundNext
      simp only [raceWithin, raceRound, tailOf, pair?, foundFollower, foundLeader, foundNext]
      by_cases same :
          store.nextCell^[done + 1] address = store.nextCell^[2 * (done + 1)] address
      · simp [isSamePair, same]
      · have others : 1 < more := by
          refine Nat.lt_of_le_of_ne further fun one => same ?_
          rwa [← one] at meets
        simp only [isSamePair, same, decide_false, Bool.false_eq_true, if_false]
        have rest : done + 1 + (more - 1) = done + more := by omega
        refine inductionHypothesis (Nat.sub_pos_of_lt others) ?_ (by omega)
        rwa [rest]

/-- One round for each pair and one more are enough. -/
theorem raceWithin_eq_chainEnd?
    (store : Store)
    (value : Value) :
    store.raceWithin (store.pairs.size + 1) value value = some (store.chainEnd? value) := by
  have answers : ∃ answer, store.raceWithin (store.pairs.size + 1) value value = some answer := by
    rcases store.exists_visits_or_isEndless value with
      ⟨cells, ending, visits, isEnd⟩ | ⟨address, rfl, endless⟩
    · have := visits.length_le isEnd
      exact exists_raceWithin_of_visits visits isEnd (by omega) value
    · obtain ⟨lead, period, positive, fits, same_iff⟩ := endless.exists_ring
      obtain ⟨more, led, below, divides⟩ := exists_multiple_between lead positive
      have further : 0 < more := Nat.zero_lt_of_lt led
      have meets : store.nextCell^[more] address = store.nextCell^[2 * more] address := by
        refine (same_iff (by omega)).mpr ⟨Nat.le_of_lt led, ?_⟩
        rwa [Nat.two_mul, Nat.add_sub_cancel]
      refine ⟨none, @raceWithin_of_isEndless store address endless 0 more _ further ?_ (by omega)⟩
      rwa [Nat.zero_add]
  obtain ⟨answer, answered⟩ := answers
  rw [chainEnd?, answered]
  rfl

/-- What the race finds is how the chain ends. -/
theorem chainEnds_chainEnd?
    (store : Store)
    (value : Value) :
    store.ChainEnds value (store.chainEnd? value) :=
  chainEnds_of_raceWithin .refl .refl (store.raceWithin_eq_chainEnd? value)

/-- The race has no end to tell exactly if the chain comes round. -/
theorem chainEnd?_eq_none_iff :
    store.chainEnd? value = none ↔ store.ComesRound value := by
  have ends := store.chainEnds_chainEnd? value
  cases answered : store.chainEnd? value with
  | none =>
      rw [answered] at ends
      exact iff_of_true rfl ends
  | some ending =>
      rw [answered] at ends
      refine iff_of_false nofun fun comesRound => ?_
      exact not_comesRound_of_pair?_eq_none ends.2 (comesRound.reached ends.1)

/-- There is one way to follow a chain to its end. -/
theorem Visits.unique
    {others : List Nat}
    {other : Value}
    (visits : store.Visits value cells ending)
    (isEnd : store.pair? ending = none)
    (visitsOthers : store.Visits value others other)
    (isOtherEnd : store.pair? other = none) :
    cells = others ∧ ending = other := by
  induction visits generalizing others with
  | nothing =>
      cases visitsOthers with
      | nothing => exact ⟨rfl, rfl⟩
      | pair found _ => cases isEnd.symm.trans found
  | pair found _ inductionHypothesis =>
      cases visitsOthers with
      | nothing => cases isOtherEnd.symm.trans found
      | pair foundOther visitsOthers =>
          cases found.symm.trans foundOther
          obtain ⟨rfl, rfl⟩ := inductionHypothesis isEnd visitsOthers
          exact ⟨rfl, rfl⟩

/-- The end that the race tells is what comes behind the last pair. -/
theorem chainEnd?_eq_some_iff :
    store.chainEnd? value = some ending ↔
      (∃ cells, store.Visits value cells ending) ∧ store.pair? ending = none := by
  have ends := store.chainEnds_chainEnd? value
  constructor
  · intro answered
    rw [answered] at ends
    exact ⟨exists_visits ends.1, ends.2⟩
  · rintro ⟨⟨cells, visits⟩, isEnd⟩
    cases answered : store.chainEnd? value with
    | none => exact (visits.not_comesRound isEnd (chainEnd?_eq_none_iff.mp answered)).elim
    | some other =>
        rw [answered] at ends
        obtain ⟨others, visitsOther⟩ := exists_visits ends.1
        exact congrArg some (visitsOther.unique ends.2 visits isEnd).2

end Store

end SmallScheme
