import SmallScheme.Proofs.Programs
import Mathlib.Tactic.Ring

namespace SmallScheme

/-!
# Loops in tail position

Main result.  Procedures that call themselves or each other in tail position run on a fixed number
of levels, whatever the number of rounds: each round leaves one frame more in the store and takes
two units of fuel, but opens no level.  The inductions are on the number of rounds, from any store
that knows the procedures; the operands and the tests of a round are evaluated two or three levels
further in and leave the store as it is.
-/

namespace TailLoops

open Datum

variable
  {host : Host}
  {limit depth address : Nat}
  {store : Store}
  {context : Context}
  {scope home : Scope}
  {bindings : List (String × Value)}
  {word acc total : Int64}
  {chosen : Bool}

/-- The use of a name on operands. -/
def use (name : String) (operands : List Datum) : Datum :=
  .ofList (.symbol name :: operands)

/-- `(= n 0)` -/
def isZero : Datum :=
  use "=" [.symbol "n", .integer 0]

/-- `(- n 1)` -/
def oneLess : Datum :=
  use "-" [.symbol "n", .integer 1]

/-- `(+ acc n)` -/
def increased : Datum :=
  use "+" [.symbol "acc", .symbol "n"]

/-- `(if (= n 0) acc (loop (- n 1) (+ acc n)))` -/
def summing : Datum :=
  use "if" [isZero, .symbol "acc", use "loop" [oneLess, increased]]

/-- `(cond ((= n 0) #t) (else (odd? (- n 1))))` -/
def even : Datum :=
  use "cond" [.ofList [isZero, .boolean true], .ofList [.symbol "else", use "odd?" [oneLess]]]

/-- `(not (= n 0))` -/
def isPositive : Datum :=
  use "not" [isZero]

/-- `(and (not (= n 0)) (even? (- n 1)))` -/
def odd : Datum :=
  use "and" [isPositive, use "even?" [oneLess]]

theorem means_isZero
    (sees : store.Sees scope bindings)
    (counter : (bindings ++ Session.initialBindings).lookup "n" = some (.integer word))
    (equal :
      (bindings ++ Session.initialBindings).lookup "=" = some (.primitive (.comparison .equal)))
    (decided : decide (word = 0) = chosen) :
    store.Means host limit 2 scope isZero (.boolean chosen) :=
  Store.means_use (by decide) (sees.means equal)
    (.cons (Store.means_symbol (sees.means counter)) (.cons (Store.means_integer 0) .nil))
    (decided ▸ Primitive.answers_equal host word 0)

theorem means_oneLess
    {less : Int64}
    (sees : store.Sees scope bindings)
    (counter : (bindings ++ Session.initialBindings).lookup "n" = some (.integer word))
    (minus :
      (bindings ++ Session.initialBindings).lookup "-" = some (.primitive (.arithmetic .subtract)))
    (isLess : less.toInt = word.toInt - 1) :
    store.Means host limit 2 scope oneLess (.integer less) :=
  Store.means_use (by decide) (sees.means minus)
    (.cons (Store.means_symbol (sees.means counter)) (.cons (Store.means_integer 1) .nil))
    (Primitive.answers_difference host isLess)

theorem means_more
    {more : Int64}
    (sees : store.Sees scope bindings)
    (counter : (bindings ++ Session.initialBindings).lookup "n" = some (.integer word))
    (sum : (bindings ++ Session.initialBindings).lookup "acc" = some (.integer acc))
    (plus :
      (bindings ++ Session.initialBindings).lookup "+" = some (.primitive (.arithmetic .add)))
    (isMore : more.toInt = acc.toInt + word.toInt) :
    store.Means host limit 2 scope increased (.integer more) :=
  Store.means_use (by decide) (sees.means plus)
    (.cons (Store.means_symbol (sees.means sum))
      (.cons (Store.means_symbol (sees.means counter)) .nil))
    (Primitive.answers_sum host isMore)

/-- Between two words there are only words. -/
theorem exists_word
    {least most : Int64}
    {number : Int}
    (fromBelow : least.toInt ≤ number)
    (fromAbove : number ≤ most.toInt) :
    ∃ word : Int64, word.toInt = number := by
  have := Int64.le_toInt least
  have := Int64.toInt_lt most
  exact ⟨Int64.ofInt number, Int64.toInt_ofInt_of_le (by omega) (by omega)⟩

/-- The sum of the numbers up to the count. -/
def sumTo (count : Nat) : Nat :=
  count * (count + 1) / 2

theorem sumTo_succ
    (count : Nat) :
    sumTo (count + 1) = sumTo count + (count + 1) := by
  have split : (count + 1) * (count + 1 + 1) = count * (count + 1) + 2 * (count + 1) := by
    ring
  rw [sumTo, split, Nat.add_mul_div_left _ _ Nat.two_pos]
  rfl

/-- From every store that knows the loop, it runs to the end on two levels. -/
theorem summing_ends
    {count : Nat}
    (sees : store.Sees home [("loop", .procedure address)])
    (defines : store.Defines home address ["n", "acc"] summing)
    (room : depth + 2 ≤ limit)
    (isCount : word.toInt = count)
    (isTotal : total.toInt = acc.toInt + sumTo count) :
    (Application.apply host (.procedure address) [.integer word, .integer acc]).Ends host limit
      (2 * count + 6) ⟨store, context, depth⟩ (.integer total) := by
  induction count generalizing store word acc with
  | zero =>
      have entered := sees.entered [("acc", .integer acc), ("n", .integer word)]
        (store.namespaces home)
      have isLast : decide (word = 0) = true := by
        rw [decide_eq_true_eq, ← Int64.toInt_inj, isCount]
        rfl
      have isTotal : total = acc := by
        rw [← Int64.toInt_inj, isTotal]
        exact Int.add_zero _
      refine Machine.apply_ends defines (by decide) rfl ?_
      refine Machine.Finds.of_choice (entered.means rfl) (means_isZero entered rfl rfl isLast) room
        (by decide) ?_
      rw [if_pos rfl, isTotal]
      exact Machine.Finds.of_means (by nofun) (Store.means_symbol (entered.means rfl)) (by omega)
        (by decide)
  | succ count inductionHypothesis =>
      have entered := sees.entered [("acc", .integer acc), ("n", .integer word)]
        (store.namespaces home)
      have split : (sumTo (count + 1) : Int) = sumTo count + (count + 1) := by
        exact_mod_cast sumTo_succ count
      have zero : (0 : Int64).toInt = 0 := rfl
      obtain ⟨less, isLess⟩ : ∃ less : Int64, less.toInt = word.toInt - 1 :=
        @exists_word 0 word _ (by omega) (by omega)
      obtain ⟨next, isNext⟩ : ∃ next : Int64, next.toInt = acc.toInt + word.toInt :=
        @exists_word acc total _ (by omega) (by omega)
      have goesOn : decide (word = 0) = false := by
        rw [decide_eq_false_iff_not, ← Int64.toInt_inj]
        omega
      refine Machine.apply_ends defines (by decide) rfl ?_
      refine Machine.Finds.of_choice (entered.means rfl) (means_isZero entered rfl rfl goesOn) room
        (by omega) ?_
      rw [if_neg Bool.false_ne_true]
      refine Machine.Finds.of_call (by decide) (entered.means rfl) rfl
        (.cons (means_oneLess entered rfl rfl isLess)
          (.cons (means_more entered rfl rfl rfl isNext) .nil))
        room (by omega) ?_
      exact inductionHypothesis (sees.deepened (store.isDeepenedTo_withFrame _))
        (defines.retained ⟨id, id⟩) (by omega) (by omega)

theorem means_isPositive
    (sees : store.Sees scope bindings)
    (counter : (bindings ++ Session.initialBindings).lookup "n" = some (.integer word))
    (equal :
      (bindings ++ Session.initialBindings).lookup "=" = some (.primitive (.comparison .equal)))
    (negation :
      (bindings ++ Session.initialBindings).lookup "not" =
        some (.primitive (.equivalence .negation)))
    (decided : decide (word = 0) = chosen) :
    store.Means host limit 3 scope isPositive (.boolean !chosen) :=
  Store.means_use (by decide) (sees.means negation)
    (.cons (means_isZero sees counter equal decided) .nil) (Primitive.answers_negation host chosen)

/-- The two procedures call each other on three levels until the counter is zero. -/
theorem parity_ends
    {evenAddress oddAddress : Nat}
    {count : Nat}
    (sees :
      store.Sees home [("odd?", .procedure oddAddress), ("even?", .procedure evenAddress)])
    (definesEven : store.Defines home evenAddress ["n"] even)
    (definesOdd : store.Defines home oddAddress ["n"] odd)
    (room : depth + 3 ≤ limit)
    (isCount : word.toInt = count) :
    (Application.apply host (.procedure evenAddress) [.integer word]).Ends host limit
        (2 * count + 8) ⟨store, context, depth⟩ (.boolean (decide (count % 2 = 0))) ∧
      (Application.apply host (.procedure oddAddress) [.integer word]).Ends host limit
        (2 * count + 8) ⟨store, context, depth⟩ (.boolean (decide (count % 2 = 1))) := by
  induction count generalizing store word with
  | zero =>
      have entered := sees.entered [("n", .integer word)] (store.namespaces home)
      have isLast : decide (word = 0) = true := by
        rw [decide_eq_true_eq, ← Int64.toInt_inj, isCount]
        rfl
      constructor
      · refine Machine.apply_ends definesEven (by decide) rfl ?_
        refine Machine.Finds.of_clauses (entered.means rfl) (by nofun) (by nofun)
          (means_isZero entered rfl rfl isLast) (by omega) (by decide) ?_
        rw [if_pos rfl]
        exact Machine.Finds.of_means (by nofun) (Store.means_boolean true) (by omega) (by decide)
      · refine Machine.apply_ends definesOdd (by decide) rfl ?_
        exact Machine.Finds.of_false_conjunction (entered.means rfl)
          (means_isPositive entered rfl rfl rfl isLast) room (by decide)
  | succ count inductionHypothesis =>
      have entered := sees.entered [("n", .integer word)] (store.namespaces home)
      have zero : (0 : Int64).toInt = 0 := rfl
      obtain ⟨less, isLess⟩ : ∃ less : Int64, less.toInt = word.toInt - 1 :=
        @exists_word 0 word _ (by omega) (by omega)
      have goesOn : decide (word = 0) = false := by
        rw [decide_eq_false_iff_not, ← Int64.toInt_inj]
        omega
      have evenNext : decide ((count + 1) % 2 = 0) = decide (count % 2 = 1) := by
        rw [decide_eq_decide]
        omega
      have oddNext : decide ((count + 1) % 2 = 1) = decide (count % 2 = 0) := by
        rw [decide_eq_decide]
        omega
      obtain ⟨evenEnds, oddEnds⟩ :=
        inductionHypothesis
          (sees.deepened (store.isDeepenedTo_withFrame ⟨[("n", .integer word)], _⟩))
          (definesEven.retained ⟨id, id⟩) (definesOdd.retained ⟨id, id⟩) (isLess.trans (by omega))
      constructor
      · rw [evenNext]
        refine Machine.apply_ends definesEven (by decide) rfl ?_
        refine Machine.Finds.of_clauses (entered.means rfl) (by nofun) (by nofun)
          (means_isZero entered rfl rfl goesOn) (by omega) (by omega) ?_
        rw [if_neg Bool.false_ne_true]
        exact Machine.Finds.of_call (by decide) (entered.means rfl) rfl
          (.cons (means_oneLess entered rfl rfl isLess) .nil) (by omega) (by omega) oddEnds
      · rw [oddNext]
        refine Machine.apply_ends definesOdd (by decide) rfl ?_
        refine Machine.Finds.of_conjunction (entered.means rfl)
          (means_isPositive entered rfl rfl rfl goesOn) room (by omega) ?_
        exact Machine.Finds.of_call (by decide) (entered.means rfl) rfl
          (.cons (means_oneLess entered rfl rfl isLess) .nil) (by omega) (by omega) evenEnds

/-- `(loop n 0)` for a given number -/
def sumCall (word : Int64) : Datum :=
  use "loop" [.integer word, .integer 0]

/-- `(even? n)` or `(odd? n)` for a given number -/
def parityCall (name : String) (word : Int64) : Datum :=
  use name [.integer word]

/-- The loop is defined, and then the form is evaluated. -/
def sumProgram (form : Datum) : List Datum :=
  [.definition "loop" ["n", "acc"] summing, form]

/-- The two procedures are defined, and then the form is evaluated. -/
def parityProgram (form : Datum) : List Datum :=
  [.definition "even?" ["n"] even, .definition "odd?" ["n"] odd, form]

theorem sumCall_finds
    {count : Nat}
    (sees : store.Sees home [("loop", .procedure address)])
    (defines : store.Defines home address ["n", "acc"] summing)
    (inner : store.Sees scope [("loop", .procedure address)])
    (room : depth + 2 ≤ limit)
    (isCount : word.toInt = count)
    (isTotal : total.toInt = sumTo count) :
    Machine.Finds host limit (2 * count + 7) scope (sumCall word) ⟨store, context, depth⟩
      (.integer total) := by
  refine Machine.Finds.of_call (by decide) (inner.means rfl) rfl
    (.cons (Store.means_integer word) (.cons (Store.means_integer 0) .nil)) (by omega) (by omega) ?_
  exact summing_ends sees defines room isCount (isTotal.trans (Int.zero_add _).symm)

theorem parityCall_finds
    {evenAddress oddAddress : Nat}
    {count : Nat}
    (sees : store.Sees home [("odd?", .procedure oddAddress), ("even?", .procedure evenAddress)])
    (definesEven : store.Defines home evenAddress ["n"] even)
    (definesOdd : store.Defines home oddAddress ["n"] odd)
    (inner : store.Sees scope [("odd?", .procedure oddAddress), ("even?", .procedure evenAddress)])
    (room : depth + 3 ≤ limit)
    (isCount : word.toInt = count) :
    Machine.Finds host limit (2 * count + 9) scope (parityCall "even?" word)
        ⟨store, context, depth⟩ (.boolean (decide (count % 2 = 0))) ∧
      Machine.Finds host limit (2 * count + 9) scope (parityCall "odd?" word)
        ⟨store, context, depth⟩ (.boolean (decide (count % 2 = 1))) := by
  have ends :=
    @parity_ends host limit depth store context home word _ _ count sees definesEven definesOdd room
      isCount
  obtain ⟨evenEnds, oddEnds⟩ := ends
  constructor
  · exact Machine.Finds.of_call (by decide) (inner.means rfl) rfl
      (.cons (Store.means_integer word) .nil) (by omega) (by omega) evenEnds
  · exact Machine.Finds.of_call (by decide) (inner.means rfl) rfl
      (.cons (Store.means_integer word) .nil) (by omega) (by omega) oddEnds

section Programs

variable
  {settings : Settings}
  {fuel : Nat}
  {form : Datum}
  {value : Value}

theorem sumProgram_yields
    (isCode : form.isCode)
    (room : 2 ≤ settings.limit)
    (enough : 3 ≤ fuel)
    (finds :
      ∀ {store : Store} {context : Context} {address : Nat},
        store.Sees ⟨1, [0]⟩ [("loop", .procedure address)] →
        store.Defines ⟨1, [0]⟩ address ["n", "acc"] summing →
        Machine.Finds settings.host settings.limit fuel ⟨1, [0]⟩ form ⟨store, context, 1⟩ value) :
    Session.Yields settings (sumProgram form) (fuel + 2) value := by
  refine Session.yields_of_ends ?_ (by omega) ?_
  · simpa [sumProgram] using ⟨rfl, isCode⟩
  · intro store context values offers encodes
    unfold sumProgram at encodes
    refine .of_definition offers rfl rfl (by decide) room enough (List.cons_ne_nil _ _)
      encodes ?_
    intro after values _ offers defines encodes
    obtain _ | ⟨encodesForm, ⟨⟩⟩ := encodes
    exact finds offers.sees defines encodesForm

theorem parityProgram_yields
    (isCode : form.isCode)
    (room : 2 ≤ settings.limit)
    (enough : 3 ≤ fuel)
    (finds :
      ∀ {store : Store} {context : Context} {evenAddress oddAddress : Nat},
        store.Sees ⟨1, [0]⟩ [("odd?", .procedure oddAddress), ("even?", .procedure evenAddress)] →
        store.Defines ⟨1, [0]⟩ evenAddress ["n"] even →
        store.Defines ⟨1, [0]⟩ oddAddress ["n"] odd →
        Machine.Finds settings.host settings.limit fuel ⟨1, [0]⟩ form ⟨store, context, 1⟩ value) :
    Session.Yields settings (parityProgram form) (fuel + 2) value := by
  refine Session.yields_of_ends ?_ (by omega) ?_
  · simpa [parityProgram] using ⟨rfl, rfl, isCode⟩
  · intro store context values offers encodes
    unfold parityProgram at encodes
    refine .of_definition offers rfl rfl (by decide) room enough (List.cons_ne_nil _ _)
      encodes ?_
    intro between values _ offers definesEven encodes
    refine .of_definition offers rfl rfl (by decide) room enough (List.cons_ne_nil _ _)
      encodes ?_
    intro after values retains offers definesOdd encodes
    obtain _ | ⟨encodesForm, ⟨⟩⟩ := encodes
    exact finds offers.sees (definesEven.retained retains) definesOdd encodesForm

end Programs

end TailLoops

open TailLoops

/--
Five levels are enough for loops in tail position, however often they go round: a sum is summed up
and a parity is found, in the form of the program itself as well as in a procedure that is called
with a handler installed.
-/
theorem tail_loops_run_on_five_levels
    {settings : Settings}
    (room : 5 ≤ settings.limit)
    {count : Nat}
    {word : Int64}
    (isCount : word.toInt = count) :
    (∀ total : Int64,
      total.toInt = sumTo count →
      ∀ form ∈ (sumCall word).plainOrHandled,
        Session.Yields settings (sumProgram form) (2 * count + 12) (.integer total)) ∧
    (∀ form ∈ (parityCall "even?" word).plainOrHandled,
      Session.Yields settings (parityProgram form) (2 * count + 14)
        (.boolean (decide (count % 2 = 0)))) ∧
    ∀ form ∈ (parityCall "odd?" word).plainOrHandled,
      Session.Yields settings (parityProgram form) (2 * count + 14)
        (.boolean (decide (count % 2 = 1))) := by
  refine ⟨fun total isTotal form member => ?_, fun form member => ?_, fun form member => ?_⟩
  · refine sumProgram_yields (Datum.isCode_plainOrHandled rfl form member) (by omega) (by omega) ?_
    intro store context address sees defines
    refine Machine.finds_plainOrHandled 2 sees rfl rfl (by omega) (by omega) ?_ form member
    intro after inner context depth retains seesAfter seesInner room
    exact sumCall_finds seesAfter (defines.retained retains) seesInner room isCount isTotal
  · refine parityProgram_yields (Datum.isCode_plainOrHandled rfl form member) (by omega)
      (by omega) ?_
    intro store context evenAddress oddAddress sees definesEven definesOdd
    refine Machine.finds_plainOrHandled 3 sees rfl rfl (by omega) (by omega) ?_ form member
    intro after inner context depth retains seesAfter seesInner room
    exact (parityCall_finds seesAfter (definesEven.retained retains) (definesOdd.retained retains)
      seesInner room isCount).1
  · refine parityProgram_yields (Datum.isCode_plainOrHandled rfl form member) (by omega)
      (by omega) ?_
    intro store context evenAddress oddAddress sees definesEven definesOdd
    refine Machine.finds_plainOrHandled 3 sees rfl rfl (by omega) (by omega) ?_ form member
    intro after inner context depth retains seesAfter seesInner room
    exact (parityCall_finds seesAfter (definesEven.retained retains) (definesOdd.retained retains)
      seesInner room isCount).2

/-- Five levels, with the library. -/
def fiveLevels : Settings :=
  ⟨5, true, Host.absent⟩

def sumOfTen : String :=
  "(define (loop n acc) (if (= n 0) acc (loop (- n 1) (+ acc n)))) (loop 10 0)"

def parityOfSeven : String :=
  "(define (even? n) (cond ((= n 0) #t) (else (odd? (- n 1)))))
   (define (odd? n) (and (not (= n 0)) (even? (- n 1))))
   (with-exception-handler (lambda (condition) condition) (lambda () (even? 7)))"

/-- Texts of a sum and of a parity, the latter under a handler. -/
theorem sum_and_parity_on_five_levels :
    (∃ after,
      (Session.start fiveLevels).evaluateText fiveLevels sumOfTen =
        some (.ok (.integer 55), after)) ∧
    ∃ after,
      (Session.start fiveLevels).evaluateText fiveLevels parityOfSeven =
        some (.ok (.boolean false), after) := by
  have room : 5 ≤ fiveLevels.limit := Nat.le_refl 5
  have readSum : @Reader.readsCode .plain sumOfTen (sumProgram (sumCall 10)) := by decide +kernel
  have readParity :
      @Reader.readsCode .plain parityOfSeven
        (parityProgram (.handled (.lambda ["condition"] (.symbol "condition"))
          (parityCall "even?" 7))) := by
    decide +kernel
  obtain ⟨sums, -⟩ := @tail_loops_run_on_five_levels fiveLevels room 10 10 rfl
  obtain ⟨-, evens, -⟩ := @tail_loops_run_on_five_levels fiveLevels room 7 7 rfl
  constructor
  · have yields := sums 55 rfl _ List.mem_cons_self
    exact yields.evaluates sumOfTen (Reader.readAll_of_readsCode readSum) (by decide +kernel)
  · have yields := evens _ (List.mem_cons_of_mem _ List.mem_cons_self)
    exact yields.evaluates parityOfSeven (Reader.readAll_of_readsCode readParity)
      (by decide +kernel)

end SmallScheme
