import SmallScheme.Evaluation.Machine
import SmallScheme.Proofs.Reals

namespace SmallScheme

/-!
# Exact arithmetic of words

Main result.  Addition, multiplication and subtraction fold their operands from left to right.  The
answer is the exact value of all operands if every part of the operands from the front on has a
value that is a word, and otherwise an overflow: never a value that was wrapped.  Division of one
word by another one is exact where it leaves nothing over.
-/

namespace Arithmetic

/-- Applied to these words on any machine the operation ends like this and changes nothing. -/
def AnswersWords
    (host : Host)
    (operation : Arithmetic)
    (words : List Int64)
    (answer : Except Fault Value) : Prop :=
  ∀ (serve : Request → Run Value) (handOver : Step → Run Step) (machine : Machine),
    (Application.apply host (.primitive (.arithmetic operation))
        (words.map .integer)).run serve handOver machine =
      some ((answer.map Step.value).mapError Unwind.fault, machine)

variable
  {host : Host}
  {operation : Arithmetic}
  {words : List Int64}
  {answer other : Except Fault Value}

/--
An operation answers words as its run does, where the count is accepted and the fault is one that
ends.
-/
theorem AnswersWords.of_run
    (accepted : (Primitive.arithmetic operation).arity.refuses? words.length = none)
    (ends : ∀ fault, answer = .error fault → fault.isEndless = false)
    (ran : ∀ store : Store, operation.run (words.map .integer) store = (answer, store)) :
    operation.AnswersWords host words answer := by
  intro serve handOver machine
  obtain ⟨store, context, depth⟩ := machine
  have applied :
      Primitive.apply host (.arithmetic operation) (words.map .integer) store =
        (answer, store) := by
    simp only [Primitive.apply, List.length_map, accepted, Primitive.run]
    exact ran store
  simp only [Application.apply, bind, Script.bind, Script.perform, Script.run, applied]
  cases answer with
  | ok value => rfl
  | error fault =>
      simp only [Script.report, ends fault rfl]
      rfl

/-- An operation has no two answers. -/
theorem AnswersWords.unique
    (answers : operation.AnswersWords host words answer)
    (alsoAnswers : operation.AnswersWords host words other) :
    answer = other := by
  have same :=
    (answers (fun _ _ => none) (fun _ _ => none) ⟨.empty, ⟨[], [], 0⟩, 0⟩).symm.trans
      (alsoAnswers (fun _ _ => none) (fun _ _ => none) ⟨.empty, ⟨[], [], 0⟩, 0⟩)
  cases answer <;> cases other <;> simp_all [Except.map, Except.mapError]

/-- What an operation answers is what is specified, if that is one of its answers and only one. -/
theorem answersWords_iff
    {Specified : Except Fault Value → Prop}
    (functional : ∀ {answer other}, Specified answer → Specified other → answer = other)
    (answered : ∃ answer, operation.AnswersWords host words answer ∧ Specified answer)
    (answer : Except Fault Value) :
    operation.AnswersWords host words answer ↔ Specified answer := by
  obtain ⟨given, answers, specified⟩ := answered
  constructor
  · intro alsoAnswers
    exact answers.unique alsoAnswers ▸ specified
  · intro alsoSpecified
    exact functional specified alsoSpecified ▸ answers

end Arithmetic

/-! Operands that are words are read as exact numbers. -/

namespace StoreM

variable
  {First Second : Type}
  {first : StoreM First}
  {rest : First → StoreM Second}
  {before after : Store}

/-- After an action that answers, the rest runs on its answer. -/
theorem bind_of_ok
    {found : First}
    (ran : first before = (.ok found, after)) :
    (first >>= rest) before = rest found after := by
  change ExceptT.bindCont rest (first before).1 (first before).2 = _
  rw [ran]
  rfl

/-- After an action that fails, the rest is not run. -/
theorem bind_of_error
    {fault : Fault}
    (failed : first before = (.error fault, after)) :
    (first >>= rest) before = (.error fault, after) := by
  change ExceptT.bindCont rest (first before).1 (first before).2 = _
  rw [failed]
  rfl

end StoreM

/-- A function that is given as many operands as it takes is fed with them. -/
theorem Signature.adapt_eq_feed
    {signature : Signature}
    {operands : List Value}
    (body : signature.Body)
    (accepted : signature.arity.refuses? operands.length = none) :
    signature.adapt body operands = feed signature.fixed signature.rest body operands := by
  simp only [adapt, accepted]

/-- Words are numbers, and exact ones. -/
theorem OperandKind.readAll_words
    (store : Store)
    (words : List Int64) :
    OperandKind.readAll store .number (words.map .integer) = .ok (words.map .exact) := by
  induction words with
  | nil => rfl
  | cons word rest inductionHypothesis =>
      simp only [List.map_cons, readAll, inductionHypothesis]
      rfl

namespace Arithmetic

/-- A function of numbers runs on the words it is given. -/
theorem numbers_adapt_words
    (body : List Number → StoreM Value)
    (words : List Int64)
    (store : Store) :
    numbers.adapt body (words.map .integer) store = body (words.map .exact) store := by
  have accepted : numbers.arity.refuses? (words.map Value.integer).length = none :=
    Arity.refuses?_eq_none_iff.mpr (Nat.zero_le _)
  rw [Signature.adapt_eq_feed body accepted]
  exact StoreM.bind_of_ok (congrArg (·, store) (OperandKind.readAll_words store words))

/-- A function of a first number and others runs on the words it is given. -/
theorem leading_adapt_words
    (body : Number → List Number → StoreM Value)
    (first : Int64)
    (rest : List Int64)
    (store : Store) :
    leading.adapt body ((first :: rest).map .integer) store =
      body (.exact first) (rest.map .exact) store := by
  have accepted : leading.arity.refuses? ((first :: rest).map Value.integer).length = none :=
    Arity.refuses?_eq_none_iff.mpr (Nat.succ_le_succ (Nat.zero_le _))
  rw [Signature.adapt_eq_feed body accepted]
  refine Eq.trans (StoreM.bind_of_ok rfl) ?_
  exact StoreM.bind_of_ok (congrArg (·, store) (OperandKind.readAll_words store rest))

end Arithmetic

/-! Folding words. -/

/--
The value of all words if every part of them from the front on has a value that is a word, and
otherwise an overflow in the operation of this name.
-/
inductive IsExact
    (name : String)
    (value : List Int → Int)
    (words : List Int64) : Except Fault Value → Prop
  | total
      {total : Int64}
      (fits : ∀ part, part <+: words → fitsWord (value (part.map Int64.toInt)) = true)
      (isTotal : total.toInt = value (words.map Int64.toInt)) :
      IsExact name value words (.ok (.integer total))
  | overflow
      {part : List Int64}
      (isPart : part <+: words)
      (exceeds : fitsWord (value (part.map Int64.toInt)) = false) :
      IsExact name value words (.error (.evaluation (.overflow name)))

namespace IsExact

variable
  {name : String}
  {value : List Int → Int}
  {words : List Int64}
  {answer other : Except Fault Value}

/-- The only fault of exact arithmetic quotes no value. -/
theorem ends
    (isExact : IsExact name value words answer)
    (fault : Fault)
    (fails : answer = .error fault) :
    fault.isEndless = false := by
  cases isExact with
  | total => cases fails
  | overflow =>
      cases fails
      rfl

/-- An operation has one exact answer for given words. -/
theorem functional
    (isExact : IsExact name value words answer)
    (alsoExact : IsExact name value words other) :
    answer = other := by
  cases isExact with
  | total fits isTotal =>
      cases alsoExact with
      | total _ alsoTotal => rw [Int64.toInt_inj.mp (isTotal.trans alsoTotal.symm)]
      | overflow isPart exceeds => cases (fits _ isPart).symm.trans exceeds
  | overflow isPart exceeds =>
      cases alsoExact with
      | total fits => cases (fits _ isPart).symm.trans exceeds
      | overflow => rfl

/-- A fold goes on after its first word. -/
theorem cons
    {step : Int → Int → Int}
    {first word next : Int64}
    (isNext : next.toInt = step first.toInt word.toInt)
    (isExact : IsExact name (fun part => part.foldl step next.toInt) words answer) :
    IsExact name (fun part => part.foldl step first.toInt) (word :: words) answer := by
  rw [isNext] at isExact
  cases isExact with
  | total fits isTotal =>
      refine .total ?_ isTotal
      intro part isPart
      rcases List.prefix_cons_iff.mp isPart with rfl | ⟨rest, rfl, isRest⟩
      · exact fitsWord_iff.mpr ⟨first, rfl⟩
      · exact fits rest isRest
  | overflow isPart exceeds =>
      exact .overflow ((List.prefix_cons_inj word).mpr isPart) exceeds

end IsExact

namespace Arithmetic

/-- Where every result must be a word, folding words gives what is exact. -/
theorem exists_isExact_foldNumbers
    (name : String)
    (step : Int → Int → Int)
    (onReal : Float → Float → Float)
    (first : Int64)
    (rest : List Int64) :
    ∃ answer,
      (∀ store : Store,
        foldNumbers (fun total number => fitting name (Number.combine? step onReal total number))
            (.exact first) (rest.map .exact) store =
          (answer, store)) ∧
      IsExact name (fun part => part.foldl step first.toInt) rest answer := by
  induction rest generalizing first with
  | nil =>
      refine ⟨.ok (.integer first), fun _ => rfl, .total ?_ rfl⟩
      intro part isPart
      rw [List.prefix_nil.mp isPart]
      exact fitsWord_iff.mpr ⟨first, rfl⟩
  | cons word rest inductionHypothesis =>
      simp only [foldNumbers, List.map_cons, List.foldlM_cons, bind_assoc]
      cases fits : fitsWord (step first.toInt word.toInt) with
      | true =>
          obtain ⟨next, isNext⟩ := fitsWord_iff.mp fits
          have combined :
              Number.combine? step onReal (.exact first) (.exact word) = some (.exact next) := by
            rw [Number.combine?, ← isNext, word?_toInt]
            rfl
          obtain ⟨answer, ran, isExact⟩ := inductionHypothesis next
          refine ⟨answer, fun store => ?_, isExact.cons isNext⟩
          rw [combined]
          exact Eq.trans (StoreM.bind_of_ok rfl) (ran store)
      | false =>
          have combined : Number.combine? step onReal (.exact first) (.exact word) = none := by
            rw [Number.combine?, word?, fits]
            rfl
          refine ⟨_, fun store => ?_, .overflow (List.prefix_append [word] rest) fits⟩
          rw [combined]
          exact StoreM.bind_of_error rfl

/-- The sum is exact as long as every partial sum is a word. -/
theorem answersWords_add_iff
    (host : Host)
    (words : List Int64)
    (answer : Except Fault Value) :
    add.AnswersWords host words answer ↔ IsExact "addition" List.sum words answer := by
  have isSum : List.sum = fun part : List Int => part.foldl (· + ·) (0 : Int64).toInt :=
    funext fun _ => List.sum_eq_foldl
  obtain ⟨given, ran, isExact⟩ := exists_isExact_foldNumbers "addition" (· + ·) (· + ·) 0 words
  rw [← isSum] at isExact
  refine answersWords_iff IsExact.functional
    ⟨given, .of_run rfl isExact.ends fun store => ?_, isExact⟩ answer
  exact (numbers_adapt_words _ words store).trans (ran store)

/-- A sum that is a word is refused if a part of it is none. -/
example :
    add.AnswersWords Host.absent [Int64.maxValue, 1, -1]
      (.error (.evaluation (.overflow "addition"))) := by
  have isPart : [Int64.maxValue, 1] <+: [Int64.maxValue, 1, -1] := ⟨[-1], rfl⟩
  exact (answersWords_add_iff _ _ _).mpr (.overflow isPart (by decide))

/-- The product is exact as long as every partial product is a word. -/
theorem answersWords_multiply_iff
    (host : Host)
    (words : List Int64)
    (answer : Except Fault Value) :
    multiply.AnswersWords host words answer ↔
      IsExact "multiplication" List.prod words answer := by
  have isProduct : List.prod = fun part : List Int => part.foldl (· * ·) (1 : Int64).toInt :=
    funext fun _ => List.prod_eq_foldl
  obtain ⟨given, ran, isExact⟩ :=
    exists_isExact_foldNumbers "multiplication" (· * ·) (· * ·) 1 words
  rw [← isProduct] at isExact
  refine answersWords_iff IsExact.functional
    ⟨given, .of_run rfl isExact.ends fun store => ?_, isExact⟩ answer
  exact (numbers_adapt_words _ words store).trans (ran store)

/-- To take away one after the other is to take away the sum. -/
theorem foldl_sub_eq
    (first : Int)
    (rest : List Int) :
    rest.foldl (· - ·) first = first - rest.sum := by
  induction rest generalizing first with
  | nil => exact (Int.sub_zero first).symm
  | cons number rest inductionHypothesis =>
      rw [List.foldl_cons, inductionHypothesis, List.sum_cons, Int.sub_sub]

/-- The difference is exact as long as every partial difference is a word. -/
theorem answersWords_subtract_iff
    (host : Host)
    (first second : Int64)
    (rest : List Int64)
    (answer : Except Fault Value) :
    subtract.AnswersWords host (first :: second :: rest) answer ↔
      IsExact "subtraction" (fun part => first.toInt - part.sum) (second :: rest) answer := by
  obtain ⟨given, ran, isExact⟩ :=
    exists_isExact_foldNumbers "subtraction" (· - ·) (· - ·) first (second :: rest)
  simp only [foldl_sub_eq] at isExact
  refine answersWords_iff IsExact.functional
    ⟨given, .of_run ?_ isExact.ends fun store => ?_, isExact⟩ answer
  · exact Arity.refuses?_eq_none_iff.mpr (Nat.succ_le_succ (Nat.zero_le _))
  · exact (leading_adapt_words _ first (second :: rest) store).trans (ran store)

/-- The negation of a word is its difference from zero, but for the name of the overflow. -/
theorem answersWords_negate_iff
    (host : Host)
    (word : Int64)
    (answer : Except Fault Value) :
    subtract.AnswersWords host [word] answer ↔
      IsExact "negation" (fun part => -part.sum) [word] answer := by
  have isNegation (part : List Int) : part.foldl (· - ·) (0 : Int64).toInt = -part.sum :=
    (foldl_sub_eq _ part).trans (Int.zero_sub _)
  obtain ⟨given, ran, isExact⟩ :=
    exists_isExact_foldNumbers "negation" (· - ·) (· - ·) 0 [word]
  simp only [isNegation] at isExact
  refine answersWords_iff IsExact.functional
    ⟨given, .of_run rfl isExact.ends fun store => ?_, isExact⟩ answer
  simp only [foldNumbers, List.map_cons, List.map_nil, List.foldlM_cons, List.foldlM_nil,
    bind_pure] at ran
  exact (leading_adapt_words _ word [] store).trans (ran store)

end Arithmetic

/-! Division. -/

/--
A quotient of words.  It is exact if the divisor divides the dividend, where the exact quotient may
be out of range; otherwise it is the quotient of the reals.
-/
inductive IsQuotient (dividend divisor : Int64) : Except Fault Value → Prop
  | byZero
      (isZero : divisor = 0) :
      IsQuotient dividend divisor (.error (.evaluation .divisionByZero))
  | exact
      {quotient : Int64}
      (nonzero : divisor ≠ 0)
      (isQuotient : divisor.toInt * quotient.toInt = dividend.toInt) :
      IsQuotient dividend divisor (.ok (.integer quotient))
  | overflow
      (nonzero : divisor ≠ 0)
      (divides : divisor.toInt ∣ dividend.toInt)
      (exceeds : ∀ quotient : Int64, divisor.toInt * quotient.toInt ≠ dividend.toInt) :
      IsQuotient dividend divisor (.error (.evaluation (.overflow "division")))
  | real
      (nonzero : divisor ≠ 0)
      (leavesOver : ¬divisor.toInt ∣ dividend.toInt) :
      IsQuotient dividend divisor (.ok (.real (realOfWord dividend / realOfWord divisor)))

/-- The faults of a quotient quote no value. -/
theorem IsQuotient.ends
    {dividend divisor : Int64}
    {answer : Except Fault Value}
    (isQuotient : IsQuotient dividend divisor answer)
    (fault : Fault)
    (fails : answer = .error fault) :
    fault.isEndless = false := by
  cases isQuotient with
  | byZero | overflow =>
      cases fails
      rfl
  | exact | real => cases fails

/-- A nonzero word is a nonzero integer. -/
theorem toInt_ne_zero
    {word : Int64}
    (nonzero : word ≠ 0) :
    word.toInt ≠ 0 :=
  fun same => nonzero (Int64.toInt_inj.mp same)

/-- Two words have one quotient. -/
theorem IsQuotient.functional
    {dividend divisor : Int64}
    {answer other : Except Fault Value}
    (isQuotient : IsQuotient dividend divisor answer)
    (alsoQuotient : IsQuotient dividend divisor other) :
    answer = other := by
  cases isQuotient with
  | byZero isZero =>
      cases alsoQuotient with
      | byZero => rfl
      | exact nonzero | overflow nonzero | real nonzero => exact (nonzero isZero).elim
  | exact nonzero isQuotient =>
      cases alsoQuotient with
      | byZero isZero => exact (nonzero isZero).elim
      | exact _ alsoQuotient =>
          have same := isQuotient.trans alsoQuotient.symm
          rw [Int64.toInt_inj.mp (Int.eq_of_mul_eq_mul_left (toInt_ne_zero nonzero) same)]
      | overflow _ _ exceeds => exact (exceeds _ isQuotient).elim
      | real _ leavesOver => exact (leavesOver ⟨_, isQuotient.symm⟩).elim
  | overflow nonzero divides exceeds =>
      cases alsoQuotient with
      | byZero isZero => exact (nonzero isZero).elim
      | exact _ isQuotient => exact (exceeds _ isQuotient).elim
      | overflow => rfl
      | real _ leavesOver => exact (leavesOver divides).elim
  | real nonzero leavesOver =>
      cases alsoQuotient with
      | byZero isZero => exact (nonzero isZero).elim
      | exact _ isQuotient => exact (leavesOver ⟨_, isQuotient.symm⟩).elim
      | overflow _ divides => exact (leavesOver divides).elim
      | real => rfl

/-- The quotient of two words is fitted into a number unless the divisor is zero. -/
theorem divideNumbers_words
    (dividend divisor : Int64)
    (nonzero : divisor ≠ 0) :
    divideNumbers (.exact dividend) (.exact divisor) =
      fitting "division" ((Number.exact dividend).divide? (.exact divisor)) := by
  have isZero : (Number.exact divisor).isZero = decide (divisor = 0) := realOfWord_beq_zero divisor
  rw [divideNumbers, isZero, decide_eq_false nonzero]
  rfl

/-- The quotient of two words is the exact one where there is one. -/
theorem Arithmetic.answersWords_divide_iff
    (host : Host)
    (dividend divisor : Int64)
    (answer : Except Fault Value) :
    divide.AnswersWords host [dividend, divisor] answer ↔ IsQuotient dividend divisor answer := by
  have ran (store : Store) :
      divide.run ([dividend, divisor].map .integer) store =
        foldNumbers divideNumbers (.exact dividend) [.exact divisor] store :=
    leading_adapt_words _ dividend [divisor] store
  simp only [foldNumbers, List.foldlM_cons, List.foldlM_nil, bind_pure] at ran
  refine answersWords_iff IsQuotient.functional ?_ answer
  by_cases isZero : divisor = 0
  · subst isZero
    have isQuotient : IsQuotient dividend 0 (.error (.evaluation .divisionByZero)) := .byZero rfl
    exact ⟨_, .of_run rfl isQuotient.ends fun store => (ran store).trans rfl, isQuotient⟩
  · rw [divideNumbers_words dividend divisor isZero] at ran
    simp only [Number.divide?] at ran
    by_cases divides : divisor.toInt ∣ dividend.toInt
    · rw [if_pos (Int.dvd_iff_tmod_eq_zero.mp divides)] at ran
      cases fits : fitsWord (dividend.toInt.tdiv divisor.toInt) with
      | true =>
          obtain ⟨quotient, isQuotient⟩ := fitsWord_iff.mp fits
          rw [← isQuotient, word?_toInt] at ran
          have isExact : IsQuotient dividend divisor (.ok (.integer quotient)) := by
            refine .exact isZero ?_
            rw [isQuotient, Int.mul_tdiv_cancel' divides]
          exact ⟨_, .of_run rfl isExact.ends ran, isExact⟩
      | false =>
          rw [word?, fits] at ran
          have isOverflow : IsQuotient dividend divisor
              (.error (.evaluation (.overflow "division"))) := by
            refine .overflow isZero divides fun quotient isQuotient => ?_
            have isThat : dividend.toInt.tdiv divisor.toInt = quotient.toInt :=
              Int.tdiv_eq_of_eq_mul_right (toInt_ne_zero isZero) isQuotient.symm
            cases fits.symm.trans (fitsWord_iff.mpr ⟨quotient, isThat.symm⟩)
          exact ⟨_, .of_run rfl isOverflow.ends ran, isOverflow⟩
    · rw [if_neg (fun exact => divides (Int.dvd_iff_tmod_eq_zero.mpr exact))] at ran
      have isReal := IsQuotient.real isZero divides
      exact ⟨_, .of_run rfl isReal.ends ran, isReal⟩

/--
Sums, products and differences of words are exact or refused for the first part of the operands that
is out of range; the negation of a word is exact or refused; and a quotient of two words is exact, a
real or refused, just as the divisor and what it leaves over tell.
-/
theorem arithmetic_of_words_never_wraps
    (host : Host)
    (answer : Except Fault Value) :
    (∀ words,
      Arithmetic.add.AnswersWords host words answer ↔
        IsExact "addition" List.sum words answer) ∧
    (∀ words,
      Arithmetic.multiply.AnswersWords host words answer ↔
        IsExact "multiplication" List.prod words answer) ∧
    (∀ first second rest,
      Arithmetic.subtract.AnswersWords host (first :: second :: rest) answer ↔
        IsExact "subtraction" (fun part => first.toInt - part.sum) (second :: rest) answer) ∧
    (∀ word,
      Arithmetic.subtract.AnswersWords host [word] answer ↔
        IsExact "negation" (fun part => -part.sum) [word] answer) ∧
    ∀ dividend divisor,
      Arithmetic.divide.AnswersWords host [dividend, divisor] answer ↔
        IsQuotient dividend divisor answer :=
  ⟨fun words => Arithmetic.answersWords_add_iff host words answer,
    fun words => Arithmetic.answersWords_multiply_iff host words answer,
    fun first second rest => Arithmetic.answersWords_subtract_iff host first second rest answer,
    fun word => Arithmetic.answersWords_negate_iff host word answer,
    fun dividend divisor => Arithmetic.answersWords_divide_iff host dividend divisor answer⟩

end SmallScheme
