import SmallScheme.Evaluation.Machine

namespace SmallScheme

/-!
# The parts of a whole division

Main result.  `quotient`, `remainder` and `modulo` are one division, of which each gives a part.
The least word divided by minus one has a quotient that is no word; it is refused for all three,
although nothing is left over there.  All other operands, but a divisor of zero, get the part that
they ask for.
-/

/-- A number that is zero or has the sign of `model`. -/
def IsSignedLike (model number : Int) : Prop :=
  number = 0 ∨ number.sign = model.sign

theorem isSignedLike_iff
    {model number : Int} :
    IsSignedLike model number ↔ (0 < number → 0 < model) ∧ (number < 0 → model < 0) := by
  unfold IsSignedLike
  rcases Int.lt_trichotomy number 0 with negative | rfl | positive
  · rw [Int.sign_eq_neg_one_of_neg negative, eq_comm (a := -1), Int.sign_eq_neg_one_iff_neg]
    omega
  · omega
  · rw [Int.sign_eq_one_of_pos positive, eq_comm (a := 1), Int.sign_eq_one_iff_pos]
    omega

/-- The rest differs from the dividend by a multiple of the divisor and is signed like `model`. -/
structure LeavesOver (dividend divisor model rest : Int) : Prop where
  divides : divisor ∣ dividend - rest
  small : rest.natAbs < divisor.natAbs
  signed : IsSignedLike model rest

namespace LeavesOver

variable {dividend divisor model : Int}

/-- Two rests of one sign are closer to each other than the divisor is to zero. -/
theorem unique
    {first second : Int}
    (leaves : LeavesOver dividend divisor model first)
    (alsoLeaves : LeavesOver dividend divisor model second) :
    first = second := by
  have divides : divisor ∣ second - first := by
    have difference : second - first = (dividend - first) - (dividend - second) := by
      omega
    rw [difference]
    exact Int.dvd_sub leaves.divides alsoLeaves.divides
  have close : (second - first).natAbs < divisor.natAbs := by
    have signed := isSignedLike_iff.mp leaves.signed
    have alsoSigned := isSignedLike_iff.mp alsoLeaves.signed
    have small := leaves.small
    have alsoSmall := alsoLeaves.small
    omega
  have := Int.eq_zero_of_dvd_of_natAbs_lt_natAbs divides close
  omega

/-- Truncated division leaves over a rest signed like the dividend. -/
theorem of_truncated
    (dividend : Int)
    (nonzero : divisor ≠ 0) :
    LeavesOver dividend divisor dividend (dividend.tmod divisor) where
  divides := Int.dvd_self_sub_tmod
  small := by
    rw [Int.natAbs_tmod]
    exact Nat.mod_lt _ (Int.natAbs_pos.mpr nonzero)
  signed := by
    by_cases divides : divisor ∣ dividend
    · exact .inl (Int.tmod_eq_zero_of_dvd divides)
    · exact .inr (by rw [Int.sign_tmod, if_neg divides])

/-- Division rounded down leaves over a rest signed like the divisor. -/
theorem of_floored
    (dividend : Int)
    (nonzero : divisor ≠ 0) :
    LeavesOver dividend divisor divisor (dividend.fmod divisor) := by
  have nonnegative := Int.emod_nonneg dividend nonzero
  have small := Int.emod_lt dividend nonzero
  have exact_iff := Int.dvd_iff_emod_eq_zero (a := divisor) (b := dividend)
  refine ⟨Int.dvd_self_sub_fmod, ?_, isSignedLike_iff.mpr ?_⟩ <;> rw [Int.fmod_eq_emod] <;>
    split <;> omega

end LeavesOver

/-- The one division of words, but by zero, that has a quotient out of range. -/
def ExceedsWord (dividend divisor : Int64) : Prop :=
  dividend = Int64.minValue ∧ divisor = -1

instance (dividend divisor : Int64) : Decidable (ExceedsWord dividend divisor) :=
  inferInstanceAs (Decidable (_ ∧ _))

variable {dividend divisor : Int64}

/-- Only dividing by minus one may leave the range: greater divisors make a number smaller. -/
theorem fitsWord_tdiv_iff
    (nonzero : divisor ≠ 0) :
    fitsWord (dividend.toInt.tdiv divisor.toInt) = true ↔ ¬ExceedsWord dividend divisor := by
  have least : Int64.minValue.toInt = -2 ^ 63 := by decide
  have greatest : Int64.maxValue.toInt = 2 ^ 63 - 1 := by decide
  have minusOne : (-1 : Int64).toInt = -1 := by decide
  have zero : (0 : Int64).toInt = 0 := by decide
  have fromBelow := Int64.le_toInt dividend
  have fromAbove := Int64.toInt_lt dividend
  simp only [ExceedsWord, fitsWord, Bool.and_eq_true, decide_eq_true_eq, ← Int64.toInt_inj, least,
    greatest, minusOne]
  rw [ne_eq, ← Int64.toInt_inj, zero] at nonzero
  generalize dividend.toInt = number at *
  generalize divisor.toInt = share at *
  by_cases negated : share = -1
  · subst negated
    rw [Int.tdiv_neg, Int.tdiv_one]
    omega
  · have size : (number.tdiv share).natAbs = number.natAbs / share.natAbs := Int.natAbs_tdiv ..
    by_cases kept : share = 1
    · subst kept
      rw [Int.tdiv_one]
      omega
    · have halved : number.natAbs / share.natAbs ≤ number.natAbs / 2 :=
        Nat.div_le_div_left (by omega) (by omega)
      omega

/-- A rest is smaller than the divisor, so that it is a word. -/
theorem LeavesOver.toInt_ofInt
    {model rest : Int}
    (leaves : LeavesOver dividend.toInt divisor.toInt model rest) :
    (Int64.ofInt rest).toInt = rest := by
  have small := leaves.small
  have fromBelow := Int64.le_toInt divisor
  have fromAbove := Int64.toInt_lt divisor
  exact Int64.toInt_ofInt_of_le (by omega) (by omega)

namespace Arithmetic

/-- Applied to these two words on any machine the operation ends like this and changes nothing. -/
def Answers
    (host : Host)
    (operation : Arithmetic)
    (first second : Int64)
    (answer : Except Fault Value) : Prop :=
  ∀ (serve : Request → Run Value) (handOver : Step → Run Step) (machine : Machine),
    (Application.apply host (.primitive (.arithmetic operation))
        [.integer first, .integer second]).run serve handOver machine =
      some ((answer.map Step.value).mapError Unwind.fault, machine)

/-- What the parts of a whole division have in common. -/
theorem answers_of_run_eq
    (host : Host)
    (dividend : Int64)
    {operation : Arithmetic}
    {part : Int → Int → Int}
    (takesTwo : (Primitive.arithmetic operation).arity = .exactly 2)
    (isPart : operation.run = integers.adapt (wholeDivision part))
    (nonzero : divisor ≠ 0) :
    operation.Answers host dividend divisor
      (if ExceedsWord dividend divisor then
        .error (.evaluation (.overflow "division"))
      else
        .ok (.integer (Int64.ofInt (part dividend.toInt divisor.toInt)))) := by
  intro serve handOver machine
  obtain ⟨store, context, depth⟩ := machine
  have accepted : (Primitive.arithmetic operation).arity.refuses? 2 = none := by
    rw [takesTwo]
    rfl
  have applied :
      Primitive.apply host (.arithmetic operation) [.integer dividend, .integer divisor] store =
        wholeDivision part dividend divisor store := by
    simp only [Primitive.apply, List.length_cons, List.length_nil, accepted, Primitive.run, isPart]
    rfl
  simp only [Application.apply, bind, Script.bind, Script.perform, Script.run]
  rw [applied, wholeDivision, if_neg nonzero]
  by_cases exceeds : ExceedsWord dividend divisor
  · rw [if_neg (fun fits => (fitsWord_tdiv_iff nonzero).mp fits exceeds), if_pos exceeds]
    rfl
  · rw [if_pos ((fitsWord_tdiv_iff nonzero).mpr exceeds), if_neg exceeds]
    rfl

/-- The divisions out of range are refused whichever part is wanted. -/
theorem answers_of_exceeds
    (host : Host)
    (exceeds : ExceedsWord dividend divisor) :
    ∀ operation ∈ [quotient, remainder, modulo],
      operation.Answers host dividend divisor (.error (.evaluation (.overflow "division"))) := by
  have nonzero : divisor ≠ 0 := by
    rw [exceeds.2]
    decide
  have refused {operation part}
      (takesTwo : (Primitive.arithmetic operation).arity = .exactly 2)
      (isPart : operation.run = integers.adapt (wholeDivision part)) :
      operation.Answers host dividend divisor (.error (.evaluation (.overflow "division"))) := by
    have answers := answers_of_run_eq host dividend takesTwo isPart nonzero
    rwa [if_pos exceeds] at answers
  simp only [List.mem_cons, List.not_mem_nil, or_false, forall_eq_or_imp, forall_eq]
  exact ⟨refused rfl rfl, refused rfl rfl, refused rfl rfl⟩

/-- Every other division but by zero gives the part that is wanted. -/
theorem answers_of_fits
    (host : Host)
    {operation : Arithmetic}
    {part : Int → Int → Int}
    (takesTwo : (Primitive.arithmetic operation).arity = .exactly 2)
    (isPart : operation.run = integers.adapt (wholeDivision part))
    (nonzero : divisor ≠ 0)
    (fits : ¬ExceedsWord dividend divisor) :
    operation.Answers host dividend divisor
      (.ok (.integer (Int64.ofInt (part dividend.toInt divisor.toInt)))) := by
  have answers := answers_of_run_eq host dividend takesTwo isPart nonzero
  rwa [if_neg fits] at answers

end Arithmetic

/--
Dividing words by a divisor other than zero.  The quotient is given exactly if it is a word.  There
is exactly one rest signed like the dividend, and exactly one signed like the divisor, and both are
words; `remainder` and `modulo` give them, except where the quotient is refused.
-/
theorem parts_of_whole_divisions
    (host : Host)
    (dividend divisor : Int64)
    (nonzero : divisor ≠ 0) :
    ((∃ quotient : Int64,
        quotient.toInt = dividend.toInt.tdiv divisor.toInt ∧
          Arithmetic.quotient.Answers host dividend divisor (.ok (.integer quotient))) ∧
        ¬ExceedsWord dividend divisor ∨
      (∀ word : Int64, word.toInt ≠ dividend.toInt.tdiv divisor.toInt) ∧
        Arithmetic.quotient.Answers host dividend divisor
          (.error (.evaluation (.overflow "division"))) ∧
        ExceedsWord dividend divisor) ∧
    ∃ remainder modulus : Int64,
      (∀ rest, LeavesOver dividend.toInt divisor.toInt dividend.toInt rest ↔
        rest = remainder.toInt) ∧
      (∀ rest, LeavesOver dividend.toInt divisor.toInt divisor.toInt rest ↔
        rest = modulus.toInt) ∧
      if ExceedsWord dividend divisor then
        Arithmetic.remainder.Answers host dividend divisor
            (.error (.evaluation (.overflow "division"))) ∧
          Arithmetic.modulo.Answers host dividend divisor
            (.error (.evaluation (.overflow "division")))
      else
        Arithmetic.remainder.Answers host dividend divisor (.ok (.integer remainder)) ∧
          Arithmetic.modulo.Answers host dividend divisor (.ok (.integer modulus)) := by
  have nonzeroNumber : divisor.toInt ≠ 0 := by
    intro zero
    exact nonzero (Int64.toInt_inj.mp zero)
  have truncated := LeavesOver.of_truncated dividend.toInt nonzeroNumber
  have floored := LeavesOver.of_floored dividend.toInt nonzeroNumber
  refine ⟨?_, Int64.ofInt (dividend.toInt.tmod divisor.toInt),
    Int64.ofInt (dividend.toInt.fmod divisor.toInt), ?_, ?_, ?_⟩
  · by_cases exceeds : ExceedsWord dividend divisor
    · refine .inr ⟨fun word isQuotient => ?_, Arithmetic.answers_of_exceeds _ exceeds _ (by simp),
        exceeds⟩
      exact (fitsWord_tdiv_iff nonzero).mp (fitsWord_iff.mpr ⟨word, isQuotient⟩) exceeds
    · obtain ⟨word, isQuotient⟩ := fitsWord_iff.mp ((fitsWord_tdiv_iff nonzero).mpr exceeds)
      have answers : Arithmetic.quotient.Answers host dividend divisor _ :=
        Arithmetic.answers_of_fits host rfl rfl nonzero exceeds
      rw [← isQuotient, Int64.ofInt_toInt] at answers
      exact .inl ⟨⟨word, isQuotient, answers⟩, exceeds⟩
  · rw [truncated.toInt_ofInt]
    exact fun rest => ⟨fun leaves => leaves.unique truncated, fun isRest => isRest ▸ truncated⟩
  · rw [floored.toInt_ofInt]
    exact fun rest => ⟨fun leaves => leaves.unique floored, fun isRest => isRest ▸ floored⟩
  · split
    case isTrue exceeds =>
      exact ⟨Arithmetic.answers_of_exceeds _ exceeds _ (by simp),
        Arithmetic.answers_of_exceeds _ exceeds _ (by simp)⟩
    case isFalse fits =>
      exact ⟨Arithmetic.answers_of_fits host rfl rfl nonzero fits,
        Arithmetic.answers_of_fits host rfl rfl nonzero fits⟩

/-- Seventeen divided by minus five: the modulus is signed like the divisor. -/
theorem parts_of_seventeen_by_minus_five :
    (-5 : Int64) ≠ 0 ∧ Arithmetic.remainder.Answers Host.absent 17 (-5) (.ok (.integer 2)) ∧
      Arithmetic.modulo.Answers Host.absent 17 (-5) (.ok (.integer (-3))) := by
  have nonzero : (-5 : Int64) ≠ 0 := by decide
  obtain ⟨-, remainder, modulus, onlyRemainder, onlyModulus, answers⟩ :=
    parts_of_whole_divisions Host.absent 17 (-5) nonzero
  rw [if_neg (by decide)] at answers
  have isTwo : (2 : Int64) = remainder :=
    Int64.toInt_inj.mp
      ((onlyRemainder (2 : Int64).toInt).mp (LeavesOver.of_truncated _ (by decide)))
  have isMinusThree : (-3 : Int64) = modulus :=
    Int64.toInt_inj.mp
      ((onlyModulus (-3 : Int64).toInt).mp (LeavesOver.of_floored _ (by decide)))
  exact ⟨nonzero, isTwo ▸ answers.1, isMinusThree ▸ answers.2⟩

/-- Nothing is left over when the least word is divided by minus one, but no part is given. -/
theorem exact_division_of_least_word_is_refused :
    (LeavesOver Int64.minValue.toInt (-1 : Int64).toInt Int64.minValue.toInt 0 ∧
      LeavesOver Int64.minValue.toInt (-1 : Int64).toInt (-1 : Int64).toInt 0) ∧
    Arithmetic.remainder.Answers Host.absent Int64.minValue (-1)
        (.error (.evaluation (.overflow "division"))) ∧
      Arithmetic.modulo.Answers Host.absent Int64.minValue (-1)
        (.error (.evaluation (.overflow "division"))) := by
  have exceeds : ExceedsWord Int64.minValue (-1) := ⟨rfl, rfl⟩
  exact ⟨⟨LeavesOver.of_truncated _ (by decide), LeavesOver.of_floored _ (by decide)⟩,
    Arithmetic.answers_of_exceeds _ exceeds _ (by simp),
    Arithmetic.answers_of_exceeds _ exceeds _ (by simp)⟩

end SmallScheme
