import SmallScheme.Proofs.Limit
import SmallScheme.Proofs.Script.Indifference
import SmallScheme.Proofs.Unlimited

namespace SmallScheme

/-!
# Tail positions, deferred or in place

Nothing comes after a tail position but passing on what unwinds from it, and what is passed on may
only learn where an arity fault arose.  So it makes no difference whether a step is carried out
where it is handed over or after the construct has ended: the same things happen in the same order.
This is shown for both directions at once, by induction on the fuel and on how the script proceeds.
-/

open Script

/-- An outcome without the expression that an arity fault may tell. -/
def Run.unlocated :
    Option (Except Unwind Value × Machine) → Option (Except Unwind Value × Machine) :=
  Option.map fun outcome => (outcome.1.mapError Unwind.unlocated, outcome.2)

theorem Run.exists_alike
    {first second : Option (Except Unwind Value × Machine)}
    (same : Run.unlocated first = Run.unlocated second)
    {result : Except Unwind Value}
    {last : Machine}
    (ended : first = some (result, last)) :
    ∃ ending, second = some (ending, last) ∧ EndsAlike result ending := by
  subst ended
  cases second with
  | none =>
      cases same
  | some outcome =>
      obtain ⟨ending, machine⟩ := outcome
      obtain ⟨alike, rfl⟩ := Prod.mk.inj (Option.some.inj same)
      exact ⟨ending, rfl, alike⟩

variable
  {host : Host}
  {tails others : Tails}
  {fuel : Nat}

/-- What is served with some fuel settles values at once. -/
theorem Machine.unlimited_value
    {request : Request}
    {machine : Machine}
    {outcome : Except Unwind Value × Machine}
    (served : unlimited host tails fuel request machine = some outcome)
    (value : Value)
    (last : Machine) :
    unlimited host tails fuel (.finish (.value value)) last = some (.ok value, last) := by
  cases fuel with
  | zero =>
      cases served
  | succ fuel =>
      rfl

namespace Script

/-- What only unwinds changes nothing but where an arity fault arose. -/
theorem Passes.conclude
    {reason : Unwind}
    {script : Script Step}
    (passes : Passes reason script)
    (host : Host)
    (tails : Tails)
    (fuel : Nat)
    (machine : Machine) :
    ∃ last,
      script.conclude tails (Machine.unlimited host tails (fuel + 1)) machine =
          some (.error last, machine) ∧
        reason.unlocated = last.unlocated := by
  induction passes with
  | unwinding becomes =>
      exact ⟨_, rfl, becomes.unlocated_eq⟩
  | @viewing _ _ look _ _ inductionHypothesis =>
      exact inductionHypothesis (look machine.store)
  | waiting _ _ _ inductionHypothesis _ =>
      exact inductionHypothesis .unspecified

/--
A step that is handed over at the end of a script ends the script alike, whether it is carried out
then or later.
-/
theorem conclude_handingOver
    {step : Step}
    {next : Except Unwind Step → Script Step}
    (last : ∀ step, next (.ok step) = .done step)
    (passes : ∀ reason, Passes reason (next (.error reason)))
    (machine : Machine) :
    Run.unlocated
        ((deferring step next).conclude tails (Machine.unlimited host tails fuel) machine) =
      Run.unlocated (Machine.unlimited host tails fuel (.finish step) machine) := by
  cases tails with
  | deferred =>
      rw [conclude_deferred, last]
      rfl
  | inPlace =>
      rw [conclude_inPlace]
      cases served : Machine.unlimited host .inPlace fuel (.finish step) machine with
      | none =>
          rfl
      | some outcome =>
          obtain ⟨result, between⟩ := outcome
          cases result with
          | ok value =>
              have goesOn : next (.ok (.value value)) = .done (.value value) := last _
              have settled := Machine.unlimited_value served value between
              simp only [Except.map, goesOn]
              exact congrArg Run.unlocated settled
          | error reason =>
              cases fuel with
              | zero =>
                  cases served
              | succ fuel =>
                  obtain ⟨ending, concluded, same⟩ :=
                    (passes reason).conclude host .inPlace fuel between
                  simp only [Except.map]
                  rw [concluded]
                  exact congrArg (fun reason => some (Except.error reason, between)) same.symm

end Script

namespace Special

/-- The machine with parameters given their old values back. -/
def restored (previous : List (Nat × Value)) (machine : Machine) : Machine :=
  { machine with store := (exchange [] machine.store previous).2 }

/--
Carrying out forms to the end and restoring the parameters then amounts to concluding the forms and
restoring the parameters: the step that the forms end with is finished in between either way.
-/
private theorem conclude_restore
    (previous : List (Nat × Value))
    (script : Script Step)
    (machine : Machine) :
    ((script >>= finish).attempt >>= restore previous).conclude tails
        (Machine.unlimited host tails fuel) machine =
      (script.conclude tails (Machine.unlimited host tails fuel) machine).map fun outcome =>
        (outcome.1, restored previous outcome.2) := by
  change (((script.bind finish).attempt).bind (restore previous)).conclude tails
    (Machine.unlimited host tails fuel) machine = _
  induction script generalizing machine with
  | done step =>
      refine (conclude_asking _ _ machine).trans ?_
      change _ = (Machine.unlimited host tails fuel (.finish step) machine).map _
      cases served : Machine.unlimited host tails fuel (.finish step) machine with
      | none =>
          rfl
      | some outcome =>
          obtain ⟨result, between⟩ := outcome
          cases result with
          | ok value =>
              exact Machine.unlimited_value served value (restored previous between)
          | error reason =>
              rfl
  | unwind reason =>
      rfl
  | viewing look next inductionHypothesis =>
      exact inductionHypothesis _ machine
  | acting action next inductionHypothesis =>
      exact inductionHypothesis _ _
  | switching change next inductionHypothesis =>
      exact inductionHypothesis _ _
  | asking request next inductionHypothesis =>
      refine (conclude_asking _ _ machine).trans ?_
      rw [conclude_asking]
      cases Machine.unlimited host tails fuel request machine with
      | none =>
          rfl
      | some outcome =>
          exact inductionHypothesis outcome.1 outcome.2
  | deferring step next inductionHypothesis =>
      cases tails with
      | deferred =>
          exact inductionHypothesis (.ok step) machine
      | inPlace =>
          refine (conclude_inPlace _ _ machine).trans ?_
          rw [conclude_inPlace]
          cases Machine.unlimited host .inPlace fuel (.finish step) machine with
          | none =>
              rfl
          | some outcome =>
              exact inductionHypothesis (outcome.1.map .value) outcome.2

end Special

/-- A run that no level is refused in is not disturbed under a larger limit either. -/
theorem Moment.Undisturbed.raise
    {limit larger : Nat}
    (le : limit ≤ larger)
    {moment : Moment}
    (undisturbed : moment.Undisturbed host limit)
    (unrefused : moment.Unrefused host limit) :
    moment.Undisturbed host larger where
  keepsHomes later reaches := undisturbed.keepsHomes later ((unrefused.reaches_iff le).mp reaches)
  ends later reaches := undisturbed.ends later ((unrefused.reaches_iff le).mp reaches)

/-- Whatever is served is served alike, given the other tails and enough fuel. -/
def Machine.Matched (host : Host) (tails others : Tails) (fuel : Nat) : Prop :=
  ∀ request machine result last,
    unlimited host tails fuel request machine = some (result, last) →
    ∃ enough ending,
      unlimited host others enough request machine = some (ending, last) ∧
        EndsAlike result ending

/--
Whatever a script is concluded with, an indifferent one is concluded with alike, given the other
tails and enough fuel.
-/
theorem Script.Indifferent.conclude
    (matched : Machine.Matched host tails others fuel)
    {first second : Script Step}
    (indifferent : Indifferent first second)
    {machine last : Machine}
    {result : Except Unwind Value}
    (concluded :
      first.conclude tails (Machine.unlimited host tails fuel) machine = some (result, last)) :
    ∃ enough ending,
      second.conclude others (Machine.unlimited host others enough) machine =
          some (ending, last) ∧
        EndsAlike result ending := by
  induction indifferent generalizing machine result last with
  | done step =>
      exact matched (.finish step) machine result last concluded
  | passing same passesFirst passesSecond =>
      obtain ⟨firstReason, endsFirst, becomesFirst⟩ := passesFirst.conclude host tails fuel machine
      obtain ⟨secondReason, endsSecond, becomesSecond⟩ :=
        passesSecond.conclude host others 0 machine
      have withMore := conclude_mono
        (fun _ _ _ => Machine.unlimited_mono (Nat.le_succ fuel)) _ concluded
      rw [endsFirst] at withMore
      obtain ⟨rfl, rfl⟩ := Prod.mk.inj (Option.some.inj withMore)
      exact ⟨1, _, endsSecond, .of_reasons (becomesFirst.symm.trans (same.trans becomesSecond))⟩
  | viewing _ inductionHypothesis =>
      exact inductionHypothesis machine.store concluded
  | acting _ inductionHypothesis =>
      exact inductionHypothesis machine.store concluded
  | switching _ inductionHypothesis =>
      exact inductionHypothesis machine.context concluded
  | @asking request next following _ inductionHypothesis =>
      rw [conclude_asking] at concluded
      cases served : Machine.unlimited host tails fuel request machine with
      | none =>
          simp [served] at concluded
      | some outcome =>
          obtain ⟨answer, between⟩ := outcome
          rw [served] at concluded
          obtain ⟨enoughFirst, ending, servedAlike, alike⟩ := matched _ _ _ _ served
          obtain ⟨enoughRest, final, concludedAlike, alikeRest⟩ :=
            inductionHypothesis answer ending alike concluded
          have servedMax := Machine.unlimited_mono (Nat.le_max_left _ enoughRest) servedAlike
          refine ⟨max enoughFirst enoughRest, final, ?_, alikeRest⟩
          rw [conclude_asking, servedMax]
          refine (following ending).conclude_mono ?_ concludedAlike
          exact fun _ _ _ => Machine.unlimited_mono (Nat.le_max_right _ _)
  | handingOver goesOn passes =>
      obtain ⟨answer, served, alike⟩ :=
        Run.exists_alike (conclude_handingOver goesOn passes machine) concluded
      obtain ⟨enough, ending, servedAlike, alikeServed⟩ := matched _ _ _ _ served
      obtain ⟨final, concludedAlike, alikeFinal⟩ :=
        Run.exists_alike (conclude_handingOver goesOn passes machine).symm servedAlike
      exact ⟨enough, final, concludedAlike, alike.trans (alikeServed.trans alikeFinal)⟩
  | @restoring first second previous _ inductionHypothesis =>
      rw [Special.conclude_restore] at concluded
      obtain ⟨⟨answer, between⟩, body, same⟩ := Option.map_eq_some_iff.mp concluded
      obtain ⟨rfl, rfl⟩ := Prod.mk.inj same
      obtain ⟨enough, ending, bodyAlike, alike⟩ := inductionHypothesis body
      refine ⟨enough, ending, ?_, alike⟩
      rw [Special.conclude_restore, bodyAlike]
      rfl

/-- Deferring tail positions or evaluating them in place leads to the same, with enough fuel. -/
theorem Machine.unlimited_matched
    (indifferent : host.Indifferent)
    (tails others : Tails)
    (fuel : Nat) :
    Matched host tails others fuel := by
  induction fuel with
  | zero =>
      intro request machine result last served
      cases served
  | succ fuel inductionHypothesis =>
      intro request machine result last served
      cases request with
      | evaluate scope form =>
          obtain ⟨enough, ending, servedAlike⟩ := inductionHypothesis _ _ _ _ served
          exact ⟨enough + 1, ending, servedAlike⟩
      | call callee operands =>
          obtain ⟨enough, ending, servedAlike⟩ := inductionHypothesis _ _ _ _ served
          exact ⟨enough + 1, ending, servedAlike⟩
      | finish step =>
          simp only [unlimited] at served
          cases amounts : stepScript host step with
          | inl value =>
              rw [amounts] at served
              obtain ⟨rfl, rfl⟩ := Prod.mk.inj (Option.some.inj served)
              refine ⟨1, _, ?_, .refl _⟩
              simp only [unlimited, amounts]
              rfl
          | inr script =>
              rw [amounts] at served
              obtain ⟨enough, ending, concluded, alike⟩ :=
                (indifferent_stepScript indifferent amounts).conclude inductionHypothesis served
              refine ⟨enough + 1, ending, ?_, alike⟩
              simp only [unlimited, amounts]
              exact concluded
      | reach scope home =>
          exact ⟨1, result, served, .refl _⟩
      | endless =>
          exact ⟨1, result, served, .refl _⟩

/--
What the machine computes is what direct evaluation computes.  Whatever is served without ever being
refused a level, and without missing the scope of a macro, direct evaluation brings to an end alike,
on the very same machine in the end.  Whatever direct evaluation brings to an end, the machine
serves alike, if it is not refused a level and nothing disturbs its run, and so it does under every
limit that is large enough.
-/
theorem machine_computes_what_direct_evaluation_does
    (indifferent : host.Indifferent)
    (limit : Nat)
    (request : Request)
    (machine : Machine) :
    (Moment.Unrefused host limit ⟨.serving request, [], machine⟩ →
      Moment.KeepsHomes host limit ⟨.serving request, [], machine⟩ →
      ∀ (fuel : Nat) (result : Except Unwind Value) (last : Machine),
        Machine.serve host limit fuel request machine = some (result, last) →
        ∃ enough ending,
          Machine.direct host enough request machine = some (ending, last) ∧
            EndsAlike result ending) ∧
    ∀ (fuel : Nat) (ending : Except Unwind Value) (last : Machine),
      Machine.direct host fuel request machine = some (ending, last) →
      (Moment.Unrefused host limit ⟨.serving request, [], machine⟩ →
        Moment.Undisturbed host limit ⟨.serving request, [], machine⟩ →
        ∃ enough result,
          Machine.serve host limit enough request machine = some (result, last) ∧
            EndsAlike result ending) ∧
      ∃ bound,
        ∀ larger ≥ bound,
          Moment.Undisturbed host larger ⟨.serving request, [], machine⟩ →
          ∃ enough result,
            Machine.serve host larger enough request machine = some (result, last) ∧
              EndsAlike result ending := by
  -- Under a limit with room for all the fuel, nothing is refused and nothing changes.
  have roomy (fuel : Nat)
      (unrefused : Moment.Unrefused host limit ⟨.serving request, [], machine⟩)
      (undisturbed : Moment.Undisturbed host limit ⟨.serving request, [], machine⟩) :
      Machine.serve host limit fuel request machine =
        Machine.unlimited host .deferred fuel request machine := by
    have larger := Nat.le_max_left limit (machine.depth + fuel)
    rw [← Machine.serve_raise larger fuel unrefused]
    exact Machine.serve_eq_unlimited (Nat.le_max_right _ _) (undisturbed.raise larger unrefused)
  constructor
  · intro unrefused keepsHomes fuel result last served
    rw [roomy fuel unrefused ⟨keepsHomes, fun _ => Moment.not_isEndless_of_serve served⟩] at served
    exact Machine.unlimited_matched indifferent .deferred .inPlace fuel _ _ _ _ served
  · intro fuel ending last served
    obtain ⟨enough, result, servedAlike, alike⟩ :=
      Machine.unlimited_matched indifferent .inPlace .deferred fuel _ _ _ _ served
    constructor
    · intro unrefused undisturbed
      exact ⟨enough, result, (roomy enough unrefused undisturbed).trans servedAlike, alike.symm⟩
    · refine ⟨machine.depth + enough, fun larger room undisturbed => ?_⟩
      refine ⟨enough, result, ?_, alike.symm⟩
      exact (Machine.serve_eq_unlimited room undisturbed).trans servedAlike

/-- The body of the procedure uses a macro, which hands over an application with too few
operands. -/
def lateApplication : Moment :=
  .beginning
    [("apply", .special .application), ("lambda", .special .procedure),
      ("syntax-rules", .special .transformer)]
    "((lambda (late) (late)) (syntax-rules () ((_) (apply (lambda (x) x) '()))))"

/-- The expression that an arity fault tells, if it tells one. -/
def toldExpression? (outcome : Except Unwind Value × Machine) : Option (Option String) :=
  match outcome.1 with
  | .error (.fault (.arity _ _ expression)) => some expression
  | _ => none

/--
The application is carried out after the procedure has been left, so the machine does not tell where
the fault arose; in place it is still part of the outer form, which is told then.
-/
theorem late_application_is_located_in_place :
    ∃ request machine result ending last enough,
      lateApplication = ⟨.serving request, [], machine⟩ ∧
        Machine.serve Host.sample 8 20 request machine = some (result, last) ∧
        Machine.direct Host.sample enough request machine = some (ending, last) ∧
        EndsAlike result ending ∧
        toldExpression? (result, last) = some none ∧
        toldExpression? (ending, last) =
          some (some
            "((lambda (late) (late)) (syntax-rules () ((_) (apply (lambda (x) x) '()))))") := by
  have shape :
      lateApplication.activity.request?.any fun request =>
        lateApplication.endsPassing Host.sample 8 (fun moment => ¬moment.Refused 8) 100 &&
          lateApplication.endsPassing Host.sample 8
              (fun moment => !moment.misses Host.sample) 100 &&
          (Machine.serve Host.sample 8 20 request lateApplication.machine).any (fun outcome =>
            toldExpression? outcome == some none) &&
          (Machine.direct Host.sample 20 request lateApplication.machine).any fun outcome =>
            toldExpression? outcome ==
              some (some
                "((lambda (late) (late)) (syntax-rules () ((_) (apply (lambda (x) x) '()))))") := by
    decide +kernel
  obtain ⟨request, machine, _, _, begins⟩ : ∃ request machine,
      request.IsNested ∧
        machine.Idle ∧
        lateApplication = ⟨.serving request, [], machine⟩ :=
    Moment.beginning_eq _ _
  rw [begins] at shape
  simp only [Activity.request?, Option.any_some, Bool.and_eq_true, Option.any_eq_true,
    beq_iff_eq] at shape
  obtain ⟨⟨⟨free, atHome⟩, ⟨result, last⟩, served, untold⟩, ⟨located, lastInPlace⟩, direct, told⟩ :=
    shape
  have unrefused := Moment.unrefused_of_endsPassing free
  have keepsHomes := Moment.keepsHomes_of_endsPassing atHome
  obtain ⟨enough, ending, servedInPlace, alike⟩ :=
    (machine_computes_what_direct_evaluation_does Host.indifferent_sample 8 request machine).1
      unrefused keepsHomes 20 result last served
  -- Direct evaluation has one outcome, however much fuel it is given.
  have sameOutcome : (located, lastInPlace) = (ending, last) := by
    have first := Machine.unlimited_mono (Nat.le_max_left 20 enough) direct
    have second := Machine.unlimited_mono (Nat.le_max_right 20 enough) servedInPlace
    exact Option.some.inj (first.symm.trans second)
  rw [sameOutcome] at told
  exact ⟨request, machine, result, ending, last, enough, begins, served, servedInPlace, alike,
    untold, told⟩

/-- A macro from the scope of a block is used where the block is over. -/
def outlivingMacro : Moment :=
  .beginning
    [("lambda", .special .procedure), ("let", .special .letBlock),
      ("syntax-rules", .special .transformer)]
    "((lambda (use) (let ((x 1)) (use (syntax-rules () ((_) x))))) (lambda (s) (s)))"

/-- The run has ended because the name has no value. -/
def endsUnbound (name : String) : Option (Except Unwind Value × Machine) → Bool
  | some (.error (.fault (.unboundVariable missing)), _) => missing == name
  | _ => false

/--
The block hands the use of the macro over, and its scope is gone by the time of the use, so the name
that the macro brings along has no value.  In place the block is not over yet, and the name has its
value there.
-/
theorem macro_outlives_its_block :
    ∃ request machine result last,
      outlivingMacro = ⟨.serving request, [], machine⟩ ∧
        Moment.Unrefused Host.sample 8 ⟨.serving request, [], machine⟩ ∧
        Machine.serve Host.sample 8 30 request machine = some (result, last) ∧
        endsUnbound "x" (some (result, last)) ∧
        ∃ enough,
          endsWithInteger 1 (Machine.direct Host.sample enough request machine) ∧
            ∀ fuel ending after,
              Machine.direct Host.sample fuel request machine = some (ending, after) →
              ¬EndsAlike result ending := by
  have shape :
      outlivingMacro.activity.request?.any fun request =>
        outlivingMacro.endsPassing Host.sample 8 (fun moment => ¬moment.Refused 8) 100 &&
          endsUnbound "x" (Machine.serve Host.sample 8 30 request outlivingMacro.machine) &&
          endsWithInteger 1 (Machine.direct Host.sample 30 request outlivingMacro.machine) := by
    decide +kernel
  obtain ⟨request, machine, _, _, begins⟩ : ∃ request machine,
      request.IsNested ∧
        machine.Idle ∧
        outlivingMacro = ⟨.serving request, [], machine⟩ :=
    Moment.beginning_eq _ _
  rw [begins] at shape
  simp only [Activity.request?, Option.any_some, Bool.and_eq_true] at shape
  obtain ⟨⟨free, fails⟩, direct⟩ := shape
  cases served : Machine.serve Host.sample 8 30 request machine with
  | none =>
      rw [served] at fails
      cases fails
  | some outcome =>
      obtain ⟨result, last⟩ := outcome
      rw [served] at fails
      refine ⟨request, machine, result, last, begins, Moment.unrefused_of_endsPassing free, served,
        fails, 30, direct, fun fuel ending after ended alike => ?_⟩
      cases answered : Machine.direct Host.sample 30 request machine with
      | none =>
          rw [answered] at direct
          cases direct
      | some value =>
          have first := Machine.unlimited_mono (Nat.le_max_left 30 fuel) answered
          have second := Machine.unlimited_mono (Nat.le_max_right 30 fuel) ended
          obtain rfl : value = (ending, after) := Option.some.inj (first.symm.trans second)
          rw [answered] at direct
          -- One of the two has a value and the other one has none.
          cases ending with
          | ok found =>
              cases result with
              | ok other => cases fails
              | error reason => cases alike
          | error reason => cases direct

end SmallScheme
