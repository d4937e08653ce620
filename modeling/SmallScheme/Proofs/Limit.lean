import SmallScheme.Proofs.Moment.Life

namespace SmallScheme

/-!
# Raising the limit

The limit on nesting is looked at where a level is opened and nowhere else.  A run that is never
refused a level passes through the same moments under every larger limit, and it has the same
outcome or, like before, none.  Whether a run has been refused a level cannot be told from its
outcome: the last procedure of a wind may replace the fault.
-/

namespace Moment

/-- A level would have to be opened, and the limit does not allow it. -/
def Refused (limit : Nat) : Moment → Prop
  | ⟨.serving (.evaluate _ _), _, machine⟩ => limit ≤ machine.depth
  | ⟨.serving (.call _ _), _, machine⟩ => limit ≤ machine.depth
  | _ => False

instance (limit : Nat) (moment : Moment) : Decidable (moment.Refused limit) :=
  match moment with
  | ⟨.serving (.evaluate _ _), _, machine⟩ => inferInstanceAs (Decidable (limit ≤ machine.depth))
  | ⟨.serving (.call _ _), _, machine⟩ => inferInstanceAs (Decidable (limit ≤ machine.depth))
  | ⟨.serving (.finish _), _, _⟩ => inferInstanceAs (Decidable False)
  | ⟨.serving (.reach _ _), _, _⟩ => inferInstanceAs (Decidable False)
  | ⟨.serving .endless, _, _⟩ => inferInstanceAs (Decidable False)
  | ⟨.returning _, _, _⟩ => inferInstanceAs (Decidable False)

theorem Refused.lower
    {limit larger : Nat}
    {moment : Moment}
    (refused : moment.Refused larger)
    (le : limit ≤ larger) :
    moment.Refused limit := by
  obtain ⟨activity, pending, machine⟩ := moment
  match activity with
  | .serving (.evaluate scope form) => exact Nat.le_trans le refused
  | .serving (.call callee operands) => exact Nat.le_trans le refused

/-- From the moment on no level is refused. -/
def Unrefused (host : Host) (limit : Nat) (moment : Moment) : Prop :=
  ∀ later, Reaches host limit moment later → ¬later.Refused limit

end Moment

variable
  {host : Host}
  {limit larger : Nat}
  {request : Request}

namespace Moment

theorem Unrefused.reaching
    {moment later : Moment}
    (unrefused : moment.Unrefused host limit)
    (reaches : Reaches host limit moment later) :
    later.Unrefused host limit :=
  fun last fromLater => unrefused last (reaches.trans fromLater)

/-- The run that has been followed to its end is never refused. -/
theorem unrefused_of_endsPassing
    {count : Nat}
    {moment : Moment}
    (ends : moment.endsPassing host limit (fun moment => ¬moment.Refused limit) count) :
    moment.Unrefused host limit :=
  fun _ reaches => of_decide_eq_true (passes_of_reaches ends reaches)

/-- The limit plays no part at a moment that is not refused. -/
theorem next?_raise
    (le : limit ≤ larger)
    {moment : Moment}
    (free : ¬moment.Refused limit) :
    moment.next? host larger = moment.next? host limit := by
  obtain ⟨activity, pending, machine⟩ := moment
  have opening
      (step : Step)
      (below : ¬limit ≤ machine.depth) :
      ofOpening larger step pending machine = ofOpening limit step pending machine := by
    have belowLarger : ¬larger ≤ machine.depth := by
      omega
    simp only [ofOpening, if_neg below, if_neg belowLarger]
  cases activity with
  | serving request =>
      cases request with
      | evaluate scope form =>
          exact congrArg some (opening _ free)
      | call callee operands =>
          exact congrArg some (opening _ free)
      | finish _ | reach _ _ | endless =>
          rfl
  | returning result =>
      cases pending with
      | nil =>
          rfl
      | cons waiting rest =>
          cases waiting <;> rfl

/-- Under a larger limit a run that is never refused passes through the same moments. -/
theorem Unrefused.reaches_iff
    (le : limit ≤ larger)
    {moment later : Moment}
    (unrefused : moment.Unrefused host limit) :
    Reaches host larger moment later ↔ Reaches host limit moment later := by
  constructor
  · intro reaches
    induction reaches with
    | refl =>
        exact .refl _
    | tail _ next inductionHypothesis =>
        rw [next?_raise le (unrefused _ inductionHypothesis)] at next
        exact inductionHypothesis.trans (.step next)
  · intro reaches
    induction reaches with
    | refl =>
        exact .refl _
    | tail reachesBetween next inductionHypothesis =>
        rw [← next?_raise le (unrefused _ reachesBetween)] at next
        exact inductionHypothesis.trans (.step next)

end Moment

namespace Machine

open Moment

/-- A script whose requests are served alike under both limits has the same run under both. -/
private theorem run_raise
    {fuel : Nat}
    (serves :
      ∀ request machine pending,
        Unrefused host limit ⟨.serving request, pending, machine⟩ →
        serve host larger fuel request machine = serve host limit fuel request machine)
    (script : Script Step)
    (pending : List Pending)
    {machine : Machine}
    (unrefused : Unrefused host limit (ofProgress pending (script.advance machine))) :
    script.run (serve host larger fuel) Run.done machine =
      script.run (serve host limit fuel) Run.done machine := by
  induction script generalizing machine with
  | done answer =>
      rfl
  | unwind reason =>
      rfl
  | viewing look next inductionHypothesis =>
      exact inductionHypothesis _ unrefused
  | acting action next inductionHypothesis =>
      exact inductionHypothesis _ unrefused
  | switching change next inductionHypothesis =>
      exact inductionHypothesis _ unrefused
  | deferring step next inductionHypothesis =>
      exact inductionHypothesis (.ok step) unrefused
  | asking request next inductionHypothesis =>
      simp only [Script.run]
      rw [serves request machine (.construct request next :: pending) unrefused]
      cases served : serve host limit fuel request machine with
      | none =>
          rfl
      | some outcome =>
          obtain ⟨answer, between⟩ := outcome
          have toAnswer := reaches_of_serve served (.construct request next :: pending)
          have goesOn :
              Reaches host limit
                ⟨.serving request, .construct request next :: pending, machine⟩
                (ofProgress pending ((next answer).advance between)) :=
            toAnswer.trans (.step rfl)
          exact inductionHypothesis answer (unrefused.reaching goesOn)

/--
With the same fuel a run that is never refused has the same outcome under a larger limit.  The
induction is on the fuel, as in `isServedByMoments`, which tells the moments between two requests.
-/
theorem serve_raise
    (le : limit ≤ larger)
    (fuel : Nat)
    {machine : Machine}
    {pending : List Pending}
    (unrefused : Unrefused host limit ⟨.serving request, pending, machine⟩) :
    serve host larger fuel request machine = serve host limit fuel request machine := by
  induction fuel generalizing request machine pending with
  | zero =>
      rfl
  | succ fuel inductionHypothesis =>
      have opened
          {step : Step}
          (free : ¬limit ≤ machine.depth)
          (next :
            Moment.next? host limit ⟨.serving request, pending, machine⟩ =
              some (ofOpening limit step pending machine)) :
          Run.nested larger (serve host larger fuel (.finish step)) machine =
            Run.nested limit (serve host limit fuel (.finish step)) machine := by
        have freeLarger : ¬larger ≤ machine.depth := by
          omega
        have inside := unrefused.reaching (.step next)
        rw [ofOpening_of_free free] at inside
        simp only [Run.nested, if_neg free, if_neg freeLarger, inductionHypothesis inside]
      cases request with
      | evaluate scope form =>
          exact opened (unrefused _ (.refl _)) rfl
      | call callee operands =>
          exact opened (unrefused _ (.refl _)) rfl
      | finish step =>
          simp only [serve]
          cases amounts : stepScript host step with
          | inl value =>
              rfl
          | inr script =>
              have inside := unrefused.reaching (.step (next?_of_script amounts pending machine))
              simp only
              rw [run_raise (fun _ _ _ => inductionHypothesis) script pending inside]
              cases ran : script.run (serve host limit fuel) Run.done machine with
              | none =>
                  rfl
              | some outcome =>
                  obtain ⟨ending, between⟩ := outcome
                  cases ending with
                  | error reason =>
                      rfl
                  | ok following =>
                      have scriptRuns :=
                        reaches_of_run (isServedByMoments host limit fuel) script pending ran
                      exact inductionHypothesis (inside.reaching scriptRuns)
      | reach _ _ | endless =>
          rfl

end Machine

/--
A run that is never refused a level has the same outcome under every larger limit, or none under
either: with whatever fuel, the same value, fault or escape, and the same machine.  It passes
through the same moments, and none of them is refused under the larger limit.
-/
theorem raising_the_limit_changes_no_run
    (le : limit ≤ larger)
    {machine : Machine}
    (unrefused : Moment.Unrefused host limit ⟨.serving request, [], machine⟩) :
    (∀ fuel : Nat,
      Machine.serve host larger fuel request machine =
        Machine.serve host limit fuel request machine) ∧
    (∀ later : Moment,
      Moment.Reaches host larger ⟨.serving request, [], machine⟩ later ↔
        Moment.Reaches host limit ⟨.serving request, [], machine⟩ later) ∧
    Moment.Unrefused host larger ⟨.serving request, [], machine⟩ := by
  refine ⟨fun fuel => Machine.serve_raise le fuel unrefused, fun _ => unrefused.reaches_iff le, ?_⟩
  intro later reaches refused
  exact unrefused later ((unrefused.reaches_iff le).mp reaches) (refused.lower le)

/-- A wind whose middle procedure opens a third level for each operand of a sum. -/
def windOnThreeLevels : Moment :=
  .beginning
    [("dynamic-wind", .special .wind),
      ("lambda", .special .procedure),
      ("+", .primitive (.arithmetic .add))]
    "(dynamic-wind (lambda () 1) (lambda () (+ 1 2)) (lambda () 4))"

/-- The run has ended with an integer. -/
def endsWithInteger (number : Int64) : Option (Except Unwind Value × Machine) → Bool
  | some (.ok (.integer value), _) => value == number
  | _ => false

/-- Three levels are enough for the wind and its sum, and a larger limit makes no difference. -/
theorem wind_on_three_levels_is_kept :
    ∃ request machine,
      windOnThreeLevels = ⟨.serving request, [], machine⟩ ∧
        Moment.Unrefused Host.absent 3 ⟨.serving request, [], machine⟩ ∧
        endsWithInteger 3 (Machine.serve Host.absent 3 20 request machine) ∧
        ¬endsWithInteger 3 (Machine.serve Host.absent 2 20 request machine) ∧
        ∀ larger ≥ 3,
          Machine.serve Host.absent larger 20 request machine =
            Machine.serve Host.absent 3 20 request machine := by
  have shape :
      windOnThreeLevels.activity.request?.any fun request =>
        windOnThreeLevels.endsPassing Host.absent 3 (fun moment => ¬moment.Refused 3) 100 &&
          endsWithInteger 3 (Machine.serve Host.absent 3 20 request windOnThreeLevels.machine) &&
          !endsWithInteger 3 (Machine.serve Host.absent 2 20 request
              windOnThreeLevels.machine) := by
    decide +kernel
  obtain ⟨request, machine, _, _, begins⟩ : ∃ request machine,
      request.IsNested ∧
        machine.Idle ∧
        windOnThreeLevels = ⟨.serving request, [], machine⟩ :=
    Moment.beginning_eq _ _
  rw [begins] at shape
  simp only [Activity.request?, Option.any_some, Bool.and_eq_true, Bool.not_eq_true'] at shape
  obtain ⟨⟨ends, three⟩, two⟩ := shape
  have unrefused := Moment.unrefused_of_endsPassing ends
  refine ⟨request, machine, begins, unrefused, three, by simp [two], fun larger le => ?_⟩
  exact (raising_the_limit_changes_no_run le unrefused).1 20

end SmallScheme
