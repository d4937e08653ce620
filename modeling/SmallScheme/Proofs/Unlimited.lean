import SmallScheme.Evaluation.Direct
import SmallScheme.Proofs.Moment.Basic

namespace SmallScheme

/-!
# Evaluation without a limit

An evaluation without a limit takes no notice of how many levels are open, and once it has an
outcome, more fuel gives the same one.  Where there is room for as many levels as there is fuel, the
machine does not come to its limit and has the very outcome of the evaluation without one, provided
that nothing disturbs its run: every scope of a macro is still there where it is needed, and no text
without an end has to be written.
-/

variable
  {tails : Tails}
  {serving others : Request → Run Value}

/-! How each request of a script is concluded. -/

namespace Script

/-- After a request has been served, the rest of the script is concluded. -/
theorem conclude_asking
    (request : Request)
    (next : Except Unwind Value → Script Step)
    (machine : Machine) :
    (asking request next).conclude tails serving machine =
      match serving request machine with
      | none => none
      | some (result, machine) => (next result).conclude tails serving machine := by
  cases served : serving request machine <;> simp [conclude, run, served]

/-- A deferred step is handed back to the script. -/
theorem conclude_deferred
    (step : Step)
    (next : Except Unwind Step → Script Step)
    (machine : Machine) :
    (deferring step next).conclude .deferred serving machine =
      (next (.ok step)).conclude .deferred serving machine :=
  rfl

/-- A step in place is finished before the script goes on with its value. -/
theorem conclude_inPlace
    (step : Step)
    (next : Except Unwind Step → Script Step)
    (machine : Machine) :
    (deferring step next).conclude .inPlace serving machine =
      match serving (.finish step) machine with
      | none => none
      | some (result, machine) => (next (result.map .value)).conclude .inPlace serving machine := by
  cases served : serving (.finish step) machine <;> simp [conclude, run, Tails.handOver, served]

/-- What concludes still does when more requests are served. -/
theorem conclude_mono
    (extended :
      ∀ request machine outcome,
        serving request machine = some outcome →
        others request machine = some outcome)
    (script : Script Step)
    {machine : Machine}
    {outcome : Except Unwind Value × Machine}
    (concluded : script.conclude tails serving machine = some outcome) :
    script.conclude tails others machine = some outcome := by
  induction script generalizing machine with
  | done step =>
      exact extended _ _ _ concluded
  | unwind reason =>
      exact concluded
  | viewing look next inductionHypothesis =>
      exact inductionHypothesis _ concluded
  | acting action next inductionHypothesis =>
      exact inductionHypothesis _ concluded
  | switching change next inductionHypothesis =>
      exact inductionHypothesis _ concluded
  | asking request next inductionHypothesis =>
      rw [conclude_asking] at concluded ⊢
      cases served : serving request machine with
      | none =>
          simp [served] at concluded
      | some answer =>
          rw [served] at concluded
          rw [extended _ _ _ served]
          exact inductionHypothesis _ concluded
  | deferring step next inductionHypothesis =>
      cases tails with
      | deferred =>
          exact inductionHypothesis _ concluded
      | inPlace =>
          rw [conclude_inPlace] at concluded ⊢
          cases served : serving (.finish step) machine with
          | none =>
              simp [served] at concluded
          | some answer =>
              rw [served] at concluded
              rw [extended _ _ _ served]
              exact inductionHypothesis _ concluded

end Script

/-- The machine with another number of open levels. -/
def Machine.atDepth (depth : Nat) (machine : Machine) : Machine :=
  { machine with depth := depth }

@[simp]
theorem Machine.atDepth_depth
    (machine : Machine) :
    machine.atDepth machine.depth = machine :=
  rfl

/-- An outcome with another number of open levels. -/
def Run.atDepth (depth : Nat) :
    Option (Except Unwind Value × Machine) → Option (Except Unwind Value × Machine) :=
  Option.map fun outcome => (outcome.1, outcome.2.atDepth depth)

/-- Requests are served whatever the number of open levels, and that number stays as it is. -/
def IgnoresDepth (serving : Request → Run Value) : Prop :=
  ∀ request machine depth,
    serving request (machine.atDepth depth) = Run.atDepth depth (serving request machine)

/-- What ignores the open levels leaves as many of them. -/
theorem IgnoresDepth.depth_eq
    (ignores : IgnoresDepth serving)
    {request : Request}
    {machine last : Machine}
    {result : Except Unwind Value}
    (served : serving request machine = some (result, last)) :
    last.depth = machine.depth := by
  have same := ignores request machine machine.depth
  rw [Machine.atDepth_depth, served] at same
  exact congrArg (fun outcome => outcome.2.depth) (Option.some.inj same)

namespace Script

/-- A script does not look at the open levels. -/
theorem conclude_ignoresDepth
    (ignores : IgnoresDepth serving)
    (script : Script Step)
    (machine : Machine)
    (depth : Nat) :
    script.conclude tails serving (machine.atDepth depth) =
      Run.atDepth depth (script.conclude tails serving machine) := by
  induction script generalizing machine with
  | done step =>
      exact ignores _ _ _
  | unwind reason =>
      rfl
  | viewing look next inductionHypothesis =>
      exact inductionHypothesis _ machine
  | acting action next inductionHypothesis =>
      exact inductionHypothesis _ { machine with store := (action machine.store).2 }
  | switching change next inductionHypothesis =>
      exact inductionHypothesis _ { machine with context := (change machine.context).2 }
  | asking request next inductionHypothesis =>
      rw [conclude_asking, conclude_asking, ignores]
      cases serving request machine with
      | none =>
          rfl
      | some outcome =>
          exact inductionHypothesis _ outcome.2
  | deferring step next inductionHypothesis =>
      cases tails with
      | deferred =>
          exact inductionHypothesis _ machine
      | inPlace =>
          rw [conclude_inPlace, conclude_inPlace, ignores]
          cases serving (.finish step) machine with
          | none =>
              rfl
          | some outcome =>
              exact inductionHypothesis _ outcome.2

end Script

namespace Machine

variable
  {host : Host}
  {limit fuel more : Nat}
  {request : Request}
  {machine : Machine}
  {outcome : Except Unwind Value × Machine}

/-- More fuel gives the same outcome. -/
theorem unlimited_mono
    (le : fuel ≤ more)
    (served : unlimited host tails fuel request machine = some outcome) :
    unlimited host tails more request machine = some outcome := by
  induction fuel generalizing more request machine outcome with
  | zero =>
      cases served
  | succ fuel inductionHypothesis =>
      obtain ⟨more, rfl⟩ : ∃ less, more = less + 1 := ⟨more - 1, by omega⟩
      have leLess : fuel ≤ more := by omega
      cases request with
      | evaluate scope form =>
          change unlimited host tails more (.finish (.tail scope form)) machine = some outcome
          exact inductionHypothesis leLess served
      | call callee operands =>
          change unlimited host tails more (.finish (.apply callee operands)) machine = some outcome
          exact inductionHypothesis leLess served
      | finish step =>
          simp only [unlimited] at served ⊢
          cases amounts : stepScript host step with
          | inl value =>
              rw [amounts] at served
              exact served
          | inr script =>
              rw [amounts] at served
              refine script.conclude_mono ?_ served
              intro request machine outcome
              exact inductionHypothesis leLess
      | reach scope home =>
          exact served
      | endless =>
          exact served

theorem unlimited_ignoresDepth
    (host : Host)
    (tails : Tails)
    (fuel : Nat) :
    IgnoresDepth (unlimited host tails fuel) := by
  induction fuel with
  | zero =>
      intro request machine depth
      rfl
  | succ fuel inductionHypothesis =>
      intro request machine depth
      cases request with
      | evaluate scope form =>
          exact inductionHypothesis _ machine depth
      | call callee operands =>
          exact inductionHypothesis _ machine depth
      | finish step =>
          simp only [unlimited]
          cases stepScript host step with
          | inl value =>
              rfl
          | inr script =>
              exact script.conclude_ignoresDepth inductionHypothesis machine depth
      | reach scope home =>
          rfl
      | endless =>
          rfl

/-- The machine concludes a script with its tail position deferred. -/
theorem serve_finish
    (step : Step) :
    serve host limit (fuel + 1) (.finish step) machine =
      match stepScript host step with
      | .inl value => Run.done value machine
      | .inr script => script.conclude .deferred (serve host limit fuel) machine :=
  rfl

end Machine

/-! The runs that nothing disturbs. -/

namespace Moment

/-- The scope of a macro is needed in a scope, and it is gone. -/
def misses (host : Host) (moment : Moment) : Bool :=
  match moment.activity with
  | .serving (.reach scope home) => !moment.machine.holds host scope home
  | _ => false

/-- A text without an end is being written. -/
def IsEndless (moment : Moment) : Prop :=
  moment.activity = .serving .endless

/-- From the moment on every scope of a macro is still there where it is needed. -/
def KeepsHomes (host : Host) (limit : Nat) (moment : Moment) : Prop :=
  ∀ later, Reaches host limit moment later → later.misses host = false

/-- Besides, no text without an end has to be written. -/
structure Undisturbed (host : Host) (limit : Nat) (moment : Moment) : Prop where
  keepsHomes : moment.KeepsHomes host limit
  ends : ∀ later, Reaches host limit moment later → ¬later.IsEndless

theorem Undisturbed.reaching
    {host : Host}
    {limit : Nat}
    {moment later : Moment}
    (undisturbed : moment.Undisturbed host limit)
    (reaches : Reaches host limit moment later) :
    later.Undisturbed host limit where
  keepsHomes last fromLater := undisturbed.keepsHomes last (reaches.trans fromLater)
  ends last fromLater := undisturbed.ends last (reaches.trans fromLater)

/-- The run that has been followed to its end keeps the scopes of macros as it needs them. -/
theorem keepsHomes_of_endsPassing
    {host : Host}
    {limit count : Nat}
    {moment : Moment}
    (ends : moment.endsPassing host limit (fun moment => !moment.misses host) count) :
    moment.KeepsHomes host limit :=
  fun _ reaches => (Bool.not_eq_true' _).mp (passes_of_reaches ends reaches)

/-- Who writes a text without an end is never done with it. -/
theorem IsEndless.eq_of_reaches
    {host : Host}
    {limit : Nat}
    {moment later : Moment}
    (isEndless : moment.IsEndless)
    (reaches : Reaches host limit moment later) :
    later = moment := by
  induction reaches with
  | refl =>
      rfl
  | tail _ next inductionHypothesis =>
      rw [inductionHypothesis] at next
      have same : moment.next? host limit = some moment := by
        obtain ⟨activity, pending, machine⟩ := moment
        obtain rfl : activity = .serving .endless := isEndless
        rfl
      exact Option.some.inj (next.symm.trans same)

/-- In a run that comes to an end no text without an end is written. -/
theorem not_isEndless_of_serve
    {host : Host}
    {limit fuel : Nat}
    {request : Request}
    {machine last : Machine}
    {result : Except Unwind Value}
    (served : Machine.serve host limit fuel request machine = some (result, last))
    {later : Moment}
    (reaches : Reaches host limit ⟨.serving request, [], machine⟩ later) :
    ¬later.IsEndless := by
  intro isEndless
  have unique : Relator.RightUnique fun moment later : Moment =>
      moment.next? host limit = some later :=
    fun _ _ _ first second => Option.some.inj (first.symm.trans second)
  have ends := Machine.reaches_of_serve served []
  rcases Relation.ReflTransGen.total_of_right_unique unique ends reaches with onward | back
  · cases Relation.ReflTransGen.cases_head onward with
    | inl same =>
        subst same
        cases isEndless
    | inr further =>
        obtain ⟨_, next, _⟩ := further
        cases next
  · rw [← isEndless.eq_of_reaches back] at isEndless
    cases isEndless

end Moment

namespace Machine

open Moment

variable
  {host : Host}
  {limit fuel : Nat}

/-- A script in an undisturbed run concludes as it does without a limit. -/
private theorem conclude_eq_unlimited
    (serves :
      ∀ {request : Request} {machine : Machine} {pending : List Pending},
        machine.depth + fuel ≤ limit →
        Undisturbed host limit ⟨.serving request, pending, machine⟩ →
        serve host limit fuel request machine = unlimited host .deferred fuel request machine)
    (script : Script Step)
    {machine : Machine}
    {pending : List Pending}
    (room : machine.depth + fuel ≤ limit)
    (undisturbed : Undisturbed host limit (ofProgress pending (script.advance machine))) :
    script.conclude .deferred (serve host limit fuel) machine =
      script.conclude .deferred (unlimited host .deferred fuel) machine := by
  induction script generalizing machine with
  | done step =>
      exact serves room undisturbed
  | unwind reason =>
      rfl
  | viewing look next inductionHypothesis =>
      exact inductionHypothesis _ room undisturbed
  | acting action next inductionHypothesis =>
      exact inductionHypothesis _ room undisturbed
  | switching change next inductionHypothesis =>
      exact inductionHypothesis _ room undisturbed
  | asking request next inductionHypothesis =>
      have served := serves room undisturbed
      rw [Script.conclude_asking, Script.conclude_asking, served]
      cases answered : unlimited host .deferred fuel request machine with
      | none =>
          rfl
      | some outcome =>
          obtain ⟨answer, between⟩ := outcome
          have same : between.depth = machine.depth :=
            (unlimited_ignoresDepth host .deferred fuel).depth_eq answered
          have toAnswer :=
            reaches_of_serve (served.trans answered) (.construct request next :: pending)
          have goesOn :
              Reaches host limit
                ⟨.serving request, .construct request next :: pending, machine⟩
                (ofProgress pending ((next answer).advance between)) :=
            toAnswer.trans (.step rfl)
          exact inductionHypothesis answer (same.symm ▸ room) (undisturbed.reaching goesOn)
  | deferring step next inductionHypothesis =>
      exact inductionHypothesis (.ok step) room undisturbed

/--
Where there is room for as many levels as there is fuel, no level is refused: a run that nothing
disturbs has the outcome that there is without a limit.  The induction is on the fuel, and each
level that is opened takes one unit of the room and one of the fuel.
-/
theorem serve_eq_unlimited
    {request : Request}
    {machine : Machine}
    {pending : List Pending}
    (room : machine.depth + fuel ≤ limit)
    (undisturbed : Undisturbed host limit ⟨.serving request, pending, machine⟩) :
    serve host limit fuel request machine = unlimited host .deferred fuel request machine := by
  induction fuel generalizing request machine pending with
  | zero =>
      rfl
  | succ fuel inductionHypothesis =>
      have ignores := unlimited_ignoresDepth host .deferred fuel
      have opened
          {step : Step}
          (next :
            Moment.next? host limit ⟨.serving request, pending, machine⟩ =
              some (ofOpening limit step pending machine)) :
          Run.nested limit (serve host limit fuel (.finish step)) machine =
            unlimited host .deferred fuel (.finish step) machine := by
        have free : ¬limit ≤ machine.depth := by omega
        have roomInside : (machine.atDepth (machine.depth + 1)).depth + fuel ≤ limit := by
          change machine.depth + 1 + fuel ≤ limit
          omega
        have undisturbedInside := undisturbed.reaching (.step next)
        rw [ofOpening_of_free free] at undisturbedInside
        have inside :
            serve host limit fuel (.finish step) { machine with depth := machine.depth + 1 } =
              Run.atDepth (machine.depth + 1)
                (unlimited host .deferred fuel (.finish step) machine) :=
          (inductionHypothesis roomInside undisturbedInside).trans (ignores _ machine _)
        simp only [Run.nested, if_neg free, inside]
        cases served : unlimited host .deferred fuel (.finish step) machine with
        | none =>
            rfl
        | some outcome =>
            have same : outcome.2.depth = machine.depth := ignores.depth_eq served
            have closed : outcome.2.atDepth (machine.depth + 1 - 1) = outcome.2 := by
              rw [Nat.add_sub_cancel, ← same]
              exact outcome.2.atDepth_depth
            exact congrArg (fun last => some (outcome.1, last)) closed
      cases request with
      | evaluate scope form =>
          exact opened rfl
      | call callee operands =>
          exact opened rfl
      | finish step =>
          rw [serve_finish]
          simp only [unlimited]
          cases amounts : stepScript host step with
          | inl value =>
              rfl
          | inr script =>
              have inside := undisturbed.reaching (.step (next?_of_script amounts pending machine))
              have roomInside : machine.depth + fuel ≤ limit := by omega
              exact conclude_eq_unlimited inductionHypothesis script roomInside inside
      | reach scope home =>
          have isThere : machine.holds host scope home = true :=
            (Bool.not_eq_false' _).mp (undisturbed.keepsHomes _ (.refl _))
          simp only [serve, unlimited, isThere]
      | endless =>
          exact (undisturbed.ends _ (.refl _) rfl).elim

end Machine

end SmallScheme
