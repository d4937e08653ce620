import Mathlib.Logic.Relation
import SmallScheme.Evaluation.Machine

namespace SmallScheme

/-!
# The moments of a run

A run carries out one construct inside another.  Here the constructs that wait for an inner one are
made explicit: a moment consists of what is going on, of all that waits for it, and of the machine.
The moments of a run follow each other by a function, so a run that never ends has moments as well,
and the machine's own way of serving a request passes through the same ones.
-/

/-- How far a script comes by itself: to its end or to its first request. -/
inductive Progress (Answer : Type) : Type 1
  | ended (result : Except Unwind Answer) (machine : Machine)
  | asked
      (request : Request)
      (next : Except Unwind Value → Script Answer)
      (machine : Machine)

/-- Carry out a script as far as it comes by itself. -/
def Script.advance {Answer : Type} : Script Answer → Machine → Progress Answer
  | .done answer, machine => .ended (.ok answer) machine
  | .unwind reason, machine => .ended (.error reason) machine
  | .viewing look next, machine => (next (look machine.store)).advance machine
  | .acting action next, ⟨store, context, depth⟩ =>
      let (result, store) := action store
      (next result).advance ⟨store, context, depth⟩
  | .switching change next, ⟨store, context, depth⟩ =>
      let (result, context) := change context
      (next result).advance ⟨store, context, depth⟩
  | .asking request next, machine => .asked request next machine
  | .deferring step next, machine => (next (.ok step)).advance machine

/-- What waits for something else to end. -/
inductive Pending : Type 1
  /-- A level of nesting, which has to be closed. -/
  | level
  /-- A construct that goes on when its request has been served. -/
  | construct (request : Request) (next : Except Unwind Value → Script Step)

/-- What is going on at a moment. -/
inductive Activity
  /-- A request is about to be served. -/
  | serving (request : Request)
  /-- A request has been served. -/
  | returning (result : Except Unwind Value)

namespace Activity

def request? : Activity → Option Request
  | .serving request => some request
  | .returning _ => none

def value? : Activity → Option Value
  | .returning (.ok value) => some value
  | _ => none

def reason? : Activity → Option Unwind
  | .returning (.error reason) => some reason
  | _ => none

theorem eq_of_request?
    {activity : Activity}
    {request : Request}
    (given : activity.request? = some request) :
    activity = .serving request := by
  cases activity with
  | serving other =>
      rw [Option.some.inj given]
  | returning result =>
      cases given

theorem eq_of_value?
    {activity : Activity}
    {value : Value}
    (given : activity.value? = some value) :
    activity = .returning (.ok value) := by
  cases activity with
  | serving request =>
      cases given
  | returning result =>
      cases result with
      | ok other =>
          rw [Option.some.inj given]
      | error reason =>
          cases given

theorem eq_of_reason?
    {activity : Activity}
    {reason : Unwind}
    (given : activity.reason? = some reason) :
    activity = .returning (.error reason) := by
  cases activity with
  | serving request =>
      cases given
  | returning result =>
      cases result with
      | ok value =>
          cases given
      | error other =>
          rw [Option.some.inj given]

end Activity

/-- A moment of a run; what waits is listed innermost first. -/
structure Moment : Type 1 where
  activity : Activity
  pending : List Pending
  machine : Machine

namespace Moment

/-- The moment at which a script has come as far as it can. -/
def ofProgress (pending : List Pending) : Progress Step → Moment
  | .ended (.ok step) machine => ⟨.serving (.finish step), pending, machine⟩
  | .ended (.error reason) machine => ⟨.returning (.error reason), pending, machine⟩
  | .asked request next machine =>
      ⟨.serving request, .construct request next :: pending, machine⟩

/-- The moment at which a level has been opened for a step, or refused. -/
def ofOpening
    (limit : Nat)
    (step : Step)
    (pending : List Pending)
    (machine : Machine) : Moment :=
  if limit ≤ machine.depth then
    ⟨.returning (.error (.fault (.evaluation (.depthLimit limit)))), pending, machine⟩
  else
    ⟨.serving (.finish step), .level :: pending, { machine with depth := machine.depth + 1 }⟩

/-- The next moment, unless the run is over.  While a text without an end is written, all stays. -/
def next? (host : Host) (limit : Nat) : Moment → Option Moment
  | ⟨.serving (.evaluate scope form), pending, machine⟩ =>
      some (ofOpening limit (.tail scope form) pending machine)
  | ⟨.serving (.call callee operands), pending, machine⟩ =>
      some (ofOpening limit (.apply callee operands) pending machine)
  | ⟨.serving (.finish step), pending, machine⟩ =>
      match Machine.stepScript host step with
      | .inl value => some ⟨.returning (.ok value), pending, machine⟩
      | .inr script => some (ofProgress pending (script.advance machine))
  | ⟨.serving (.reach scope home), pending, machine⟩ =>
      some ⟨.returning (.ok (.boolean (machine.holds host scope home))), pending, machine⟩
  | ⟨.serving .endless, pending, machine⟩ => some ⟨.serving .endless, pending, machine⟩
  | ⟨.returning result, .level :: pending, machine⟩ =>
      some ⟨.returning result, pending, { machine with depth := machine.depth - 1 }⟩
  | ⟨.returning result, .construct _ next :: pending, machine⟩ =>
      some (ofProgress pending ((next result).advance machine))
  | ⟨.returning _, [], _⟩ => none

/-- The ways in which one moment comes right after another. -/
inductive Steps (host : Host) (limit : Nat) : Moment → Moment → Prop
  | evaluating {scope : Scope} {form : Value} {pending : List Pending} {machine : Machine} :
      Steps host limit
        ⟨.serving (.evaluate scope form), pending, machine⟩
        (ofOpening limit (.tail scope form) pending machine)
  | calling {callee : Value} {operands : List Value} {pending : List Pending} {machine : Machine} :
      Steps host limit
        ⟨.serving (.call callee operands), pending, machine⟩
        (ofOpening limit (.apply callee operands) pending machine)
  | finishing {step : Step} {value : Value} {pending : List Pending} {machine : Machine} :
      Machine.stepScript host step = .inl value →
      Steps host limit
        ⟨.serving (.finish step), pending, machine⟩
        ⟨.returning (.ok value), pending, machine⟩
  /-- The script of a step has begun and has come as far as it can. -/
  | beginning {step : Step} {script : Script Step} {pending : List Pending} {machine : Machine} :
      Machine.stepScript host step = .inr script →
      Steps host limit
        ⟨.serving (.finish step), pending, machine⟩
        (ofProgress pending (script.advance machine))
  | reaching {scope home : Scope} {pending : List Pending} {machine : Machine} :
      Steps host limit
        ⟨.serving (.reach scope home), pending, machine⟩
        ⟨.returning (.ok (.boolean (machine.holds host scope home))), pending, machine⟩
  /-- A text without an end is being written. -/
  | waiting {pending : List Pending} {machine : Machine} :
      Steps host limit
        ⟨.serving .endless, pending, machine⟩
        ⟨.serving .endless, pending, machine⟩
  | closing {result : Except Unwind Value} {pending : List Pending} {machine : Machine} :
      Steps host limit
        ⟨.returning result, .level :: pending, machine⟩
        ⟨.returning result, pending, { machine with depth := machine.depth - 1 }⟩
  /-- A construct has gone on and has come as far as it can. -/
  | resuming
      {result : Except Unwind Value}
      {request : Request}
      {next : Except Unwind Value → Script Step}
      {pending : List Pending}
      {machine : Machine} :
      Steps host limit
        ⟨.returning result, .construct request next :: pending, machine⟩
        (ofProgress pending ((next result).advance machine))

/-- The moment that comes so many moments later, unless the run is over by then. -/
def after? (host : Host) (limit : Nat) : Nat → Moment → Option Moment
  | 0, moment => some moment
  | count + 1, moment =>
      match moment.next? host limit with
      | none => none
      | some next => after? host limit count next

/-- A moment of a run comes at another one or after it. -/
def Reaches (host : Host) (limit : Nat) : Moment → Moment → Prop :=
  Relation.ReflTransGen fun moment later => moment.next? host limit = some later

/-- The run is over within so many moments, and all of them pass the test. -/
def endsPassing (host : Host) (limit : Nat) (test : Moment → Bool) : Nat → Moment → Bool
  | 0, _ => false
  | count + 1, moment =>
      test moment &&
        match moment.next? host limit with
        | none => true
        | some next => endsPassing host limit test count next

variable
  {host : Host}
  {limit : Nat}

/-- What a run that was followed to its end comes at passes the test. -/
theorem passes_of_reaches
    {test : Moment → Bool}
    {count : Nat}
    {moment later : Moment}
    (ends : moment.endsPassing host limit test count)
    (reaches : Reaches host limit moment later) :
    test later := by
  induction count generalizing moment with
  | zero =>
      cases ends
  | succ count inductionHypothesis =>
      obtain ⟨here, onward⟩ := Bool.and_eq_true_iff.mp ends
      cases Relation.ReflTransGen.cases_head reaches with
      | inl same =>
          exact same ▸ here
      | inr further =>
          obtain ⟨second, next, fromSecond⟩ := further
          rw [next] at onward
          exact inductionHypothesis onward fromSecond

theorem next?_of_opens?
    {request : Request}
    {step : Step}
    (opens : request.opens? = some step)
    (pending : List Pending)
    (machine : Machine) :
    (⟨.serving request, pending, machine⟩ : Moment).next? host limit =
      some (ofOpening limit step pending machine) := by
  cases request <;> cases opens <;> rfl

theorem ofOpening_of_free
    {machine : Machine}
    (free : ¬limit ≤ machine.depth)
    (step : Step)
    (pending : List Pending) :
    ofOpening limit step pending machine =
      ⟨.serving (.finish step), .level :: pending, { machine with depth := machine.depth + 1 }⟩ :=
  if_neg free

theorem next?_of_value
    {step : Step}
    {value : Value}
    (amounts : Machine.stepScript host step = .inl value)
    (pending : List Pending)
    (machine : Machine) :
    (⟨.serving (.finish step), pending, machine⟩ : Moment).next? host limit =
      some ⟨.returning (.ok value), pending, machine⟩ := by
  simp only [next?, amounts]

theorem next?_of_script
    {step : Step}
    {script : Script Step}
    (amounts : Machine.stepScript host step = .inr script)
    (pending : List Pending)
    (machine : Machine) :
    (⟨.serving (.finish step), pending, machine⟩ : Moment).next? host limit =
      some (ofProgress pending (script.advance machine)) := by
  simp only [next?, amounts]

/-- Where one moment comes right after another, it does so in one of these ways. -/
theorem steps_of_next?
    {moment later : Moment}
    (follows : moment.next? host limit = some later) :
    moment.Steps host limit later := by
  obtain ⟨activity, pending, machine⟩ := moment
  cases activity with
  | serving request =>
      cases request with
      | evaluate scope form =>
          obtain rfl := Option.some.inj follows
          exact .evaluating
      | call callee operands =>
          obtain rfl := Option.some.inj follows
          exact .calling
      | finish step =>
          cases amounts : Machine.stepScript host step with
          | inl value =>
              obtain rfl := Option.some.inj ((next?_of_value amounts _ _).symm.trans follows)
              exact .finishing amounts
          | inr script =>
              obtain rfl := Option.some.inj ((next?_of_script amounts _ _).symm.trans follows)
              exact .beginning amounts
      | reach scope home =>
          obtain rfl := Option.some.inj follows
          exact .reaching
      | endless =>
          obtain rfl := Option.some.inj follows
          exact .waiting
  | returning result =>
      cases pending with
      | nil =>
          cases follows
      | cons waiting rest =>
          cases waiting with
          | level =>
              obtain rfl := Option.some.inj follows
              exact .closing
          | construct request next =>
              obtain rfl := Option.some.inj follows
              exact .resuming

namespace Reaches

theorem refl
    (moment : Moment) :
    Reaches host limit moment moment :=
  Relation.ReflTransGen.refl

theorem trans
    {first second third : Moment}
    (earlier : Reaches host limit first second)
    (later : Reaches host limit second third) :
    Reaches host limit first third :=
  Relation.ReflTransGen.trans earlier later

theorem step
    {first second : Moment}
    (next : first.next? host limit = some second) :
    Reaches host limit first second :=
  Relation.ReflTransGen.single next

theorem head
    {first second third : Moment}
    (next : first.next? host limit = some second)
    (later : Reaches host limit second third) :
    Reaches host limit first third :=
  Relation.ReflTransGen.head next later

/-- Counting on reaches later moments. -/
theorem of_after?
    {count : Nat}
    {first last : Moment}
    (counted : first.after? host limit count = some last) :
    Reaches host limit first last := by
  induction count generalizing first with
  | zero =>
      obtain rfl := Option.some.inj counted
      exact .refl _
  | succ count inductionHypothesis =>
      simp only [after?] at counted
      cases next : first.next? host limit with
      | none =>
          simp [next] at counted
      | some second =>
          rw [next] at counted
          exact .head next (inductionHypothesis counted)

end Reaches

end Moment

namespace Moment

@[simp]
theorem ofProgress_ended_machine
    (pending : List Pending)
    (result : Except Unwind Step)
    (machine : Machine) :
    (ofProgress pending (.ended result machine)).machine = machine := by
  cases result <;> rfl

end Moment

namespace Script

variable {Answer : Type}

/-- Acting on the store changes nothing else of the machine. -/
theorem advance_acting
    {Result : Type}
    (action : StoreM Result)
    (next : Except Fault Result → Script Answer)
    (machine : Machine) :
    (Script.acting action next).advance machine =
      (next (action machine.store).1).advance
        { machine with store := (action machine.store).2 } :=
  rfl

/-- What follows a script that is watched goes on with its end. -/
theorem advance_attempt_bind
    {Second : Type}
    {script : Script Answer}
    {machine last : Machine}
    {result : Except Unwind Answer}
    (ended : script.advance machine = .ended result last)
    (rest : Except Unwind Answer → Script Second) :
    (script.attempt.bind rest).advance machine = (rest result).advance last := by
  induction script generalizing machine with
  | done answer =>
      cases ended
      rfl
  | unwind reason =>
      cases ended
      rfl
  | viewing look next inductionHypothesis =>
      exact inductionHypothesis _ ended
  | acting action next inductionHypothesis =>
      exact inductionHypothesis _ ended
  | switching change next inductionHypothesis =>
      exact inductionHypothesis _ ended
  | asking request next =>
      cases ended
  | deferring step next inductionHypothesis =>
      exact inductionHypothesis (.ok step) ended

/--
Running a script amounts to advancing it to its first request, serving that, and running the rest.
-/
theorem run_eq_advance
    (serve : Request → Run Value)
    (script : Script Answer)
    (machine : Machine) :
    script.run serve Run.done machine =
      match script.advance machine with
      | .ended result machine => some (result, machine)
      | .asked request next machine =>
          match serve request machine with
          | none => none
          | some (result, machine) => (next result).run serve Run.done machine := by
  induction script generalizing machine with
  | done answer =>
      rfl
  | unwind reason =>
      rfl
  | viewing look next inductionHypothesis =>
      exact inductionHypothesis _ machine
  | acting action next inductionHypothesis =>
      exact inductionHypothesis _ _
  | switching change next inductionHypothesis =>
      exact inductionHypothesis _ _
  | asking request next =>
      cases served : serve request machine <;> simp [run, advance, served]
  | deferring step next inductionHypothesis =>
      exact inductionHypothesis (.ok step) machine

end Script

namespace Machine

open Moment

variable
  {host : Host}
  {limit : Nat}

/-- Whatever is served this way, a run passes from the request to the result. -/
def IsServedByMoments (host : Host) (limit : Nat) (serve : Request → Run Value) : Prop :=
  ∀ {request : Request} {machine last : Machine} {result : Except Unwind Value}
    (pending : List Pending),
    serve request machine = some (result, last) →
    Reaches host limit
      ⟨.serving request, pending, machine⟩
      ⟨.returning result, pending, last⟩

/-- A served script passes through the moments from its first request to its end. -/
theorem reaches_of_run
    {serve : Request → Run Value}
    (serves : IsServedByMoments host limit serve)
    (script : Script Step)
    {machine last : Machine}
    {result : Except Unwind Step}
    (pending : List Pending)
    (ran : script.run serve Run.done machine = some (result, last)) :
    Reaches host limit
      (ofProgress pending (script.advance machine))
      (ofProgress pending (.ended result last)) := by
  induction script generalizing machine with
  | done answer =>
      obtain ⟨rfl, rfl⟩ := Prod.mk.inj (Option.some.inj ran)
      exact .refl _
  | unwind reason =>
      obtain ⟨rfl, rfl⟩ := Prod.mk.inj (Option.some.inj ran)
      exact .refl _
  | viewing look next inductionHypothesis =>
      exact inductionHypothesis _ ran
  | acting action next inductionHypothesis =>
      exact inductionHypothesis _ ran
  | switching change next inductionHypothesis =>
      exact inductionHypothesis _ ran
  | deferring step next inductionHypothesis =>
      exact inductionHypothesis (.ok step) ran
  | asking request next inductionHypothesis =>
      rw [Script.run_eq_advance] at ran
      simp only [Script.advance] at ran ⊢
      cases served : serve request machine with
      | none =>
          simp [served] at ran
      | some outcome =>
          obtain ⟨answer, between⟩ := outcome
          rw [served] at ran
          have toAnswer := serves (.construct request next :: pending) served
          refine toAnswer.trans (.head ?_ (inductionHypothesis answer ran))
          rfl

/--
The machine serves every request by passing through the moments of a run, whatever else is waiting.
The induction is on the fuel, which every script that is begun and every level that is opened uses
up by one.
-/
theorem isServedByMoments
    (host : Host)
    (limit fuel : Nat) :
    IsServedByMoments host limit (serve host limit fuel) := by
  induction fuel with
  | zero =>
      intro request machine last result pending served
      cases served
  | succ fuel inductionHypothesis =>
      intro request machine last result pending served
      cases serving_of_serve served with
      | refused opens full =>
          refine .step ((next?_of_opens? opens pending machine).trans ?_)
          rw [ofOpening, if_pos full]
      | nested opens free inside =>
          refine .head (next?_of_opens? opens pending machine) ?_
          rw [ofOpening_of_free free]
          exact (inductionHypothesis (.level :: pending) inside).trans (.step rfl)
      | value amounts =>
          exact .step (next?_of_value amounts pending machine)
      | reached =>
          exact .step rfl
      | unwound amounts ran =>
          have scriptRuns := reaches_of_run inductionHypothesis _ pending ran
          exact .head (next?_of_script amounts pending machine) scriptRuns
      | followed amounts ran following =>
          have scriptRuns := reaches_of_run inductionHypothesis _ pending ran
          exact .head (next?_of_script amounts pending machine)
            (scriptRuns.trans (inductionHypothesis pending following))

theorem reaches_of_serve
    {fuel : Nat}
    {request : Request}
    {machine last : Machine}
    {result : Except Unwind Value}
    (served : serve host limit fuel request machine = some (result, last))
    (pending : List Pending) :
    Reaches host limit
      ⟨.serving request, pending, machine⟩
      ⟨.returning result, pending, last⟩ :=
  isServedByMoments host limit fuel pending served

end Machine

end SmallScheme
