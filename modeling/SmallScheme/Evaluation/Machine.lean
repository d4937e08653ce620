import SmallScheme.Evaluation.Form

namespace SmallScheme

/-!
# The machine

The machine carries out scripts.  Evaluating a form or calling a procedure opens a level of
nesting, of which only so many may be open at a time; steps in tail position are carried out one
after the other on the same level.  Since a program need not end, a run is given fuel; a run that
uses it up has no outcome.
-/

/-- All that an evaluation can change. -/
structure Machine where
  store : Store
  context : Context
  /-- The levels of nesting that are open. -/
  depth : Nat
  deriving Inhabited

/-- The outcome of running something on a machine, if it ends. -/
abbrev Run (Answer : Type) :=
  Machine → Option (Except Unwind Answer × Machine)

namespace Run

def done {Answer : Type} (answer : Answer) : Run Answer :=
  fun machine => some (.ok answer, machine)

/-- Unwind and change nothing. -/
def unwind {Answer : Type} (reason : Unwind) : Run Answer :=
  fun machine => some (.error reason, machine)

/-- Run on one more level of nesting, of which there may be `limit`. -/
def nested {Answer : Type} (limit : Nat) (inside : Run Answer) : Run Answer :=
  fun machine =>
    if limit ≤ machine.depth then
      unwind (.fault (.evaluation (.depthLimit limit))) machine
    else
      match inside { machine with depth := machine.depth + 1 } with
      | none => none
      | some (result, machine) => some (result, { machine with depth := machine.depth - 1 })

end Run

/--
Carry out a script, given how requests are served and what becomes of a step that is handed over in
tail position.
-/
def Script.run
    {Answer : Type}
    (serve : Request → Run Value)
    (handOver : Step → Run Step) : Script Answer → Run Answer
  | .done answer, machine => Run.done answer machine
  | .unwind reason, machine => Run.unwind reason machine
  | .viewing look next, machine => run serve handOver (next (look machine.store)) machine
  | .acting action next, ⟨store, context, depth⟩ =>
      let (result, store) := action store
      run serve handOver (next result) ⟨store, context, depth⟩
  | .switching change next, ⟨store, context, depth⟩ =>
      let (result, context) := change context
      run serve handOver (next result) ⟨store, context, depth⟩
  | .asking request next, machine =>
      match serve request machine with
      | none => none
      | some (result, machine) => run serve handOver (next result) machine
  | .deferring step next, machine =>
      match handOver step machine with
      | none => none
      | some (result, machine) => run serve handOver (next result) machine

namespace Machine

/-- The script that a step amounts to, unless it is finished. -/
def stepScript (host : Host) : Step → Value ⊕ Script Step
  | .value value => .inl value
  | .tail scope form => .inr (Evaluation.script host scope form)
  | .apply callee operands => .inr (Application.apply host callee operands)
  | .expand scope form => .inr (Special.expandOnce scope form)

/-- The scope of a macro is still there, where it is needed in a scope. -/
def holds (host : Host) (scope home : Scope) (machine : Machine) : Bool :=
  host.holds machine.store machine.context machine.depth scope home

/--
Serve a request.  Each script that is run takes one unit of fuel, and a text without an end takes
more than there is.
-/
def serve (host : Host) (limit : Nat) : Nat → Request → Run Value
  | 0, _, _ => none
  | fuel + 1, .evaluate scope form, machine =>
      Run.nested limit (serve host limit fuel (.finish (.tail scope form))) machine
  | fuel + 1, .call callee operands, machine =>
      Run.nested limit (serve host limit fuel (.finish (.apply callee operands))) machine
  | fuel + 1, .finish step, machine =>
      match stepScript host step with
      | .inl value => Run.done value machine
      | .inr script =>
          match script.run (serve host limit fuel) Run.done machine with
          | none => none
          | some (.ok next, machine) => serve host limit fuel (.finish next) machine
          | some (.error reason, machine) => Run.unwind reason machine
  | _ + 1, .reach scope home, machine =>
      Run.done (.boolean (machine.holds host scope home)) machine
  | _ + 1, .endless, _ => none

end Machine

/-! The ways in which a request comes to an end. -/

/-- The step for which a request opens a level. -/
def Request.opens? : Request → Option Step
  | .evaluate scope form => some (.tail scope form)
  | .call callee operands => some (.apply callee operands)
  | .finish _ => none
  | .reach _ _ => none
  | .endless => none

namespace Machine

/-- What a request comes to, given how the requests inside it are served. -/
inductive Serving (host : Host) (limit : Nat) (inside : Request → Run Value) (machine : Machine) :
    Request → Except Unwind Value → Machine → Prop
  /-- No level is left for the request. -/
  | refused {request : Request} {step : Step} :
      request.opens? = some step →
      limit ≤ machine.depth →
      Serving host limit inside machine request
        (.error (.fault (.evaluation (.depthLimit limit)))) machine
  | nested
      {request : Request}
      {step : Step}
      {result : Except Unwind Value}
      {between : Machine} :
      request.opens? = some step →
      ¬limit ≤ machine.depth →
      inside (.finish step) { machine with depth := machine.depth + 1 } = some (result, between) →
      Serving host limit inside machine request result { between with depth := between.depth - 1 }
  | value {step : Step} {value : Value} :
      stepScript host step = .inl value →
      Serving host limit inside machine (.finish step) (.ok value) machine
  | unwound {step : Step} {script : Script Step} {reason : Unwind} {last : Machine} :
      stepScript host step = .inr script →
      script.run inside Run.done machine = some (.error reason, last) →
      Serving host limit inside machine (.finish step) (.error reason) last
  /-- The script of the step has come to another step, which is carried out in its place. -/
  | followed
      {step following : Step}
      {script : Script Step}
      {result : Except Unwind Value}
      {between last : Machine} :
      stepScript host step = .inr script →
      script.run inside Run.done machine = some (.ok following, between) →
      inside (.finish following) between = some (result, last) →
      Serving host limit inside machine (.finish step) result last
  | reached {scope home : Scope} :
      Serving host limit inside machine (.reach scope home)
        (.ok (.boolean (machine.holds host scope home))) machine

theorem serving_of_nested
    {host : Host}
    {limit : Nat}
    {inside : Request → Run Value}
    {request : Request}
    {step : Step}
    {result : Except Unwind Value}
    {machine last : Machine}
    (opens : request.opens? = some step)
    (ran : Run.nested limit (inside (.finish step)) machine = some (result, last)) :
    Serving host limit inside machine request result last := by
  unfold Run.nested at ran
  split at ran
  case isTrue full =>
    cases ran
    exact .refused opens full
  case isFalse free =>
    split at ran
    case h_1 => cases ran
    case h_2 between served =>
      cases ran
      exact .nested opens free served

/-- Nobody is served who writes a text without an end. -/
theorem serve_endless
    {host : Host}
    {limit : Nat}
    (fuel : Nat)
    (machine : Machine) :
    serve host limit fuel .endless machine = none := by
  cases fuel <;> rfl

theorem serving_of_serve
    {host : Host}
    {limit fuel : Nat}
    {request : Request}
    {result : Except Unwind Value}
    {machine last : Machine}
    (served : serve host limit (fuel + 1) request machine = some (result, last)) :
    Serving host limit (serve host limit fuel) machine request result last := by
  cases request with
  | evaluate scope form => exact serving_of_nested rfl served
  | call callee operands => exact serving_of_nested rfl served
  | finish step =>
      unfold serve at served
      split at served
      case h_1 value amounts =>
        cases served
        exact .value amounts
      case h_2 script amounts =>
        split at served
        case h_1 => cases served
        case h_2 following between ran => exact .followed amounts ran served
        case h_3 reason between ran =>
          cases served
          exact .unwound amounts ran
  | reach scope home =>
      cases served
      exact .reached
  | endless => cases served

end Machine

end SmallScheme
