import SmallScheme.Evaluation.Machine

namespace SmallScheme

/-!
# Direct evaluation

The reference for what the machine computes.  Direct evaluation has no limit on nesting and counts
no levels, and what a construct hands over in tail position is evaluated at once, at the very place
where it is handed over.  It takes the scope of every macro for still there, and it does not wait
for a text without an end.  Apart from that nothing distinguishes it from evaluation that carries
out handed-over steps after the construct has ended, so both are one definition.
-/

/-- When a step in tail position is carried out. -/
inductive Tails
  /-- After the construct that hands it over has ended. -/
  | deferred
  /-- Where it is handed over. -/
  | inPlace

/-- What a construct receives for a step that it hands over. -/
def Tails.handOver (finish : Step → Run Value) : Tails → Step → Run Step
  | .deferred, step => Run.done step
  | .inPlace, step => fun machine =>
      match finish step machine with
      | none => none
      | some (result, machine) => some (result.map .value, machine)

/-- Carry out a script and then the step that it ends with. -/
def Script.conclude
    (tails : Tails)
    (serve : Request → Run Value)
    (script : Script Step) : Run Value :=
  fun machine =>
    match script.run serve (tails.handOver fun step => serve (.finish step)) machine with
    | none => none
    | some (.ok step, machine) => serve (.finish step) machine
    | some (.error reason, machine) => Run.unwind reason machine

namespace Machine

/-- Serve a request without a limit on nesting.  Each script that is run takes one unit of fuel. -/
def unlimited (host : Host) (tails : Tails) : Nat → Request → Run Value
  | 0, _, _ => none
  | fuel + 1, .evaluate scope form, machine =>
      unlimited host tails fuel (.finish (.tail scope form)) machine
  | fuel + 1, .call callee operands, machine =>
      unlimited host tails fuel (.finish (.apply callee operands)) machine
  | fuel + 1, .finish step, machine =>
      match stepScript host step with
      | .inl value => Run.done value machine
      | .inr script => script.conclude tails (unlimited host tails fuel) machine
  | _ + 1, .reach _ _, machine => Run.done (.boolean true) machine
  | _ + 1, .endless, machine => Run.done .unspecified machine

/-- Direct evaluation: without a limit, and with tail positions evaluated where they stand. -/
def direct (host : Host) : Nat → Request → Run Value :=
  unlimited host .inPlace

end Machine

/-- What unwinds, without the expression that an arity fault may tell. -/
def Unwind.unlocated : Unwind → Unwind
  | .fault (.arity expected given _) => .fault (.arity expected given none)
  | reason => reason

/--
Two evaluations end alike: with the same value or escape, or with the same fault up to the
expression that an arity fault tells.
-/
def EndsAlike (first second : Except Unwind Value) : Prop :=
  first.mapError Unwind.unlocated = second.mapError Unwind.unlocated

end SmallScheme
