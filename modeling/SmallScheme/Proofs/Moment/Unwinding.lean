import SmallScheme.Proofs.Moment.Life

namespace SmallScheme

/-!
# How unwinding proceeds

A reason to unwind leaves one waiting construct after the other.  A receiver catches its own escape
and the thunk of a handler catches conditions; everything else lets the reason pass as it is, except
that the middle procedure of a wind has the last one called first.  So the reason either arrives at
the first construct that catches it, or a last procedure on its way ends with a reason of its own.
-/

open Script

/-! What waits by its kind. -/

namespace Pending

/-- The receiver of an escape is running. -/
abbrev receiver (callee : Value) (identity : Nat) : Pending :=
  .construct (.call callee [.escape identity]) (Special.leaveReceiver identity)

/-- The thunk of a handler is running. -/
abbrev thunk (handler callee : Value) : Pending :=
  .construct (.call callee []) (Special.leaveThunk handler)

/-- A handler is running for a value that was offered to it. -/
abbrev offered (handler value : Value) : Pending :=
  .construct (.call handler [value]) (Special.leaveHandler handler)

/-- The middle procedure of a wind is running. -/
abbrev middle (callee after : Value) : Pending :=
  .construct (.call callee []) (Special.windUp after)

/-- The last procedure of a wind is running after the middle one has ended. -/
abbrev last (after : Value) (result : Except Unwind Value) : Pending :=
  .construct (.call after []) fun ending => do
    let _ ← ofResult ending
    answer (← ofResult result)

/-- The construct does something of its own about the reason. -/
inductive Catches : Unwind → Pending → Prop
  | receiver {callee value : Value} {identity : Nat} :
      Catches (.escape identity value) (receiver callee identity)
  | thunk {handler callee condition : Value} {cause : Fault} :
      cause.handled? = some condition →
      Catches (.fault cause) (thunk handler callee)

end Pending

/-- The script has ended, or it has begun to write a text without an end. -/
def Progress.Stops : Progress Step → Prop
  | .ended _ _ => True
  | .asked request _ _ => request = .endless

/--
Whatever is returned to the construct, it comes to its end and asks for nothing else, unless the
value that it complains about has no text.
-/
def Script.EndsAtOnce (next : Except Unwind Value → Script Step) : Prop :=
  ∀ result machine, ((next result).advance machine).Stops

/-- The reason stays what it is on its way out. -/
def Unwind.Steady (reason : Unwind) : Prop :=
  ∀ last, reason.Becomes last → last = reason

namespace Moment

/--
A reason is on its way out to a goal, past constructs that do not catch it; or the last procedure
of a wind is running on that way.
-/
inductive Crossing (reason : Unwind) (goal : List Pending) : Moment → Prop
  | leaving {above : List Pending} {machine : Machine} :
      (∀ waiting ∈ above, ¬waiting.Catches reason) →
      Crossing reason goal ⟨.returning (.error reason), above ++ goal, machine⟩
  | winding
      {activity : Activity}
      {inner above : List Pending}
      {after : Value}
      {machine : Machine} :
      (∀ waiting ∈ above, ¬waiting.Catches reason) →
      Crossing reason goal
        ⟨activity, inner ++ .last after (.error reason) :: (above ++ goal), machine⟩

/-- The reason has come to its goal. -/
def Arrives (reason : Unwind) (goal : List Pending) (moment : Moment) : Prop :=
  moment.activity = .returning (.error reason) ∧ moment.pending = goal

/-- The last procedure of a wind has ended with a reason of its own. -/
def Abandons (reason : Unwind) (goal : List Pending) (moment : Moment) : Prop :=
  ∃ other after above,
    moment.activity = .returning (.error other) ∧
      moment.pending = .last after (.error reason) :: (above ++ goal)

/--
From the moment on the reason is on its way to the goal, until it has come there or is abandoned for
the reason that a last procedure has ended with.
-/
def Conducts
    (host : Host)
    (limit : Nat)
    (reason : Unwind)
    (goal : List Pending)
    (moment : Moment) : Prop :=
  ∀ later,
    Reaches host limit moment later →
    later.Crossing reason goal ∨
      ∃ last,
        Reaches host limit moment last ∧
          Reaches host limit last later ∧
          (last.Arrives reason goal ∨ last.Abandons reason goal)

end Moment

variable
  {catches : Prop}
  {base outer inner : Surroundings}
  {host : Host}
  {limit : Nat}
  {reason : Unwind}
  {goal : List Pending}

namespace Unwind

theorem steady_escape
    (identity : Nat)
    (value : Value) :
    (Unwind.escape identity value).Steady := by
  intro last becomes
  cases becomes
  rfl

/-- What a handler can be called for is no arity fault. -/
theorem steady_condition
    {cause : Fault}
    {condition : Value}
    (handled : cause.handled? = some condition) :
    (Unwind.fault cause).Steady := by
  intro last becomes
  cases becomes with
  | same =>
      rfl
  | located cause expression =>
      cases cause <;> first | rfl | cases handled

end Unwind

/-- What is steady tells where it arose, if it tells that at all. -/
theorem Unwind.Steady.lacksExpression_eq_false
    {cause : Fault}
    (steady : (Unwind.fault cause).Steady) :
    cause.lacksExpression = false := by
  have same := steady _ (.located cause "")
  cases cause with
  | arity expected given expression =>
      cases expression with
      | none => cases same
      | some expression => rfl
  | _ => rfl

/-! What a construct makes of a reason that it does not catch. -/

namespace Script

/-- A script that only unwinds ends with the reason, if the reason is steady. -/
theorem Passes.advance
    {Answer : Type}
    {script : Script Answer}
    (passes : Passes reason script)
    (steady : reason.Steady)
    (machine : Machine) :
    script.advance machine = .ended (.error reason) machine := by
  induction passes with
  | unwinding becomes =>
      rw [steady _ becomes]
      rfl
  | viewing _ inductionHypothesis =>
      exact inductionHypothesis _ steady
  | waiting lacks =>
      cases steady.lacksExpression_eq_false.symm.trans lacks

/-- Restoring parameters after a script that only unwinds ends with the reason as well. -/
theorem Passes.advance_restore
    {script : Script Value}
    (passes : Passes reason script)
    (steady : reason.Steady)
    (previous : List (Nat × Value))
    (machine : Machine) :
    ∃ restored,
      (script.attempt.bind (Special.restore previous)).advance machine =
        .ended (.error reason) restored := by
  induction passes with
  | unwinding becomes =>
      rw [steady _ becomes]
      exact ⟨_, Progress.Settles.advance_restore previous (.error _) machine⟩
  | viewing _ inductionHypothesis =>
      exact inductionHypothesis _ steady
  | waiting lacks =>
      cases steady.lacksExpression_eq_false.symm.trans lacks

/-- A fault that quotes a value ends a script, if that value has a text. -/
theorem stops_failTelling
    (value : Value)
    (fault : String → Fault)
    (machine : Machine) :
    ((failTelling value fault : Script Step).advance machine).Stops := by
  simp only [failTelling, writing, view, Bind.bind, Script.bind, Script.advance]
  cases machine.store.written? value with
  | some text => exact trivial
  | none => exact rfl

end Script

/-- How a handler is called for a condition, and how it is not called for anything else. -/
theorem Special.advance_handle
    (handler : Value)
    (cause : Fault)
    (machine : Machine) :
    (cause.handled? = none ∧
      (Special.handle handler cause).advance machine =
        .ended (.error (.fault cause)) machine) ∨
    ∃ condition resume,
      cause.handled? = some condition ∧
        (Special.handle handler cause).advance machine =
          .asked (.call handler [condition]) resume machine ∧
        EndsAtOnce resume := by
  unfold Special.handle
  cases handled : cause.handled? with
  | none =>
      exact .inl ⟨rfl, rfl⟩
  | some condition =>
      refine .inr ⟨condition, _, rfl, rfl, fun ending machine => ?_⟩
      cases ending with
      | error reason =>
          exact trivial
      | ok value =>
          change Progress.Stops <| Script.advance
            (if value.isUnspecified then answer .unspecified else
              failTelling value fun text => .evaluation (.handlerReturned text)) machine
          split
          · exact trivial
          · exact stops_failTelling value _ machine

/--
What waits and does not catch a reason lets it pass, unless it is a wind whose last procedure has to
be called first.
-/
theorem Pending.Encloses.passes_or_winds
    {request : Request}
    {next : Except Unwind Value → Script Step}
    (encloses : (Pending.construct request next).Encloses False outer inner)
    (steady : reason.Steady)
    (uncaught : ¬(Pending.construct request next).Catches reason)
    (machine : Machine) :
    (∃ left, (next (.error reason)).advance machine = .ended (.error reason) left) ∨
      ∃ after resume,
        (next (.error reason)).advance machine = .asked (.call after []) resume machine ∧
          Pending.construct (.call after []) resume = .last after (.error reason) := by
  cases encloses with
  | ordinary _ nested resumes =>
      rcases resumes.reason with passes | ⟨impossible, _⟩
      · exact .inl ⟨machine, (passes reason).advance steady machine⟩
      · exact impossible.elim
  | @receiver callee identity _ fresh =>
      rw [Progress.Settles.advance_leaveReceiver]
      match reason with
      | .fault cause =>
          exact .inl ⟨_, rfl⟩
      | .escape target value =>
          by_cases own : target = identity
          · subst own
            exact (uncaught .receiver).elim
          · simp only [if_neg own]
            exact .inl ⟨_, rfl⟩
  | @thunk handler callee =>
      match reason with
      | .fault cause =>
          let popped : Machine := { machine with context := machine.context.popHandler.2 }
          rcases Special.advance_handle handler cause popped with
            ⟨_, passes⟩ | ⟨condition, _, handled, _⟩
          · exact .inl ⟨popped, passes⟩
          · exact (uncaught (.thunk handled)).elim
      | .escape target value =>
          exact .inl ⟨_, rfl⟩
  | @handler handler value _ =>
      rw [Progress.Settles.advance_leaveHandler]
      exact .inl ⟨_, rfl⟩
  | @middle callee after =>
      exact .inr ⟨after, _, rfl, rfl⟩
  | @last after result =>
      exact .inl ⟨machine, rfl⟩
  | @rebound _ next previous _ nested resumes =>
      rcases resumes.reason with passes | ⟨impossible, _⟩
      · exact .inl ((passes reason).advance_restore steady previous machine)
      · exact impossible.elim
  | @finishing step previous =>
      rw [Progress.Settles.advance_restore]
      exact .inl ⟨_, rfl⟩

/-! What waits further out takes no part before it is its turn. -/

namespace Moment

/-- A moment with more waiting further out. -/
def under (outside : List Pending) (moment : Moment) : Moment :=
  { moment with pending := moment.pending ++ outside }

theorem ofProgress_under
    (outside pending : List Pending)
    (progress : Progress Step) :
    ofProgress (pending ++ outside) progress = (ofProgress pending progress).under outside := by
  cases progress with
  | ended result machine =>
      cases result <;> rfl
  | asked request next machine =>
      rfl

/-- The moments of a run stay the same when more waits further out. -/
theorem next?_under
    (outside : List Pending)
    {moment later : Moment}
    (next : moment.next? host limit = some later) :
    (moment.under outside).next? host limit = some (later.under outside) := by
  have opening
      (step : Step)
      (pending : List Pending)
      (machine : Machine) :
      ofOpening limit step (pending ++ outside) machine =
        (ofOpening limit step pending machine).under outside := by
    unfold ofOpening
    split <;> rfl
  cases steps_of_next? next with
  | evaluating => exact congrArg some (opening _ _ _)
  | calling => exact congrArg some (opening _ _ _)
  | finishing amounts => exact next?_of_value amounts _ _
  | reaching => rfl
  | waiting => rfl
  | beginning amounts =>
      exact (next?_of_script amounts _ _).trans (congrArg some (ofProgress_under outside _ _))
  | closing => rfl
  | resuming => exact congrArg some (ofProgress_under outside _ _)

/-- A run is over only when nothing waits for what is returned. -/
theorem finished_of_next?
    {moment : Moment}
    (finished : moment.next? host limit = none) :
    ∃ result machine, moment = ⟨.returning result, [], machine⟩ := by
  obtain ⟨activity, pending, machine⟩ := moment
  match activity, pending with
  | .serving (.evaluate scope form), _ =>
      cases finished
  | .serving (.call callee operands), _ =>
      cases finished
  | .serving (.finish step), _ =>
      simp only [next?] at finished
      cases amounts : Machine.stepScript host step <;> simp [amounts] at finished
  | .serving (.reach scope home), _ =>
      cases finished
  | .serving .endless, _ =>
      cases finished
  | .returning result, [] =>
      exact ⟨result, machine, rfl⟩
  | .returning result, .level :: rest =>
      cases finished
  | .returning result, .construct request resume :: rest =>
      cases finished

/--
A reason on its way stays on its way, unless it has come to its goal or a last procedure has ended
with a reason of its own.
-/
theorem Crossing.next
    (steady : reason.Steady)
    {moment later : Moment}
    (orderly : moment.Orderly False base)
    (crossing : moment.Crossing reason goal)
    (next : moment.next? host limit = some later) :
    later.Crossing reason goal ∨ moment.Arrives reason goal ∨ moment.Abandons reason goal := by
  cases crossing with
  | @leaving above machine uncaught =>
      cases above with
      | nil =>
          exact .inr (.inl ⟨rfl, rfl⟩)
      | cons waiting rest =>
          have uncaughtRest : ∀ waiting ∈ rest, ¬waiting.Catches reason :=
            fun waiting member => uncaught waiting (List.mem_cons_of_mem _ member)
          cases waiting with
          | level =>
              obtain rfl := Option.some.inj next
              exact .inl (.leaving uncaughtRest)
          | construct request resume =>
              obtain rfl := Option.some.inj next
              have surrounded := orderly.surrounded
              cases surrounded with
              | within encloses _ =>
                  have ways := encloses.passes_or_winds steady
                    (uncaught _ List.mem_cons_self) machine
                  rcases ways with ⟨left, passes⟩ | ⟨after, resumeLast, winds, isLast⟩
                  · rw [passes]
                    exact .inl (.leaving uncaughtRest)
                  · have windsUp :
                        Crossing reason goal
                          ⟨.serving (.call after []),
                            [] ++ .last after (.error reason) :: (rest ++ goal), machine⟩ :=
                      .winding uncaughtRest
                    rw [winds]
                    simp only [ofProgress, isLast]
                    exact .inl windsUp
  | @winding activity inner above after machine uncaught =>
      -- The last procedure runs as it would by itself, until nothing waits in its own run.
      cases nextInner : next? host limit ⟨activity, inner, machine⟩ with
      | some laterInner =>
          have same := next?_under (.last after (.error reason) :: (above ++ goal)) nextInner
          obtain rfl := Option.some.inj (next.symm.trans same)
          exact .inl (.winding uncaught)
      | none =>
          obtain ⟨result, _, shape⟩ := finished_of_next? nextInner
          cases shape
          cases result with
          | ok value =>
              obtain rfl := Option.some.inj next
              exact .inl (.leaving uncaught)
          | error other =>
              exact .inr (.inr ⟨other, after, above, rfl, rfl⟩)

/-- A reason that is on its way is conducted to its goal. -/
theorem Crossing.conducts
    (restrained : host.Restrained False)
    (steady : reason.Steady)
    {moment : Moment}
    (orderly : moment.Orderly False base)
    (crossing : moment.Crossing reason goal) :
    moment.Conducts host limit reason goal := by
  intro later reaches
  induction reaches with
  | refl =>
      exact .inl crossing
  | @tail between later reachesBetween next inductionHypothesis =>
      rcases inductionHypothesis with crossingBetween | ⟨last, toLast, fromLast, stops⟩
      · have orderlyBetween := (Reaches.orderly restrained reachesBetween orderly).1
        rcases crossingBetween.next steady orderlyBetween next with crossingLater | stops
        · exact .inl crossingLater
        · exact .inr ⟨between, reachesBetween, .step next, stops⟩
      · exact .inr ⟨last, toLast, fromLast.trans (.step next), stops⟩

end Moment

end SmallScheme
