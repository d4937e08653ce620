import SmallScheme.Proofs.Moment.Basic
import SmallScheme.Proofs.Script.Construct

namespace SmallScheme

/-!
# What waits tells what surrounds

The installed handlers, the running escapes and the open levels of a machine are told by the
constructs that wait: each of them encloses what it waits for in surroundings that differ from its
own by what it has put there.  `Moment.Orderly` states this of a moment, and it is kept from each
moment to the next.
-/

/-- What surrounds an evaluation. -/
structure Surroundings where
  handlers : List Value
  escapes : List Nat
  depth : Nat

/-- What surrounds the next evaluation on a machine. -/
def Machine.surroundings (machine : Machine) : Surroundings where
  handlers := machine.context.handlers
  escapes := machine.context.escapes
  depth := machine.depth

/-- If it is an escape that a result stands for, then its receiver is running. -/
def Surroundings.Admits {Answer : Type} (outer : Surroundings) (result : Except Unwind Answer) :
    Prop :=
  ∀ identity value, result = .error (.escape identity value) → identity ∈ outer.escapes

open Script

/-- After a request, a script leads to the ends or passes on what has unwound. -/
structure Script.Resumes
    {Answer : Type}
    (catches : Prop)
    (ends : Script Answer → Prop)
    (next : Except Unwind Value → Script Answer) : Prop where
  value : ∀ value, Leads catches ends (next (.ok value))
  reason :
    (∀ reason, Passes reason (next (.error reason))) ∨
      catches ∧ ∀ reason, Leads catches ends (next (.error reason))

/-- The script carries out the remaining steps in place. -/
inductive Script.Finishing : Script Value → Prop
  | finish (step : Step) :
      Finishing (finish step)

/-- Something that waits, within outer surroundings, encloses what it waits for in inner ones. -/
inductive Pending.Encloses (catches : Prop) : Pending → Surroundings → Surroundings → Prop
  | level (outer : Surroundings) :
      Encloses catches .level outer { outer with depth := outer.depth + 1 }
  | ordinary
      {request : Request}
      {next : Except Unwind Value → Script Step}
      (outer : Surroundings) :
      request.IsInner →
      Resumes catches Special.Bracket next →
      Encloses catches (.construct request next) outer outer
  /-- The receiver of an escape is running. -/
  | receiver {callee : Value} {identity : Nat} {outer : Surroundings} :
      identity ∉ outer.escapes →
      Encloses catches
        (.construct (.call callee [.escape identity]) (Special.leaveReceiver identity))
        outer
        { outer with escapes := identity :: outer.escapes }
  /-- The thunk of a handler is running. -/
  | thunk {handler thunk : Value} (outer : Surroundings) :
      Encloses catches
        (.construct (.call thunk []) (Special.leaveThunk handler))
        outer
        { outer with handlers := handler :: outer.handlers }
  /-- A handler is running for a value that was offered to it. -/
  | handler {handler value : Value} (inner : Surroundings) :
      Encloses catches
        (.construct (.call handler [value]) (Special.leaveHandler handler))
        { inner with handlers := handler :: inner.handlers }
        inner
  /-- The middle procedure of a wind is running. -/
  | middle {thunk after : Value} (outer : Surroundings) :
      Encloses catches
        (.construct (.call thunk []) (Special.windUp after))
        outer
        outer
  /-- The last procedure of a wind is running. -/
  | last {after : Value} {result : Except Unwind Value} {outer : Surroundings} :
      (¬catches → outer.Admits result) →
      Encloses catches
        (.construct (.call after []) fun ending => do
          let _ ← ofResult ending
          answer (← ofResult result))
        outer
        outer
  /-- Forms are evaluated while parameters have other values. -/
  | rebound
      {request : Request}
      {next : Except Unwind Value → Script Value}
      {previous : List (Nat × Value)}
      (outer : Surroundings) :
      request.IsInner →
      Resumes catches Finishing next →
      Encloses catches
        (.construct request fun ending => do
          let result ← attempt (next ending)
          Special.restore previous result)
        outer
        outer
  /-- The tail position of such forms is carried out. -/
  | finishing {step : Step} {previous : List (Nat × Value)} (outer : Surroundings) :
      Encloses catches
        (.construct (.finish step) (Special.restore previous))
        outer
        outer

/--
A script has come from outer surroundings to its end or to a request.  At its end nothing around it
has changed; at a request it encloses what it asks for, and every escape that it has made is new.
-/
inductive Progress.Settles (catches : Prop) (outer : Surroundings) (lastEscape : Nat) :
    Progress Step → Prop
  | ended {result : Except Unwind Step} {machine : Machine} :
      machine.surroundings = outer →
      machine.context.lastEscape = lastEscape →
      (¬catches → outer.Admits result) →
      Settles catches outer lastEscape (.ended result machine)
  | asked
      {request : Request}
      {next : Except Unwind Value → Script Step}
      {machine : Machine} :
      (Pending.construct request next).Encloses catches outer machine.surroundings →
      lastEscape ≤ machine.context.lastEscape →
      (∀ identity ∈ machine.context.escapes,
        identity ∈ outer.escapes ∨
          lastEscape < identity ∧ identity ≤ machine.context.lastEscape) →
      Settles catches outer lastEscape (.asked request next machine)

variable
  {catches : Prop}
  {host : Host}
  {limit : Nat}

/-- The value of forms is asked for in an ordinary way, up to the steps that remain. -/
theorem Special.leads_bodyValue
    {scope : Scope}
    {forms : List Value} :
    Leads catches Finishing (bodyValue scope forms) :=
  .bind leads_body fun step => .arriving (.finish step)

namespace Progress.Settles

/-- A request that is made without a change of the surroundings. -/
theorem asking
    {request : Request}
    {next : Except Unwind Value → Script Step}
    {machine : Machine}
    (encloses :
      (Pending.construct request next).Encloses catches
        machine.surroundings machine.surroundings) :
    Settles catches machine.surroundings machine.context.lastEscape
      (.asked request next machine) :=
  .asked encloses (Nat.le_refl _) fun _ member => .inl member

/-- A fault is never an escape. -/
theorem admits_fault
    {Answer : Type}
    (outer : Surroundings)
    (cause : Fault) :
    outer.Admits (.error (.fault cause) : Except Unwind Answer) := by
  intro identity value same
  cases same

theorem admits_ok
    {Answer : Type}
    (outer : Surroundings)
    (answer : Answer) :
    outer.Admits (.ok answer) := by
  intro identity value same
  cases same

/-- What a reason becomes is admitted where the reason is. -/
theorem admits_becomes
    {First Second : Type}
    {outer : Surroundings}
    {reason last : Unwind}
    (admits : outer.Admits (.error reason : Except Unwind First))
    (becomes : reason.Becomes last) :
    outer.Admits (.error last : Except Unwind Second) := by
  cases becomes with
  | same =>
      intro identity value same
      exact admits identity value (by rw [Except.error.inj same])
  | located cause expression =>
      exact admits_fault outer _

theorem of_passes
    {reason : Unwind}
    {script : Script Step}
    {machine : Machine}
    (passes : Passes reason script)
    (admits : ¬catches → machine.surroundings.Admits (.error reason : Except Unwind Value)) :
    Settles catches machine.surroundings machine.context.lastEscape
      (script.advance machine) := by
  induction passes with
  | unwinding becomes =>
      exact .ended rfl rfl fun strict => admits_becomes (admits strict) becomes
  | viewing _ inductionHypothesis =>
      exact inductionHypothesis _ admits
  | waiting _ whenWritten passes =>
      exact asking (.ordinary _ trivial ⟨fun value => (whenWritten value).leads, .inl passes⟩)

/-! What the parts of the brackets do by themselves. -/

theorem advance_leaveReceiver
    (identity : Nat)
    (result : Except Unwind Value)
    (machine : Machine) :
    (Special.leaveReceiver identity result).advance machine =
      .ended
        (match result with
        | .ok value => .ok (.value value)
        | .error (.escape target value) =>
            if target = identity then
              .ok (.value value)
            else
              .error (.escape target value)
        | .error reason => .error reason)
        { machine with context := (machine.context.closeEscape identity).2 } := by
  match result with
  | .ok value =>
      rfl
  | .error (.fault cause) =>
      rfl
  | .error (.escape target value) =>
      change
        Script.advance
            (if target = identity then answer value else .unwind (.escape target value)) _ =
          .ended
            (if target = identity then .ok (.value value) else .error (.escape target value)) _
      by_cases same : target = identity
      · simp only [if_pos same]
        rfl
      · simp only [if_neg same]
        rfl

theorem advance_leaveHandler
    (handler : Value)
    (result : Except Unwind Value)
    (machine : Machine) :
    (Special.leaveHandler handler result).advance machine =
      .ended (result.map .value)
        { machine with context := (machine.context.pushHandler handler).2 } := by
  cases result <;> rfl

theorem advance_restore
    (previous : List (Nat × Value))
    (result : Except Unwind Value)
    (machine : Machine) :
    (Special.restore previous result).advance machine =
      .ended (result.map .value)
        { machine with store := (Special.exchange [] machine.store previous).2 } := by
  cases result <;> rfl

/-- Rebinding changes the store and then comes to the forms, with what restores it behind them. -/
theorem advance_whileRebound
    (scope : Scope)
    (rebound : List (Nat × Value))
    (forms : List Value)
    (machine : Machine) :
    (Special.whileRebound scope rebound forms).advance machine =
      let exchanged := Special.exchange [] machine.store rebound
      let child := Store.newChild scope exchanged.2
      ((Special.bodyValue child.1 forms).attempt.bind (Special.restore exchanged.1)).advance
        { machine with store := child.2 } :=
  rfl

/-- An answer in place of a value is admitted where the value is. -/
theorem admits_map
    {outer : Surroundings}
    {result : Except Unwind Value}
    (admits : outer.Admits result) :
    outer.Admits (result.map Step.value) := by
  intro identity value same
  cases result with
  | ok answer =>
      cases same
  | error reason =>
      exact admits identity value (by rw [Except.error.inj same])

theorem of_restore
    (previous : List (Nat × Value))
    {result : Except Unwind Value}
    {machine : Machine}
    (admits : ¬catches → machine.surroundings.Admits result) :
    Settles catches machine.surroundings machine.context.lastEscape
      ((Special.restore previous result).advance machine) := by
  rw [advance_restore]
  exact .ended rfl rfl fun strict => admits_map (admits strict)

theorem of_passes_rebound
    (previous : List (Nat × Value))
    {reason : Unwind}
    {script : Script Value}
    {machine : Machine}
    (passes : Passes reason script)
    (admits : ¬catches → machine.surroundings.Admits (.error reason : Except Unwind Value)) :
    Settles catches machine.surroundings machine.context.lastEscape
      ((script.attempt.bind (Special.restore previous)).advance machine) := by
  induction passes with
  | unwinding becomes =>
      exact of_restore previous fun strict => admits_becomes (admits strict) becomes
  | viewing _ inductionHypothesis =>
      exact inductionHypothesis _ admits
  | waiting _ whenWritten passes =>
      exact asking (.rebound _ trivial ⟨fun value => (whenWritten value).leads, .inl passes⟩)

/-- Whether a script may use an escape is asked where it stands. -/
theorem admits_running
    {Answer : Type}
    {identity : Nat}
    {context : Context}
    (running : (context.isRunning identity).1 = true)
    (value : Value)
    (store : Store)
    (depth : Nat) :
    (Machine.surroundings ⟨store, context, depth⟩).Admits
      (.error (.escape identity value) : Except Unwind Answer) := by
  intro target escaped same
  cases same
  simpa [Context.isRunning, Machine.surroundings] using running

theorem of_rebound
    (previous : List (Nat × Value))
    {script : Script Value}
    (leads : Leads catches Finishing script)
    (machine : Machine) :
    Settles catches machine.surroundings machine.context.lastEscape
      ((script.attempt.bind (Special.restore previous)).advance machine) := by
  induction leads generalizing machine with
  | arriving arrived =>
      obtain ⟨step⟩ := arrived
      have restores :
          (fun ending =>
            ((ofResult ending : Script Value).attempt).bind (Special.restore previous)) =
            Special.restore previous := by
        funext ending
        cases ending <;> rfl
      refine asking ?_
      rw [restores]
      exact .finishing _
  | done answer =>
      exact of_restore previous fun _ => admits_ok _ _
  | fault cause =>
      exact of_restore previous fun _ => admits_fault _ _
  | viewing _ inductionHypothesis =>
      exact inductionHypothesis _ machine
  | @acting _ action next _ inductionHypothesis =>
      change Settles _ _ _ (Script.advance
        (.acting action fun result =>
          ((next result).attempt).bind (Special.restore previous)) machine)
      rw [advance_acting]
      exact inductionHypothesis _ { machine with store := (action machine.store).2 }
  | asking nested continues passes =>
      exact asking (.rebound _ nested ⟨continues, .inl passes⟩)
  | deferring _ _ inductionHypothesis =>
      exact inductionHypothesis _ machine
  | @testing identity next _ _ whenExpired whenRunning =>
      obtain ⟨store, context, depth⟩ := machine
      change Settles _ _ _ (Script.advance
        (((next (context.isRunning identity).1).attempt).bind (Special.restore previous)) _)
      cases (context.isRunning identity).1 with
      | false =>
          exact whenExpired ⟨store, context, depth⟩
      | true =>
          exact whenRunning ⟨store, context, depth⟩
  | @escaping identity value next _ used whenExpired =>
      obtain ⟨store, context, depth⟩ := machine
      change Settles _ _ _ (Script.advance
        (((next (context.isRunning identity).1).attempt).bind (Special.restore previous)) _)
      cases running : (context.isRunning identity).1 with
      | false =>
          exact whenExpired ⟨store, context, depth⟩
      | true =>
          rw [used]
          exact of_restore previous fun _ => admits_running running value store depth
  | catching allowed nested continues =>
      refine asking (.rebound _ nested ⟨fun value => continues (.ok value), .inr ⟨allowed, ?_⟩⟩)
      exact fun reason => continues (.error reason)
  | forging allowed =>
      exact of_restore previous fun strict => absurd allowed strict

/-- A bracket encloses the first request that it makes. -/
private theorem of_bracket
    {script : Script Step}
    (bracket : Special.Bracket script)
    {machine : Machine}
    (numbered :
      ∀ identity ∈ machine.context.escapes, identity ≤ machine.context.lastEscape) :
    Settles catches machine.surroundings machine.context.lastEscape
      (script.advance machine) := by
  cases bracket with
  | escape receiver =>
      have fresh : machine.context.lastEscape + 1 ∉ machine.surroundings.escapes := by
        intro member
        have bound := numbered _ member
        omega
      refine .asked (.receiver fresh) (Nat.le_succ _) ?_
      intro identity member
      rcases List.mem_cons.mp member with isNew | isOld
      · subst identity
        exact .inr ⟨Nat.lt_succ_self _, Nat.le_refl _⟩
      · exact .inl isOld
  | wind thunk after =>
      exact asking (.middle _)
  | offer value =>
      obtain ⟨store, ⟨handlers, escapes, lastEscape⟩, depth⟩ := machine
      cases handlers with
      | nil =>
          exact .ended rfl rfl fun _ => admits_fault _ _
      | cons handler rest =>
          exact .asked (.handler ⟨rest, escapes, depth⟩) (Nat.le_refl _) fun _ member => .inl member
  | handler handler thunk =>
      exact .asked (.thunk _) (Nat.le_refl _) fun _ member => .inl member
  | rebinding scope rebound forms =>
      let exchanged := Special.exchange [] machine.store rebound
      let child := Store.newChild scope exchanged.2
      rw [advance_whileRebound]
      exact of_rebound exchanged.1 Special.leads_bodyValue { machine with store := child.2 }

theorem of_leads
    {script : Script Step}
    (leads : Leads catches Special.Bracket script)
    (machine : Machine)
    (numbered :
      ∀ identity ∈ machine.context.escapes, identity ≤ machine.context.lastEscape) :
    Settles catches machine.surroundings machine.context.lastEscape
      (script.advance machine) := by
  induction leads generalizing machine with
  | arriving bracket =>
      exact of_bracket bracket numbered
  | done answer =>
      exact .ended rfl rfl fun _ => admits_ok _ _
  | fault cause =>
      exact .ended rfl rfl fun _ => admits_fault _ _
  | viewing _ inductionHypothesis =>
      exact inductionHypothesis _ machine numbered
  | @acting _ action next _ inductionHypothesis =>
      rw [advance_acting]
      exact inductionHypothesis _ { machine with store := (action machine.store).2 } numbered
  | asking nested continues passes =>
      exact asking (.ordinary _ nested ⟨continues, .inl passes⟩)
  | deferring _ _ inductionHypothesis =>
      exact inductionHypothesis _ machine numbered
  | @testing identity next _ _ whenExpired whenRunning =>
      obtain ⟨store, context, depth⟩ := machine
      change Settles _ _ _ (Script.advance (next (context.isRunning identity).1) _)
      cases (context.isRunning identity).1 with
      | false =>
          exact whenExpired ⟨store, context, depth⟩ numbered
      | true =>
          exact whenRunning ⟨store, context, depth⟩ numbered
  | @escaping identity value next _ used whenExpired =>
      obtain ⟨store, context, depth⟩ := machine
      change Settles _ _ _ (Script.advance (next (context.isRunning identity).1) _)
      cases running : (context.isRunning identity).1 with
      | false =>
          exact whenExpired ⟨store, context, depth⟩ numbered
      | true =>
          rw [used]
          exact .ended rfl rfl fun _ => admits_running running value store depth
  | catching allowed nested continues =>
      refine asking (.ordinary _ nested ⟨fun value => continues (.ok value), .inr ⟨allowed, ?_⟩⟩)
      exact fun reason => continues (.error reason)
  | forging allowed =>
      exact .ended rfl rfl fun strict => absurd allowed strict

end Progress.Settles

end SmallScheme
