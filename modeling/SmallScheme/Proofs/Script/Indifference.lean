import SmallScheme.Evaluation.Direct
import SmallScheme.Proofs.Host

namespace SmallScheme

/-!
# What makes no difference to a construct

An arity fault may tell the expression in which it arose, and a step in tail position may be carried
out where it is handed over or later.  Neither makes a difference to what a construct does: whatever
it catches it treats alike, and after a tail position it only passes on what unwinds.
-/

open Script

/-! What ends alike. -/

namespace EndsAlike

/-- A result ends as itself does. -/
theorem refl
    (result : Except Unwind Value) :
    EndsAlike result result :=
  rfl

/-- Results that end alike with a third end alike. -/
theorem trans
    {first second third : Except Unwind Value}
    (earlier : EndsAlike first second)
    (later : EndsAlike second third) :
    EndsAlike first third :=
  Eq.trans earlier later

/-- Ending alike goes both ways. -/
theorem symm
    {first second : Except Unwind Value}
    (alike : EndsAlike first second) :
    EndsAlike second first :=
  Eq.symm alike

/-- Reasons that differ in their places only end alike. -/
theorem of_reasons
    {first second : Unwind}
    (same : first.unlocated = second.unlocated) :
    EndsAlike (.error first) (.error second) :=
  congrArg Except.error same

/-- A value ends like nothing but itself, and reasons like reasons that differ in expressions. -/
theorem value_or_reasons
    {first second : Except Unwind Value}
    (alike : EndsAlike first second) :
    (∃ value, first = .ok value ∧ second = .ok value) ∨
      ∃ reason other,
        first = .error reason ∧
          second = .error other ∧
          reason.unlocated = other.unlocated := by
  cases first with
  | ok value =>
      cases second with
      | ok other =>
          obtain rfl := Except.ok.inj alike
          exact .inl ⟨_, rfl, rfl⟩
      | error other =>
          cases alike
  | error reason =>
      cases second with
      | ok other =>
          cases alike
      | error other =>
          exact .inr ⟨reason, other, rfl, rfl, Except.error.inj alike⟩

end EndsAlike

namespace Unwind

/-- Reasons that differ in expressions only are arity faults, if they differ at all. -/
theorem same_or_arity
    {reason other : Unwind}
    (same : reason.unlocated = other.unlocated) :
    reason = other ∨
      ∃ expected given expression different,
        reason = .fault (.arity expected given expression) ∧
          other = .fault (.arity expected given different) := by
  unfold unlocated at same
  split at same
  · split at same
    · cases same
      exact .inr ⟨_, _, _, _, rfl, rfl⟩
    · subst same
      exact .inr ⟨_, _, _, none, rfl, rfl⟩
  · split at same
    · subst same
      exact .inr ⟨_, _, none, _, rfl, rfl⟩
    · exact .inl same

/-- What a reason becomes differs from it in the expression only. -/
theorem Becomes.unlocated_eq
    {reason last : Unwind}
    (becomes : reason.Becomes last) :
    reason.unlocated = last.unlocated := by
  cases becomes with
  | same =>
      rfl
  | located cause expression =>
      cases cause with
      | arity expected given present =>
          cases present <;> rfl
      | _ => rfl

end Unwind

/--
The two scripts do the same, if the evaluations that they ask for end alike; and whatever they hand
over in tail position, they do nothing after it.
-/
inductive Script.Indifferent : Script Step → Script Step → Prop
  | done (step : Step) :
      Indifferent (.done step) (.done step)
  | passing {reason other : Unwind} {first second : Script Step} :
      reason.unlocated = other.unlocated →
      Passes reason first →
      Passes other second →
      Indifferent first second
  | viewing
      {Result : Type}
      {look : Store → Result}
      {next following : Result → Script Step} :
      (∀ store, Indifferent (next (look store)) (following (look store))) →
      Indifferent (.viewing look next) (.viewing look following)
  | acting
      {Result : Type}
      {action : StoreM Result}
      {next following : Except Fault Result → Script Step} :
      (∀ store, Indifferent (next (action store).1) (following (action store).1)) →
      Indifferent (.acting action next) (.acting action following)
  | switching
      {Result : Type}
      {change : Context → Result × Context}
      {next following : Result → Script Step} :
      (∀ context, Indifferent (next (change context).1) (following (change context).1)) →
      Indifferent (.switching change next) (.switching change following)
  | asking {request : Request} {next following : Except Unwind Value → Script Step} :
      (∀ result ending,
        EndsAlike result ending →
        Indifferent (next result) (following ending)) →
      Indifferent (.asking request next) (.asking request following)
  | handingOver {step : Step} {next : Except Unwind Step → Script Step} :
      (∀ step, next (.ok step) = .done step) →
      (∀ reason, Passes reason (next (.error reason))) →
      Indifferent (.deferring step next) (.deferring step next)
  /-- What the scripts end with is carried out, and then parameters are given back their values. -/
  | restoring {first second : Script Step} (previous : List (Nat × Value)) :
      Indifferent first second →
      Indifferent
        ((first >>= finish).attempt >>= Special.restore previous)
        ((second >>= finish).attempt >>= Special.restore previous)

namespace Script.Indifferent

/-- To unwind is indifferent where the reasons differ in their places only. -/
theorem unwind
    {reason other : Unwind}
    (same : reason.unlocated = other.unlocated) :
    Indifferent (.unwind reason) (.unwind other) :=
  .passing same (.unwinding (.same _)) (.unwinding (.same _))

/-- What complies with the law that allows everything makes no difference, if its ends do not. -/
theorem of_complies
    {ends : Script Step → Prop}
    {fine : Step → Prop}
    {script : Script Step}
    (complies : Complies .free ends fine script)
    (included : ∀ script, ends script → Indifferent script script) :
    Indifferent script script := by
  induction complies with
  | arriving arrived =>
      exact included _ arrived
  | done _ =>
      exact .done _
  | fault cause =>
      exact .unwind rfl
  | viewing _ inductionHypothesis =>
      exact .viewing fun _ => inductionHypothesis _
  | finding _ inductionHypothesis =>
      exact .viewing fun _ => inductionHypothesis _ trivial
  | acting _ _ inductionHypothesis =>
      exact .acting fun _ => inductionHypothesis _
  | entering _ _ _ whenEntered _ =>
      exact .acting fun _ => whenEntered _ trivial
  | asking _ _ _ passes inductionHypothesis =>
      refine .asking fun result ending alike => ?_
      rcases alike.value_or_reasons with ⟨value, rfl, rfl⟩ | ⟨reason, other, rfl, rfl, same⟩
      · exact inductionHypothesis value
      · exact .passing same (passes reason) (passes other)

/-- A script that leads to no handed-over step is indifferent to what is annotated. -/
theorem of_plain
    {fine : Step → Prop}
    {script : Script Step}
    (plain : Complies .free (fun _ => False) fine script) :
    Indifferent script script :=
  of_complies plain fun _ impossible => impossible.elim

/-- A script that leaves its step alone is indifferent. -/
theorem of_leaves
    {script : Script Step}
    (leaves : Leaves .free script) :
    Indifferent script script := by
  cases leaves with
  | handingOver _ goesOn passes =>
      exact .handingOver goesOn passes
  | @escaping identity value next whenExpired used =>
      have whenRunning : Indifferent (next true) (next true) := by
        rw [used]
        exact .unwind rfl
      refine .switching fun context => ?_
      cases (context.isRunning identity).1 with
      | false => exact of_plain whenExpired
      | true => exact whenRunning
  | @refusing identity next whenExpired whenRunning =>
      refine .switching fun context => ?_
      cases (context.isRunning identity).1 with
      | false => exact of_plain whenExpired
      | true => exact of_plain whenRunning

/-- A script that is lawful for the free law is indifferent. -/
theorem of_lawful
    {script : Script Step}
    (lawful : Lawful .free script) :
    Indifferent script script :=
  of_complies lawful fun _ leaves => of_leaves leaves

end Script.Indifferent

/-! The brackets do the same when what they bracket ends alike. -/

namespace Special

/-- Results that end alike are answered alike. -/
private theorem indifferent_answerResult
    {result ending : Except Unwind Value}
    (alike : EndsAlike result ending) :
    Indifferent (ofResult result >>= answer) (ofResult ending >>= answer) := by
  rcases alike.value_or_reasons with ⟨value, rfl, rfl⟩ | ⟨reason, other, rfl, rfl, same⟩
  · exact .done _
  · exact .unwind same

/-- To call a receiver with an escape is indifferent. -/
private theorem indifferent_withEscape
    (receiver : Value) :
    Indifferent (withEscape receiver) (withEscape receiver) := by
  refine .switching fun _ => .asking fun result ending alike => .switching fun _ => ?_
  rcases alike.value_or_reasons with ⟨value, rfl, rfl⟩ | ⟨reason, other, rfl, rfl, same⟩
  · exact .done _
  · rcases Unwind.same_or_arity same with rfl | ⟨expected, given, _, _, rfl, rfl⟩
    · cases reason with
      | fault cause =>
          exact .unwind rfl
      | escape target value =>
          dsimp only
          split
          · exact .done _
          · exact .unwind rfl
    · exact .unwind same

/-- A wind that has been entered is indifferent. -/
private theorem indifferent_windThrough
    (thunk after : Value) :
    Indifferent (windThrough thunk after) (windThrough thunk after) := by
  refine .asking fun result ending alike => .asking fun resultAfter endingAfter alikeAfter => ?_
  rcases alikeAfter.value_or_reasons with ⟨value, rfl, rfl⟩ | ⟨reason, other, rfl, rfl, same⟩
  · exact indifferent_answerResult alike
  · exact .unwind same

/-- A wind is indifferent from its before call on. -/
private theorem indifferent_wind
    (before thunk after : Value) :
    Indifferent
      (call before [] >>= fun _ => windThrough thunk after)
      (call before [] >>= fun _ => windThrough thunk after) := by
  refine .asking fun result ending alike => ?_
  rcases alike.value_or_reasons with ⟨value, rfl, rfl⟩ | ⟨reason, other, rfl, rfl, same⟩
  · exact indifferent_windThrough thunk after
  · exact .unwind same

/-- To offer a condition to the handlers is indifferent. -/
private theorem indifferent_offer
    (value : Value) :
    Indifferent (offer value) (offer value) := by
  refine .switching fun context => ?_
  cases context.popHandler.1 with
  | none =>
      exact .unwind rfl
  | some handler =>
      refine .asking fun result ending alike => .switching fun _ => ?_
      exact indifferent_answerResult alike

/-- A thunk under a handler is indifferent. -/
private theorem indifferent_withHandler
    (handler thunk : Value) :
    Indifferent (withHandler handler thunk) (withHandler handler thunk) := by
  refine .switching fun _ => .asking fun result ending alike => .switching fun _ => ?_
  rcases alike.value_or_reasons with ⟨value, rfl, rfl⟩ | ⟨reason, other, rfl, rfl, same⟩
  · exact .done _
  · rcases Unwind.same_or_arity same with rfl | ⟨expected, given, _, _, rfl, rfl⟩
    · cases reason with
      | fault cause =>
          exact .of_plain plain_handle
      | escape target value =>
          exact .unwind rfl
    · exact .unwind same

/-- A body under rebindings is indifferent. -/
private theorem indifferent_whileRebound
    (scope : Scope)
    (rebound : List (Nat × Value))
    (forms : List Value) :
    Indifferent (whileRebound scope rebound forms) (whileRebound scope rebound forms) :=
  .acting fun _ => .acting fun _ => .restoring _ (.of_lawful (lawful_body trivial))

end Special

/--
It makes no difference to the special forms of the host where an arity fault arose, nor when a step
in tail position is carried out.
-/
def Host.Indifferent (host : Host) : Prop :=
  ∀ name scope operands,
    Script.Indifferent (host.form name scope operands) (host.form name scope operands)

/-- The special forms of the sample host ask for nothing and hand over at their end. -/
theorem Host.indifferent_sample :
    Host.sample.Indifferent :=
  fun name _ operands => .of_lawful (Sample.lawful_form name trivial operands)

/-- Neither makes a difference to any construct. -/
theorem Machine.indifferent_stepScript
    {host : Host}
    (indifferent : host.Indifferent)
    {step : Step}
    {script : Script Step}
    (amounts : stepScript host step = .inr script) :
    Script.Indifferent script script := by
  have permitted : Law.free.Permits step := by
    cases step <;> trivial
  have conforms := conforms_stepScript host.keeps_free permitted amounts
  refine .of_complies conforms fun script ended => ?_
  cases ended with
  | leaving leaves => exact .of_leaves leaves
  | escape receiver => exact Special.indifferent_withEscape receiver
  | wind before thunk after => exact Special.indifferent_wind before thunk after
  | offer value => exact Special.indifferent_offer value
  | handler handler thunk => exact Special.indifferent_withHandler handler thunk
  | rebinding rebound forms _ => exact Special.indifferent_whileRebound _ rebound forms
  | «foreign» name operands _ => exact indifferent _ _ _

end SmallScheme
