import SmallScheme.Script.Basic

namespace SmallScheme

/-!
# How scripts conduct themselves

Nearly every construct does the same few things: it looks at the store and acts on it, it asks for
the values of forms and calls, and it passes on whatever unwinds.  `Script.Leads` says that a script
does nothing else until it comes to one of the given ends; a script that needs no ends is ordinary.

Constructs of the host may be allowed to catch.  Those that catch may go on after an unwinding, and
may unwind with escapes of their own making.
-/

/-- The request opens a level of nesting. -/
def Request.IsNested : Request → Prop
  | .evaluate _ _ => True
  | .call _ _ => True
  | _ => False

/-- The request is not for the tail position of a construct. -/
def Request.IsInner : Request → Prop
  | .finish _ => False
  | _ => True

/-- What a reason becomes on its way out: an arity fault may learn where it arose. -/
inductive Unwind.Becomes : Unwind → Unwind → Prop
  | same (reason : Unwind) :
      Becomes reason reason
  | located (cause : Fault) (expression : String) :
      Becomes (.fault cause) (.fault (cause.inExpression expression))

namespace Script

variable {First Second Answer : Type}

/--
The script only unwinds, for the given reason or for what it becomes.  On the way it may have to
write where an arity fault arose, and that may have no end.
-/
inductive Passes : Unwind → Script Answer → Prop
  | unwinding {reason last : Unwind} :
      reason.Becomes last →
      Passes reason (.unwind last)
  | viewing
      {Result : Type}
      {reason : Unwind}
      {look : Store → Result}
      {next : Result → Script Answer} :
      (∀ result, Passes reason (next result)) →
      Passes reason (.viewing look next)
  | waiting {cause : Fault} {next : Except Unwind Value → Script Answer} :
      cause.lacksExpression = true →
      (∀ value, Passes (.fault cause) (next (.ok value))) →
      (∀ reason, Passes reason (next (.error reason))) →
      Passes (.fault cause) (.asking .endless next)

/-- The script comes to one of the ends, if not to an answer or an unwinding, in an ordinary way. -/
inductive Leads (catches : Prop) (ends : Script Answer → Prop) : Script Answer → Prop
  | arriving {script : Script Answer} :
      ends script →
      Leads catches ends script
  | done (answer : Answer) :
      Leads catches ends (.done answer)
  | fault (cause : Fault) :
      Leads catches ends (.unwind (.fault cause))
  | viewing
      {Result : Type}
      {look : Store → Result}
      {next : Result → Script Answer} :
      (∀ result, Leads catches ends (next result)) →
      Leads catches ends (.viewing look next)
  | acting
      {Result : Type}
      {action : StoreM Result}
      {next : Except Fault Result → Script Answer} :
      (∀ result, Leads catches ends (next result)) →
      Leads catches ends (.acting action next)
  | asking {request : Request} {next : Except Unwind Value → Script Answer} :
      request.IsInner →
      (∀ value, Leads catches ends (next (.ok value))) →
      (∀ reason, Passes reason (next (.error reason))) →
      Leads catches ends (.asking request next)
  | deferring {step : Step} {next : Except Unwind Step → Script Answer} :
      (∀ step, Leads catches ends (next (.ok step))) →
      (∀ reason, Passes reason (next (.error reason))) →
      Leads catches ends (.deferring step next)
  /-- The answer tells whether an escape is running, and the script does not use the escape. -/
  | testing {identity : Nat} {next : Bool → Script Answer} :
      Leads catches ends (next false) →
      Leads catches ends (next true) →
      Leads catches ends (.switching (Context.isRunning identity) next)
  /-- The answer tells whether an escape is running, and the script uses it if it is. -/
  | escaping {identity : Nat} {value : Value} {next : Bool → Script Answer} :
      Leads catches ends (next false) →
      next true = .unwind (.escape identity value) →
      Leads catches ends (.switching (Context.isRunning identity) next)
  | catching {request : Request} {next : Except Unwind Value → Script Answer} :
      catches →
      request.IsInner →
      (∀ result, Leads catches ends (next result)) →
      Leads catches ends (.asking request next)
  | forging {reason : Unwind} :
      catches →
      Leads catches ends (.unwind reason)

/-- The script needs no ends. -/
abbrev Ordinary (catches : Prop) (script : Script Answer) : Prop :=
  Leads catches (fun _ => False) script

variable
  {catches : Prop}
  {ends : Script Answer → Prop}

/-- Whatever comes after a script that only unwinds is never begun. -/
theorem Passes.bind
    {reason : Unwind}
    {first : Script First}
    (passes : Passes reason first)
    (rest : First → Script Second) :
    Passes reason (first.bind rest) := by
  induction passes with
  | unwinding becomes =>
      exact .unwinding becomes
  | viewing _ inductionHypothesis =>
      exact .viewing inductionHypothesis
  | waiting lacks _ _ whenWritten whenStopped =>
      exact .waiting lacks whenWritten whenStopped

/-- A missing answer only unwinds. -/
theorem passes_ofResult
    (reason : Unwind) :
    Passes reason (ofResult (.error reason) : Script Answer) :=
  .unwinding (.same reason)

namespace Leads

/-- More ends are as good. -/
theorem mono
    {others : Script Answer → Prop}
    {script : Script Answer}
    (leads : Leads catches ends script)
    (included : ∀ script, ends script → others script) :
    Leads catches others script := by
  induction leads with
  | arriving arrived =>
      exact .arriving (included _ arrived)
  | done answer =>
      exact .done answer
  | fault cause =>
      exact .fault cause
  | viewing _ inductionHypothesis =>
      exact .viewing inductionHypothesis
  | acting _ inductionHypothesis =>
      exact .acting inductionHypothesis
  | asking nested _ passes inductionHypothesis =>
      exact .asking nested inductionHypothesis passes
  | deferring _ passes inductionHypothesis =>
      exact .deferring inductionHypothesis passes
  | testing _ _ whenExpired whenRunning =>
      exact .testing whenExpired whenRunning
  | escaping _ used whenExpired =>
      exact .escaping whenExpired used
  | catching allowed nested _ inductionHypothesis =>
      exact .catching allowed nested inductionHypothesis
  | forging allowed =>
      exact .forging allowed

/-- An ordinary script leads to any ends. -/
theorem of_ordinary
    {script : Script Answer}
    (ordinary : Ordinary catches script) :
    Leads catches ends script :=
  ordinary.mono fun _ impossible => impossible.elim

/-- What follows an ordinary script decides where the whole leads. -/
theorem bind
    {first : Script First}
    {rest : First → Script Answer}
    (ordinary : Ordinary catches first)
    (continues : ∀ answer, Leads catches ends (rest answer)) :
    Leads catches ends (first >>= rest) := by
  change Leads catches ends (first.bind rest)
  induction ordinary with
  | arriving impossible =>
      exact impossible.elim
  | done answer =>
      exact continues answer
  | fault cause =>
      exact .fault cause
  | viewing _ inductionHypothesis =>
      exact .viewing inductionHypothesis
  | acting _ inductionHypothesis =>
      exact .acting inductionHypothesis
  | asking nested _ passes inductionHypothesis =>
      exact .asking nested inductionHypothesis fun reason => (passes reason).bind rest
  | deferring _ passes inductionHypothesis =>
      exact .deferring inductionHypothesis fun reason => (passes reason).bind rest
  | testing _ _ whenExpired whenRunning =>
      exact .testing whenExpired whenRunning
  | @escaping identity value next _ used whenExpired =>
      have usedFirst : (next true).bind rest = .unwind (.escape identity value) := by
        rw [used]
        rfl
      exact .escaping whenExpired usedFirst
  | catching allowed nested _ inductionHypothesis =>
      exact .catching allowed nested inductionHypothesis
  | forging allowed =>
      exact .forging allowed

end Leads

/-- What only unwinds for a fault unwinds with a fault. -/
theorem Passes.leads
    {cause : Fault}
    {script : Script Answer}
    (passes : Passes (.fault cause) script) :
    Leads catches ends script := by
  generalize isFault : Unwind.fault cause = reason at passes
  induction passes generalizing cause with
  | unwinding becomes =>
      subst isFault
      cases becomes with
      | same =>
          exact .fault cause
      | located _ expression =>
          exact .fault _
  | viewing _ inductionHypothesis =>
      exact .viewing fun result => inductionHypothesis result isFault
  | waiting _ _ passes whenWritten =>
      exact .asking trivial (fun value => whenWritten value rfl) passes

/-! The parts that constructs are made of. -/

/-- A look at the store leads nowhere else. -/
theorem leads_view
    {look : Store → Answer} :
    Leads catches ends (view look) :=
  .viewing .done

/-- A failure ends at once. -/
theorem leads_fail
    {cause : Fault} :
    Leads catches ends (fail cause) :=
  .fault cause

/-- To wait leads nowhere else. -/
theorem leads_wait
    {ends : Script Value → Prop} :
    Leads catches ends wait :=
  .asking trivial .done passes_ofResult

/-- Nothing follows a fault. -/
theorem bind_report
    (cause : Fault)
    (rest : First → Script Second) :
    (report cause).bind rest = report cause := by
  unfold report
  split
  · refine congrArg (Script.asking .endless) (funext fun result => ?_)
    cases result <;> rfl
  · rfl

/-- What follows a failure that tells a value is not run. -/
theorem bind_failTelling
    (value : Value)
    (fault : String → Fault)
    (rest : First → Script Second) :
    (failTelling value fault).bind rest = failTelling value fault := by
  refine congrArg (Script.viewing _) (funext fun text => ?_)
  cases text with
  | some text =>
      rfl
  | none =>
      refine congrArg (Script.asking .endless) (funext fun result => ?_)
      cases result <;> rfl

/-- A fault reported ends the script. -/
theorem leads_report
    {cause : Fault} :
    Leads catches ends (report cause) := by
  unfold report
  split
  · exact .bind leads_wait fun _ => leads_fail
  · exact leads_fail

/-- An action on the store leads nowhere else. -/
theorem leads_perform
    {action : StoreM Answer} :
    Leads catches ends (perform action) := by
  refine .acting fun result => ?_
  cases result with
  | error cause =>
      exact leads_report
  | ok answer =>
      exact .done answer

/-- To write a value leads nowhere else. -/
theorem leads_writing
    {ends : Script String → Prop}
    {value : Value} :
    Leads catches ends (writing value) := by
  refine .bind leads_view fun text => ?_
  cases text with
  | some text =>
      exact .done text
  | none =>
      exact .bind leads_wait fun _ => .done ""

/-- The refusal of a count ends the script. -/
theorem leads_refuseCount
    {expected given : Nat} :
    Leads catches ends (refuseCount expected given) :=
  leads_fail

section Values

variable
  {ends : Script Value → Prop}
  {scope : Scope}

/-- A nested evaluation comes back to the script. -/
theorem leads_evaluate
    {form : Value} :
    Leads catches ends (evaluate scope form) :=
  .asking trivial .done passes_ofResult

/-- A nested call comes back to the script. -/
theorem leads_call
    {callee : Value}
    {operands : List Value} :
    Leads catches ends (call callee operands) :=
  .asking trivial .done passes_ofResult

end Values

section Steps

variable
  {ends : Script Step → Prop}
  {scope : Scope}

/-- An answer ends the script. -/
theorem leads_answer
    {value : Value} :
    Leads catches ends (answer value) :=
  .done _

/-- A step handed on ends the script. -/
theorem leads_defer
    {step : Step} :
    Leads catches ends (defer step) :=
  .deferring .done passes_ofResult

/-- A form in tail position ends the script. -/
theorem leads_tail
    {form : Value} :
    Leads catches ends (tail scope form) := by
  unfold tail
  split
  · exact leads_defer
  · exact leads_defer
  · exact .bind leads_evaluate fun _ => leads_answer

/-- A body comes to its last form, which ends the script. -/
theorem leads_body
    {forms : List Value} :
    Leads catches ends (body scope forms) := by
  fun_induction body scope forms with
  | case1 =>
      exact leads_answer
  | case2 last =>
      exact leads_tail
  | case3 form rest _ inductionHypothesis =>
      exact .bind leads_evaluate fun _ => inductionHypothesis

end Steps

end Script

end SmallScheme
