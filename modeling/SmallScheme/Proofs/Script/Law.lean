import SmallScheme.Proofs.Script.Conduct
import SmallScheme.Proofs.Store.Lexical

namespace SmallScheme

/-!
# Laws for scripts

A law tells in which scopes forms may be evaluated, which scopes procedures may belong to, and what
always holds of the store.  A script complies with a law if it evaluates forms only in scopes that
the law admits, keeps what holds of the store, and otherwise does nothing but what ordinary scripts
do.  Every construct complies with every law until it comes to one of a few ends, and this is the
one pass over all constructs: what is to be known about them is read off it by the choice of the law
and of what is shown about the ends.
-/

/-- Which scopes may be used and what holds of the store, closed under what constructs do. -/
structure Law where
  /-- What always holds of the store. -/
  sound : Store → Prop
  /-- Forms may be evaluated in the scope. -/
  admits : Scope → Prop
  /-- Procedures may belong to the scope, and scopes may be made inside it. -/
  encloses : Scope → Prop
  lexical : Store.Lexical sound
  encloses_of_admits : ∀ {scope}, admits scope → encloses scope
  encloses_procedure :
    ∀ {store : Store},
      sound store →
      ∀ address : Nat, encloses (store.procedures[address]?.getD default).scope
  admits_child :
    ∀ {scope : Scope} {store : Store},
      encloses scope →
      sound store →
      admits (store.newChild scope).1
  keeps_child :
    ∀ {scope : Scope},
      encloses scope →
      StoreM.Keeps sound (StoreM.change (Store.newChild scope))
  keeps_procedure :
    ∀ {procedure : Procedure},
      encloses procedure.scope →
      StoreM.Keeps sound (StoreM.change (Store.newProcedure procedure))
  keeps_name :
    ∀ address name,
      StoreM.Keeps sound (StoreM.change fun store => ((), store.nameProcedure address name))
  keeps_define :
    ∀ {scope},
      admits scope →
      ∀ name value, StoreM.Keeps sound (Store.define scope name value)
  keeps_assign :
    ∀ {scope},
      admits scope →
      ∀ name value, StoreM.Keeps sound (Store.assign scope name value)
  keeps_namespace :
    ∀ {scope},
      admits scope →
      ∀ name,
        StoreM.Keeps sound (StoreM.change fun store => ((), store.useNamespace scope name))

attribute [instance] Law.lexical

namespace Law

/-- The law that allows everything. -/
def free : Law where
  sound _ := True
  admits _ := True
  encloses _ := True
  lexical := ⟨fun _ _ _ => trivial⟩
  encloses_of_admits := id
  encloses_procedure _ _ := trivial
  admits_child _ _ := trivial
  keeps_child _ _ _ := trivial
  keeps_procedure _ _ _ := trivial
  keeps_name _ _ _ _ := trivial
  keeps_define _ _ _ _ _ := trivial
  keeps_assign _ _ _ _ _ := trivial
  keeps_namespace _ _ _ _ := trivial

variable (law : Law)

/-- The step may be carried out. -/
def Permits : Step → Prop
  | .value _ => True
  | .tail scope _ => law.admits scope
  | .apply _ _ => True
  | .expand scope _ => law.admits scope

/-- The request may be made. -/
def Grants : Request → Prop
  | .evaluate scope _ => law.admits scope
  | .finish step => law.Permits step
  | _ => True

end Law

namespace Script

variable {First Answer : Type}

/--
The script complies with the law in an ordinary way, until it comes to one of the ends.  Its own
answers are fine.
-/
inductive Complies
    (law : Law)
    (ends : Script Answer → Prop)
    (fine : Answer → Prop) : Script Answer → Prop
  | arriving {script : Script Answer} :
      ends script →
      Complies law ends fine script
  | done {answer : Answer} :
      fine answer →
      Complies law ends fine (.done answer)
  | fault (cause : Fault) :
      Complies law ends fine (.unwind (.fault cause))
  | viewing
      {Result : Type}
      {look : Store → Result}
      {next : Result → Script Answer} :
      (∀ result, Complies law ends fine (next result)) →
      Complies law ends fine (.viewing look next)
  /-- A procedure is looked up; its scope is one that procedures may belong to. -/
  | finding {address : Nat} {next : Procedure → Script Answer} :
      (∀ procedure, law.encloses procedure.scope → Complies law ends fine (next procedure)) →
      Complies law ends fine
        (.viewing (fun store => store.procedures[address]?.getD default) next)
  | acting
      {Result : Type}
      {action : StoreM Result}
      {next : Except Fault Result → Script Answer} :
      StoreM.Keeps law.sound action →
      (∀ result, Complies law ends fine (next result)) →
      Complies law ends fine (.acting action next)
  /-- A scope is made inside another one, and forms may be evaluated there. -/
  | entering {scope : Scope} {next : Except Fault Scope → Script Answer} :
      law.encloses scope →
      (∀ inner, law.admits inner → Complies law ends fine (next (.ok inner))) →
      (∀ fault, Complies law ends fine (next (.error fault))) →
      Complies law ends fine (.acting (StoreM.change (Store.newChild scope)) next)
  | asking {request : Request} {next : Except Unwind Value → Script Answer} :
      request.IsInner →
      law.Grants request →
      (∀ value, Complies law ends fine (next (.ok value))) →
      (∀ reason, Passes reason (next (.error reason))) →
      Complies law ends fine (.asking request next)

/-- The script complies with the law and comes to no end but an answer or an unwinding. -/
abbrev Plain (law : Law) (script : Script Answer) : Prop :=
  Complies law (fun _ => False) (fun _ => True) script

/-- A construct that comes here leaves by its tail position or by an escape. -/
inductive Leaves (law : Law) : Script Step → Prop
  /-- The tail position is handed over, and nothing comes after it. -/
  | handingOver {step : Step} {next : Except Unwind Step → Script Step} :
      law.Permits step →
      (∀ step, next (.ok step) = .done step) →
      (∀ reason, Passes reason (next (.error reason))) →
      Leaves law (.deferring step next)
  /-- An escape is used if its receiver is still running. -/
  | escaping {identity : Nat} {value : Value} {next : Bool → Script Step} :
      Complies law (fun _ => False) law.Permits (next false) →
      next true = .unwind (.escape identity value) →
      Leaves law (.switching (Context.isRunning identity) next)
  /-- An escape cannot be used, whether or not its receiver is running. -/
  | refusing {identity : Nat} {next : Bool → Script Step} :
      Complies law (fun _ => False) law.Permits (next false) →
      Complies law (fun _ => False) law.Permits (next true) →
      Leaves law (.switching (Context.isRunning identity) next)

/-- The construct complies with the law until it leaves. -/
abbrev Lawful (law : Law) (script : Script Step) : Prop :=
  Complies law (Leaves law) law.Permits script

variable
  {law : Law}
  {ends : Script Answer → Prop}
  {fine : Answer → Prop}

namespace Complies

/-- More ends are as good. -/
theorem mono
    {others : Script Answer → Prop}
    {script : Script Answer}
    (complies : Complies law ends fine script)
    (included : ∀ script, ends script → Complies law others fine script) :
    Complies law others fine script := by
  induction complies with
  | arriving arrived =>
      exact included _ arrived
  | done isFine =>
      exact .done isFine
  | fault cause =>
      exact .fault cause
  | viewing _ inductionHypothesis =>
      exact .viewing inductionHypothesis
  | finding _ inductionHypothesis =>
      exact .finding inductionHypothesis
  | acting keeps _ inductionHypothesis =>
      exact .acting keeps inductionHypothesis
  | entering encloses _ _ whenEntered whenRefused =>
      exact .entering encloses whenEntered whenRefused
  | asking nested granted _ passes inductionHypothesis =>
      exact .asking nested granted inductionHypothesis passes

/-- What follows a plain script decides where the whole comes to. -/
theorem bind
    {first : Script First}
    {rest : First → Script Answer}
    (plain : Plain law first)
    (continues : ∀ answer, Complies law ends fine (rest answer)) :
    Complies law ends fine (first >>= rest) := by
  change Complies law ends fine (first.bind rest)
  induction plain with
  | arriving impossible =>
      exact impossible.elim
  | done _ =>
      exact continues _
  | fault cause =>
      exact .fault cause
  | viewing _ inductionHypothesis =>
      exact .viewing inductionHypothesis
  | finding _ inductionHypothesis =>
      exact .finding inductionHypothesis
  | acting keeps _ inductionHypothesis =>
      exact .acting keeps inductionHypothesis
  | entering encloses _ _ whenEntered whenRefused =>
      exact .entering encloses whenEntered whenRefused
  | asking nested granted _ passes inductionHypothesis =>
      exact .asking nested granted inductionHypothesis fun reason => (passes reason).bind rest

/-- A script that complies with the law that allows everything is ordinary up to its ends. -/
theorem leads
    {catches : Prop}
    {others : Script Answer → Prop}
    {script : Script Answer}
    (complies : Complies .free ends fine script)
    (included : ∀ script, ends script → Leads catches others script) :
    Leads catches others script := by
  induction complies with
  | arriving arrived =>
      exact included _ arrived
  | done _ =>
      exact .done _
  | fault cause =>
      exact .fault cause
  | viewing _ inductionHypothesis =>
      exact .viewing inductionHypothesis
  | finding _ inductionHypothesis =>
      exact .viewing fun procedure => inductionHypothesis procedure trivial
  | acting _ _ inductionHypothesis =>
      exact .acting inductionHypothesis
  | entering _ _ _ whenEntered whenRefused =>
      refine .acting fun result => ?_
      cases result with
      | error fault =>
          exact whenRefused fault
      | ok inner =>
          exact whenEntered inner trivial
  | asking nested _ _ passes inductionHypothesis =>
      exact .asking nested inductionHypothesis passes

end Complies

/-! The parts that constructs are made of. -/

/-- A look at the store breaks no law. -/
theorem plain_view
    {look : Store → Answer} :
    Plain law (view look) :=
  .viewing fun _ => .done trivial

/-- A failure complies with every law. -/
theorem complies_fail
    {cause : Fault} :
    Complies law ends fine (fail cause) :=
  .fault cause

/-- A law allows a script to wait. -/
theorem plain_wait :
    Plain law wait :=
  .asking trivial trivial (fun _ => .done trivial) passes_ofResult

/-- Reporting a fault complies with every law, whatever the fault is. -/
theorem complies_report
    {cause : Fault} :
    Complies law ends fine (report cause) := by
  unfold report
  split
  · exact .bind plain_wait fun _ => complies_fail
  · exact complies_fail

/-- An action that keeps what the law keeps breaks no law. -/
theorem plain_perform
    {action : StoreM Answer}
    (keeps : StoreM.Keeps law.sound action) :
    Plain law (perform action) := by
  refine .acting keeps fun result => ?_
  cases result with
  | error cause =>
      exact complies_report
  | ok answer =>
      exact .done trivial

/-- To write a value breaks no law, also where the writing has no end. -/
theorem plain_writing
    {value : Value} :
    Plain law (writing value) := by
  refine .bind plain_view fun text => ?_
  cases text with
  | some text =>
      exact .done trivial
  | none =>
      exact .bind plain_wait fun _ => .done trivial

/-- A failure that tells a value complies with every law. -/
theorem complies_failTelling
    {value : Value}
    {fault : String → Fault} :
    Complies law ends fine (failTelling value fault) :=
  .bind plain_writing fun _ => complies_fail

/-- To ask whether a scope is still held breaks no law. -/
theorem plain_reaches
    {scope home : Scope} :
    Plain law (reaches scope home) :=
  .bind (.asking trivial trivial (fun _ => .done trivial) passes_ofResult) fun _ => .done trivial

/-- A failure that is read off the store complies with every law. -/
theorem complies_failWith
    {fault : Store → Fault} :
    Complies law ends fine (failWith fault) :=
  .bind plain_view fun _ => complies_fail

/-- The refusal of a count of operands complies with every law. -/
theorem complies_refuseCount
    {expected given : Nat} :
    Complies law ends fine (refuseCount expected given) :=
  complies_fail

/-- Procedures belong to scopes that procedures may belong to. -/
theorem complies_finding
    {address : Nat}
    {rest : Procedure → Script Answer}
    (continues :
      ∀ procedure,
        law.encloses procedure.scope →
        Complies law ends fine (rest procedure)) :
    Complies law ends fine
      (view (fun store => store.procedures[address]?.getD default) >>= rest) :=
  .finding continues

/-- Forms may be evaluated in a scope that has just been made. -/
theorem complies_entering
    {scope : Scope}
    {rest : Scope → Script Answer}
    (encloses : law.encloses scope)
    (continues : ∀ inner, law.admits inner → Complies law ends fine (rest inner)) :
    Complies law ends fine (perform (StoreM.change (Store.newChild scope)) >>= rest) := by
  refine .entering encloses continues fun cause => ?_
  change Complies law ends fine ((report cause).bind rest)
  rw [bind_report]
  exact complies_report

section Values

variable {scope : Scope}

/-- A nested evaluation is within the law where the law admits its scope. -/
theorem plain_evaluate
    (admits : law.admits scope)
    {form : Value} :
    Plain law (evaluate scope form) :=
  .asking trivial admits (fun _ => .done trivial) passes_ofResult

/-- A nested call is within every law. -/
theorem plain_call
    {callee : Value}
    {operands : List Value} :
    Plain law (call callee operands) :=
  .asking trivial trivial (fun _ => .done trivial) passes_ofResult

/-- Forms evaluated in turn are within the law where the law admits their scope. -/
theorem plain_evaluateAll
    (admits : law.admits scope)
    {sofar forms : List Value} :
    Plain law (evaluateAll scope sofar forms) := by
  induction forms generalizing sofar with
  | nil =>
      exact .done trivial
  | cons form rest inductionHypothesis =>
      exact .bind (plain_evaluate admits) fun _ => inductionHypothesis

/-- The name that a construct defines is read within every law. -/
theorem plain_nameFor
    {construct : String}
    {form : Value} :
    Plain law (nameFor construct form) := by
  unfold nameFor
  split
  · exact .done trivial
  · exact complies_failTelling

end Values

section Steps

variable
  {ends : Script Step → Prop}
  {scope : Scope}

/-- A value at once complies with every law. -/
theorem complies_answer
    {value : Value} :
    Complies law ends law.Permits (answer value) :=
  .done trivial

/-- An object made and answered complies with the law where making it keeps what the law keeps. -/
theorem complies_answerFresh
    {make : Store → Value × Store}
    (keeps : StoreM.Keeps law.sound (StoreM.change make)) :
    Complies law ends law.Permits (answerFresh make) :=
  .bind (plain_perform keeps) fun _ => complies_answer

/-- A step handed on is lawful where the law permits the step. -/
theorem lawful_defer
    {step : Step}
    (permitted : law.Permits step) :
    Lawful law (defer step) :=
  .arriving (.handingOver permitted (fun _ => rfl) passes_ofResult)

/-- A form in tail position is lawful where the law admits the scope. -/
theorem lawful_tail
    (admits : law.admits scope)
    {form : Value} :
    Lawful law (tail scope form) := by
  unfold tail
  split
  · exact lawful_defer admits
  · exact lawful_defer admits
  · exact .bind (plain_evaluate admits) fun _ => complies_answer

/-- A body is lawful where the law admits the scope of its forms. -/
theorem lawful_body
    (admits : law.admits scope)
    {forms : List Value} :
    Lawful law (body scope forms) := by
  fun_induction body scope forms with
  | case1 =>
      exact complies_answer
  | case2 last =>
      exact lawful_tail admits
  | case3 form rest _ inductionHypothesis =>
      exact .bind (plain_evaluate admits) fun _ => inductionHypothesis

end Steps

end Script

end SmallScheme
