import SmallScheme.Proofs.Host
import SmallScheme.Proofs.Moment.Basic

namespace SmallScheme

/-!
# Runs that respect a law

A construct may do more than comply with a law in an ordinary way: the brackets catch what unwinds
and change the dynamic context.  To respect the law it only has to use admitted scopes and to keep
what holds of the store.  All constructs do, whatever law is given, and so does every moment of a
run that begins with an admitted scope and a sound store.
-/

namespace Script

variable {First Answer : Type}

/-- Whatever the script does, it respects the law, and its answers are fine. -/
inductive Respects (law : Law) (fine : Answer → Prop) : Script Answer → Prop
  | done {answer : Answer} :
      fine answer →
      Respects law fine (.done answer)
  | unwind (reason : Unwind) :
      Respects law fine (.unwind reason)
  | viewing
      {Result : Type}
      {look : Store → Result}
      {next : Result → Script Answer} :
      (∀ store, law.sound store → Respects law fine (next (look store))) →
      Respects law fine (.viewing look next)
  | acting
      {Result : Type}
      {action : StoreM Result}
      {next : Except Fault Result → Script Answer} :
      StoreM.Keeps law.sound action →
      (∀ store, law.sound store → Respects law fine (next (action store).1)) →
      Respects law fine (.acting action next)
  | switching
      {Result : Type}
      {change : Context → Result × Context}
      {next : Result → Script Answer} :
      (∀ result, Respects law fine (next result)) →
      Respects law fine (.switching change next)
  | asking {request : Request} {next : Except Unwind Value → Script Answer} :
      law.Grants request →
      (∀ result, Respects law fine (next result)) →
      Respects law fine (.asking request next)
  | deferring {step : Step} {next : Except Unwind Step → Script Answer} :
      law.Permits step →
      Respects law fine (next (.ok step)) →
      Respects law fine (.deferring step next)

variable
  {law : Law}
  {fine : Answer → Prop}

/-- What only unwinds respects every law. -/
theorem Passes.respects
    {reason : Unwind}
    {script : Script Answer}
    (passes : Passes reason script) :
    Respects law fine script := by
  induction passes with
  | unwinding _ =>
      exact .unwind _
  | viewing _ inductionHypothesis =>
      exact .viewing fun _ _ => inductionHypothesis _
  | waiting _ _ _ whenWritten whenStopped =>
      refine .asking trivial fun result => ?_
      cases result with
      | ok value =>
          exact whenWritten value
      | error reason =>
          exact whenStopped reason

/-- What complies with a law respects it, provided that its ends do. -/
theorem Complies.respects
    {ends : Script Answer → Prop}
    {script : Script Answer}
    (complies : Complies law ends fine script)
    (respectful : ∀ script, ends script → Respects law fine script) :
    Respects law fine script := by
  induction complies with
  | arriving arrived =>
      exact respectful _ arrived
  | done isFine =>
      exact .done isFine
  | fault cause =>
      exact .unwind _
  | viewing _ inductionHypothesis =>
      exact .viewing fun _ _ => inductionHypothesis _
  | finding _ inductionHypothesis =>
      exact .viewing fun store sound => inductionHypothesis _ (law.encloses_procedure sound _)
  | acting keeps _ inductionHypothesis =>
      exact .acting keeps fun _ _ => inductionHypothesis _
  | entering encloses _ _ whenEntered _ =>
      refine .acting (law.keeps_child encloses) fun store sound => ?_
      exact whenEntered _ (law.admits_child encloses sound)
  | asking _ granted _ passes inductionHypothesis =>
      refine .asking granted fun result => ?_
      cases result with
      | ok value =>
          exact inductionHypothesis value
      | error reason =>
          exact (passes reason).respects

namespace Respects

theorem bind
    {fineFirst : First → Prop}
    {first : Script First}
    {rest : First → Script Answer}
    (respects : Respects law fineFirst first)
    (continues : ∀ answer, fineFirst answer → Respects law fine (rest answer)) :
    Respects law fine (first >>= rest) := by
  change Respects law fine (first.bind rest)
  induction respects with
  | done isFine =>
      exact continues _ isFine
  | unwind reason =>
      exact .unwind reason
  | viewing _ inductionHypothesis =>
      exact .viewing inductionHypothesis
  | acting keeps _ inductionHypothesis =>
      exact .acting keeps inductionHypothesis
  | switching _ inductionHypothesis =>
      exact .switching inductionHypothesis
  | asking granted _ inductionHypothesis =>
      exact .asking granted inductionHypothesis
  | deferring permitted _ inductionHypothesis =>
      exact .deferring permitted inductionHypothesis

/-- A script that is watched does the same. -/
theorem attempt
    {script : Script Answer}
    (respects : Respects law fine script) :
    Respects law (fun _ => True) script.attempt := by
  induction respects with
  | done _ =>
      exact .done trivial
  | unwind reason =>
      exact .done trivial
  | viewing _ inductionHypothesis =>
      exact .viewing inductionHypothesis
  | acting keeps _ inductionHypothesis =>
      exact .acting keeps inductionHypothesis
  | switching _ inductionHypothesis =>
      exact .switching inductionHypothesis
  | asking granted _ inductionHypothesis =>
      exact .asking granted inductionHypothesis
  | deferring permitted _ inductionHypothesis =>
      exact .deferring permitted inductionHypothesis

theorem of_plain
    {script : Script Answer}
    (plain : Complies law (fun _ => False) fine script) :
    Respects law fine script :=
  plain.respects fun _ impossible => impossible.elim

end Respects

/-- Answering with how something has ended, or unwinding with it. -/
private theorem respects_answerResult
    {result : Except Unwind Value} :
    Respects law law.Permits (ofResult result >>= answer) := by
  cases result with
  | ok value =>
      exact .done trivial
  | error reason =>
      exact .unwind reason

/-- A construct leaves by a step that is permitted. -/
private theorem Leaves.respects
    {script : Script Step}
    (leaves : Leaves law script) :
    Respects law law.Permits script := by
  cases leaves with
  | handingOver permitted last _ =>
      refine .deferring permitted ?_
      rw [last]
      exact .done permitted
  | escaping whenExpired used =>
      refine .switching fun running => ?_
      cases running with
      | false =>
          exact .of_plain whenExpired
      | true =>
          rw [used]
          exact .unwind _
  | refusing whenExpired whenRunning =>
      refine .switching fun running => ?_
      cases running with
      | false =>
          exact .of_plain whenExpired
      | true =>
          exact .of_plain whenRunning

end Script

open Script

variable {law : Law}

/-! The brackets. -/

namespace Special

private theorem respects_withEscape
    {receiver : Value} :
    Respects law law.Permits (withEscape receiver) := by
  refine .switching fun identity => .asking trivial fun result => .switching fun _ => ?_
  match result with
  | .ok value =>
      exact .done trivial
  | .error (.fault cause) =>
      exact .unwind _
  | .error (.escape target value) =>
      dsimp only
      split
      · exact .done trivial
      · exact .unwind _

private theorem respects_wind
    {before thunk after : Value} :
    Respects law law.Permits (call before [] >>= fun _ => windThrough thunk after) := by
  refine .bind (.of_plain plain_call) fun _ _ => .asking trivial fun result => ?_
  change Respects law law.Permits (windUp after result)
  exact .bind (.of_plain plain_call) fun _ _ => respects_answerResult

private theorem respects_offer
    {value : Value} :
    Respects law law.Permits (offer value) := by
  refine .switching fun handler => ?_
  cases handler with
  | none =>
      exact .unwind _
  | some handler =>
      exact .asking trivial fun result => .switching fun _ => respects_answerResult

private theorem respects_withHandler
    {handler thunk : Value} :
    Respects law law.Permits (withHandler handler thunk) := by
  refine .switching fun _ => .asking trivial fun result => .switching fun _ => ?_
  match result with
  | .ok value =>
      exact .done trivial
  | .error (.fault cause) =>
      exact .of_plain plain_handle
  | .error (.escape target value) =>
      exact .unwind _

private theorem keeps_exchange
    (rebound sofar : List (Nat × Value)) :
    StoreM.Keeps law.sound (StoreM.change fun store => exchange sofar store rebound) := by
  intro store holds
  induction rebound generalizing sofar store with
  | nil =>
      exact holds
  | cons pair rest inductionHypothesis =>
      have kept : law.sound (store.setParameter pair.1 pair.2) :=
        Store.Lexical.overlooks holds rfl rfl
      exact inductionHypothesis _ _ kept

private theorem respects_whileRebound
    {scope : Scope}
    (admits : law.admits scope)
    {rebound : List (Nat × Value)}
    {forms : List Value} :
    Respects law law.Permits (whileRebound scope rebound forms) := by
  refine .bind (.of_plain (plain_perform (keeps_exchange rebound []))) fun previous _ => ?_
  refine .acting (law.keeps_child (law.encloses_of_admits admits)) fun store sound => ?_
  change Respects law law.Permits
    ((Special.bodyValue (store.newChild scope).1 forms).attempt >>= restore previous)
  have admitsInner := law.admits_child (law.encloses_of_admits admits) sound
  generalize (store.newChild scope).1 = inner at admitsInner
  have body : Respects law law.Permits (Script.body inner forms) :=
    (lawful_body admitsInner).respects fun _ leaves => leaves.respects
  have bodyValue : Respects law (fun _ => True) (bodyValue inner forms) := by
    refine body.bind fun step permitted => .asking permitted fun result => ?_
    cases result with
    | ok value =>
        exact .done trivial
    | error reason =>
        exact .unwind reason
  have restored (result : Except Unwind Value) :
      Respects law law.Permits (restore previous result) := by
    refine .bind (.of_plain (plain_perform ?_)) fun _ _ => respects_answerResult
    exact fun store holds => keeps_exchange previous [] store holds
  exact bodyValue.attempt.bind fun result _ => restored result

end Special

/-- Whatever the host does, it respects the law. -/
structure Host.Respects (law : Law) (host : Host) : Prop where
  keeps : host.Keeps law.sound
  form :
    ∀ name scope operands,
      law.admits scope →
      Script.Respects law law.Permits (host.form name scope operands)

variable {host : Host}

/-- Whatever script a permitted step amounts to, it respects the law. -/
theorem Machine.respects_stepScript
    (respectful : host.Respects law)
    {step : Step}
    (permitted : law.Permits step)
    {script : Script Step}
    (amounts : Machine.stepScript host step = .inr script) :
    Script.Respects law law.Permits script := by
  have conforms := Machine.conforms_stepScript respectful.keeps permitted amounts
  refine conforms.respects fun script ended => ?_
  cases ended with
  | leaving leaves => exact leaves.respects
  | escape receiver => exact Special.respects_withEscape
  | wind before thunk after => exact Special.respects_wind
  | offer value => exact Special.respects_offer
  | handler handler thunk => exact Special.respects_withHandler
  | rebinding rebound forms admits => exact Special.respects_whileRebound admits
  | «foreign» name operands admits => exact respectful.form _ _ _ admits

/-- How far a script has come, it has respected the law, and what comes next respects it. -/
def Progress.Respects {Answer : Type} (law : Law) (fine : Answer → Prop) : Progress Answer → Prop
  | .ended result machine =>
      law.sound machine.store ∧ ∀ answer, result = .ok answer → fine answer
  | .asked request next machine =>
      law.sound machine.store ∧
        law.Grants request ∧
        ∀ result, Script.Respects law fine (next result)

theorem Script.Respects.advance
    {Answer : Type}
    {fine : Answer → Prop}
    {script : Script Answer}
    (respects : Script.Respects law fine script)
    {machine : Machine}
    (sound : law.sound machine.store) :
    (script.advance machine).Respects law fine := by
  induction respects generalizing machine with
  | done isFine =>
      refine ⟨sound, fun answer same => ?_⟩
      cases same
      exact isFine
  | unwind reason =>
      exact ⟨sound, fun answer impossible => nomatch impossible⟩
  | viewing _ inductionHypothesis =>
      exact inductionHypothesis _ sound sound
  | acting keeps _ inductionHypothesis =>
      exact inductionHypothesis _ sound (keeps _ sound)
  | switching _ inductionHypothesis =>
      exact inductionHypothesis _ sound
  | asking granted continues _ =>
      exact ⟨sound, granted, continues⟩
  | deferring _ _ inductionHypothesis =>
      exact inductionHypothesis sound

/-- What waits respects the law when it goes on. -/
def Pending.Respects (law : Law) : Pending → Prop
  | .level => True
  | .construct _ next => ∀ result, Script.Respects law law.Permits (next result)

namespace Moment

/-- What goes on, what waits and the store respect the law. -/
structure Respects (law : Law) (moment : Moment) : Prop where
  sound : law.sound moment.machine.store
  grants : ∀ request, moment.activity = .serving request → law.Grants request
  pending : ∀ waiting ∈ moment.pending, waiting.Respects law

variable
  {limit : Nat}
  {moment later : Moment}

private theorem Respects.ofProgress
    {progress : Progress Step}
    (respects : progress.Respects law law.Permits)
    {pending : List Pending}
    (waiting : ∀ one ∈ pending, one.Respects law) :
    (ofProgress pending progress).Respects law := by
  match progress, respects with
  | .ended (.ok step) machine, ⟨sound, fine⟩ =>
      refine ⟨sound, fun request serving => ?_, waiting⟩
      cases serving
      exact fine step rfl
  | .ended (.error reason) machine, ⟨sound, _⟩ =>
      exact ⟨sound, fun request impossible => (nomatch impossible), waiting⟩
  | .asked request next machine, ⟨sound, granted, continues⟩ =>
      refine ⟨sound, fun other serving => ?_, ?_⟩
      · cases serving
        exact granted
      · intro one member
        rcases List.mem_cons.mp member with rfl | member
        · exact continues
        · exact waiting one member

private theorem Respects.ofOpening
    {step : Step}
    (permitted : law.Permits step)
    {machine : Machine}
    (sound : law.sound machine.store)
    {pending : List Pending}
    (waiting : ∀ one ∈ pending, one.Respects law) :
    (ofOpening limit step pending machine).Respects law := by
  unfold Moment.ofOpening
  split
  · exact ⟨sound, fun request impossible => (nomatch impossible), waiting⟩
  · refine ⟨sound, fun request serving => ?_, ?_⟩
    · cases serving
      exact permitted
    · intro one member
      rcases List.mem_cons.mp member with rfl | member
      · trivial
      · exact waiting one member

/-- What one moment respects, the next one respects. -/
theorem Respects.next
    (respectful : host.Respects law)
    (respects : moment.Respects law)
    (next : moment.next? host limit = some later) :
    later.Respects law := by
  obtain ⟨sound, grants, waiting⟩ := respects
  cases steps_of_next? next with
  | @evaluating scope form _ _ =>
      have permitted : law.Permits (.tail scope form) := grants _ rfl
      exact .ofOpening permitted sound waiting
  | @calling callee operands _ _ =>
      have permitted : law.Permits (.apply callee operands) := trivial
      exact .ofOpening permitted sound waiting
  | finishing _ | reaching =>
      exact ⟨sound, fun request impossible => (nomatch impossible), waiting⟩
  | waiting =>
      exact ⟨sound, grants, waiting⟩
  | beginning amounts =>
      have permitted := grants _ rfl
      have respects := Machine.respects_stepScript respectful permitted amounts
      exact .ofProgress (respects.advance sound) waiting
  | closing =>
      have waitingRest := fun one member => waiting one (List.mem_cons_of_mem _ member)
      exact ⟨sound, fun request impossible => (nomatch impossible), waitingRest⟩
  | @resuming result request continuation pending machine =>
      have waitingRest := fun one member => waiting one (List.mem_cons_of_mem _ member)
      have goesOn := waiting (.construct request continuation) List.mem_cons_self
      exact .ofProgress ((goesOn result).advance sound) waitingRest

/-- All moments of a run respect the law, if its beginning does. -/
theorem Respects.reaching
    (respectful : host.Respects law)
    (respects : moment.Respects law)
    (reaches : Reaches host limit moment later) :
    later.Respects law := by
  induction reaches with
  | refl =>
      exact respects
  | tail _ next inductionHypothesis =>
      exact inductionHypothesis.next respectful next

/-- A run begins in respect of the law if what it serves is granted. -/
theorem Respects.serving
    {request : Request}
    (granted : law.Grants request)
    {machine : Machine}
    (sound : law.sound machine.store) :
    (⟨.serving request, [], machine⟩ : Moment).Respects law where
  sound := sound
  grants := by
    intro other serving
    cases serving
    exact granted
  pending := by
    intro one member
    cases member

end Moment

/-- The absent host only fails. -/
theorem Host.absent_respects
    (law : Law) :
    Host.absent.Respects law where
  keeps := Host.keeps_absent law
  form _ _ _ _ := .unwind _

/-- The sample host makes fresh objects and hands over its tail positions. -/
theorem Host.sample_respects
    (law : Law) :
    Host.sample.Respects law where
  keeps := Host.keeps_sample law
  form name _ operands admits :=
    (Host.Sample.lawful_form name admits operands).respects fun _ leaves => leaves.respects

end SmallScheme
