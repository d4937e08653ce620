import SmallScheme.Evaluation.Machine
import SmallScheme.Proofs.Script.Special
import SmallScheme.Proofs.Store.Primitive

namespace SmallScheme

/-!
# The conduct of every construct

Quasiquotation, application and the evaluation of forms comply with every law up to the special
forms that they may come to.  So each script that the machine carries out comes to one of the ends
of a construct, if it comes to anything; and it leads to a bracket, provided that the host is
restrained.
-/

open Script

namespace Quasiquotation

variable
  {law : Law}
  {Answer : Type}
  {ends : Script Answer → Prop}
  {fine : Answer → Prop}
  {scope : Scope}

/-- The items of a vector are expanded one after the other. -/
private theorem complies_collect
    {expandOne : Value → (List Value → Script Answer) → Script Answer}
    {next : List Value → Script Answer}
    {sofar items : List Value}
    (each :
      ∀ item continuation,
        (∀ items, Complies law ends fine (continuation items)) →
        Complies law ends fine (expandOne item continuation))
    (continues : ∀ items, Complies law ends fine (next items)) :
    Complies law ends fine (collect expandOne next sofar items) := by
  induction items generalizing sofar with
  | nil =>
      exact continues _
  | cons item rest inductionHypothesis =>
      exact each _ _ fun _ => inductionHypothesis

/-- A mark is spelled out before the expansion goes on. -/
private theorem complies_wrap
    {mark : Mark}
    {datum : Value}
    {next : Value → Script Answer}
    (continues : ∀ value, Complies law ends fine (next value)) :
    Complies law ends fine (wrap mark datum >>= next) :=
  .bind (plain_perform (Store.keeps_wrap _ _)) continues

/-- The items that are spliced in are only read. -/
private theorem plain_splice
    {value : Value} :
    Plain law (splice value) := by
  refine .bind plain_view fun items => ?_
  split
  · exact .done trivial
  · exact complies_failWith

/--
Expansion is given what to do with its result, so it comes to the ends that it comes to.  The three
functions call each other with one unit of fuel less; the statement about all of them goes by
induction on the fuel.
-/
private theorem complies_expanding
    (admits : law.admits scope)
    (fuel : Nat) :
    (∀ level template next,
      (∀ value, Complies law ends fine (next value)) →
      Complies law ends fine (expand scope fuel level template next)) ∧
    (∀ level sofar rest next,
      (∀ parts, Complies law ends fine (next parts)) →
      Complies law ends fine (expandList scope fuel level sofar rest next)) ∧
    (∀ level item next,
      (∀ items, Complies law ends fine (next items)) →
      Complies law ends fine (expandItem scope fuel level item next)) := by
  induction fuel with
  | zero =>
      refine ⟨?_, ?_, ?_⟩
      · intro level template next continues
        exact continues _
      · intro level sofar rest next continues
        exact continues _
      · intro level item next continues
        exact continues _
  | succ fuel inductionHypothesis =>
      obtain ⟨template, list, item⟩ := inductionHypothesis
      refine ⟨?_, ?_, ?_⟩
      · intro level form next continues
        refine .bind plain_view fun mark => ?_
        split
        · split
          · exact .bind (plain_evaluate admits) fun _ => continues _
          · exact template _ _ _ fun _ => complies_wrap continues
        · split
          · exact complies_failTelling
          · exact template _ _ _ fun _ => complies_wrap continues
        · exact template _ _ _ fun _ => complies_wrap continues
        · exact template _ _ _ fun _ => complies_wrap continues
        · split
          · refine list _ _ _ _ fun parts => ?_
            exact .bind (plain_perform (Store.keeps_newListWithTail _ _)) fun _ => continues _
          · refine .bind plain_view fun items => complies_collect (item _) fun expanded => ?_
            refine .bind (plain_perform ?_) fun _ => continues _
            exact Store.keeps_outside (fun _ => rfl) fun _ => rfl
          · exact .bind (plain_perform (Store.keeps_quoteValue _)) fun _ => continues _
      · intro level sofar rest next continues
        refine .bind plain_view fun pair => ?_
        split
        · refine item _ _ _ fun items => .bind plain_view fun rest => ?_
          exact list _ _ _ _ continues
        · exact template _ _ _ fun _ => continues _
      · intro level form next continues
        refine .bind plain_view fun mark => ?_
        split
        · split
          · exact .bind (plain_evaluate admits) fun _ => .bind plain_splice fun _ => continues _
          · exact template _ _ _ fun _ => continues _
        · exact template _ _ _ fun _ => continues _

/-- Of a template nothing but its unquoted parts is evaluated. -/
theorem plain_value
    (admits : law.admits scope)
    {template : Value} :
    Plain law (value scope template) :=
  .bind plain_view fun _ => (complies_expanding admits _).1 _ _ _ fun _ => .done trivial

end Quasiquotation

variable
  {law : Law}
  {host : Host}
  {scope : Scope}

namespace Special

variable {operands : List Value}

/-- Data are quoted without anything being evaluated. -/
theorem lawful_quotation :
    Lawful law (quotation operands) := by
  unfold quotation
  split
  · exact complies_answerFresh (Store.keeps_quoteValue _)
  · exact complies_refuseCount

/-- The expansion of a template is an answer. -/
theorem lawful_quasiquotation
    (admits : law.admits scope) :
    Lawful law (quasiquotation scope operands) := by
  unfold quasiquotation
  split
  · exact .bind (Quasiquotation.plain_value admits) fun _ => complies_answer
  · exact complies_refuseCount

end Special

open Special

/-- All special forms conform, each by its own lemma. -/
theorem SpecialForm.conforms_script
    (admits : law.admits scope)
    (form : SpecialForm)
    (operands : List Value) :
    Conforms law host (form.script host scope operands) := by
  cases form with
  | quotation => exact .of_lawful lawful_quotation
  | quasiquotation => exact .of_lawful (lawful_quasiquotation admits)
  | conditional => exact .of_lawful (lawful_conditional admits)
  | sequence => exact .of_lawful (lawful_body admits)
  | definition => exact .of_lawful (lawful_definition admits)
  | assignment => exact .of_lawful (lawful_assignment admits)
  | procedure => exact .of_lawful (lawful_procedure admits)
  | letBlock => exact .of_lawful (lawful_letBlock admits)
  | letStarBlock => exact .of_lawful (lawful_block admits)
  | letrecBlock => exact .of_lawful (lawful_block admits)
  | letrecStarBlock => exact .of_lawful (lawful_block admits)
  | clauses => exact .of_lawful (lawful_clauses admits)
  | caseClauses => exact .of_lawful (lawful_caseClauses admits)
  | conjunction => exact .of_lawful (lawful_conjunction admits)
  | disjunction => exact .of_lawful (lawful_disjunction admits)
  | application => exact .of_lawful (lawful_application admits)
  | mapping => exact .of_lawful (lawful_mapping admits)
  | iteration => exact .of_lawful (lawful_iteration admits)
  | evaluation => exact .of_lawful (lawful_evaluation admits)
  | parameter => exact .of_lawful (lawful_parameter admits)
  | rebinding => exact conforms_rebinding admits
  | namespaceUse => exact .of_lawful (lawful_namespaceUse admits)
  | transformerDefinition => exact .of_lawful (lawful_transformerDefinition admits)
  | transformer => exact .of_lawful lawful_transformer
  | expansion => exact .of_lawful (lawful_expansion admits)
  | escapeShort => exact conforms_escaping admits
  | escapeLong => exact conforms_escaping admits
  | escapeOnly => exact conforms_escaping admits
  | wind => exact conforms_wind admits
  | continuableRaise => exact conforms_continuableRaise admits
  | handling => exact conforms_handling admits
  | «foreign» name _ => exact .arriving (.foreign name operands admits)

/-- The actions of the host on the store keep what always holds of it. -/
structure Host.Keeps (sound : Store → Prop) (host : Host) : Prop where
  resolve : ∀ name count namespaces, StoreM.Keeps sound (host.resolve name count namespaces)
  invoke : ∀ member operands, StoreM.Keeps sound (host.invoke member operands)
  call : ∀ object operands, StoreM.Keeps sound (host.call object operands)
  function : ∀ name operands, StoreM.Keeps sound (host.function name operands)

/-- Nothing holds of the store by the law that allows everything. -/
theorem Host.keeps_free
    (host : Host) :
    host.Keeps Law.free.sound where
  resolve _ _ _ _ _ := trivial
  invoke _ _ _ _ := trivial
  call _ _ _ _ := trivial
  function _ _ _ _ := trivial

namespace Application

/-- Operands are evaluated in the order in which they stand. -/
private theorem plain_operandsFrom
    (admits : law.admits scope)
    {steps : Nat}
    {sofar : List Value}
    {rest : Value} :
    Plain law (operandsFrom scope steps sofar rest) := by
  induction steps generalizing sofar rest with
  | zero =>
      exact .done trivial
  | succ steps inductionHypothesis =>
      unfold operandsFrom
      split
      · refine .bind plain_view fun pair => ?_
        exact .bind (plain_evaluate admits) fun _ => inductionHypothesis
      · exact .done trivial

/-- All operands are evaluated before the call. -/
theorem plain_operandValues
    (admits : law.admits scope)
    {operands : Value} :
    Plain law (operandValues scope operands) := by
  refine .bind plain_view fun shape => ?_
  split
  · exact plain_operandsFrom admits
  · exact complies_failWith

/-- Names are bound one after the other. -/
private theorem keeps_defineAll
    (admits : law.admits scope)
    (bindings : List (String × Value)) :
    StoreM.Keeps law.sound (Store.defineAll scope bindings) := by
  induction bindings with
  | nil =>
      exact .pure _
  | cons binding rest inductionHypothesis =>
      exact .bind (law.keeps_define admits _ _) fun _ => inductionHypothesis

/-- Formals are bound in a fresh frame only. -/
private theorem keeps_bindFormals
    (admits : law.admits scope)
    (procedure : Procedure)
    (operands : List Value) :
    StoreM.Keeps law.sound (Store.bindFormals procedure scope operands) := by
  have keepsList (name : String) (items : List Value) :
      StoreM.Keeps law.sound (Store.defineList scope name items) :=
    .bind (Store.keeps_newList _) fun _ => law.keeps_define admits _ _
  unfold Store.bindFormals
  split
  · exact keepsList _ _
  · split
    · exact keeps_defineAll admits _
    · exact .throw _
  · split
    · exact .throw _
    · exact .bind (keeps_defineAll admits _) fun _ => keepsList _ _

/-- Whatever is called, the call is left in tail position. -/
theorem lawful_apply
    (keeps : host.Keeps law.sound)
    {callee : Value}
    {operands : List Value} :
    Lawful law (apply host callee operands) := by
  unfold apply
  split
  · refine complies_finding fun procedure encloses => ?_
    refine complies_entering encloses fun inner admits => ?_
    exact .bind (plain_perform (keeps_bindFormals admits _ _)) fun _ => lawful_body admits
  · refine .bind (plain_perform ?_) fun _ => complies_answer
    exact Primitive.keeps_apply keeps.function _ _
  · exact lawful_escape
  · split
    · exact .bind plain_view fun _ => complies_answer
    · exact complies_refuseCount
  · exact .bind plain_view fun _ => .bind (plain_perform (keeps.call _ _)) fun _ => complies_answer
  · exact complies_failTelling

/-- A fault tells at most once where it arose. -/
private theorem inExpression_inExpression
    (cause : Fault)
    (first second : String) :
    (cause.inExpression first).inExpression second = cause.inExpression first := by
  cases cause with
  | arity expected given expression =>
      cases expression <;> rfl
  | _ => rfl

/-- Where a fault came from is told once. -/
private theorem lacksExpression_inExpression
    (cause : Fault)
    (expression : String) :
    (cause.inExpression expression).lacksExpression = false := by
  cases cause with
  | arity expected given present =>
      cases present <;> rfl
  | _ => rfl

/-- A fault that tells where it arose is still what the first one becomes. -/
private theorem becomes_located
    {reason : Unwind}
    {cause : Fault}
    (becomes : reason.Becomes (.fault cause))
    (expression : String) :
    reason.Becomes (.fault (cause.inExpression expression)) := by
  cases becomes with
  | same =>
      exact .located cause expression
  | located first inner =>
      rw [inExpression_inExpression]
      exact .located first inner

/-- Telling where a fault arose may take writing a text without an end. -/
private theorem passes_failTelling
    {form : Value}
    {reason : Unwind}
    {cause : Fault}
    (becomes : reason.Becomes (.fault cause))
    (lacks : cause.lacksExpression = true) :
    Passes reason (failTelling form cause.inExpression : Script Step) := by
  have located (text : String) : Passes reason (fail (cause.inExpression text) : Script Step) :=
    .unwinding (becomes_located becomes text)
  refine .viewing fun text => ?_
  cases text with
  | some text =>
      exact located text
  | none =>
      cases becomes with
      | same =>
          exact .waiting lacks (fun _ => located _) passes_ofResult
      | located first inner =>
          cases (lacksExpression_inExpression first inner).symm.trans lacks

/-- What only unwinds still does after it has been told where it arose. -/
private theorem passes_locate
    {form : Value}
    {reason : Unwind}
    {script : Script Step}
    (passes : Passes reason script) :
    Passes reason (script.attempt.bind (locate form)) := by
  induction passes with
  | @unwinding reason last becomes =>
      cases last with
      | escape identity value =>
          exact .unwinding becomes
      | fault cause =>
          change Passes reason (locate form (.error (.fault cause)))
          simp only [locate]
          split
          case isTrue lacks => exact passes_failTelling becomes lacks
          case isFalse => exact .unwinding becomes
  | viewing _ inductionHypothesis =>
      exact .viewing inductionHypothesis
  | waiting lacks _ _ whenWritten whenStopped =>
      exact .waiting lacks whenWritten whenStopped

/-- What complies up to its ends still does when its faults are told where they arose. -/
private theorem complies_locate
    {ends others : Script Step → Prop}
    {form : Value}
    {script : Script Step}
    (complies : Complies law ends law.Permits script)
    (included : ∀ script, ends script → others (script.attempt.bind (locate form))) :
    Complies law others law.Permits (script.attempt.bind (locate form)) := by
  induction complies with
  | arriving arrived =>
      exact .arriving (included _ arrived)
  | done permitted =>
      exact .done permitted
  | fault cause =>
      change Complies law others law.Permits (locate form (.error (.fault cause)))
      simp only [locate]
      split
      · exact complies_failTelling
      · exact complies_fail
  | viewing _ inductionHypothesis =>
      exact .viewing inductionHypothesis
  | finding _ inductionHypothesis =>
      exact .finding inductionHypothesis
  | acting keeps _ inductionHypothesis =>
      exact .acting keeps inductionHypothesis
  | entering encloses _ _ whenEntered whenRefused =>
      exact .entering encloses whenEntered whenRefused
  | asking nested granted _ passes inductionHypothesis =>
      exact .asking nested granted inductionHypothesis fun reason => passes_locate (passes reason)

/-- To tell where a fault came from is to pass on what unwinds. -/
theorem lawful_locate
    {form : Value}
    {script : Script Step}
    (lawful : Lawful law script) :
    Lawful law (script.attempt.bind (locate form)) := by
  refine complies_locate lawful fun script leaves => ?_
  cases leaves with
  | @handingOver step next permitted last passes =>
      refine .handingOver permitted (fun step => ?_) fun reason => passes_locate (passes reason)
      change (next (.ok step)).attempt.bind (locate form) = .done step
      rw [last]
      rfl
  | @escaping identity value next whenExpired used =>
      have usedInside :
          (next true).attempt.bind (locate form) = .unwind (.escape identity value) := by
        rw [used]
        rfl
      exact .escaping (complies_locate whenExpired fun _ impossible => impossible) usedInside
  | refusing whenExpired whenRunning =>
      exact .refusing
        (complies_locate whenExpired fun _ impossible => impossible)
        (complies_locate whenRunning fun _ impossible => impossible)

variable
  (keeps : host.Keeps law.sound)
  (admits : law.admits scope)

include keeps admits

/-- A form is carried out as a special form, a use of a macro or a call. -/
private theorem conforms_dispatch
    {form callee operands : Value} :
    Conforms law host (dispatch host scope form callee operands) := by
  unfold dispatch
  split
  · refine .bind (plain_perform (Store.keeps_listItems _)) fun operands => ?_
    split
    · exact complies_failTelling
    · exact SpecialForm.conforms_script admits _ _
  · refine .bind plain_rewrite fun _ => ?_
    exact .of_lawful (lawful_tail admits)
  · refine .bind (plain_operandValues admits) fun values => ?_
    exact .of_lawful (lawful_locate (lawful_apply keeps))

omit admits in
/-- A name that nothing binds is asked of the host. -/
private theorem keeps_freeNameValue
    {name : String}
    {count : Option Nat} :
    StoreM.Keeps law.sound (Store.freeNameValue host scope count name) := by
  unfold Store.freeNameValue
  split
  · exact .pure _
  · split
    · exact .pure _
    · refine .bind (.view _) fun namespaces => .bind (keeps.resolve _ _ _) fun found => ?_
      split
      · exact .pure _
      · exact .throw _

/-- A list conforms, whatever stands at its head. -/
theorem conforms_script
    {address : Nat} :
    Conforms law host (script host scope address) := by
  refine .bind plain_view fun parts => ?_
  dsimp only
  split
  · refine .bind (plain_operandValues admits) fun values => ?_
    exact .bind (plain_perform (keeps.invoke _ _)) fun _ => complies_answer
  · exact conforms_dispatch keeps admits
  · refine .bind (plain_perform ?_) fun _ => conforms_dispatch keeps admits
    exact .bind (.view _) fun _ => keeps_freeNameValue keeps
  · exact .bind (plain_evaluate admits) fun _ => conforms_dispatch keeps admits

end Application

namespace Evaluation

/-- To look up a name evaluates nothing. -/
private theorem plain_nameValue
    (keeps : host.Keeps law.sound)
    {name : String} :
    Plain law (nameValue host scope name) := by
  refine .bind plain_view fun found => ?_
  split
  · exact .done trivial
  · exact plain_perform (Application.keeps_freeNameValue keeps)

/-- A name from a macro is looked up at home, if that is still there. -/
private theorem plain_scopedNameValue
    (keeps : host.Keeps law.sound)
    {home : Scope}
    {name : String} :
    Plain law (scopedNameValue host scope home name) := by
  refine .bind plain_reaches fun isHeld => .bind plain_view fun found => ?_
  split
  · exact .done trivial
  · exact plain_nameValue keeps

/-- The items of a vector are evaluated in order. -/
private theorem plain_vectorItems
    (admits : law.admits scope)
    {sofar items : List Value} :
    Plain law (vectorItems scope sofar items) := by
  induction items generalizing sofar with
  | nil =>
      exact .done trivial
  | cons item rest inductionHypothesis =>
      unfold vectorItems
      dsimp only
      split
      · exact .bind (plain_evaluate admits) fun _ => inductionHypothesis
      · exact .bind (.done trivial) fun _ => inductionHypothesis

/-- A marked form is quoted, expanded, or refused. -/
private theorem lawful_marked
    (admits : law.admits scope)
    {form : Value}
    {mark : Mark}
    {address : Nat} :
    Lawful law (marked scope form mark address) := by
  cases mark with
  | quote =>
      exact complies_answerFresh fun store => Store.keeps_quoteValue _ store
  | quasiquote =>
      refine .bind plain_view fun template => ?_
      exact .bind (Quasiquotation.plain_value admits) fun _ => complies_answer
  | unquote =>
      exact complies_failTelling
  | unquoteSplicing =>
      exact complies_failTelling

/-- Every form conforms. -/
theorem conforms_script
    (keeps : host.Keeps law.sound)
    (admits : law.admits scope)
    {form : Value} :
    Conforms law host (script host scope form) := by
  unfold script
  split
  · exact .bind (plain_nameValue keeps) fun _ => complies_answer
  · exact .bind (plain_scopedNameValue keeps) fun _ => complies_answer
  · refine .bind plain_view fun items => .bind (plain_vectorItems admits) fun values => ?_
    exact complies_answerFresh (Store.keeps_outside (fun _ => rfl) fun _ => rfl)
  · exact .of_lawful (lawful_marked admits)
  · exact .bind plain_view fun _ => .of_lawful (lawful_body admits)
  · exact Application.conforms_script keeps admits
  · exact complies_answer

end Evaluation

/-- Whatever script a permitted step amounts to, it conforms. -/
theorem Machine.conforms_stepScript
    (keeps : host.Keeps law.sound)
    {step : Step}
    (permitted : law.Permits step)
    {script : Script Step}
    (amounts : Machine.stepScript host step = .inr script) :
    Conforms law host script := by
  cases step with
  | value value =>
      simp [Machine.stepScript] at amounts
  | tail scope form =>
      obtain rfl := Sum.inr.inj amounts
      exact Evaluation.conforms_script keeps permitted
  | apply callee operands =>
      obtain rfl := Sum.inr.inj amounts
      exact .of_lawful (Application.lawful_apply keeps)
  | expand scope form =>
      obtain rfl := Sum.inr.inj amounts
      exact .of_lawful (Special.lawful_expandOnce permitted)

variable {catches : Prop}

/-- A construct leaves in an ordinary way. -/
theorem Script.Leaves.leads
    {ends : Script Step → Prop}
    {script : Script Step}
    (leaves : Leaves .free script) :
    Leads catches ends script := by
  have leadsAlways {script : Script Step}
      (complies : Complies .free (fun _ => False) Law.free.Permits script) :
      Leads catches ends script :=
    complies.leads fun _ impossible => impossible.elim
  cases leaves with
  | @handingOver step next _ last passes =>
      refine .deferring (fun step => ?_) passes
      rw [last]
      exact .done step
  | escaping whenExpired used =>
      exact .escaping (leadsAlways whenExpired) used
  | refusing whenExpired whenRunning =>
      exact .testing (leadsAlways whenExpired) (leadsAlways whenRunning)

/-- Whatever script a step amounts to, it leads to a bracket if it leads to anything. -/
theorem Machine.leads_stepScript
    (restrained : host.Restrained catches)
    {step : Step}
    {script : Script Step}
    (amounts : Machine.stepScript host step = .inr script) :
    Leads catches Special.Bracket script := by
  have permitted : Law.free.Permits step := by
    cases step <;> trivial
  have conforms := Machine.conforms_stepScript host.keeps_free permitted amounts
  refine conforms.leads fun script ended => ?_
  cases ended with
  | leaving leaves => exact leaves.leads
  | escape receiver => exact .arriving (.escape _)
  | wind before thunk after => exact .bind leads_call fun _ => .arriving (.wind _ _)
  | offer value => exact .arriving (.offer _)
  | handler handler thunk => exact .arriving (.handler _ _)
  | rebinding rebound forms _ => exact .arriving (.rebinding _ _ _)
  | «foreign» name operands _ => exact .of_ordinary (restrained _ _ _)

end SmallScheme
