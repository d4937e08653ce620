import SmallScheme.Evaluation.SpecialForm
import SmallScheme.Proofs.Script.Law

namespace SmallScheme

/-!
# The conduct of the special forms

Five special forms bracket the evaluation of something else.  Each of them evaluates its operands in
an ordinary way first and then comes to a script of its own; all the others are ordinary
throughout.
-/

/-- What the special forms that bracket an evaluation come to. -/
inductive Special.Bracket : Script Step → Prop
  | escape (receiver : Value) :
      Bracket (withEscape receiver)
  | wind (thunk after : Value) :
      Bracket (windThrough thunk after)
  | offer (value : Value) :
      Bracket (offer value)
  | handler (handler thunk : Value) :
      Bracket (withHandler handler thunk)
  | rebinding (scope : Scope) (rebound : List (Nat × Value)) (forms : List Value) :
      Bracket (whileRebound scope rebound forms)

/--
The special forms of the host use the machine for nothing but evaluations, calls and tail positions.
Unless they may catch, they also pass on whatever unwinds.
-/
def Host.Restrained (catches : Prop) (host : Host) : Prop :=
  ∀ name scope operands, Script.Ordinary catches (host.form name scope operands)

/--
What every construct comes to: it leaves, it brackets an evaluation, or the host decides what it
does.  A wind is met where it calls its first procedure.
-/
inductive Special.Ends (law : Law) (host : Host) : Script Step → Prop
  | leaving {script : Script Step} :
      Script.Leaves law script →
      Ends law host script
  | escape (receiver : Value) :
      Ends law host (withEscape receiver)
  | wind (before thunk after : Value) :
      Ends law host (Script.call before [] >>= fun _ => windThrough thunk after)
  | offer (value : Value) :
      Ends law host (offer value)
  | handler (handler thunk : Value) :
      Ends law host (withHandler handler thunk)
  | rebinding {scope : Scope} (rebound : List (Nat × Value)) (forms : List Value) :
      law.admits scope →
      Ends law host (whileRebound scope rebound forms)
  | foreign (name : String) {scope : Scope} (operands : List Value) :
      law.admits scope →
      Ends law host (host.form name scope operands)

/-- The construct complies with the law until it comes to an end of a construct. -/
abbrev Script.Conforms (law : Law) (host : Host) (script : Script Step) : Prop :=
  Complies law (Special.Ends law host) law.Permits script

/-- What comes to no other end than to leave conforms as well. -/
theorem Script.Complies.of_lawful
    {law : Law}
    {host : Host}
    {script : Script Step}
    (lawful : Lawful law script) :
    Conforms law host script :=
  lawful.mono fun _ leaves => .arriving (.leaving leaves)

namespace Special

open Script

variable
  {law : Law}
  {host : Host}
  {scope : Scope}
  {operands : List Value}

/-! Definitions, assignments and blocks. -/

section Binding

variable (admits : law.admits scope)

include admits

/-- A procedure is made from its formals and forms without anything being evaluated. -/
private theorem plain_makeProcedure
    {name : Option String}
    {formals : Formals}
    {forms : List Value} :
    Plain law (makeProcedure scope name formals forms) :=
  plain_perform (law.keeps_procedure (law.encloses_of_admits admits))

/-- A name is bound, or refused, without anything being evaluated. -/
private theorem plain_define
    {name : String}
    {value : Value} :
    Plain law (perform (Store.define scope name value)) :=
  plain_perform (law.keeps_define admits name value)

omit admits in
/-- Formals are read from their form, and what is wrong with them is told. -/
private theorem plain_formalsOf
    {form : Value} :
    Plain law (formalsOf form) :=
  plain_perform (.read _)

omit admits in
/-- A procedure without a name is given one. -/
private theorem plain_nameValue
    {name : String}
    {value : Value} :
    Plain law (perform (nameValue name value)) := by
  refine plain_perform ?_
  unfold nameValue
  split
  · exact law.keeps_name _ _
  · exact .pure _

omit admits in
private theorem plain_listItems
    {form : Value} :
    Plain law (perform (Store.listItems form)) :=
  plain_perform (Store.keeps_listItems form)

/-- A definition evaluates one form at most before it binds the name. -/
theorem lawful_definition :
    Lawful law (definition scope operands) := by
  unfold definition
  split
  · refine .bind plain_view fun head => .bind plain_nameFor fun name => ?_
    refine .bind plain_formalsOf fun formals => ?_
    refine .bind (plain_makeProcedure admits) fun procedure => ?_
    exact .bind (plain_define admits) fun _ => complies_answer
  · exact .bind plain_nameFor fun _ => .bind (plain_define admits) fun _ => complies_answer
  · refine .bind plain_nameFor fun name => .bind (plain_evaluate admits) fun value => ?_
    exact .bind plain_nameValue fun _ => .bind (plain_define admits) fun _ => complies_answer
  · exact complies_refuseCount

/-- An assignment evaluates its operand and then changes one binding. -/
theorem lawful_assignment :
    Lawful law (assignment scope operands) := by
  unfold assignment
  split
  · refine .bind plain_nameFor fun name => .bind (plain_evaluate admits) fun value => ?_
    exact .bind (plain_perform (law.keeps_assign admits _ _)) fun _ => complies_answer
  · exact complies_refuseCount

/-- A procedure is made; its body is evaluated only when it is called. -/
theorem lawful_procedure :
    Lawful law (procedure scope operands) := by
  unfold procedure
  split
  · refine .bind plain_formalsOf fun formals => ?_
    exact .bind (plain_makeProcedure admits) fun _ => complies_answer
  · exact complies_refuseCount

omit admits in
/-- One binding of a block is read from its entry. -/
private theorem plain_bindingOf
    {entry : Value} :
    Plain law (bindingOf entry) := by
  unfold bindingOf
  split
  · refine .bind plain_listItems fun items => ?_
    split
    · exact .bind plain_nameFor fun _ => .done trivial
    · exact .bind plain_nameFor fun _ => .done trivial
    · exact complies_failTelling
  · exact .bind plain_nameFor fun _ => .done trivial

omit admits in
/-- All bindings of a block are read before the first of them is evaluated. -/
private theorem plain_bindingsOf
    {form : Value} :
    Plain law (bindingsOf form) := by
  refine .bind plain_listItems fun entries => ?_
  generalize ([] : List BlockBinding) = sofar
  induction entries generalizing sofar with
  | nil =>
      exact .done trivial
  | cons entry rest inductionHypothesis =>
      exact .bind plain_bindingOf fun _ => inductionHypothesis _

/-- The value of a binding is evaluated in the scope that the block is in. -/
private theorem plain_bindingValue
    {binding : BlockBinding} :
    Plain law (bindingValue scope binding) := by
  unfold bindingValue
  split
  · exact plain_evaluate admits
  · exact .done trivial

/-- The bindings of a block are made one after the other, each seen by the next. -/
private theorem plain_defineBindings
    {bindings : List BlockBinding} :
    Plain law (defineBindings scope bindings) := by
  induction bindings with
  | nil =>
      exact .done trivial
  | cons binding rest inductionHypothesis =>
      refine .bind (plain_bindingValue admits) fun value => ?_
      exact .bind (plain_define admits) fun _ => inductionHypothesis

/-- A block evaluates its bindings and then its forms, the last of them in tail position. -/
theorem lawful_block :
    Lawful law (block scope operands) := by
  unfold block
  split
  · exact complies_refuseCount
  · refine complies_entering (law.encloses_of_admits admits) fun inner admitsInner => ?_
    refine .bind plain_bindingsOf fun bindings => ?_
    exact .bind (plain_defineBindings admitsInner) fun _ => lawful_body admitsInner

/-- The values of all bindings are evaluated before the first name is bound. -/
private theorem plain_bindingValues
    {sofar : List Value}
    {bindings : List BlockBinding} :
    Plain law (bindingValues scope sofar bindings) := by
  induction bindings generalizing sofar with
  | nil =>
      exact .done trivial
  | cons binding rest inductionHypothesis =>
      exact .bind (plain_bindingValue admits) fun _ => inductionHypothesis

/-- A named block binds its procedure in a scope of its own and then calls it. -/
private theorem lawful_namedBlock
    {name : String}
    {bindings : Value}
    {forms : List Value} :
    Lawful law (namedBlock scope name bindings forms) := by
  refine .bind plain_bindingsOf fun bindings => .bind (plain_bindingValues admits) fun values => ?_
  refine .bind (plain_perform (.read _)) fun names => ?_
  refine complies_entering (law.encloses_of_admits admits) fun inner admitsInner => ?_
  refine .bind (plain_makeProcedure admitsInner) fun loop => ?_
  exact .bind (plain_define admitsInner) fun _ => lawful_defer trivial

/-- A block whose first operand is a name is a named one. -/
theorem lawful_letBlock :
    Lawful law (letBlock scope operands) := by
  unfold letBlock
  split
  · split
    · exact lawful_namedBlock admits
    · exact lawful_block admits
  · exact lawful_block admits

end Binding

/-! Choice, sequence and application. -/

section Control

variable (admits : law.admits scope)

include admits

/-- Only the branch that is chosen is evaluated, in tail position. -/
theorem lawful_conditional :
    Lawful law (conditional scope operands) := by
  unfold conditional
  split
  · refine .bind (plain_evaluate admits) fun test => ?_
    split
    · exact lawful_tail admits
    · exact complies_answer
  · refine .bind (plain_evaluate admits) fun test => ?_
    split <;> exact lawful_tail admits
  · exact complies_refuseCount

/-- The last form of a conjunction is in tail position, and the others are evaluated. -/
theorem lawful_conjunction :
    Lawful law (conjunction scope operands) := by
  fun_induction conjunction scope operands with
  | case1 =>
      exact complies_refuseCount
  | case2 last =>
      exact lawful_tail admits
  | case3 form rest _ inductionHypothesis =>
      refine .bind (plain_evaluate admits) fun value => ?_
      split
      · exact inductionHypothesis
      · exact complies_answer

/-- The last form of a disjunction is in tail position, and the others are evaluated. -/
theorem lawful_disjunction :
    Lawful law (disjunction scope operands) := by
  fun_induction disjunction scope operands with
  | case1 =>
      exact complies_refuseCount
  | case2 last =>
      exact lawful_tail admits
  | case3 form rest _ inductionHypothesis =>
      refine .bind (plain_evaluate admits) fun value => ?_
      split
      · exact complies_answer
      · exact inductionHypothesis

omit admits in
/-- A clause is taken apart, or refused if it is no list with a test. -/
private theorem plain_clauseParts
    {construct : String}
    {clause : Value} :
    Plain law (clauseParts construct clause) := by
  refine .bind plain_view fun parts => ?_
  split
  · exact .done trivial
  · exact complies_failTelling

/-- The forms of the clause that was chosen are a body, or its receiver is called. -/
private theorem lawful_clauseResult
    {chosen : Value}
    {forms : List Value} :
    Lawful law (clauseResult scope chosen forms) := by
  unfold clauseResult
  split
  · split
    · exact .bind (plain_evaluate admits) fun _ => lawful_defer trivial
    · exact complies_fail
  · split
    · exact complies_answer
    · exact lawful_body admits

/-- The tests of clauses are evaluated until one of them holds. -/
theorem lawful_clauses :
    Lawful law (clauses scope operands) := by
  induction operands with
  | nil =>
      exact complies_fail
  | cons clause rest inductionHypothesis =>
      refine .bind plain_clauseParts fun parts => ?_
      dsimp only
      split
      · split
        · exact lawful_body admits
        · exact complies_fail
      · refine .bind (plain_evaluate admits) fun value => ?_
        split
        · exact lawful_clauseResult admits
        · exact inductionHypothesis

omit admits in
/-- To look for a key among data changes nothing. -/
private theorem keeps_holdsKey
    (key : Value)
    (data : List Value) :
    StoreM.Keeps law.sound (holdsKey key data) := by
  induction data with
  | nil =>
      exact .pure _
  | cons datum rest inductionHypothesis =>
      refine .bind (Store.keeps_quoteValue _) fun quoted => .bind (.view _) fun found => ?_
      split
      · exact .pure _
      · exact inductionHypothesis

/-- The keys of clauses are compared and not evaluated. -/
private theorem lawful_keyClauses
    {key : Value}
    {rest : List Value} :
    Lawful law (keyClauses scope key rest) := by
  induction rest with
  | nil =>
      exact complies_answer
  | cons clause rest inductionHypothesis =>
      refine .bind plain_clauseParts fun parts => ?_
      dsimp only
      split
      · split
        · exact complies_fail
        · split
          · exact lawful_clauseResult admits
          · exact lawful_body admits
      · refine .bind (plain_perform (.bind (Store.keeps_listItems _) (keeps_holdsKey key))) ?_
        intro found
        split
        · split
          · exact complies_answer
          · exact lawful_clauseResult admits
        · exact inductionHypothesis

/-- The key is evaluated once, before the clauses are looked at. -/
theorem lawful_caseClauses :
    Lawful law (caseClauses scope operands) := by
  unfold caseClauses
  split
  · exact complies_refuseCount
  · exact .bind (plain_evaluate admits) fun _ => lawful_keyClauses admits

/-- What `apply` is given is evaluated and then called in tail position. -/
theorem lawful_application :
    Lawful law (application scope operands) := by
  unfold application
  split
  · exact complies_refuseCount
  · split
    · exact complies_refuseCount
    · refine .bind (plain_evaluate admits) fun callee => ?_
      refine .bind (plain_evaluateAll admits) fun leading => ?_
      refine .bind (plain_evaluate admits) fun spread => ?_
      exact .bind plain_listItems fun _ => lawful_defer trivial

omit admits in
/-- The procedure is called for each item in turn. -/
private theorem plain_callEach
    {callee : Value}
    {sofar items : List Value} :
    Plain law (callEach callee sofar items) := by
  induction items generalizing sofar with
  | nil =>
      exact .done trivial
  | cons item rest inductionHypothesis =>
      exact .bind plain_call fun _ => inductionHypothesis

/-- The items of a list are read after the operands have been evaluated. -/
private theorem plain_eachResult :
    Plain law (eachResult scope operands) := by
  unfold eachResult
  split
  · refine .bind (plain_evaluate admits) fun callee => ?_
    refine .bind (plain_evaluate admits) fun list => ?_
    exact .bind plain_listItems fun _ => plain_callEach
  · exact complies_refuseCount

/-- The results of a mapping are made a list. -/
theorem lawful_mapping :
    Lawful law (mapping scope operands) :=
  .bind (plain_eachResult admits) fun _ => complies_answerFresh (Store.keeps_newList _)

/-- The results of an iteration are dropped. -/
theorem lawful_iteration :
    Lawful law (iteration scope operands) :=
  .bind (plain_eachResult admits) fun _ => complies_answer

/-- The form that is evaluated first is evaluated once more, in tail position. -/
theorem lawful_evaluation :
    Lawful law (evaluation scope operands) := by
  unfold evaluation
  split
  · exact .bind (plain_evaluate admits) fun _ => lawful_tail admits
  · refine .bind (plain_evaluate admits) fun form => ?_
    exact .bind (plain_evaluate admits) fun _ => lawful_tail admits
  · exact complies_refuseCount

end Control

/-! Parameters, conditions and escapes. -/

section Dynamic

variable (admits : law.admits scope)

include admits

/-- A parameter is made of a value that its converter has been called with. -/
theorem lawful_parameter :
    Lawful law (parameter scope operands) := by
  unfold parameter
  split
  · refine .bind (plain_evaluate admits) fun value => ?_
    exact complies_answerFresh (Store.keeps_outside (fun _ => rfl) fun _ => rfl)
  · refine .bind (plain_evaluate admits) fun value => ?_
    refine .bind (plain_evaluate admits) fun converter => .bind plain_call fun converted => ?_
    exact complies_answerFresh (Store.keeps_outside (fun _ => rfl) fun _ => rfl)
  · exact complies_refuseCount

/-- The value that a parameter is to have is evaluated and converted. -/
private theorem plain_rebindingOf
    {entry : Value} :
    Plain law (rebindingOf scope entry) := by
  refine .bind plain_listItems fun items => ?_
  split
  · refine .bind (plain_evaluate admits) fun parameter => ?_
    split
    · refine .bind (plain_evaluate admits) fun value => .bind plain_view fun converter => ?_
      split
      · exact .done trivial
      · exact .bind plain_call fun _ => .done trivial
    · exact complies_failTelling
  · exact complies_failTelling

/-- All the values are there before the first parameter is rebound. -/
private theorem plain_rebindingsFrom
    {sofar : List (Nat × Value)}
    {entries : List Value} :
    Plain law (rebindingsFrom scope sofar entries) := by
  induction entries generalizing sofar with
  | nil =>
      exact .done trivial
  | cons entry rest inductionHypothesis =>
      exact .bind (plain_rebindingOf admits) fun _ => inductionHypothesis

/-- What is rebound is collected in an ordinary way; then the forms are bracketed. -/
theorem conforms_rebinding :
    Conforms law host (rebinding scope operands) := by
  unfold rebinding
  split
  · exact complies_refuseCount
  · refine .bind plain_listItems fun entries => ?_
    refine .bind (plain_rebindingsFrom admits) fun rebound => ?_
    exact .arriving (.rebinding _ _ admits)

private theorem lawful_useNamespace
    {name : String} :
    Lawful law
      (perform (StoreM.change fun store => ((), store.useNamespace scope name)) >>= fun _ =>
        answer .unspecified) :=
  .bind (plain_perform (law.keeps_namespace admits name)) fun _ => complies_answer

/-- A namespace is used in the scope of the use. -/
theorem lawful_namespaceUse :
    Lawful law (namespaceUse scope operands) := by
  unfold namespaceUse
  split
  · dsimp only
    split
    · exact .bind (.done trivial) fun _ => lawful_useNamespace admits
    · refine .bind (plain_evaluate admits) fun value => ?_
      split
      · exact .bind plain_view fun _ => lawful_useNamespace admits
      · exact .bind complies_failTelling fun _ => lawful_useNamespace admits
  · exact complies_refuseCount

/-- The receiver is evaluated in an ordinary way; then its call is bracketed. -/
theorem conforms_escaping :
    Conforms law host (escaping scope operands) := by
  unfold escaping
  split
  · exact .bind (plain_evaluate admits) fun _ => .arriving (.escape _)
  · exact complies_refuseCount

omit admits in
/-- To escape takes one value and unwinds with it. -/
theorem lawful_escape
    {identity : Nat} :
    Lawful law (escape identity operands) := by
  unfold escape
  match operands with
  | [] =>
      exact .arriving (.escaping complies_fail rfl)
  | [_] =>
      exact .arriving (.escaping complies_fail rfl)
  | _ :: _ :: _ =>
      exact .arriving (.refusing complies_fail complies_refuseCount)

/-- A wind evaluates its three procedures and calls the first; the second is bracketed. -/
theorem conforms_wind :
    Conforms law host (wind scope operands) := by
  unfold wind
  split
  · refine .bind (plain_evaluate admits) fun before => ?_
    refine .bind (plain_evaluate admits) fun thunk => ?_
    exact .bind (plain_evaluate admits) fun after => .arriving (.wind _ _ _)
  · exact complies_refuseCount

/-- The condition is evaluated in an ordinary way before it is offered. -/
theorem conforms_continuableRaise :
    Conforms law host (continuableRaise scope operands) := by
  unfold continuableRaise
  split
  · exact .bind (plain_evaluate admits) fun _ => .arriving (.offer _)
  · exact complies_refuseCount

omit admits in
/-- A handler is called with the condition that a fault stands for. -/
theorem plain_handle
    {handler : Value}
    {cause : Fault} :
    Complies law (fun _ => False) law.Permits (handle handler cause) := by
  unfold handle
  split
  · exact complies_fail
  · refine .bind plain_call fun handled => ?_
    split
    · exact complies_answer
    · exact complies_failTelling

omit admits in
/-- What comes of calling a handler is an ordinary answer. -/
theorem leads_handle
    {catches : Prop}
    {ends : Script Step → Prop}
    {handler : Value}
    {cause : Fault} :
    Leads catches ends (handle handler cause) :=
  plain_handle.leads fun _ impossible => impossible.elim

/-- Handler and thunk are evaluated in an ordinary way; then the thunk is bracketed. -/
theorem conforms_handling :
    Conforms law host (handling scope operands) := by
  unfold handling
  split
  · refine .bind (plain_evaluate admits) fun handler => ?_
    refine .bind (plain_evaluate admits) fun thunk => ?_
    split
    · exact .arriving (.handler _ _)
    · exact complies_failTelling
  · exact complies_refuseCount

end Dynamic

/-! Macros. -/

section Transforming

variable (admits : law.admits scope)

include admits

omit admits in
/-- The rules of a transformer are read when it is defined. -/
private theorem plain_ofOperands
    {name : String}
    {home : Scope}
    {rules : List Value} :
    Plain law (perform (Transformer.ofOperands name home rules)) :=
  plain_perform (Transformer.keeps_ofOperands _ _ _)

private theorem lawful_define
    {name : String}
    {value : Value} :
    Lawful law (perform (Store.define scope name value) >>= fun _ => answer .unspecified) :=
  .bind (plain_define admits) fun _ => complies_answer

/-- A transformer is made and bound without anything being evaluated. -/
theorem lawful_transformerDefinition :
    Lawful law (transformerDefinition scope operands) := by
  unfold transformerDefinition
  split
  · refine .bind plain_nameFor fun name => .bind plain_view fun rules => ?_
    dsimp only
    split
    · exact .bind plain_ofOperands fun _ => lawful_define admits
    · refine .bind (plain_evaluate admits) fun value => ?_
      split
      · exact .bind (.done trivial) fun _ => lawful_define admits
      · exact .bind complies_failTelling fun _ => lawful_define admits
  · exact complies_refuseCount

omit admits in
/-- A transformer without a name may be made, too. -/
theorem lawful_transformer :
    Lawful law (transformer scope operands) :=
  .bind plain_ofOperands fun _ => complies_answer

omit admits in
/-- A use is rewritten after it has been found out whether the home is still there. -/
theorem plain_rewrite
    {address : Nat}
    {operands : Value} :
    Plain law (rewrite scope address operands) :=
  .bind plain_view fun _ => .bind plain_reaches fun _ =>
    plain_perform (Store.keeps_expandUse _ _ _)

/-- One expansion of a form evaluates nothing but what finds its head. -/
theorem lawful_expandOnce
    {form : Value} :
    Lawful law (expandOnce scope form) := by
  refine .bind plain_view fun use => ?_
  split
  · exact .bind plain_rewrite fun _ => .done admits
  · exact complies_answerFresh (Store.keeps_quoteValue _)

/-- The form that is expanded is evaluated, and its expansion is an answer. -/
theorem lawful_expansion :
    Lawful law (expansion scope operands) := by
  unfold expansion
  split
  · exact .bind (plain_evaluate admits) fun _ => lawful_defer admits
  · exact complies_refuseCount

end Transforming

end Special

end SmallScheme
