import SmallScheme.Proofs.Application
import SmallScheme.Proofs.Moment.Origin
import SmallScheme.Proofs.Script.Conduct
import SmallScheme.Proofs.Store.Refusal

namespace SmallScheme

/-!
# The expressions of arity faults

Main result.  An application writes itself into an arity fault that tells no expression yet.  It
does so if its special form or what it applies refuses the operands; but also if a procedure has
accepted its operands and the fault arose in its body, on the way to a value that the body goes on
from.  Then the expression is a call that was right.
-/

variable
  {host : Host}
  {serve : Request → Run Value}
  {scope : Scope}
  {machine ready last : Machine}
  {callee : Value}
  {values : List Value}
  {expected given : Nat}

/-- How many operands a value accepts, unless the host has to say or it cannot be applied. -/
def Value.arity? (store : Store) : Value → Option Arity
  | .procedure address => some (store.procedures[address]?.getD default).formals.arity
  | .primitive operation => some operation.arity
  | .escape _ => some (.between 0 1)
  | .parameter _ => some (.exactly 0)
  | _ => none

/-- What an arity fault is due to that tells no expression when an application ends with it. -/
inductive Application.Refusal
    (serve : Request → Run Value)
    (callee : Value)
    (values : List Value)
    (expected given : Nat)
    (ready last : Machine) : Prop
  /-- What is applied accepts other numbers of operands. -/
  | own (arity : Arity) :
      callee.arity? ready.store = some arity →
      arity.refuses? values.length = some expected →
      given = values.length →
      Refusal serve callee values expected given ready last
  /-- A function or an object of the host reports it for operands that have been accepted. -/
  | reported :
      (∀ arity, callee.arity? ready.store = some arity → arity.accepts values.length) →
      ((∃ name declared, callee = .primitive (.foreign name declared)) ∨
        ∃ address, callee = .foreign address) →
      Refusal serve callee values expected given ready last
  /-- A procedure has accepted the operands, and the value of a form of its body ended with it. -/
  | inside {address : Nat} {form : Value} {inner : Scope} {before : Machine} :
      callee = .procedure address →
      (ready.store.procedures[address]?.getD default).formals.arity.accepts values.length →
      form ∈ (ready.store.procedures[address]?.getD default).body →
      serve (.evaluate inner form) before =
        some (.error (.fault (.arity expected given none)), last) →
      Refusal serve callee values expected given ready last

namespace Script

/-- A body that unwinds does so because the value of one of its forms has. -/
theorem exists_of_body_unwinds
    {forms : List Value}
    {reason : Unwind}
    (ran : (body scope forms).run serve Run.done machine = some (.error reason, last)) :
    ∃ form ∈ forms, ∃ before,
      serve (.evaluate scope form) before = some (.error reason, last) := by
  fun_induction body scope forms generalizing machine with
  | case1 => cases ran
  | case2 form =>
      refine ⟨form, List.mem_singleton_self form, machine, ?_⟩
      unfold tail at ran
      -- A form that is handed over does not unwind here.
      split at ran
      · cases ran
      · cases ran
      · rcases run_bind_cases ran with ⟨value, middle, _, ran⟩ | ⟨_, ran, ⟨⟩⟩
        · cases ran
        · rwa [run_evaluate] at ran
  | case3 form rest notLast inductionHypothesis =>
      rcases run_bind_cases ran with ⟨value, middle, _, ran⟩ | ⟨_, ran, ⟨⟩⟩
      · obtain ⟨other, member, before, served⟩ := inductionHypothesis ran
        exact ⟨other, List.mem_cons_of_mem _ member, before, served⟩
      · rw [run_evaluate] at ran
        exact ⟨form, List.mem_cons_self, machine, ran⟩

end Script

namespace Store

open StoreM

theorem neverRefuses_define
    (scope : Scope)
    (name : String)
    (value : Value) :
    NeverRefuses (define scope name value) := by
  intro store expected given expression
  unfold define
  split <;> exact nofun

theorem neverRefuses_defineAll
    (scope : Scope)
    (bindings : List (String × Value)) :
    NeverRefuses (defineAll scope bindings) := by
  induction bindings with
  | nil => exact .pure ()
  | cons binding rest inductionHypothesis =>
      exact .bind (neverRefuses_define _ _ _) fun _ => inductionHypothesis

theorem neverRefuses_defineList
    (scope : Scope)
    (name : String)
    (items : List Value) :
    NeverRefuses (defineList scope name items) :=
  .bind (.change _) fun _ => neverRefuses_define _ _ _

/-- Operands are counted before they are bound. -/
theorem bindFormals_eq
    (procedure : Procedure)
    (scope : Scope)
    (operands : List Value) :
    (∃ bound, procedure.formals.arity.refuses? operands.length = some bound ∧
        bindFormals procedure scope operands =
          throw (.arity bound operands.length (callText procedure))) ∨
      procedure.formals.arity.accepts operands.length ∧
        NeverRefuses (bindFormals procedure scope operands) := by
  unfold bindFormals
  cases procedure.formals with
  | variadic name => exact .inr ⟨trivial, neverRefuses_defineList _ _ _⟩
  | fixed names =>
      dsimp only
      by_cases fits : operands.length = names.length
      · rw [if_pos fits]
        exact .inr ⟨fits, neverRefuses_defineAll _ _⟩
      · rw [if_neg fits]
        exact .inl ⟨_, if_neg fits, rfl⟩
  | withRest names rest =>
      dsimp only
      by_cases few : operands.length < names.length
      · rw [if_pos few]
        exact .inl ⟨_, if_pos few, rfl⟩
      · rw [if_neg few]
        refine .inr ⟨Nat.le_of_not_lt few, ?_⟩
        exact .bind (neverRefuses_defineAll _ _) fun _ => neverRefuses_defineList _ _ _

end Store

namespace Application

/-- An action that never refuses does not end a script with an arity fault. -/
theorem not_refused_of_neverRefuses
    {Answer : Type}
    {action : StoreM Answer}
    {handOver : Step → Run Step}
    {expression : Option String}
    (waits : ∀ machine, serve .endless machine = none)
    (never : action.NeverRefuses) :
    (Script.perform action).run serve handOver machine ≠
      some (.error (.fault (.arity expected given expression)), last) := by
  obtain ⟨store, context, depth⟩ := machine
  simp only [Script.perform, Script.run]
  cases acted : action store with
  | mk result after =>
      cases result with
      | ok answer =>
          intro ended
          cases ended
      | error fault =>
          intro ended
          obtain ⟨same, -⟩ := Script.of_run_report waits ended
          cases same
          exact never store expected given expression (congrArg Prod.fst acted)

/-- The refusal of a procedure, or a fault in its body. -/
private theorem refusal_of_enter
    {address : Nat}
    (waits : ∀ machine, serve .endless machine = none)
    (ran :
      (enter (ready.store.procedures[address]?.getD default) values).run serve Run.done ready =
        some (.error (.fault (.arity expected given none)), last)) :
    Refusal serve (.procedure address) values expected given ready last := by
  generalize found : ready.store.procedures[address]?.getD default = procedure at ran
  have arity : (Value.procedure address).arity? ready.store = some procedure.formals.arity := by
    rw [Value.arity?, found]
  unfold enter at ran
  rcases Script.run_bind_cases ran with ⟨inner, entered, _, ran⟩ | ⟨_, ran, ⟨⟩⟩
  · rcases Store.bindFormals_eq procedure inner values with
      ⟨bound, refuses, throws⟩ | ⟨accepts, never⟩
    · rw [throws] at ran
      have ended :
          some (Except.error (Unwind.fault
              (.arity bound values.length (Store.callText procedure))), entered) =
            some (.error (.fault (.arity expected given none)), last) :=
        ran
      simp only [Option.some.injEq, Prod.mk.injEq, Except.error.injEq, Unwind.fault.injEq,
        Fault.arity.injEq] at ended
      obtain ⟨⟨rfl, rfl, -⟩, rfl⟩ := ended
      exact .own _ arity refuses rfl
    · rcases Script.run_bind_cases ran with ⟨_, bound, _, ran⟩ | ⟨_, ran, ⟨⟩⟩
      · obtain ⟨form, member, before, served⟩ := Script.exists_of_body_unwinds ran
        rw [← found] at accepts member
        exact .inside rfl accepts member served
      · exact (not_refused_of_neverRefuses waits never ran).elim
  · exact (not_refused_of_neverRefuses waits (.change _) ran).elim

private theorem refusal_of_primitive
    {primitive : Primitive}
    (waits : ∀ machine, serve .endless machine = none)
    (ran :
      (Script.perform (primitive.apply host values)).run serve Run.done ready =
        some (.error (.fault (.arity expected given none)), last)) :
    Refusal serve (.primitive primitive) values expected given ready last := by
  have arity : (Value.primitive primitive).arity? ready.store = some primitive.arity := rfl
  unfold Primitive.apply at ran
  cases refuses : primitive.arity.refuses? values.length with
  | some bound =>
      rw [refuses] at ran
      cases ran
      exact .own _ arity refuses rfl
  | none =>
      have accepts := Arity.refuses?_eq_none_iff.mp refuses
      rw [refuses] at ran
      cases primitive with
      | «foreign» name declared =>
          exact .reported (fun _ same => Option.some.inj (arity.symm.trans same) ▸ accepts)
            (.inl ⟨name, declared, rfl⟩)
      | _ =>
          have never := Primitive.neverRefuses_run host rfl accepts
          exact (not_refused_of_neverRefuses waits never ran).elim

private theorem refusal_of_escape
    {identity : Nat}
    (ran :
      (Special.escape identity values).run serve Run.done ready =
        some (.error (.fault (.arity expected given none)), last)) :
    Refusal serve (.escape identity) values expected given ready last := by
  unfold Special.escape at ran
  rcases Script.run_bind_cases ran with ⟨isRunning, between, _, ran⟩ | ⟨_, ran, ⟨⟩⟩
  · split at ran
    · split at ran
      case h_1 => cases ran
      case h_2 => cases ran
      case h_3 notNone notOne =>
        cases ran
        refine .own (.between 0 1) rfl ?_ rfl
        match values, notNone, notOne with
        | [], notNone, _ => exact (notNone rfl).elim
        | [value], _, notOne => exact (notOne value rfl).elim
        | _ :: _ :: _, _, _ => rfl
    · cases ran
  · cases ran

/-- Applying a value ends with an arity fault that tells no expression for one of three reasons. -/
theorem refusal_of_apply
    (waits : ∀ machine, serve .endless machine = none)
    (ran :
      (apply host callee values).run serve Run.done ready =
        some (.error (.fault (.arity expected given none)), last)) :
    Refusal serve callee values expected given ready last := by
  cases callee with
  | procedure address => exact refusal_of_enter waits ran
  | primitive primitive =>
      rcases Script.run_bind_cases ran with ⟨value, between, _, ran⟩ | ⟨_, ran, ⟨⟩⟩
      · cases ran
      · exact refusal_of_primitive waits ran
  | escape identity => exact refusal_of_escape ran
  | parameter address =>
      cases values with
      | nil => cases ran
      | cons value rest =>
          cases ran
          exact .own (.exactly 0) rfl rfl rfl
  | «foreign» address => exact .reported (fun _ => nofun) (.inr ⟨address, rfl⟩)
  | _ =>
      obtain ⟨_, _, same, _⟩ := Script.of_run_failTelling waits ran
      cases same

/-- A part of the evaluation of the form at the address unwinds, and so the whole has to. -/
inductive PartUnwinds
    (host : Host)
    (serve : Request → Run Value)
    (scope : Scope)
    (address : Nat)
    (reason : Unwind)
    (machine last : Machine) : Prop
  | head {head operands : Value} :
      machine.store.pairAt address = ⟨head, operands⟩ →
      ((headOf machine.store scope head).meaning host scope operands).run serve Run.done machine =
        some (.error reason, last) →
      PartUnwinds host serve scope address reason machine last
  /-- The invocation of a member, or the expansion of a macro and what it is evaluated to. -/
  | whole {head operands : Value} {meaning : Meaning} {ready : Machine} :
      machine.store.pairAt address = ⟨head, operands⟩ →
      ((headOf machine.store scope head).meaning host scope operands).run serve Run.done machine =
        some (.ok meaning, ready) →
      ((∃ name, meaning = .member name) ∨
        ∃ transformer, meaning = .callee (.transformer transformer)) →
      (meaning.use host scope (.pair address) operands).run serve Run.done ready =
        some (.error reason, last) →
      PartUnwinds host serve scope address reason machine last
  /-- What a special form does with operands whose number it accepts. -/
  | form {keyword : SpecialForm} {items : List Value} {ready : Machine} :
      IsUse host serve Run.done scope address keyword items machine ready →
      keyword.arity.accepts items.length →
      (keyword.script host scope items).run serve Run.done ready = some (.error reason, last) →
      PartUnwinds host serve scope address reason machine last
  | operands {head operands callee : Value} {ready : Machine} :
      machine.store.pairAt address = ⟨head, operands⟩ →
      ((headOf machine.store scope head).meaning host scope operands).run serve Run.done machine =
        some (.ok (.callee callee), ready) →
      takesForms callee = false →
      (operandValues scope operands).run serve Run.done ready = some (.error reason, last) →
      PartUnwinds host serve scope address reason machine last
  | callee {callee : Value} {values : List Value} {ready : Machine} :
      IsCall host serve scope address callee values machine ready →
      (apply host callee values).run serve Run.done ready = some (.error reason, last) →
      PartUnwinds host serve scope address reason machine last

variable {address : Nat}

/--
The application at the address writes itself into an arity fault: its special form refuses the
operands, or what it applies has ended with a fault that tells no expression.
-/
def WritesItself
    (host : Host)
    (serve : Request → Run Value)
    (scope : Scope)
    (address : Nat)
    (expected given : Nat)
    (machine last : Machine) : Prop :=
  (∃ keyword items,
    IsUse host serve Run.done scope address keyword items machine last ∧
      keyword.arity.refuses? items.length = some expected ∧ given = items.length) ∨
    ∃ callee values ready,
      IsCall host serve scope address callee values machine ready ∧
        (apply host callee values).run serve Run.done ready =
            some (.error (.fault (.arity expected given none)), last) ∧
          Refusal serve callee values expected given ready last

/-- An expression comes from a part of the evaluation, or the application has written itself. -/
theorem unwinds_or_writes
    {text : String}
    (waits : ∀ machine, serve .endless machine = none)
    (ran :
      (Evaluation.script host scope (.pair address)).run serve Run.done machine =
        some (.error (.fault (.arity expected given (some text))), last)) :
    PartUnwinds host serve scope address (.fault (.arity expected given (some text))) machine
        last ∨
      last.store.written? (.pair address) = some text ∧
        WritesItself host serve scope address expected given machine last := by
  obtain ⟨⟨head, operands⟩, pair⟩ : ∃ pair, machine.store.pairAt address = pair := ⟨_, rfl⟩
  have parts :
      (((headOf machine.store scope head).meaning host scope operands).bind fun meaning =>
          meaning.use host scope (.pair address) operands).run serve Run.done machine =
        some (.error (.fault (.arity expected given (some text))), last) := by
    change (script host scope address).run _ _ machine = _ at ran
    rw [script_eq_meaning] at ran
    simpa only [Script.view, Script.bind, Script.run, pair] using ran
  rcases Script.run_bind_cases parts with ⟨meaning, ready, reached, used⟩ | ⟨_, reached, ⟨⟩⟩
  case inr => exact .inl (.head pair reached)
  cases meaning with
  | member name => exact .inl (.whole pair reached (.inl ⟨name, rfl⟩) used)
  | callee callee =>
      have applies (applied : takesForms callee = false) :
          PartUnwinds host serve scope address (.fault (.arity expected given (some text))) machine
              last ∨
            last.store.written? (.pair address) = some text ∧
              WritesItself host serve scope address expected given machine last := by
        change (dispatch host scope (.pair address) callee operands).run _ _ _ = _ at used
        rw [dispatch_eq scope (.pair address) operands applied] at used
        rcases Script.run_bind_cases used with ⟨values, between, valued, used⟩ | ⟨_, valued, ⟨⟩⟩
        case inr => exact .inl (.operands pair reached applied valued)
        have isCall : IsCall host serve scope address callee values machine between :=
          ⟨head, operands, ready, pair, reached, applied, valued⟩
        rcases Script.run_bind_cases used with ⟨result, after, watched, located⟩ | ⟨_, watched, ⟨⟩⟩
        · rw [Script.run_attempt, Option.map_eq_some_iff] at watched
          obtain ⟨⟨result, after⟩, ended, ⟨⟩⟩ := watched
          obtain ⟨rfl, told | ⟨told, written⟩⟩ := told_or_written_of_locate waits located
          · exact .inl (.callee isCall (told ▸ ended))
          · subst told
            exact .inr ⟨written, .inr ⟨_, _, _, isCall, ended, refusal_of_apply waits ended⟩⟩
        · rw [Script.run_attempt, Option.map_eq_some_iff] at watched
          obtain ⟨_, _, ⟨⟩⟩ := watched
      cases callee with
      | special keyword =>
          change (special host scope (.pair address) keyword operands).run _ _ _ = _ at used
          rcases Store.listItems_eq operands ready.store with ⟨items, spells, listed⟩ | ⟨_, listed⟩
          · have isUse : IsUse host serve Run.done scope address keyword items machine ready :=
              ⟨head, operands, pair, reached, spells⟩
            cases refuses : keyword.arity.refuses? items.length with
            | none =>
                rw [run_special spells refuses] at used
                exact .inl (.form isUse (Arity.refuses?_eq_none_iff.mp refuses) used)
            | some bound =>
                cases written : ready.store.written? (.pair address) with
                | some own =>
                    rw [run_refused_use isUse refuses written] at ran
                    cases ran
                    exact .inr ⟨written, .inl ⟨keyword, items, isUse, refuses, rfl⟩⟩
                | none =>
                    rw [run_eq_refusal isUse refuses, Script.run_failTelling_endless written, waits]
                      at ran
                    cases ran
          · rw [special] at used
            cases (Script.run_bind_error (Script.run_perform_error listed rfl) _).symm.trans used
      | transformer transformer =>
          exact .inl (.whole pair reached (.inr ⟨transformer, rfl⟩) used)
      | _ => exact applies rfl

/-- How an arity fault with which the script of a step ends has come by the expression it tells. -/
inductive TextComes
    (host : Host)
    (serve : Request → Run Value)
    (expected given : Nat)
    (text : String) : Step → Machine → Machine → Prop
  /-- An application has written itself into it. -/
  | written {scope : Scope} {address : Nat} {machine last : Machine} :
      last.store.written? (.pair address) = some text →
      WritesItself host serve scope address expected given machine last →
      TextComes host serve expected given text (.tail scope (.pair address)) machine last
  /-- It was raised with it; if the step evaluates an application, a part of that has raised it. -/
  | raised {step : Step} {script : Script Step} {machine last : Machine} :
      Machine.stepScript host step = .inr script →
      script.Originates serve (.fault (.arity expected given (some text))) machine last →
      (∀ {scope address},
        step = .tail scope (.pair address) →
        PartUnwinds host serve scope address (.fault (.arity expected given (some text))) machine
          last) →
      TextComes host serve expected given text step machine last

/-- Where an arity fault with an expression comes up, so does the expression. -/
theorem TextComes.of_originates
    (waits : ∀ machine, serve .endless machine = none)
    {text : String}
    {step : Step}
    {script : Script Step}
    (amounts : Machine.stepScript host step = .inr script)
    (originates :
      script.Originates serve (.fault (.arity expected given (some text))) machine last) :
    TextComes host serve expected given text step machine last := by
  by_cases application : ∃ scope address, step = .tail scope (.pair address)
  · obtain ⟨scope, address, rfl⟩ := application
    have ran := originates.unwinds
    cases amounts
    rcases unwinds_or_writes waits ran with part | ⟨same, writes⟩
    · refine .raised rfl originates fun same => ?_
      cases same
      exact part
    · exact .written same writes
  · exact .raised amounts originates fun same => (application ⟨_, _, same⟩).elim

end Application

/--
An arity fault that ends a run and tells an expression has come by it at a step of the run: it was
raised with it, or an application has written itself into it.  An application does so exactly in two
cases.  A special form refuses the number of its operands.  Or what is applied ends with an arity
fault that tells none: because it refuses the number of its operands, because a function of the host
reports that, or, for a procedure that has accepted its operands, because the value of a form of its
body ended so.
-/
theorem arity_faults_tell_the_call_or_one_around_it :
    (∀ {limit fuel : Nat} {request : Request} {machine last : Machine} {expected given : Nat}
        {text : String},
      Machine.serve host limit fuel request machine =
          some (.error (.fault (.arity expected given (some text))), last) →
      ∃ fewer step before after pending,
        Moment.Reaches host limit
            ⟨.serving request, [], machine⟩
            ⟨.serving (.finish step), pending, before⟩ ∧
          Application.TextComes host (Machine.serve host limit fewer)
              expected given text step before
            after) ∧
    (∀ {address : Nat} {keyword : SpecialForm} {items : List Value} {expected : Nat}
        {machine ready : Machine} {text : String},
      Application.IsUse host serve Run.done scope address keyword items machine ready →
      keyword.arity.refuses? items.length = some expected →
      ready.store.written? (.pair address) = some text →
      (Evaluation.script host scope (.pair address)).run serve Run.done machine =
        some (.error (.fault (.arity expected items.length (some text))), ready)) ∧
    ∀ {address : Nat} {callee : Value} {values : List Value} {machine ready last : Machine}
        {expected given : Nat},
      (∀ machine, serve .endless machine = none) →
      Application.IsCall host serve scope address callee values machine ready →
      (Application.apply host callee values).run serve Run.done ready =
          some (.error (.fault (.arity expected given none)), last) →
      (∀ {text : String},
        last.store.written? (.pair address) = some text →
        (Evaluation.script host scope (.pair address)).run serve Run.done machine =
          some (.error (.fault (.arity expected given (some text))), last)) ∧
        Application.Refusal serve callee values expected given ready last := by
  refine ⟨?_, Application.run_refused_use, fun waits isCall ended => ?_⟩
  · intro limit fuel request machine last expected given text served
    have notLimit :
        Unwind.fault (.arity expected given (some text)) ≠
          .fault (.evaluation (.depthLimit limit)) := by
      intro same
      cases same
    obtain ⟨fewer, step, script, before, after, pending, reaches, amounts, originates⟩ :=
      Machine.hasOrigin served notLimit []
    exact ⟨fewer, step, before, after, pending, reaches,
      .of_originates (Machine.serve_endless fewer) amounts originates⟩
  · exact ⟨Application.run_call isCall ended, Application.refusal_of_apply waits ended⟩

/-- The form `(car)`. -/
def bareHead : Machine where
  store :=
    { Store.empty with
      pairs := #[⟨.symbol "car", .nil⟩]
      frames := #[⟨[("car", .primitive (.listing .head))], []⟩] }
  context := default
  depth := 0

/-- A primitive that refuses the number of its operands is told with its application. -/
theorem bare_head_is_told :
    (∃ fewer step before after pending,
      Moment.Reaches Host.absent 16
          ⟨.serving (.evaluate ⟨0, []⟩ (.pair 0)), [], bareHead⟩
          ⟨.serving (.finish step), pending, before⟩ ∧
        Application.TextComes Host.absent (Machine.serve Host.absent 16 fewer) 1 0 "(car)" step
          before after) ∧
      (Evaluation.script Host.absent ⟨0, []⟩ (.pair 0)).run (Machine.serve Host.absent 16 3)
            Run.done bareHead =
          some (.error (.fault (.arity 1 0 (some "(car)"))), bareHead) ∧
        ∃ arity, (Value.primitive (.listing .head)).arity? bareHead.store = some arity ∧
          arity.refuses? 0 = some 1 := by
  obtain ⟨comes, -, tells⟩ :=
    @arity_faults_tell_the_call_or_one_around_it Host.absent (Machine.serve Host.absent 16 3)
      ⟨0, []⟩
  have told (depth : Nat) :=
    @tells 0 (.primitive (.listing .head)) [] { bareHead with depth } { bareHead with depth }
      { bareHead with depth } 1 0 (Machine.serve_endless 3) ⟨_, _, _, rfl, rfl, rfl, rfl⟩ rfl
  have written : bareHead.store.written? (.pair 0) = some "(car)" := by decide +kernel
  have served :
      Machine.serve Host.absent 16 5 (.evaluate ⟨0, []⟩ (.pair 0)) bareHead =
        some (.error (.fault (.arity 1 0 (some "(car)"))), bareHead) := by
    have inside := (told 1).1 written
    simp only [Machine.serve, Run.nested, Machine.stepScript] at inside ⊢
    simp only [bareHead] at inside ⊢
    rw [inside]
    rfl
  obtain ⟨ran, refusal⟩ := told 0
  refine ⟨comes served, ran written, ?_⟩
  cases refusal with
  | own arity declared refuses _ => exact ⟨arity, declared, refuses⟩
  | reported accepts _ => cases accepts _ rfl
  | inside isProcedure _ _ _ => cases isProcedure

/-- Evaluating the text in a bare session ends with this arity fault. -/
def tells (source : String) (expected given : Nat) (text : Option String) : Bool :=
  match (Session.start bareSettings).evaluateText bareSettings source with
  | some (.error (.fault (.arity bound count expression)), _) =>
      bound == expected && count == given && expression == text
  | _ => false

/--
The call of a procedure without parameters is right and is told all the same when a form before the
last one of its body applies `car` to nothing.  As the last form it is told by nothing.
-/
theorem right_call_is_told :
    tells "(define (f) (apply car '()) 1) (f)" 1 0 (some "(f)") ∧
      tells "(define (f) (map (lambda () 1) '(1)) 2) (f)" 0 1 (some "(f)") ∧
      tells "(define (f) (apply car '())) (f)" 1 0 none := by
  decide +kernel

end SmallScheme
