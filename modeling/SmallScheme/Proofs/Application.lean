import SmallScheme.Proofs.Macroexpansion

namespace SmallScheme

/-!
# Running applications

A list is evaluated by what its head amounts to.  These are the parts of such a run, whoever serves
the requests: the head first, and then a special form with the operands that the list spells, or
what is applied with the values of the operands.
-/

namespace Store

variable
  {store : Store}
  {value ending : Value}
  {items : List Value}

theorem exists_spells_of_chainEnd?
    (ends : store.chainEnd? value = some ending) :
    ∃ items, store.Spells value items ending := by
  obtain ⟨⟨cells, visits⟩, _⟩ := chainEnd?_eq_some_iff.mp ends
  exact ⟨_, visits.spells⟩

theorem spells_of_listItems?
    (listed : store.listItems? value = some items) :
    store.Spells value items .nil := by
  unfold listItems? at listed
  split at listed
  case isTrue proper =>
    unfold isList at proper
    split at proper
    case h_1 ends =>
      obtain ⟨others, spells⟩ := exists_spells_of_chainEnd? ends
      rw [chain_of_spells spells fun address => nofun] at listed
      cases listed
      exact spells
    case h_2 => cases proper
  case isFalse => cases listed

theorem listItems_of_spells
    (spells : store.Spells value items .nil) :
    Store.listItems value store = (.ok items, store) := by
  unfold Store.listItems
  rw [StoreM.view_bind, Store.listItems?_of_spells spells]
  rfl

/-- Listing the items of a list does not change the store, and other values have none. -/
theorem listItems_eq
    (value : Value)
    (store : Store) :
    (∃ items, store.Spells value items .nil ∧ Store.listItems value store = (.ok items, store)) ∨
      ∃ cause, Store.listItems value store = (.error (.type cause), store) := by
  cases listed : store.listItems? value with
  | some items =>
      have spells := spells_of_listItems? listed
      exact .inl ⟨items, spells, listItems_of_spells spells⟩
  | none =>
      unfold Store.listItems
      rw [StoreM.view_bind, listed]
      exact .inr ⟨_, rfl⟩

end Store

namespace Application

variable
  {host : Host}
  {serve : Request → Run Value}
  {handOver : Step → Run Step}
  {scope : Scope}
  {address : Nat}
  {keyword : SpecialForm}
  {operands callee : Value}
  {items values : List Value}
  {machine ready last : Machine}

/-- The head has been evaluated and the operands are made use of. -/
theorem run_eq_use
    {head : Value}
    {meaning : Meaning}
    (pair : machine.store.pairAt address = ⟨head, operands⟩)
    (reached :
      ((headOf machine.store scope head).meaning host scope operands).run serve handOver machine =
        some (.ok meaning, ready)) :
    (Evaluation.script host scope (.pair address)).run serve handOver machine =
      (meaning.use host scope (.pair address) operands).run serve handOver ready := by
  change (script host scope address).run _ _ machine = _
  rw [script_eq_meaning]
  simp only [Script.view, Script.bind, Script.run, pair]
  exact Script.run_bind reached _

/-- A special form that accepts its operands gets them as they are written. -/
theorem run_special
    {form : Value}
    (spells : machine.store.Spells operands items .nil)
    (accepted : keyword.arity.refuses? items.length = none) :
    (special host scope form keyword operands).run serve handOver machine =
      (keyword.script host scope items).run serve handOver machine := by
  obtain ⟨store, context, depth⟩ := machine
  simp only [special, Script.perform, bind, Script.bind, Script.run,
    Store.listItems_of_spells spells, accepted]

/-- The form at the address uses a special form on these operands, once its head is evaluated. -/
def IsUse
    (host : Host)
    (serve : Request → Run Value)
    (handOver : Step → Run Step)
    (scope : Scope)
    (address : Nat)
    (keyword : SpecialForm)
    (items : List Value)
    (machine ready : Machine) : Prop :=
  ∃ head operands,
    machine.store.pairAt address = ⟨head, operands⟩ ∧
      ((headOf machine.store scope head).meaning host scope operands).run serve handOver machine =
          some (.ok (.callee (.special keyword)), ready) ∧
        ready.store.Spells operands items .nil

theorem run_use
    (isUse : IsUse host serve handOver scope address keyword items machine ready)
    (accepted : keyword.arity.refuses? items.length = none) :
    (Evaluation.script host scope (.pair address)).run serve handOver machine =
      (keyword.script host scope items).run serve handOver ready := by
  obtain ⟨head, operands, pair, reached, spells⟩ := isUse
  rw [run_eq_use pair reached]
  exact run_special spells accepted

/-- The use of a name that means a special form is what the special form does with the operands. -/
theorem run_use_of_spells
    {form : Value}
    {name : String}
    (spells : machine.store.Spells form (.symbol name :: items) .nil)
    (ordinary : memberName? name = none)
    (found : machine.store.lookup? scope name = some (.special keyword))
    (accepted : keyword.arity.refuses? items.length = none) :
    (Evaluation.script host scope form).run serve handOver machine =
      (keyword.script host scope items).run serve handOver machine := by
  cases spells with
  | @pair address _ operands _ _ pair spells =>
      have isUse : IsUse host serve handOver scope address keyword items machine machine := by
        refine ⟨_, operands, Store.pairAt_eq pair, ?_, spells⟩
        simp only [headOf, ordinary, found]
        rfl
      exact run_use isUse accepted

/-- A special form that refuses its operands writes the form into the fault. -/
theorem run_eq_refusal
    {expected : Nat}
    (isUse : IsUse host serve handOver scope address keyword items machine ready)
    (refuses : keyword.arity.refuses? items.length = some expected) :
    (Evaluation.script host scope (.pair address)).run serve handOver machine =
      (Script.failTelling (.pair address) fun text =>
          .arity expected items.length (some text) : Script Step).run serve handOver ready := by
  obtain ⟨head, operands, pair, reached, spells⟩ := isUse
  rw [run_eq_use pair reached]
  change (special host scope (.pair address) keyword operands).run _ _ _ = _
  rw [special]
  refine (Script.run_bind (Script.run_perform (Store.listItems_of_spells spells)) _).trans ?_
  rw [refuses]

theorem run_refused_use
    {expected : Nat}
    {text : String}
    (isUse : IsUse host serve handOver scope address keyword items machine ready)
    (refuses : keyword.arity.refuses? items.length = some expected)
    (written : ready.store.written? (.pair address) = some text) :
    (Evaluation.script host scope (.pair address)).run serve handOver machine =
      some (.error (.fault (.arity expected items.length (some text))), ready) :=
  (run_eq_refusal isUse refuses).trans (Script.run_failTelling written _)

/-! What is not a special form is applied to the values of its operands. -/

/-- The value takes its operands as they are written. -/
def takesForms : Value → Bool
  | .special _ => true
  | .transformer _ => true
  | _ => false

/--
In the evaluation of the form at the address, the value of the head is about to be applied to the
values of the operands.
-/
def IsCall
    (host : Host)
    (serve : Request → Run Value)
    (scope : Scope)
    (address : Nat)
    (callee : Value)
    (values : List Value)
    (machine ready : Machine) : Prop :=
  ∃ head operands before,
    machine.store.pairAt address = ⟨head, operands⟩ ∧
      ((headOf machine.store scope head).meaning host scope operands).run serve Run.done machine =
          some (.ok (.callee callee), before) ∧
        takesForms callee = false ∧
          (operandValues scope operands).run serve Run.done before = some (.ok values, ready)

/-- The reason for unwinding with an expression for the fault, unless it tells one already. -/
def locatedIn (expression : String) : Unwind → Unwind
  | .fault cause => .fault (cause.inExpression expression)
  | reason => reason

theorem run_locate
    {form : Value}
    {text : String}
    (written : machine.store.written? form = some text)
    (result : Except Unwind Step) :
    (locate form result).run serve Run.done machine =
      some (result.mapError (locatedIn text), machine) := by
  cases result with
  | ok step => rfl
  | error reason =>
      cases reason with
      | «escape» identity value => rfl
      | fault cause =>
          cases cause with
          | arity expected given expression =>
              cases expression with
              | none => exact Script.run_failTelling written _
              | some expression => rfl
          | _ => rfl

/-- Nothing has to be written for what has a place already, or needs none. -/
theorem run_locate_told
    {reason : Unwind}
    (form : Value)
    (told : ∀ expression, locatedIn expression reason = reason) :
    (locate form (.error reason)).run serve Run.done machine = some (.error reason, machine) := by
  cases reason with
  | «escape» identity value => rfl
  | fault cause =>
      cases cause with
      | arity expected given expression =>
          cases expression with
          | none => cases told ""
          | some expression => rfl
      | _ => rfl

/-- A fault with an expression had it before, or the form has been written into it. -/
theorem told_or_written_of_locate
    {form : Value}
    {result : Except Unwind Step}
    {expected given : Nat}
    {text : String}
    (waits : ∀ machine, serve .endless machine = none)
    (located :
      (locate form result).run serve Run.done machine =
        some (.error (.fault (.arity expected given (some text))), last)) :
    last = machine ∧
      (result = .error (.fault (.arity expected given (some text))) ∨
        result = .error (.fault (.arity expected given none)) ∧
          machine.store.written? form = some text) := by
  cases result with
  | ok step => cases located
  | error reason =>
      cases reason with
      | «escape» identity value => cases located
      | fault cause =>
          cases cause with
          | arity bound count own =>
              cases own with
              | none =>
                  cases written : machine.store.written? form with
                  | some found =>
                      rw [run_locate written] at located
                      cases located
                      exact ⟨rfl, .inr ⟨rfl, rfl⟩⟩
                  | none =>
                      have endless := (Script.run_failTelling_endless written _).symm.trans located
                      rw [waits] at endless
                      cases endless
              | some own =>
                  cases located
                  exact ⟨rfl, .inl rfl⟩
          | _ => cases located

theorem dispatch_eq
    (scope : Scope)
    (form operands : Value)
    (applied : takesForms callee = false) :
    dispatch host scope form callee operands =
      (operandValues scope operands).bind fun values =>
        (apply host callee values).attempt.bind (locate form) := by
  cases callee <;> first | rfl | cases applied

/-- An application ends as what it applies ends, but for the form that it writes into a fault. -/
theorem run_eq_locate
    {result : Except Unwind Step}
    (isCall : IsCall host serve scope address callee values machine ready)
    (ended : (apply host callee values).run serve Run.done ready = some (result, last)) :
    (Evaluation.script host scope (.pair address)).run serve Run.done machine =
      (locate (.pair address) result).run serve Run.done last := by
  obtain ⟨head, operands, before, pair, reached, applied, valued⟩ := isCall
  have watched :
      (apply host callee values).attempt.run serve Run.done ready = some (.ok result, last) := by
    rw [Script.run_attempt, ended]
    rfl
  rw [run_eq_use pair reached]
  change (dispatch host scope (.pair address) callee operands).run _ _ _ = _
  rw [dispatch_eq scope (.pair address) operands applied, Script.run_bind valued,
    Script.run_bind watched]

theorem run_call
    {result : Except Unwind Step}
    {text : String}
    (isCall : IsCall host serve scope address callee values machine ready)
    (ended : (apply host callee values).run serve Run.done ready = some (result, last))
    (written : last.store.written? (.pair address) = some text) :
    (Evaluation.script host scope (.pair address)).run serve Run.done machine =
      some (result.mapError (locatedIn text), last) :=
  (run_eq_locate isCall ended).trans (run_locate written result)

end Application

end SmallScheme
