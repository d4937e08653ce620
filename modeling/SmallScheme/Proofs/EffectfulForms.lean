import SmallScheme.Proofs.GoingOn
import SmallScheme.Proofs.ProcedureForms

namespace SmallScheme

/-!
# Constructs with effects

One rule for each construct that procedures of the library are written with.  The code is written in
a base, and whenever some of it is looked at, the store has to keep the code of the base.
-/

variable
  {host : Host}
  {limit depth : Nat}
  {base store : Store}
  {context : Context}
  {scope : Scope}
  {form value decision : Value}
  {forms values : List Value}
  {name : String}
  {machine between last : Machine}

/-- A name is evaluated at once. -/
theorem Script.concludes_tail_symbol
    (found : store.lookup? scope name = some value)
    (room : depth < limit) :
    (tail scope (.symbol name)).Concludes host limit ⟨store, context, depth⟩ value
      ⟨store, context, depth⟩ := by
  have served :
      Machine.Serves host limit (.evaluate scope (.symbol name)) ⟨store, context, depth⟩ value
        ⟨store, context, depth⟩ :=
    ⟨3, Store.means_symbol found (.symbol name) room (Nat.le_refl _)⟩
  exact .of_bind (runsTo_evaluate served) (concludes_answer _ _)

/-! Operands and procedures. -/

/-- Forms that mean values are evaluated one after the other, which changes nothing. -/
theorem Machine.servesInTurn_of_means
    {levels : Nat}
    {data : List Datum}
    (means : List.Forall₂ (store.Means host limit levels scope) data values)
    (areCode : ∀ datum ∈ data, datum.isCode)
    (writes : List.Forall₂ base.Writes data forms)
    (keeps : base.KeepsCode store)
    (room : depth + levels ≤ limit) :
    ServesInTurn host limit base scope forms ⟨store, context, depth⟩ values
      ⟨store, context, depth⟩ := by
  induction means generalizing forms with
  | nil =>
      cases writes
      exact .nothing _
  | cons means _ inductionHypothesis =>
      obtain _ | ⟨writesForm, writes⟩ := writes
      obtain ⟨isCode, areCode⟩ := List.forall_mem_cons.mp areCode
      exact .form keeps (serves_of_means means isCode writesForm keeps room)
        (inductionHypothesis areCode writes)

/-- A call of what a name means is served as the call of it for the values of the operands. -/
theorem Machine.serves_call_form
    {levels : Nat}
    {callee : Value}
    {data : List Datum}
    {after : Store}
    {later : Context}
    (spells : base.Spells form (.symbol name :: forms) .nil)
    (keeps : base.KeepsCode store)
    (ordinary : memberName? name = none)
    (found : store.lookup? scope name = some callee)
    (applied : Application.takesForms callee = false)
    (means : List.Forall₂ (store.Means host limit levels scope) data values)
    (areCode : ∀ datum ∈ data, datum.isCode)
    (writes : List.Forall₂ base.Writes data forms)
    (room : depth + 1 + levels ≤ limit)
    (called :
      Serves host limit (.call callee values) ⟨store, context, depth⟩ value
        ⟨after, later, depth⟩) :
    Serves host limit (.evaluate scope form) ⟨store, context, depth⟩ value
      ⟨after, later, depth⟩ := by
  obtain ⟨free, concludes⟩ := serves_call_iff.mp called
  refine serves_evaluate_iff.mpr ⟨free, ?_⟩
  exact (Application.goesOn_call spells keeps ordinary found applied
    (servesInTurn_of_means means areCode writes keeps room)).concludes concludes

namespace Application

/-- A primitive ends with its answer. -/
theorem concludes_primitive
    {operation : Primitive}
    {after : Store}
    (answers : operation.apply host values store = (.ok value, after)) :
    (apply host (.primitive operation) values).Concludes host limit ⟨store, context, depth⟩ value
      ⟨after, context, depth⟩ :=
  .of_bind (Script.runsTo_perform answers) (Script.concludes_answer _ _)

/-- A procedure of one form goes on as its form does in a frame of its own. -/
theorem goesOn_apply
    {address : Nat}
    {names : List String}
    {home : Scope}
    {called : Option String}
    (found : store.procedures[address]? = some ⟨.fixed names, [form], home, called⟩)
    (distinct : names.Nodup)
    (fits : values.length = names.length) :
    (apply host (.procedure address) values).GoesOn host limit ⟨store, context, depth⟩ 0
      (Script.tail ⟨store.frames.size, home.frames⟩ form)
      ⟨store.withFrame ⟨(names.zip values).reverse, store.namespaces home⟩, context, depth⟩ :=
  .of_run_eq fun _ => Machine.run_apply found distinct fits

end Application

/-- A form makes a procedure of one form in its scope. -/
theorem Machine.serves_lambda
    {parameters : List String}
    {formals body : Value}
    (spells : base.Spells form [.symbol "lambda", formals, body] .nil)
    (writes : base.Writes (Datum.names parameters) formals)
    (keeps : base.KeepsCode store)
    (found : store.lookup? scope "lambda" = some (.special .procedure))
    (distinct : parameters.Nodup)
    (room : depth < limit) :
    Serves host limit (.evaluate scope form) ⟨store, context, depth⟩
      (.procedure store.procedures.size)
      ⟨(store.newProcedure ⟨.fixed parameters, [body], scope, none⟩).2, context, depth⟩ := by
  have isCode : (Datum.names parameters).isCode := by
    clear writes distinct
    induction parameters with
    | nil => rfl
    | cons name parameters inductionHypothesis => exact inductionHypothesis
  have encodes := (writes.encodes isCode).mono keeps.pairs
  have formals :
      (Special.formalsOf formals).RunsTo host limit ⟨store, context, depth + 1⟩
        (.fixed parameters) ⟨store, context, depth + 1⟩ :=
    ⟨0, Special.run_formalsOf encodes distinct⟩
  refine serves_evaluate_iff.mpr ⟨room, ?_⟩
  refine (Application.goesOn_use spells keeps (by decide) found rfl).concludes ?_
  exact .of_bind formals (.of_bind (Script.runsTo_perform rfl) (Script.concludes_answer _ _))

/-! Choices. -/

namespace Special

/-- A choice goes on with one of its branches. -/
theorem goesOn_conditional
    {test consequent alternative : Value}
    (tested : Machine.Serves host limit (.evaluate scope test) machine decision between) :
    (conditional scope [test, consequent, alternative]).GoesOn host limit machine 0
      (Script.tail scope (if decision.isTrue then consequent else alternative)) between := by
  refine .of_bind (Script.runsTo_evaluate tested) ?_
  split <;> exact .refl _ _

theorem runsTo_clauseParts
    (construct : String)
    {clause first : Value}
    (spells : base.Spells clause (first :: forms) .nil)
    (keeps : base.KeepsCode machine.store) :
    (clauseParts construct clause).RunsTo host limit machine (first, forms) machine := by
  have listed := Store.listItems?_of_spells (spells.of_pairs keeps.pairs)
  refine ⟨0, ?_⟩
  simp only [clauseParts, bind, Script.view, Script.bind, Script.run, listed]
  rfl

section Clauses

variable
  {clause test result : Value}
  {rest : List Value}

/-- A clause of a test and a form that is chosen goes on with its form. -/
theorem goesOn_clauses_of_true
    (spells : base.Spells clause [test, result] .nil)
    (keeps : base.KeepsCode machine.store)
    (isTest : test.isNamed "else" = false)
    (isForm : result.isNamed "=>" = false)
    (tested : Machine.Serves host limit (.evaluate scope test) machine decision between)
    (chosen : decision.isTrue = true) :
    (clauses scope (clause :: rest)).GoesOn host limit machine 0 (Script.tail scope result)
      between := by
  refine .of_bind (runsTo_clauseParts "cond" spells keeps) ?_
  dsimp only
  rw [isTest, if_neg Bool.false_ne_true]
  refine .of_bind (Script.runsTo_evaluate tested) ?_
  simp only [chosen, if_true, clauseResult, startsWithArrow, isForm]
  exact .refl _ _

/-- A clause whose test is false is passed over. -/
theorem goesOn_clauses_of_false
    (spells : base.Spells clause [test, result] .nil)
    (keeps : base.KeepsCode machine.store)
    (isTest : test.isNamed "else" = false)
    (tested : Machine.Serves host limit (.evaluate scope test) machine decision between)
    (refused : decision.isTrue = false) :
    (clauses scope (clause :: rest)).GoesOn host limit machine 0 (clauses scope rest) between := by
  refine .of_bind (runsTo_clauseParts "cond" spells keeps) ?_
  dsimp only
  rw [isTest, if_neg Bool.false_ne_true]
  refine .of_bind (Script.runsTo_evaluate tested) ?_
  simp only [refused, if_neg Bool.false_ne_true]
  exact .refl _ _

/-- The last clause needs no test. -/
theorem goesOn_clauses_of_else
    (spells : base.Spells clause [.symbol "else", result] .nil)
    (keeps : base.KeepsCode machine.store) :
    (clauses scope [clause]).GoesOn host limit machine 0 (Script.tail scope result) machine :=
  (runsTo_clauseParts "cond" spells keeps).goesOn _

end Clauses

end Special

/-! Named blocks. -/

/-- The store with a procedure of the name in a new scope that binds just the name. -/
def Store.withLoop
    (store : Store)
    (scope : Scope)
    (name : String)
    (parameters : List String)
    (forms : List Value) : Store :=
  let loop := Value.procedure store.procedures.size
  let inner : Scope := ⟨store.frames.size, scope.frames⟩
  ((store.withFrame ⟨[(name, loop)], store.namespaces scope⟩).newProcedure
    ⟨.fixed parameters, forms, inner, some name⟩).2

/-- What has a new procedure has the new frame of the loop as well. -/
theorem Store.adds_withLoop
    (store : Store)
    (scope : Scope)
    (name : String)
    (parameters : List String)
    (forms : List Value) :
    store.Adds (store.withLoop scope name parameters forms) :=
  (store.adds_withFrame _).trans (adds_newProcedure _ _)

namespace Special

/-- The binding of a name to the value of a form. -/
def formBinding (binding : String × Value) : BlockBinding :=
  ⟨binding.1, some binding.2⟩

/-- The entries are lists of the names and the forms. -/
def AreEntries (base : Store) : List Value → List (String × Value) → Prop :=
  List.Forall₂ fun entry binding => base.Spells entry [.symbol binding.1, binding.2] .nil

variable
  {entries : List Value}
  {bindings : List (String × Value)}

theorem runsTo_bindingOf
    {entry : Value}
    {binding : String × Value}
    (spells : base.Spells entry [.symbol binding.1, binding.2] .nil)
    (keeps : base.KeepsCode machine.store) :
    (bindingOf entry).RunsTo host limit machine (formBinding binding) machine := by
  obtain ⟨store, context, depth⟩ := machine
  have listed := Store.listItems_of_spells (spells.of_pairs keeps.pairs)
  cases spells with
  | pair => exact .bind (Script.runsTo_perform listed) ⟨0, rfl⟩

theorem runsTo_bindingsFrom
    (areEntries : AreEntries base entries bindings)
    (keeps : base.KeepsCode machine.store)
    (sofar : List BlockBinding) :
    (bindingsFrom sofar entries).RunsTo host limit machine
      (sofar.reverse ++ bindings.map formBinding) machine := by
  induction areEntries generalizing sofar with
  | nil =>
      rw [List.map_nil, List.append_nil]
      exact Script.runsTo_done _ machine
  | @cons entry binding entries bindings spells _ inductionHypothesis =>
      have rest := inductionHypothesis (formBinding binding :: sofar)
      rw [List.reverse_cons, List.append_assoc] at rest
      exact .bind (runsTo_bindingOf spells keeps) rest

theorem runsTo_bindingValues
    (inTurn :
      Machine.ServesInTurn host limit base scope (bindings.map Prod.snd) machine values last)
    (sofar : List Value) :
    (bindingValues scope sofar (bindings.map formBinding)).RunsTo host limit machine
      (sofar.reverse ++ values) last := by
  induction bindings generalizing machine values sofar with
  | nil =>
      cases inTurn
      rw [List.append_nil]
      exact Script.runsTo_done _ _
  | cons binding bindings inductionHypothesis =>
      cases inTurn with
      | @form _ value _ values _ between _ _ served inTurn =>
          have rest := inductionHypothesis inTurn (value :: sofar)
          rw [List.reverse_cons, List.append_assoc] at rest
          exact .bind (Script.runsTo_evaluate served) rest

/-- A named block goes on as the first call of its loop, which it hands over. -/
theorem goesOn_namedBlock
    {block : Value}
    (spells : base.Spells block entries .nil)
    (areEntries : AreEntries base entries bindings)
    (keeps : base.KeepsCode machine.store)
    (distinct : (bindings.map Prod.fst).Nodup)
    (inTurn :
      Machine.ServesInTurn host limit base scope (bindings.map Prod.snd) machine values
        ⟨store, context, depth⟩) :
    (namedBlock scope name block forms).GoesOn host limit machine 1
      (Application.apply host (.procedure store.procedures.size) values)
      ⟨store.withLoop scope name (bindings.map Prod.fst) forms, context, depth⟩ := by
  have described :
      (bindingsOf block).RunsTo host limit machine (bindings.map formBinding) machine := by
    have listed := Store.listItems_of_spells (spells.of_pairs keeps.pairs)
    exact .bind ⟨0, Script.run_perform listed⟩ (runsTo_bindingsFrom areEntries keeps [])
  have symbols :
      (bindings.map formBinding).map (fun binding => Value.symbol binding.name) =
        (bindings.map Prod.fst).map .symbol := by
    simp only [List.map_map]
    rfl
  have named :
      Formals.namesOf store []
          ((bindings.map formBinding).map fun binding => .symbol binding.name) =
        .ok (bindings.map Prod.fst) := by
    rw [symbols]
    exact Formals.namesOf_names store distinct
  have defined :
      Store.define ⟨store.frames.size, scope.frames⟩ name (.procedure store.procedures.size)
          ((store.withFrame ⟨[], store.namespaces scope⟩).newProcedure
            ⟨.fixed (bindings.map Prod.fst), forms, ⟨store.frames.size, scope.frames⟩,
              some name⟩).2 =
        (.ok (), store.withLoop scope name (bindings.map Prod.fst) forms) := by
    have isNew :
        ((store.withFrame ⟨[], store.namespaces scope⟩).frameAt store.frames.size).find? name =
          none := by
      rw [Store.frameAt_withFrame]
      rfl
    have bound :=
      store.modifyFrame_withFrame ⟨[], store.namespaces scope⟩
        fun frame => frame.bind name (.procedure store.procedures.size)
    unfold Store.define
    split
    case h_1 found =>
      cases isNew.symm.trans found
    case h_2 => exact congrArg (fun made => (Except.ok (), (Store.newProcedure _ made).2)) bound
  refine .of_bind described (.of_bind (runsTo_bindingValues inTurn []) ?_)
  refine .of_bind (Script.runsTo_perform (congrArg (·, store) named)) ?_
  refine .of_bind (Script.runsTo_perform rfl) (.of_bind (Script.runsTo_perform rfl) ?_)
  exact .of_bind (Script.runsTo_perform defined) (Script.goesOn_defer rfl _)

end Special

end SmallScheme
