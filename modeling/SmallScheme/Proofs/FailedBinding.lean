import SmallScheme.Proofs.Application

namespace SmallScheme

/-!
# Definitions and assignments that fail

Main result.  Once its operand has been evaluated, an assignment that fails has changed nothing.  A
definition that fails has bound nothing, but it names its value before it looks whether the scope
binds the name already: a procedure that had no name keeps the one that it was given.
-/

/-- The procedure with this name, unless it has one of its own. -/
def Procedure.named (name : String) (procedure : Procedure) : Procedure :=
  { procedure with name := procedure.name.or (some name) }

/-- The value is a procedure that has no name. -/
def Store.IsUnnamed (store : Store) (value : Value) : Prop :=
  ∃ address procedure,
    value = .procedure address ∧ store.procedures[address]? = some procedure ∧ procedure.name = none

/-- All that the machines may differ in is the name of the value, a procedure without one before. -/
structure Machine.Names (value : Value) (name : String) (before after : Machine) : Prop where
  context : after.context = before.context
  depth : after.depth = before.depth
  tables : ∃ procedures, after.store = { before.store with procedures }
  others :
    ∀ address, value ≠ .procedure address →
      after.store.procedures[address]? = before.store.procedures[address]?
  own :
    ∀ address, value = .procedure address →
      after.store.procedures[address]? =
        before.store.procedures[address]?.map (Procedure.named name)

namespace Procedure

theorem named_eq_self_iff
    {name : String}
    {procedure : Procedure} :
    procedure.named name = procedure ↔ procedure.name ≠ none := by
  obtain ⟨formals, body, scope, own⟩ := procedure
  cases own <;> simp [named]

end Procedure

namespace Store

variable
  {store : Store}
  {name : String}
  {value : Value}

theorem nameProcedure_eq
    (store : Store)
    (address : Nat)
    (name : String) :
    store.nameProcedure address name =
      { store with procedures := store.procedures.modify address (Procedure.named name) } := by
  unfold nameProcedure
  congr 2
  funext procedure
  obtain ⟨formals, body, scope, own⟩ := procedure
  cases own <;> rfl

/-- Naming a value never fails. -/
theorem nameValue_fst
    (store : Store) :
    (Special.nameValue name value store).1 = .ok () := by
  cases value <;> rfl

/-- Naming changes a store exactly if there is a procedure to be named. -/
theorem nameValue_snd_eq_iff
    (name : String) :
    (Special.nameValue name value store).2 = store ↔ ¬store.IsUnnamed value := by
  cases value with
  | procedure address =>
      change store.nameProcedure address name = store ↔ _
      rw [nameProcedure_eq]
      constructor
      · rintro same ⟨_, procedure, ⟨⟩, found, unnamed⟩
        have kept : (store.procedures.modify address (Procedure.named name))[address]? =
            store.procedures[address]? :=
          congrArg (fun after : Store => after.procedures[address]?) same
        rw [Array.getElem?_modify, if_pos rfl, found, Option.map_some, Option.some.injEq,
          Procedure.named_eq_self_iff] at kept
        exact kept unnamed
      · intro named
        have kept : store.procedures.modify address (Procedure.named name) = store.procedures := by
          refine Array.ext_getElem? fun other => ?_
          rw [Array.getElem?_modify]
          split
          case isFalse => rfl
          case isTrue isOwn =>
            subst isOwn
            cases found : store.procedures[address]? with
            | none => rfl
            | some procedure =>
                rw [Option.map_some, Procedure.named_eq_self_iff.mpr]
                exact fun unnamed => named ⟨address, procedure, rfl, found, unnamed⟩
        rw [kept]
  | _ =>
      refine ⟨fun _ unnamed => ?_, fun _ => rfl⟩
      obtain ⟨_, _, ⟨⟩, _⟩ := unnamed

end Store

theorem Machine.names_nameValue
    (machine : Machine)
    (name : String)
    (value : Value) :
    machine.Names value name
      { machine with store := (Special.nameValue name value machine.store).2 } := by
  cases value with
  | procedure address =>
      have named :
          (Special.nameValue name (.procedure address) machine.store).2 =
            { machine.store with
              procedures := machine.store.procedures.modify address (Procedure.named name) } :=
        Store.nameProcedure_eq machine.store address name
      rw [named]
      refine ⟨rfl, rfl, ⟨_, rfl⟩, fun other different => ?_, ?_⟩
      · rw [Array.getElem?_modify, if_neg]
        rintro rfl
        exact different rfl
      · rintro _ ⟨⟩
        rw [Array.getElem?_modify, if_pos rfl]
  | _ => exact ⟨rfl, rfl, ⟨_, rfl⟩, fun _ _ => rfl, nofun⟩

namespace Special

variable
  {serve : Request → Run Value}
  {handOver : Step → Run Step}
  {scope : Scope}
  {machine middle : Machine}
  {name : String}
  {target form value : Value}

/-- The value is named before the scope is asked whether it binds the name. -/
theorem run_definition
    (isName : target.identifier? = some name)
    (evaluated : serve (.evaluate scope form) machine = some (.ok value, middle)) :
    (definition scope [target, form]).run serve handOver machine =
      some
        (match (middle.store.frameAt scope.frame).find? name with
        | some _ =>
            (.error (.fault (.duplicateDefinition name)),
              { middle with store := (nameValue name value middle.store).2 })
        | none =>
            (.ok (.value .unspecified),
              { middle with
                store :=
                  (nameValue name value middle.store).2.modifyFrame scope.frame fun frame =>
                    frame.bind name value })) := by
  have frames : (nameValue name value middle.store).2.frames = middle.store.frames := by
    obtain ⟨procedures, same⟩ := (Machine.names_nameValue middle name value).tables
    have frames := congrArg Store.frames same
    exact frames
  have named :
      nameValue name value middle.store = (.ok (), (nameValue name value middle.store).2) :=
    Prod.ext (Store.nameValue_fst middle.store) rfl
  generalize (nameValue name value middle.store).2 = renamed at named frames ⊢
  have script :
      definition scope [target, form] =
        (Script.evaluate scope form).bind fun value =>
          (Script.perform (nameValue name value)).bind fun _ =>
            (Script.perform (Store.define scope name value)).bind fun _ =>
              Script.answer .unspecified := by
    cases target <;> cases isName <;> rfl
  rw [script, Script.run_bind ((Script.run_evaluate scope form).trans evaluated),
    Script.run_bind (Script.run_perform named)]
  have frame : renamed.frameAt scope.frame = middle.store.frameAt scope.frame := by
    simp only [Store.frameAt, frames]
  cases bound : (middle.store.frameAt scope.frame).find? name with
  | some present =>
      refine Script.run_bind_error (Script.run_perform_error ?_ rfl) _
      simp only [Store.define, frame, bound]
  | none =>
      have defined :
          Store.define scope name value renamed =
            (.ok (), renamed.modifyFrame scope.frame fun frame => frame.bind name value) := by
        simp only [Store.define, frame, bound]
      exact (Script.run_bind (Script.run_perform defined) _).trans rfl

/-- The operand is evaluated before the scope is asked for the binding. -/
theorem run_assignment
    (isName : target.identifier? = some name)
    (evaluated : serve (.evaluate scope form) machine = some (.ok value, middle)) :
    (assignment scope [target, form]).run serve handOver machine =
      some
        (match middle.store.holderIn name scope.frames with
        | none => (.error (.fault (.undefinedVariable name)), middle)
        | some holder =>
            if holder.isRoot then
              (.error (.fault (.immutableScope name)), middle)
            else
              (.ok (.value .unspecified),
                { middle with
                  store :=
                    middle.store.modifyFrame holder.frame fun frame =>
                      frame.assign name value })) := by
  have script :
      assignment scope [target, form] =
        (Script.evaluate scope form).bind fun value =>
          (Script.perform (Store.assign scope name value)).bind fun _ =>
            Script.answer .unspecified := by
    cases target <;> cases isName <;> rfl
  rw [script, Script.run_bind ((Script.run_evaluate scope form).trans evaluated)]
  cases found : middle.store.holderIn name scope.frames with
  | none =>
      refine Script.run_bind_error (Script.run_perform_error ?_ rfl) _
      simp only [Store.assign, found]
  | some holder =>
      dsimp only
      split
      case isTrue isRoot =>
        refine Script.run_bind_error (Script.run_perform_error ?_ rfl) _
        simp only [Store.assign, found, if_pos isRoot]
      case isFalse inside =>
        have assigned :
            Store.assign scope name value middle.store =
              (.ok (),
                middle.store.modifyFrame holder.frame fun frame => frame.assign name value) := by
          simp only [Store.assign, found, if_neg inside]
        exact (Script.run_bind (Script.run_perform assigned) _).trans rfl

end Special

variable
  {host : Host}
  {serve : Request → Run Value}
  {handOver : Step → Run Step}
  {scope : Scope}
  {address : Nat}
  {target operand value : Value}
  {name : String}
  {machine ready middle : Machine}

/--
A form binds or assigns a name in a scope, and its operand has been evaluated.  If the definition
fails, it fails because the scope binds the name already; nothing has changed but that the value, if
it is a procedure without a name, has this name now.  If the assignment fails, nothing has changed.
-/
theorem failed_bindings_keep_all_but_a_name
    (isName : target.identifier? = some name)
    (evaluated : serve (.evaluate scope operand) ready = some (.ok value, middle)) :
    (Application.IsUse host serve handOver scope address .definition [target, operand] machine
        ready →
      ∃ result last,
        (Evaluation.script host scope (.pair address)).run serve handOver machine =
            some (result, last) ∧
          ((∃ reason, result = .error reason) ↔
            ((middle.store.frameAt scope.frame).find? name).isSome) ∧
          ∀ reason, result = .error reason →
            reason = .fault (.duplicateDefinition name) ∧
              middle.Names value name last ∧
              (last = middle ↔ ¬middle.store.IsUnnamed value)) ∧
    (Application.IsUse host serve handOver scope address .assignment [target, operand] machine
        ready →
      ∃ result last,
        (Evaluation.script host scope (.pair address)).run serve handOver machine =
            some (result, last) ∧
          ((∃ reason, result = .error reason) ↔
            ∀ holder, middle.store.holderIn name scope.frames = some holder → holder.isRoot) ∧
          ∀ reason, result = .error reason →
            (reason = .fault (.undefinedVariable name) ∨ reason = .fault (.immutableScope name)) ∧
              last = middle) := by
  constructor
  · intro isUse
    have ran := (Application.run_use isUse rfl).trans (Special.run_definition isName evaluated)
    refine ⟨_, _, ran, ?_⟩
    cases bound : (middle.store.frameAt scope.frame).find? name with
    | none => exact ⟨⟨nofun, nofun⟩, nofun⟩
    | some present =>
        refine ⟨⟨fun _ => rfl, fun _ => ⟨_, rfl⟩⟩, ?_⟩
        rintro _ ⟨⟩
        refine ⟨rfl, middle.names_nameValue name value, ?_⟩
        rw [← Store.nameValue_snd_eq_iff name]
        exact ⟨fun same => congrArg Machine.store same, fun same => by rw [same]⟩
  · intro isUse
    have ran := (Application.run_use isUse rfl).trans (Special.run_assignment isName evaluated)
    refine ⟨_, _, ran, ?_⟩
    cases found : middle.store.holderIn name scope.frames with
    | none =>
        refine ⟨⟨fun _ => nofun, fun _ => ⟨_, rfl⟩⟩, ?_⟩
        rintro _ ⟨⟩
        exact ⟨.inl rfl, rfl⟩
    | some holder =>
        by_cases isRoot : holder.isRoot
        · dsimp only
          rw [if_pos isRoot]
          refine ⟨⟨?_, fun _ => ⟨_, rfl⟩⟩, ?_⟩
          · rintro _ _ ⟨⟩
            exact isRoot
          · rintro _ ⟨⟩
            exact ⟨.inr rfl, rfl⟩
        · dsimp only
          rw [if_neg isRoot]
          exact ⟨⟨nofun, fun allRoot => (isRoot (allRoot holder rfl)).elim⟩, nofun⟩

/-- The form `(define taken made)`, a scope that binds `taken`, and a procedure without a name. -/
def takenName : Machine where
  store :=
    { Store.empty with
      pairs := #[⟨.symbol "define", .pair 1⟩, ⟨.symbol "taken", .pair 2⟩, ⟨.symbol "made", .nil⟩]
      frames :=
        #[⟨[("define", .special .definition), ("made", .procedure 0)], []⟩,
          ⟨[("taken", .integer 0)], []⟩]
      procedures := #[⟨.fixed [], [.integer 1], ⟨0, []⟩, none⟩] }
  context := default
  depth := 0

/-- The definition fails, and the procedure has the name that it could not be bound to. -/
theorem definition_of_taken_name_fails :
    ∃ last,
      (Evaluation.script Host.absent ⟨1, [0]⟩ (.pair 0)).run (Machine.serve Host.absent 16 3)
            Run.done takenName =
          some (.error (.fault (.duplicateDefinition "taken")), last) ∧
        last.store.procedures[0]? = some ⟨.fixed [], [.integer 1], ⟨0, []⟩, some "taken"⟩ ∧
        last.store.frames[1]? = takenName.store.frames[1]? := by
  have uses :
      Application.IsUse Host.absent (Machine.serve Host.absent 16 3) Run.done ⟨1, [0]⟩ 0 .definition
        [.symbol "taken", .symbol "made"] takenName takenName :=
    ⟨.symbol "define", .pair 1, rfl, rfl, .pair rfl (.pair rfl .nothing)⟩
  have evaluated :
      Machine.serve Host.absent 16 3 (.evaluate ⟨1, [0]⟩ (.symbol "made")) takenName =
        some (.ok (.procedure 0), takenName) :=
    rfl
  obtain ⟨result, last, ran, fails, changes⟩ :=
    (failed_bindings_keep_all_but_a_name rfl evaluated).1 uses
  obtain ⟨reason, rfl⟩ := fails.mpr rfl
  obtain ⟨rfl, names, -⟩ := changes reason rfl
  obtain ⟨procedures, store⟩ := names.tables
  refine ⟨last, ran, names.own 0 rfl, ?_⟩
  rw [store]

/-- A list shows the name that its procedure got from a definition that failed. -/
theorem failed_definition_names_its_value :
    (∃ last,
      (Evaluation.script Host.absent ⟨1, [0]⟩ (.pair 0)).run (Machine.serve Host.absent 16 3)
            Run.done takenName =
          some (.error (.fault (.duplicateDefinition "taken")), last) ∧
        last.store.procedures[0]?.bind Procedure.name = some "taken" ∧
        takenName.store.procedures[0]?.bind Procedure.name = none) ∧
      writtenValue? "(define kept (list (lambda () 1))) kept" = some "(#<procedure>)" ∧
      writtenValue?
        "(define kept (list (lambda () 1)))
          (call/cc (lambda (k)
            (dynamic-wind
              (lambda () 0)
              (lambda () (define taken 0) (define taken (car kept)))
              (lambda () (k kept)))))" =
        some "(#<procedure taken>)" := by
  refine ⟨⟨_, rfl, rfl, rfl⟩, ?_⟩
  decide +kernel

end SmallScheme
